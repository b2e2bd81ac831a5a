import TurtlePlot.Command
import TurtlePlot.Heading

namespace TurtlePlot

/-- A turtle with what it has drawn. The trail holds a stroke for each time the pen was lowered; the
latest stroke and in it the latest point come first. -/
structure Turtle where
  heading : Float := north
  position : Point := .origin
  penDown : Bool := false
  trail : List Stroke := []
deriving DecidableEq, Repr

namespace Turtle

def strokes (t : Turtle) : List Stroke :=
  (t.trail.map List.reverse).reverse

def liftPen (t : Turtle) : Turtle :=
  { t with penDown := false }

/-- Lowering a lifted pen starts a stroke at the turtle's place. -/
def lowerPen (t : Turtle) : Turtle :=
  if t.penDown then t else { t with penDown := true, trail := [t.position] :: t.trail }

/-- Goes to a point, which the latest stroke takes up while the pen is down. -/
def moveTo (p : Point) (t : Turtle) : Turtle :=
  match t.penDown, t.trail with
  | true, stroke :: older => { t with position := p, trail := (p :: stroke) :: older }
  | _, _ => { t with position := p }

theorem strokes_lowerPen (t : Turtle) :
    t.lowerPen.strokes = t.strokes ++ if t.penDown then [] else [[t.position]] := by
  cases h : t.penDown <;> simp [lowerPen, strokes, h]

def face (heading : Float) (t : Turtle) : Turtle :=
  { t with heading }

end Turtle

/-- What an action makes of a turtle. It takes effect as a whole, or reports a number that it cannot
use. -/
def Action.perform (t : Turtle) : Action → Except NumberFault Turtle
  | .pass => .ok t
  | .center => .ok (t.moveTo .origin)
  | .resetHeading => .ok (t.face north)
  | .setHeading degrees => (headingOf (90 + degrees)).map t.face
  | .setPosition x y => do
    let p : Point := ⟨← nearestFloat x, ← nearestFloat y⟩
    return if p.coincides t.position then t else t.moveTo p
  | .penUp => .ok t.liftPen
  | .penDown => .ok t.lowerPen
  | .turn degrees => (headingOf degrees).map fun angle => t.face (t.heading + angle)
  | .forward distance => do
    let direction ← unitVector t.heading
    let length ← nearestFloat distance
    return t.moveTo (t.position + ⟨direction.x * length, direction.y * length⟩)

end TurtlePlot
