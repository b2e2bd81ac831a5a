import TurtlePlot.Session

namespace TurtlePlot

/-- Which place of the canvas the turtle starts from. -/
inductive Anchor where
  | topLeft
  | center
deriving DecidableEq, Repr

def Anchor.name : Anchor → String
  | .topLeft => "top_left"
  | .center => "center"

def Anchor.named? : String → Option Anchor
  | "top_left" => some .topLeft
  | "center" => some .center
  | _ => none

def Anchor.unknownMessage (name : String) : String :=
  "unknown anchor " ++ Text.quoted name

/-- The drawing area. The y axis of a screen points down; flipping keeps north up. -/
structure Canvas where
  width : Float := 300
  height : Float := 500
  anchor : Anchor := .center
  flipY : Bool := false
  margin : Float := 0
deriving DecidableEq, Repr

/-- How lines are drawn, and the count of decimals in drawings. -/
structure Style where
  stroke : String := "green"
  strokeWidth : Float := 4
  fill : String := "none"
  precision : Nat := 3
deriving DecidableEq, Repr

/-- A plotter's pen: the angles of its servo and its speeds. -/
structure PenSettings where
  upAngle : Int := 90
  downAngle : Int := 40
  travelSpeed : Int := 1000
  drawSpeed : Int := 500
deriving DecidableEq, Repr

structure Settings where
  limits : Limits := {}
  canvas : Canvas := {}
  style : Style := {}
  pen : PenSettings := {}
deriving DecidableEq, Repr

def Anchor.origin (width height : Float) : Anchor → Point
  | .topLeft => .origin
  | .center => ⟨width / 2, height / 2⟩

namespace Settings

def InBounds (s : Settings) : Prop :=
  0 < s.limits.maxDepth ∧ 0 < s.limits.maxSteps ∧ 0 < s.canvas.width ∧ 0 < s.canvas.height
    ∧ 0 ≤ s.canvas.margin ∧ 0 ≤ s.style.strokeWidth ∧ s.style.precision ≤ 10

instance (s : Settings) : Decidable s.InBounds := by
  unfold InBounds
  infer_instance

/-- Equality of all settings, of doubles as numbers. -/
def agrees (s t : Settings) : Bool :=
  s.limits == t.limits && s.pen == t.pen
    && s.canvas.width == t.canvas.width && s.canvas.height == t.canvas.height
    && s.canvas.anchor == t.canvas.anchor && s.canvas.flipY == t.canvas.flipY
    && s.canvas.margin == t.canvas.margin
    && s.style.stroke == t.style.stroke && s.style.strokeWidth == t.style.strokeWidth
    && s.style.fill == t.style.fill && s.style.precision == t.style.precision

end Settings

end TurtlePlot
