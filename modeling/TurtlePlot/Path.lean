import TurtlePlot.Point

namespace TurtlePlot

/-- One instruction: go to a point without drawing, draw a line to a point, or close the outline. -/
inductive PathOp where
  | moveTo (point : Point)
  | lineTo (point : Point)
  | close
deriving DecidableEq, Repr

abbrev Path := List PathOp

def PathOp.point? : PathOp → Option Point
  | .moveTo p => some p
  | .lineTo p => some p
  | .close => none

structure Box where
  minX : Float
  minY : Float
  maxX : Float
  maxY : Float
deriving DecidableEq, Repr

namespace Box

def empty : Box :=
  let infinity : Float := 1 / 0
  ⟨infinity, infinity, -infinity, -infinity⟩

/-- The box with a point taken in; a coordinate that is NaN moves no side. -/
def enclose (b : Box) (p : Point) : Box where
  minX := if p.x < b.minX then p.x else b.minX
  minY := if p.y < b.minY then p.y else b.minY
  maxX := if b.maxX < p.x then p.x else b.maxX
  maxY := if b.maxY < p.y then p.y else b.maxY

end Box

/-- What a path or its strokes have no answer for. -/
inductive PathFault where
  | noPoints
  /-- The parts of a path that draws before its first move, or the outline of an empty stroke. -/
  | noStart
deriving DecidableEq, Repr

def PathFault.message : PathFault → String
  | .noPoints => "bounds() of an empty path"
  | .noStart => "list index out of range"

namespace Path

def isClosed (path : Path) : Bool :=
  path.getLast? == some .close

def points (path : Path) : List Point :=
  path.filterMap PathOp.point?

theorem points_append (p q : Path) : points (p ++ q) = p.points ++ q.points :=
  List.filterMap_append

/-- The points drawn before the first move, and the points from each move on. -/
def splitAtMoves : Path → List Point × List Stroke
  | [] => ([], [])
  | .moveTo p :: rest =>
    let (first, strokes) := splitAtMoves rest
    ([], (p :: first) :: strokes)
  | .lineTo p :: rest =>
    let (first, strokes) := splitAtMoves rest
    (p :: first, strokes)
  | .close :: rest => splitAtMoves rest

/-- The points from each move on, unless a line comes before the first move. -/
def subpaths? (path : Path) : Option (List Stroke) :=
  match path.splitAtMoves with
  | ([], strokes) => some strokes
  | _ => none

/-- The box around the points; there is none without points. -/
def bounds? (path : Path) : Option Box :=
  match path.points with
  | [] => none
  | points => some (points.foldl Box.enclose .empty)

end Path

/-- Strokes that leave a mark. -/
def visible (strokes : List Stroke) : List Stroke :=
  strokes.filter (2 ≤ ·.length)

theorem mem_visible {stroke : Stroke} {strokes : List Stroke} :
    stroke ∈ visible strokes ↔ stroke ∈ strokes ∧ 2 ≤ stroke.length := by
  simp [visible]

/-- Whether strokes form a closed outline: a single one ends where it starts, and of several the
last one starts where the first one does. A stroke of one point ends where it starts. There is no
answer when a stroke that counts is empty. -/
def isOutline? : List Stroke → Option Bool
  | [] => some false
  | [[]] => none
  | [[_]] => some true
  | [start :: rest] => some (rest.getLast?.any start.coincides)
  | first :: rest => do return (← first.head?).coincides (← (← rest.getLast?).head?)

def Path.ofStroke : Stroke → Path
  | [] => []
  | start :: rest => .moveTo start :: rest.map .lineTo

/-- The path of the strokes that leave a mark, in a space with the given origin. -/
def Path.ofStrokes (strokes : List Stroke) (origin : Point := .origin) (flipY : Bool := false) :
    Path :=
  let drawn := visible strokes
  drawn.flatMap (fun stroke => ofStroke (stroke.map (·.translate origin flipY)))
    ++ if isOutline? drawn = some true then [.close] else []

end TurtlePlot
