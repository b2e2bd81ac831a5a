import TurtlePlot.Decimal.Fixed
import TurtlePlot.Path
import TurtlePlot.Settings.Basic

namespace TurtlePlot.Gcode

/-- A line of code. Moves carry the speed. -/
inductive Line where
  | comment (text : String)
  | blank
  | millimetres
  | absolute
  | home
  | penUp (angle : Int)
  | penDown (angle : Int)
  | travel (point : Point) (speed : Int)
  | draw (point : Point) (speed : Int)
  | returnHome (speed : Int)
  | motorsOff
deriving DecidableEq, Repr

def coordinates (p : Point) : String :=
  "X" ++ String.ofList (Decimal.fixed 2 p.x) ++ " Y" ++ String.ofList (Decimal.fixed 2 p.y)

def Line.text : Line → String
  | .comment text => "; " ++ text
  | .blank => ""
  | .millimetres => "G21 ; mm"
  | .absolute => "G90 ; absolute"
  | .home => "G28 ; home"
  | .penUp angle => s!"M280 P0 S{angle} ; pen up"
  | .penDown angle => s!"M280 P0 S{angle} ; pen down"
  | .travel p speed => s!"G0 {coordinates p} F{speed}"
  | .draw p speed => s!"G1 {coordinates p} F{speed}"
  | .returnHome speed => s!"G0 X0 Y0 F{speed} ; return home"
  | .motorsOff => "M84 ; motors off"

def header (pen : PenSettings) (comment : String) : List Line :=
  (if comment.isEmpty then [] else [.comment comment])
    ++ [.comment "turtlebuilder", .blank, .millimetres, .absolute, .penUp pen.upAngle, .home,
      .blank]

/-- Lifting the pen after a part of the path. -/
def lift (pen : PenSettings) : List Line :=
  [.penUp pen.upAngle, .blank]

/-- The lines of a path. `start?` is the point of the latest move, from which on the pen is down. -/
def body (pen : PenSettings) : (start? : Option Point) → Path → List Line
  | none, [] => []
  | some _, [] => lift pen
  | start?, .moveTo p :: rest =>
    (if start?.isSome then lift pen else [])
      ++ .travel p pen.travelSpeed :: .penDown pen.downAngle :: body pen (some p) rest
  | start?, .lineTo p :: rest => .draw p pen.drawSpeed :: body pen start? rest
  | none, .close :: rest => body pen none rest
  | some start, .close :: rest => .draw start pen.drawSpeed :: body pen (some start) rest

def footer (pen : PenSettings) : List Line :=
  [.returnHome pen.travelSpeed, .penUp pen.upAngle, .motorsOff]

def lines (pen : PenSettings) (path : Path) (comment : String) : List Line :=
  header pen comment ++ body pen none path ++ footer pen

/-- The code of a path; an empty comment leaves no line. -/
def code (path : Path) (pen : PenSettings := {}) (comment : String := "") : String :=
  "\n".intercalate ((lines pen path comment).map Line.text)

end TurtlePlot.Gcode
