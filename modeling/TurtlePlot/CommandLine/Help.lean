import TurtlePlot.CommandLine.Verb

namespace TurtlePlot.CommandLine

/-- An entry of a list: what is written, and what it does. -/
abbrev Row := String × String

def helpRow : Row :=
  ("--help", "Show this message and exit.")

def commonRows : List Row :=
  [("-v, --verbose", "Log compiler details"), helpRow]

def Verb.rows : Verb → List Row
  | .render =>
    [("-o, --output PATH", "[required]"), configRow,
      ("--flip-y / --no-flip-y", "Mirror the y axis"), ("--anchor [top_left|center]", ""), helpRow]
  | .gcode => [("-o, --output PATH", ""), configRow, helpRow]
  | .strokes => [configRow, helpRow]
  | .validate => [configRow, helpRow]
  | .initConfig => [helpRow]
where
  configRow := ("-c, --config PATH", "")

def commandRows : List Row :=
  (Verb.all.map fun verb => (verb.name, verb.summary)).mergeSort fun a b => decide (a.1 ≤ b.1)

def listed (title : String) (rows : List Row) : List String :=
  let width := (rows.map (·.1.length)).foldl max 0
  (title ++ ":") :: rows.map fun (left, right) =>
    if right.isEmpty then "  " ++ left
    else "  " ++ String.ofList (left.toList.rightpad (width + 2) ' ') ++ right

/-- The help on a command, or on the whole program. -/
def help (verb? : Option Verb) : String :=
  let lists :=
    match verb? with
    | some verb => listed "Options" verb.rows
    | none => listed "Options" commonRows ++ "" :: listed "Commands" commandRows
  let summary :=
    match verb? with
    | some verb => verb.summary
    | none => "turtlebuilder - Turtle programs to vector paths."
  "\n".intercalate ([usageLine verb?, "", "  " ++ summary, ""] ++ lists)

end TurtlePlot.CommandLine
