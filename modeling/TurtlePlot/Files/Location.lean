import TurtlePlot.Text.Split

namespace TurtlePlot

/-- The way to a file: its parts from the root or from the working directory. -/
structure Location where
  root : String := ""
  parts : List String
deriving DecidableEq, Repr

namespace Location

/-- The location that a text names; empty parts and `.` lead nowhere. Exactly two slashes at the
start are a root of their own. -/
def ofText (text : String) : Location :=
  let slashes := (text.toList.takeWhile (· == '/')).length
  { root := if slashes = 0 then "" else if slashes = 2 then "//" else "/"
    parts := ((Text.pieces '/' text.toList).map String.ofList).filter fun part =>
      part ≠ "" ∧ part ≠ "." }

def text (l : Location) : String :=
  if l.root = "" ∧ l.parts = [] then "." else l.root ++ "/".intercalate l.parts

def parent (l : Location) : Location :=
  { l with parts := l.parts.dropLast }

def name (l : Location) : String :=
  l.parts.getLast?.getD ""

/-- The name before its last dot, unless that is its first or last character. -/
def stem (l : Location) : String :=
  let chars := l.name.toList
  let after := (chars.reverse.takeWhile (· != '.')).length
  let before := chars.length - after - 1
  if '.' ∈ chars ∧ 0 < before ∧ 0 < after then String.ofList (chars.take before) else l.name

end Location

end TurtlePlot
