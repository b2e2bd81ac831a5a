import TurtlePlot.Decimal.Shortest
import TurtlePlot.Json.Basic

namespace TurtlePlot.Json

/-- How items are set out: on one line, or one a line with `step` blanks for each level. -/
inductive Layout where
  | inline
  | lines (step : Nat)
deriving DecidableEq, Repr

/-- What stands between a bracket and its first or last item at `level`. -/
def Layout.edge : Layout → (level : Nat) → List Char
  | .inline, _ => []
  | .lines step, level => '\n' :: List.replicate (step * level) ' '

/-- What stands between two items at `level`. -/
def Layout.separator : Layout → (level : Nat) → List Char
  | .inline, _ => [',', ' ']
  | layout, level => ',' :: layout.edge level

def hexDigit (n : Nat) : Char :=
  "0123456789abcdef".toList.getD (n % 16) '0'

def unicodeEscape (unit : Nat) : List Char :=
  ['\\', 'u', hexDigit (unit / 0x1000), hexDigit (unit / 0x100), hexDigit (unit / 0x10),
    hexDigit unit]

/-- A character inside quotes: all but printable ASCII is escaped, beyond 16 bits as two units. -/
def escape (c : Char) : List Char :=
  match c with
  | '"' => ['\\', '"']
  | '\\' => ['\\', '\\']
  | '\n' => ['\\', 'n']
  | '\r' => ['\\', 'r']
  | '\t' => ['\\', 't']
  | '\x08' => ['\\', 'b']
  | '\x0c' => ['\\', 'f']
  | _ =>
    if ' ' ≤ c ∧ c ≤ '~' then [c]
    else if c.toNat < 0x10000 then unicodeEscape c.toNat
    else
      let above := c.toNat - 0x10000
      unicodeEscape (0xd800 + above / 0x400) ++ unicodeEscape (0xdc00 + above % 0x400)

def quoted (s : String) : List Char :=
  '"' :: s.toList.flatMap escape ++ ['"']

def intText (n : Int) : List Char :=
  if n < 0 then '-' :: Nat.toDigits 10 n.natAbs else Nat.toDigits 10 n.natAbs

/-- A double, with names for what is no finite number. -/
def floatText (x : Float) : List Char :=
  if x.isNaN then "NaN".toList
  else if x.isInf then if x < 0 then "-Infinity".toList else "Infinity".toList
  else Decimal.shortestText x

mutual

/-- The text of a value that stands at `level`. -/
def text (layout : Layout) (level : Nat) : Json → List Char
  | .null => "null".toList
  | .bool true => "true".toList
  | .bool false => "false".toList
  | .int n => intText n
  | .float x => floatText x
  | .str s => quoted s
  | .arr [] => ['[', ']']
  | .arr (item :: items) =>
    '[' :: layout.edge (level + 1) ++ text layout (level + 1) item
      ++ itemsText layout (level + 1) items ++ layout.edge level ++ [']']
  | .obj [] => ['\x7b', '\x7d']
  | .obj ((key, item) :: fields) =>
    '\x7b' :: layout.edge (level + 1) ++ quoted key ++ [':', ' '] ++ text layout (level + 1) item
      ++ fieldsText layout (level + 1) fields ++ layout.edge level ++ ['\x7d']

def itemsText (layout : Layout) (level : Nat) : List Json → List Char
  | [] => []
  | item :: items =>
    layout.separator level ++ text layout level item ++ itemsText layout level items

def fieldsText (layout : Layout) (level : Nat) : List (String × Json) → List Char
  | [] => []
  | (key, item) :: fields =>
    layout.separator level ++ quoted key ++ [':', ' '] ++ text layout level item
      ++ fieldsText layout level fields

end

def write (layout : Layout) (value : Json) : String :=
  String.ofList (text layout 0 value)

end TurtlePlot.Json
