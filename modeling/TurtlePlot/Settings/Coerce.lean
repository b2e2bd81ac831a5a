import TurtlePlot.Decimal.Lenient
import TurtlePlot.Json.Basic
import TurtlePlot.Settings.Basic
import TurtlePlot.Text.Blank

namespace TurtlePlot.Settings

/-- What a value of a setting has to be. -/
inductive Requirement where
  | positive
  | nonnegative
  | atMostTen
  | integer
  | integerText
  | integerSize
  | whole
  | finite
  | number
  | numberText
  | boolean
  | booleanText
  | text
  | anchor
  | group (name : String)
deriving DecidableEq, Repr

/-- The word for a requirement that programs can test. -/
def Requirement.code : Requirement → String
  | .positive => "greater_than"
  | .nonnegative => "greater_than_equal"
  | .atMostTen => "less_than_equal"
  | .integer => "int_type"
  | .integerText => "int_parsing"
  | .integerSize => "int_parsing_size"
  | .whole => "int_from_float"
  | .finite => "finite_number"
  | .number => "float_type"
  | .numberText => "float_parsing"
  | .boolean => "bool_type"
  | .booleanText => "bool_parsing"
  | .text => "string_type"
  | .anchor => "literal_error"
  | .group _ => "model_type"

def Requirement.message : Requirement → String
  | .positive => "Input should be greater than 0"
  | .nonnegative => "Input should be greater than or equal to 0"
  | .atMostTen => "Input should be less than or equal to 10"
  | .integer => "Input should be a valid integer"
  | .integerText => "Input should be a valid integer, unable to parse string as an integer"
  | .integerSize => "Unable to parse input string as an integer, exceeded maximum size"
  | .whole => "Input should be a valid integer, got a number with a fractional part"
  | .finite => "Input should be a finite number"
  | .number => "Input should be a valid number"
  | .numberText => "Input should be a valid number, unable to parse string as a number"
  | .boolean => "Input should be a valid boolean"
  | .booleanText => "Input should be a valid boolean, unable to interpret input"
  | .text => "Input should be a valid string"
  | .anchor => "Input should be 'top_left' or 'center'"
  | .group name => "Input should be a valid dictionary or instance of " ++ name

def inWord (n : Int) : Bool :=
  -Nat.pow 2 63 ≤ n && n < Nat.pow 2 63

/-- The integer that a double is, which must be smaller than `2 ^ 63` in size. -/
def wholeFloat (x : Float) : Except Requirement Int :=
  match Decimal.Exact.ofFloat x with
  | .finite negative mantissa exponent =>
    let r := Decimal.Ratio.dyadic mantissa exponent
    let size := r.num / r.den
    if r.num % r.den ≠ 0 then .error .whole
    else if Nat.pow 2 63 ≤ size then .error .integerSize
    else .ok (if negative then -size else size)
  | _ => .error .finite

def toInt : Json → Except Requirement Int
  | .int n => .ok n
  | .bool b => .ok b.toNat
  | .float x => wholeFloat x
  | .str s =>
    match Decimal.readInt? (Text.trim s.toList) with
    | some n => .ok n
    | none => .error .integerText
  | _ => .error .integer

/-- A text with underscores may have no blanks around it. -/
def toFloat : Json → Except Requirement Float
  | .float x => .ok x
  | .int n => (nearestFloat n).mapError fun _ => .number
  | .bool b => .ok (if b then 1 else 0)
  | .str s =>
    let text := s.toList
    match Decimal.read? (Text.trim text) <|> (Decimal.dropUnderscores? text).bind Decimal.read? with
    | some x => .ok x
    | none => .error .numberText
  | _ => .error .number

def truthOf (n : Int) : Except Requirement Bool :=
  if n = 0 then .ok false else if n = 1 then .ok true else .error .booleanText

/-- Words for truth, and otherwise 0 and 1. -/
def toBool : Json → Except Requirement Bool
  | .bool b => .ok b
  | .int n => if inWord n then truthOf n else .error .boolean
  | .float x =>
    match wholeFloat x with
    | .ok n => truthOf n
    | .error _ => .error .boolean
  | .str s =>
    let word := s.toLower
    if word ∈ ["0", "off", "f", "false", "n", "no"] then .ok false
    else if word ∈ ["1", "on", "t", "true", "y", "yes"] then .ok true
    else .error .booleanText
  | _ => .error .boolean

def toText : Json → Except Requirement String
  | .str s => .ok s
  | _ => .error .text

def toAnchor : Json → Except Requirement Anchor
  | .str s =>
    match Anchor.named? s with
    | some anchor => .ok anchor
    | none => .error .anchor
  | _ => .error .anchor

def toPositiveNat (value : Json) : Except Requirement Nat := do
  let n ← toInt value
  if 0 < n then .ok n.toNat else .error .positive

def toPositiveFloat (value : Json) : Except Requirement Float := do
  let x ← toFloat value
  if 0 < x then .ok x else .error .positive

def toNonnegativeFloat (value : Json) : Except Requirement Float := do
  let x ← toFloat value
  if 0 ≤ x then .ok x else .error .nonnegative

def toPrecision (value : Json) : Except Requirement Nat := do
  let n ← toInt value
  if n < 0 then .error .nonnegative else if 10 < n then .error .atMostTen else .ok n.toNat

end TurtlePlot.Settings
