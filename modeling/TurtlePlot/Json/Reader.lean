import TurtlePlot.Decimal.Numeral
import TurtlePlot.Json.Basic
import TurtlePlot.Text.Position

namespace TurtlePlot.Json

inductive Problem where
  | noValue
  | noComma
  | noColon
  | noKey
  | extraData
  | unclosedString
  | controlCharacter
  | badEscape
  | badUnicodeEscape
  | byteOrderMark
deriving DecidableEq, Repr

def Problem.message : Problem → String
  | .noValue => "Expecting value"
  | .noComma => "Expecting ',' delimiter"
  | .noColon => "Expecting ':' delimiter"
  | .noKey => "Expecting property name enclosed in double quotes"
  | .extraData => "Extra data"
  | .unclosedString => "Unterminated string starting at"
  | .controlCharacter => "Invalid control character at"
  | .badEscape => "Invalid \\escape"
  | .badUnicodeEscape => "Invalid \\uXXXX escape"
  | .byteOrderMark => "Unexpected UTF-8 BOM (decode using utf-8-sig)"

inductive Container where
  | array
  | object
deriving DecidableEq, Repr

def Container.name : Container → String
  | .array => "array"
  | .object => "object"

/-- Why reading stopped: a problem where `rest` was left, or a container beyond the depth. -/
inductive Stop where
  | problem (what : Problem) (rest : List Char)
  | tooDeep (container : Container)
deriving DecidableEq, Repr

/-- What a reader makes of a text: a value and what is left of the text, or why it stopped. -/
abbrev Reading (α : Type) := Except Stop (α × List Char)

def isBlank (c : Char) : Bool :=
  c == ' ' || c == '\t' || c == '\n' || c == '\r'

def skipBlanks (text : List Char) : List Char :=
  text.dropWhile isBlank

def hexValue? (c : Char) : Option Nat :=
  if '0' ≤ c ∧ c ≤ '9' then some (c.toNat - '0'.toNat)
  else if 'a' ≤ c ∧ c ≤ 'f' then some (c.toNat - 'a'.toNat + 10)
  else if 'A' ≤ c ∧ c ≤ 'F' then some (c.toNat - 'A'.toNat + 10)
  else none

/-- The number that four hexadecimal digits write. -/
def hexQuad? (a b c d : Char) : Option Nat := do
  return (((← hexValue? a) * 16 + (← hexValue? b)) * 16 + (← hexValue? c)) * 16 + (← hexValue? d)

def plainEscape? : Char → Option Char
  | '"' => some '"'
  | '\\' => some '\\'
  | '/' => some '/'
  | 'b' => some '\x08'
  | 'f' => some '\x0c'
  | 'n' => some '\n'
  | 'r' => some '\r'
  | 't' => some '\t'
  | _ => none

/-- Code units joined to characters: a high surrogate takes the low one after it, and one that
stands alone becomes the replacement character. -/
def joinUnits : List Nat → List Char
  | [] => []
  | [unit] => [if unit.isValidChar then Char.ofNat unit else '\ufffd']
  | unit :: next :: rest =>
    if 0xd800 ≤ unit ∧ unit < 0xdc00 ∧ 0xdc00 ≤ next ∧ next < 0xe000 then
      Char.ofNat (0x10000 + (unit - 0xd800) * 0x400 + (next - 0xdc00)) :: joinUnits rest
    else
      (if unit.isValidChar then Char.ofNat unit else '\ufffd') :: joinUnits (next :: rest)

/-- The code units of a string up to its closing quote, latest first on top of `units`; `start` is
the text from its opening quote on. A unicode escape must not end the text. -/
def stringUnits (start : List Char) (units : List Nat) : List Char → Reading (List Nat)
  | [] => .error (.problem .unclosedString start)
  | '"' :: rest => .ok (units, rest)
  | ['\\'] => .error (.problem .unclosedString start)
  | '\\' :: 'u' :: a :: b :: c :: d :: rest =>
    if rest.isEmpty then .error (.problem .badUnicodeEscape ('u' :: a :: b :: c :: d :: rest))
    else match hexQuad? a b c d with
      | some unit => stringUnits start (unit :: units) rest
      | none => .error (.problem .badUnicodeEscape ('u' :: a :: b :: c :: d :: rest))
  | '\\' :: 'u' :: rest => .error (.problem .badUnicodeEscape ('u' :: rest))
  | '\\' :: c :: rest =>
    match plainEscape? c with
    | some plain => stringUnits start (plain.toNat :: units) rest
    | none => .error (.problem .badEscape ('\\' :: c :: rest))
  | c :: rest =>
    if c < ' ' then .error (.problem .controlCharacter (c :: rest))
    else stringUnits start (c.toNat :: units) rest

/-- A string whose opening quote is read; `rest` follows it. -/
def string (rest : List Char) : Reading String :=
  match stringUnits ('"' :: rest) [] rest with
  | .ok (units, rest) => .ok (String.ofList (joinUnits units.reverse), rest)
  | .error stop => .error stop

/-- A number: an integer or a double, as its numeral says. -/
def number? (text : List Char) : Option (Json × List Char) :=
  (Decimal.Numeral.scan? text).map fun (n, rest) =>
    (if n.isInteger then .int n.toInt else .float n.toFloat, rest)

/-- The items up to the closing bracket, put on top of `items`; the text starts at an item.
`room` bounds their count. -/
def itemsAfter (item : List Char → Reading Json) :
    (room : Nat) → (items : List Json) → List Char → Except Stop (List Json × List Char)
  | 0, _, text => .error (.problem .noValue text)
  | room + 1, items, text => do
    let (value, rest) ← item text
    match skipBlanks rest with
    | ']' :: rest => return ((value :: items).reverse, rest)
    | ',' :: rest => itemsAfter item room (value :: items) (skipBlanks rest)
    | rest => .error (.problem .noComma rest)

/-- The pairs up to the closing brace, put on top of `pairs`; the text starts at a key. -/
def pairsAfter (item : List Char → Reading Json) :
    (room : Nat) → (pairs : List (String × Json)) → List Char →
    Except Stop (List (String × Json) × List Char)
  | 0, _, text => .error (.problem .noKey text)
  | room + 1, pairs, text => do
    let '"' :: rest := text | .error (.problem .noKey text)
    let (key, rest) ← string rest
    let ':' :: rest := skipBlanks rest | .error (.problem .noColon (skipBlanks rest))
    let (value, rest) ← item (skipBlanks rest)
    match skipBlanks rest with
    | '\x7d' :: rest => return (((key, value) :: pairs).reverse, rest)
    | ',' :: rest => pairsAfter item room ((key, value) :: pairs) (skipBlanks rest)
    | rest => .error (.problem .noComma rest)

def array (item : List Char → Reading Json) (text : List Char) : Reading Json :=
  match skipBlanks text with
  | ']' :: rest => .ok (.arr [], rest)
  | rest => (itemsAfter item (rest.length + 1) [] rest).map fun (items, rest) => (.arr items, rest)

def object (item : List Char → Reading Json) (text : List Char) : Reading Json :=
  match skipBlanks text with
  | '\x7d' :: rest => .ok (.obj [], rest)
  | rest =>
    (pairsAfter item (rest.length + 1) [] rest).map fun (pairs, rest) => (ofPairs pairs, rest)

/-- A value at the head of the text. The values inside brackets are read by `inner?`; without it
any bracket is too deep. -/
def valueWith (inner? : Option (List Char → Reading Json)) : List Char → Reading Json
  | '"' :: rest => (string rest).map fun (s, rest) => (.str s, rest)
  | '[' :: rest =>
    match inner? with
    | some inner => array inner rest
    | none => .error (.tooDeep .array)
  | '\x7b' :: rest =>
    match inner? with
    | some inner => object inner rest
    | none => .error (.tooDeep .object)
  | 'n' :: 'u' :: 'l' :: 'l' :: rest => .ok (.null, rest)
  | 't' :: 'r' :: 'u' :: 'e' :: rest => .ok (.bool true, rest)
  | 'f' :: 'a' :: 'l' :: 's' :: 'e' :: rest => .ok (.bool false, rest)
  | 'N' :: 'a' :: 'N' :: rest => .ok (.float (0 / 0), rest)
  | 'I' :: 'n' :: 'f' :: 'i' :: 'n' :: 'i' :: 't' :: 'y' :: rest => .ok (.float (1 / 0), rest)
  | '-' :: 'I' :: 'n' :: 'f' :: 'i' :: 'n' :: 'i' :: 't' :: 'y' :: rest =>
    .ok (.float (-1 / 0), rest)
  | text =>
    match number? text with
    | some reading => .ok reading
    | none => .error (.problem .noValue text)

/-- A value whose brackets nest at most `depth` deep. -/
def value : (depth : Nat) → List Char → Reading Json
  | 0 => valueWith none
  | depth + 1 => valueWith (some (value depth))

/-- The one value of a text, blanks around it aside. -/
def document (depth : Nat) (text : List Char) : Except Stop Json :=
  match text with
  | '\ufeff' :: _ => .error (.problem .byteOrderMark text)
  | _ => do
    let (value, rest) ← value depth (skipBlanks text)
    match skipBlanks rest with
    | [] => return value
    | rest => .error (.problem .extraData rest)

/-- A text that is not data: a problem at a place, or a container nested too deep. -/
inductive ReadError where
  | problem (what : Problem) (place : Text.Position)
  | tooDeep (container : Container)
deriving DecidableEq, Repr

def ReadError.message : ReadError → String
  | .problem what place =>
    s!"{what.message}: line {place.line} column {place.column} (char {place.offset})"
  | .tooDeep container =>
    "maximum recursion depth exceeded while decoding a JSON " ++ container.name
      ++ " from a unicode string"

def maxTextDepth : Nat := 900

def read (text : String) : Except ReadError Json :=
  let chars := text.toList
  match document maxTextDepth chars with
  | .ok value => .ok value
  | .error (.problem what rest) => .error (.problem what (.before chars rest))
  | .error (.tooDeep container) => .error (.tooDeep container)

end TurtlePlot.Json
