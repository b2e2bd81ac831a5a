import TurtlePlot.Decimal.Numeral

namespace TurtlePlot.Decimal

/-- An unsigned decimal that fills the text, as digits and a power of ten. -/
def unsigned? (text : List Char) : Option (Nat × Int) :=
  let (whole, rest) := spanDigits text
  let (fraction, rest) := match rest with
    | '.' :: rest => spanDigits rest
    | _ => ([], rest)
  let (exponent?, rest) := exponentPart rest
  if whole ++ fraction = [] ∨ rest ≠ [] then none
  else some (Nat.ofDigitChars 10 (whole ++ fraction) 0, exponent?.getD 0 - fraction.length)

/-- The double that a text writes, which has no blanks around it. -/
def read? (text : List Char) : Option Float :=
  let (negative, unsigned) := signPart text
  let name := String.ofList (unsigned.map Char.toLower)
  if name = "inf" ∨ name = "infinity" then some (if negative then -1 / 0 else 1 / 0)
  else if name = "nan" then some (0 / 0)
  else (unsigned? unsigned).map fun (digits, exponent) => ofDecimal negative digits exponent

/-- A text without underscores, which may stand singly inside it. -/
def dropUnderscores? (text : List Char) : Option (List Char) :=
  let doubled := (text.zip text.tail).contains ('_', '_')
  if text.head? = some '_' ∨ text.getLast? = some '_' ∨ doubled then none
  else some (text.filter (· != '_'))

/-- A text that starts with a digit, without the zeros and underscores at its head. Before a point
or the end the last of them is left; a minus may follow them. -/
def dropZeros? : List Char → Option (List Char)
  | [] => none
  | c :: rest => if c = '0' then after c rest else if c.isDigit then some (c :: rest) else none
where
  after (last : Char) : List Char → Option (List Char)
    | [] => some [last]
    | c :: rest =>
      if c = '0' ∨ c = '_' then after c rest
      else if c = '.' then some (last :: c :: rest)
      else if c.isDigit ∨ c = '-' then some (c :: rest)
      else none

/-- A text without the fraction at its end if that is all zeros. -/
def dropZeroFraction (text : List Char) : List Char :=
  match text.dropWhile (· != '.') with
  | _ :: '0' :: zeros => if zeros.all (· == '0') then text.takeWhile (· != '.') else text
  | _ => text

/-- The integer that a text writes, which has no blanks around it. -/
def readInt? (text : List Char) : Option Int := do
  let (negative, unsigned) := signPart text
  let digits ← dropUnderscores? (dropZeroFraction (← dropZeros? unsigned))
  let (numeral, []) ← Numeral.scan? (if negative then '-' :: digits else digits) | none
  if numeral.isInteger then some numeral.toInt else none

end TurtlePlot.Decimal
