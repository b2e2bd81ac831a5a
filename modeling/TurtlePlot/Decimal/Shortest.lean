import TurtlePlot.Decimal.Fixed
import TurtlePlot.Decimal.Numeral

namespace TurtlePlot.Decimal

/-- How significant digits are laid out: positionally for exponents from -4 to below `below`. -/
structure DigitStyle where
  below : Int
  wholeHasPoint : Bool

/-- Doubles in data: positional below `10 ^ 16`, and a whole number keeps `.0`. -/
def DigitStyle.data : DigitStyle := ⟨16, true⟩

/-- Doubles in short reports: positional below `10 ^ 6`, and a whole number has no point. -/
def DigitStyle.report : DigitStyle := ⟨6, false⟩

def exponentText (k : Int) : List Char :=
  (if k < 0 then '-' else '+') :: (Nat.toDigits 10 k.natAbs).leftpad 2 '0'

/-- The digits `d.ddd * 10 ^ k`, without closing zeros. -/
def DigitStyle.layout (style : DigitStyle) (digits : List Char) (k : Int) : List Char :=
  if -4 ≤ k ∧ k < style.below then
    if k < 0 then
      '0' :: '.' :: List.replicate (-k - 1).toNat '0' ++ digits
    else
      let whole := k.toNat + 1
      let fraction := digits.drop whole
      let padded := digits.take whole ++ List.replicate (whole - digits.length) '0'
      if fraction = [] then
        if style.wholeHasPoint then padded ++ ['.', '0'] else padded
      else padded ++ '.' :: fraction
  else
    digits.take 1 ++ (if digits.length ≤ 1 then [] else '.' :: digits.drop 1)
      ++ 'e' :: exponentText k

/-- The layout of the positive number `n * 10 ^ exponent`. -/
def DigitStyle.text (style : DigitStyle) (n : Nat) (exponent : Int) : List Char :=
  let digits := Nat.toDigits 10 n
  style.layout (trimEnd '0' digits) (exponent + (digits.length - 1))

/-- All digits of `mantissa * 2 ^ exponent`, with an exponent. -/
def allDigits (mantissa : Nat) (exponent : Int) : List Char :=
  if 0 ≤ exponent then Nat.toDigits 10 (mantissa * Nat.pow 2 exponent.toNat) ++ "e+00".toList
  else Nat.toDigits 10 (mantissa * Nat.pow 5 (-exponent).toNat) ++ 'e' :: exponentText exponent

/-- The two integers around a size, the nearer first; halfway between them, the even one. -/
def Ratio.neighbours (r : Ratio) : List Nat :=
  let q := r.num / r.den
  if r.round = q then [q, q + 1] else [q + 1, q]

/-- The text of `± mantissa * 2 ^ exponent` with the fewest digits that spells `x`: one digit is
tried first, then two, of each count the nearer of the two texts around the number. No double needs
more than 17 digits; a text of all digits, which is always right, closes the search. -/
def shortestFinite (x : Float) (negative : Bool) (mantissa : Nat) (exponent : Int) : List Char :=
  let r := Ratio.dyadic mantissa exponent
  let k := r.decimalExponent
  let found? := (List.range 17).findSome? fun (count : Nat) =>
    let unit := k - count
    let texts := (r.scale (-unit)).neighbours.map fun n =>
      sign negative ++ DigitStyle.data.text n unit
    texts.find? (Numeral.spells · x)
  found?.getD (sign negative ++ allDigits mantissa exponent)

/-- The text of a double with the fewest digits that reads back as it. -/
def shortestText (x : Float) : List Char :=
  match Exact.ofFloat x with
  | .notANumber => "nan".toList
  | .infinite negative => sign negative ++ "inf".toList
  | .finite negative mantissa exponent =>
    if mantissa = 0 then sign negative ++ "0.0".toList
    else shortestFinite x negative mantissa exponent

/-- The text of a double rounded to six significant digits. -/
def reportText (x : Float) : List Char :=
  match Exact.ofFloat x with
  | .notANumber => "nan".toList
  | .infinite negative => sign negative ++ "inf".toList
  | .finite negative mantissa exponent =>
    if mantissa = 0 then sign negative ++ ['0']
    else
      let r := Ratio.dyadic mantissa exponent
      let unit := r.decimalExponent - 5
      sign negative ++ DigitStyle.report.text (r.scale (-unit)).round unit

end TurtlePlot.Decimal
