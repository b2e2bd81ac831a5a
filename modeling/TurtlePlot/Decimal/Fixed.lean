import TurtlePlot.Decimal.Exact

namespace TurtlePlot.Decimal

inductive PlacesFault where
  | negative
  | tooBig
  | unreadable
deriving DecidableEq, Repr

def PlacesFault.message : PlacesFault → String
  | .negative => "Format specifier missing precision"
  | .tooBig => "precision too big"
  | .unreadable => "Too many decimal digits in format string"

/-- The count of decimals that an integer stands for, which must be less than `2 ^ 31`. -/
def placesOf (n : Int) : Except PlacesFault Nat :=
  if n < 0 then .error .negative
  else if n < Nat.pow 2 31 then .ok n.toNat
  else if n < Nat.pow 2 63 then .error .tooBig
  else .error .unreadable

/-- The digits of `n / 10 ^ places`, with a point only when there are places. -/
def placed (places n : Nat) : List Char :=
  let digits := (Nat.toDigits 10 n).leftpad (places + 1) '0'
  let whole := digits.length - places
  if places = 0 then digits else digits.take whole ++ '.' :: digits.drop whole

def sign (negative : Bool) : List Char :=
  if negative then ['-'] else []

/-- The number with exactly `places` decimals; a negative one that rounds to zero keeps its sign. -/
def fixed (places : Nat) (x : Float) : List Char :=
  match Exact.ofFloat x with
  | .notANumber => "nan".toList
  | .infinite negative => sign negative ++ "inf".toList
  | .finite negative mantissa exponent =>
    sign negative ++ placed places ((Ratio.dyadic mantissa exponent).scale places).round

/-- A text less the run of `c` at its end. -/
def trimEnd (c : Char) (text : List Char) : List Char :=
  (text.reverse.dropWhile (· == c)).reverse

/-- The number rounded to at most `places` decimals, without closing zeros or point. Zero has no
sign. -/
def rounded (places : Nat) (x : Float) : List Char :=
  let text := fixed places (if x == 0 then 0 else x)
  let text := if '.' ∈ text then trimEnd '.' (trimEnd '0' text) else text
  if text = ['-', '0'] then ['0'] else text

end TurtlePlot.Decimal
