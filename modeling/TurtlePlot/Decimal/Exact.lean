namespace TurtlePlot.Decimal

/-- What a double denotes; a finite one is exactly `± mantissa * 2 ^ exponent`. -/
inductive Exact where
  | notANumber
  | infinite (negative : Bool)
  | finite (negative : Bool) (mantissa : Nat) (exponent : Int)
deriving DecidableEq, Repr

def Exact.ofFloat (x : Float) : Exact :=
  match x.toModel.unpack with
  | .notANumber => .notANumber
  | .infinity sign => .infinite (sign == .negative)
  | .zero sign => .finite (sign == .negative) 0 0
  | .finite sign mantissa exponent _ => .finite (sign == .negative) mantissa exponent

/-- A quotient of natural numbers, for exact sizes. -/
structure Ratio where
  num : Nat
  den : Nat
deriving DecidableEq, Repr

/-- The size `mantissa * 2 ^ exponent`. -/
def Ratio.dyadic (mantissa : Nat) (exponent : Int) : Ratio :=
  if 0 ≤ exponent then ⟨mantissa * Nat.pow 2 exponent.toNat, 1⟩
  else ⟨mantissa, Nat.pow 2 (-exponent).toNat⟩

/-- The size times `10 ^ power`. -/
def Ratio.scale (r : Ratio) (power : Int) : Ratio :=
  if 0 ≤ power then ⟨r.num * Nat.pow 10 power.toNat, r.den⟩
  else ⟨r.num, r.den * Nat.pow 10 (-power).toNat⟩

/-- The nearest natural number; halfway between two, the even one. -/
def Ratio.round (r : Ratio) : Nat :=
  let q := r.num / r.den
  let twice := 2 * (r.num % r.den)
  if twice < r.den ∨ (twice = r.den ∧ q % 2 = 0) then q else q + 1

/-- The bits of the double nearest to a size, without regard to the greatest double. The size is
counted in units of the least positive double; of more than 53 bits of that count, `drop` are
rounded away. A mantissa that rounds up to 54 bits carries into the exponent, as it should. -/
def Ratio.nearestBits (r : Ratio) : Nat :=
  let units := r.num * Nat.pow 2 1074
  let drop := (units / r.den).log2 - 52
  drop * Nat.pow 2 52 + Ratio.round ⟨units, r.den * Nat.pow 2 drop⟩

def infinityBits : Nat := 0x7ff * Nat.pow 2 52

/-- The double nearest to a number of the given size; halfway between two, the one with even
mantissa, and beyond the greatest one an infinity. -/
def Ratio.nearest (r : Ratio) (negative : Bool) : Float :=
  let bits := min r.nearestBits infinityBits
  Float.ofBits (if negative then Nat.pow 2 63 + bits else bits).toUInt64

/-- The double nearest to `± digits * 10 ^ exponent`. Exponents are cut to a range outside of which
all numbers with these digits are zero or infinite. -/
def ofDecimal (negative : Bool) (digits : Nat) (exponent : Int) : Float :=
  let least : Int := -401 - (digits.log2 : Int)
  let exponent := max least (min exponent 400)
  ((Ratio.mk digits 1).scale exponent).nearest negative

/-- The `k` with `10 ^ k ≤ r < 10 ^ (k + 1)`, for a positive size. -/
def Ratio.decimalExponent (r : Ratio) : Int :=
  if r.den ≤ r.num then
    (Nat.toDigits 10 (r.num / r.den)).length - 1
  else
    let k := (Nat.toDigits 10 (r.den / r.num)).length - 1
    if r.den ≤ r.num * Nat.pow 10 k then -k else -k - 1

end TurtlePlot.Decimal
