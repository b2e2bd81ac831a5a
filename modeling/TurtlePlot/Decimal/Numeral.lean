import TurtlePlot.Decimal.Exact

namespace TurtlePlot.Decimal

/-- The digits at the head of a text, and what follows them. -/
def spanDigits (text : List Char) : List Char × List Char :=
  (text.takeWhile Char.isDigit, text.dropWhile Char.isDigit)

theorem spanDigits_fst_append_snd (text : List Char) :
    (spanDigits text).1 ++ (spanDigits text).2 = text :=
  List.takeWhile_append_dropWhile

theorem spanDigits_append {digits rest : List Char} (hd : ∀ c ∈ digits, c.isDigit)
    (hr : ∀ c ∈ rest.head?, c.isDigit = false) : spanDigits (digits ++ rest) = (digits, rest) := by
  have h : rest.takeWhile Char.isDigit = [] ∧ rest.dropWhile Char.isDigit = rest := by
    cases rest with
    | nil => exact ⟨rfl, rfl⟩
    | cons c rest => simp [hr c rfl]
  rw [spanDigits, List.takeWhile_append_of_pos hd, List.dropWhile_append_of_pos hd, h.1, h.2,
    List.append_nil]

/-- Whether the text starts with a minus, and what follows a sign. -/
def signPart : List Char → Bool × List Char
  | '-' :: rest => (true, rest)
  | '+' :: rest => (false, rest)
  | rest => (false, rest)

/-- A signed exponent; without digits, all is left. -/
def exponentPart (text : List Char) : Option Int × List Char :=
  match text with
  | e :: rest =>
    if e = 'e' ∨ e = 'E' then
      let (negative, digits) := signPart rest
      match spanDigits digits with
      | ([], _) => (none, text)
      | (digits, rest) =>
        let size := Nat.ofDigitChars 10 digits 0
        (some (if negative then -size else size), rest)
    else (none, text)
  | [] => (none, text)

structure Numeral where
  negative : Bool
  whole : List Char
  fraction : List Char
  exponent? : Option Int
deriving DecidableEq, Repr

namespace Numeral

/-- The digits before the point: a lone zero, or a run that starts with another digit. -/
def wholePart? : List Char → Option (List Char × List Char)
  | '0' :: rest => some (['0'], rest)
  | text =>
    match spanDigits text with
    | ([], _) => none
    | span => some span

/-- The digits after a point; without any, the point is left. -/
def fractionPart (text : List Char) : List Char × List Char :=
  match text with
  | '.' :: rest =>
    match spanDigits rest with
    | ([], _) => ([], text)
    | span => span
  | _ => ([], text)

/-- The numeral at the head of a text, and what follows it. -/
def scan? (text : List Char) : Option (Numeral × List Char) :=
  let (negative, unsigned) := match text with
    | '-' :: rest => (true, rest)
    | _ => (false, text)
  (wholePart? unsigned).map fun (whole, rest) =>
    let (fraction, rest) := fractionPart rest
    let (exponent?, rest) := exponentPart rest
    (⟨negative, whole, fraction, exponent?⟩, rest)

def isInteger (n : Numeral) : Bool :=
  n.fraction.isEmpty && n.exponent?.isNone

def toInt (n : Numeral) : Int :=
  let size : Int := Nat.ofDigitChars 10 n.whole 0
  if n.negative then -size else size

def toFloat (n : Numeral) : Float :=
  ofDecimal n.negative (Nat.ofDigitChars 10 (n.whole ++ n.fraction) 0)
    (n.exponent?.getD 0 - n.fraction.length)

/-- Whether a text is a numeral for exactly the given double. -/
def spells (text : List Char) (x : Float) : Bool :=
  match scan? text with
  | some (n, []) => !n.isInteger && n.toFloat.toBits == x.toBits
  | _ => false

end Numeral

end TurtlePlot.Decimal
