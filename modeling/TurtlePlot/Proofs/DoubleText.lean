import TurtlePlot.Proofs.ExactDouble
import TurtlePlot.Proofs.JsonText
import TurtlePlot.Proofs.PlainNumbers

namespace TurtlePlot

namespace Decimal

open Json (EndsNumeral PlainText)

variable {text left rest : List Char}

theorem spanDigits_append_rest (text : List Char) (hr : ∀ c ∈ rest.head?, c.isDigit = false) :
    spanDigits (text ++ rest) = ((spanDigits text).1, (spanDigits text).2 ++ rest) := by
  have hd : ∀ c ∈ (spanDigits text).1, c.isDigit := fun c => List.mem_takeWhile_imp
  have hl : ∀ c ∈ ((spanDigits text).2 ++ rest).head?, c.isDigit = false := by
    have hn := List.head?_dropWhile_not Char.isDigit text
    intro c hc
    change c ∈ (text.dropWhile Char.isDigit ++ rest).head? at hc
    cases ht : text.dropWhile Char.isDigit with
    | nil =>
      rw [ht] at hc
      exact hr c hc
    | cons d more =>
      rw [ht] at hc hn
      cases hc
      exact hn
  rw [← spanDigits_append hd hl, ← List.append_assoc, spanDigits_fst_append_snd]

/-- The rest of a text after characters that numerals have. -/
def Follows (left text : List Char) : Prop :=
  ∃ part, text = part ++ left ∧ ∀ c ∈ part, c.isDigit ∨ c ∈ ['-', '+', '.', 'e', 'E']

theorem Follows.refl (text : List Char) : Follows text text :=
  ⟨[], rfl, nofun⟩

theorem Follows.trans {middle : List Char} (h : Follows left middle) (h' : Follows middle text) :
    Follows left text := by
  obtain ⟨part, rfl, hp⟩ := h
  obtain ⟨before, rfl, hb⟩ := h'
  exact ⟨before ++ part, (List.append_assoc _ _ _).symm, List.forall_mem_append.2 ⟨hb, hp⟩⟩

theorem Follows.cons {c : Char} (hc : c ∈ ['-', '+', '.', 'e', 'E']) : Follows text (c :: text) :=
  ⟨[c], rfl, List.forall_mem_singleton.2 (.inr hc)⟩

theorem Follows.plainText (h : Follows [] text) : PlainText text := by
  obtain ⟨part, rfl, hp⟩ := h
  rw [List.append_nil]
  intro c hc
  rcases hp c hc with hd | hm
  · exact Json.isPlain_of_isDigit hd
  · have hs : PlainText ['-', '+', '.', 'e', 'E'] := by decide
    exact hs c hm

theorem follows_spanDigits (text : List Char) : Follows (spanDigits text).2 text :=
  ⟨(spanDigits text).1, (spanDigits_fst_append_snd text).symm,
    fun _ hc => .inl (List.mem_takeWhile_imp hc)⟩

theorem follows_signPart (text : List Char) : Follows (signPart text).2 text := by
  unfold signPart
  split
  · exact .cons (by decide)
  · exact .cons (by decide)
  · exact .refl _

theorem signPart_of_ne {c : Char} (hm : c ≠ '-') (hp : c ≠ '+') (text : List Char) :
    signPart (c :: text) = (false, c :: text) := by
  unfold signPart
  split
  case h_1 h => exact absurd (List.cons.inj h).1 hm
  case h_2 h => exact absurd (List.cons.inj h).1 hp
  case h_3 => rfl

theorem signPart_append (h : text ≠ []) (rest : List Char) :
    signPart (text ++ rest) = ((signPart text).1, (signPart text).2 ++ rest) := by
  cases text with
  | nil => exact absurd rfl h
  | cons c text =>
    by_cases hm : c = '-'
    · rw [hm]
      rfl
    · by_cases hp : c = '+'
      · rw [hp]
        rfl
      · rw [List.cons_append, signPart_of_ne hm hp, signPart_of_ne hm hp]
        rfl

namespace Numeral

theorem wholePart?_eq_some_iff {whole : List Char} :
    wholePart? text = some (whole, left) ↔ text = '0' :: left ∧ whole = ['0'] ∨
      text.head? ≠ some '0' ∧ whole ≠ [] ∧ spanDigits text = (whole, left) := by
  unfold wholePart?
  split
  case h_1 rest =>
    constructor
    · intro h
      cases h
      exact .inl ⟨rfl, rfl⟩
    · rintro (⟨h, rfl⟩ | ⟨h, -⟩)
      · cases h
        rfl
      · exact absurd rfl h
  case h_2 hn =>
    have hh : text.head? ≠ some '0' := by
      intro h
      obtain ⟨more, hm⟩ := List.head?_eq_some_iff.1 h
      exact hn more hm
    constructor
    · intro h
      right
      split at h
      case h_1 => cases h
      case h_2 hs =>
        have hs' := Option.some.inj h
        refine ⟨hh, ?_, hs'⟩
        rintro rfl
        exact hs left hs'
    · rintro (⟨rfl, -⟩ | ⟨-, hw, hs⟩)
      · exact absurd rfl hh
      · rw [hs]
        split
        case h_1 he => exact absurd (congrArg Prod.fst he) hw
        case h_2 => rfl

theorem wholePart?_append {whole : List Char} (h : wholePart? text = some (whole, left))
    (hr : ∀ c ∈ rest.head?, c.isDigit = false) :
    wholePart? (text ++ rest) = some (whole, left ++ rest) := by
  rcases wholePart?_eq_some_iff.1 h with ⟨rfl, rfl⟩ | ⟨hh, hw, hs⟩
  · rfl
  · refine wholePart?_eq_some_iff.2 (.inr ⟨?_, hw, ?_⟩)
    · have hne : text ≠ [] := by
        rintro rfl
        cases hs
        exact hw rfl
      rwa [List.head?_append_of_ne_nil _ hne]
    · rw [spanDigits_append_rest text hr, hs]

theorem follows_wholePart? {whole : List Char} (h : wholePart? text = some (whole, left)) :
    Follows left text := by
  rcases wholePart?_eq_some_iff.1 h with ⟨rfl, -⟩ | ⟨-, -, hs⟩
  · exact ⟨['0'], rfl, List.forall_mem_singleton.2 (.inl rfl)⟩
  · have hf := follows_spanDigits text
    rwa [hs] at hf

theorem exists_digit_of_wholePart? {whole : List Char}
    (h : wholePart? text = some (whole, left)) : ∃ c more, text = c :: more ∧ c.isDigit := by
  rcases wholePart?_eq_some_iff.1 h with ⟨rfl, -⟩ | ⟨-, hw, hs⟩
  · exact ⟨'0', left, rfl, by decide⟩
  · obtain ⟨c, digits, rfl⟩ := List.exists_cons_of_ne_nil hw
    have ht := spanDigits_fst_append_snd text
    have hd : ∀ c ∈ (spanDigits text).1, c.isDigit := fun c => List.mem_takeWhile_imp
    rw [hs] at ht hd
    exact ⟨c, digits ++ left, ht.symm, hd c List.mem_cons_self⟩

theorem follows_fractionPart (text : List Char) : Follows (fractionPart text).2 text := by
  unfold fractionPart
  split
  case h_1 digits =>
    split
    case h_1 => exact .refl _
    case h_2 => exact (follows_spanDigits digits).trans (.cons (by decide))
  case h_2 => exact .refl _

theorem fractionPart_of_ne {c : Char} (hc : c ≠ '.') (text : List Char) :
    fractionPart (c :: text) = ([], c :: text) := by
  unfold fractionPart
  split
  case h_1 h => exact absurd (List.cons.inj h).1 hc
  case h_2 => rfl

theorem fractionPart_append (text : List Char) (hr : EndsNumeral rest) :
    fractionPart (text ++ rest) = ((fractionPart text).1, (fractionPart text).2 ++ rest) := by
  cases text with
  | nil => exact Json.fractionPart_eq hr
  | cons c text =>
    by_cases hc : c = '.'
    · have hs := spanDigits_append_rest text fun d hd => (hr d hd).1
      subst hc
      cases hd : spanDigits text with
      | mk digits left =>
        rw [hd] at hs
        simp only [List.cons_append, fractionPart, hs, hd]
        cases digits <;> rfl
    · rw [List.cons_append, fractionPart_of_ne hc, fractionPart_of_ne hc]
      rfl

end Numeral

theorem follows_exponentPart (text : List Char) : Follows (exponentPart text).2 text := by
  unfold exponentPart
  split
  case h_1 e rest =>
    split
    case isTrue he =>
      have hc : e ∈ ['-', '+', '.', 'e', 'E'] := by rcases he with rfl | rfl <;> decide
      have hf := (follows_spanDigits _).trans ((follows_signPart rest).trans (.cons hc))
      cases hs : spanDigits (signPart rest).2 with
      | mk digits left =>
        rw [hs] at hf
        simp only [hs]
        cases digits with
        | nil => exact .refl _
        | cons => exact hf
    case isFalse => exact .refl _
  case h_2 => exact .refl _

theorem exponentPart_append {exponent? : Option Int} (h : exponentPart text = (exponent?, []))
    (hr : EndsNumeral rest) : exponentPart (text ++ rest) = (exponent?, rest) := by
  cases text with
  | nil =>
    cases h
    exact Json.exponentPart_eq hr
  | cons e text =>
    by_cases he : e = 'e' ∨ e = 'E'
    · simp only [exponentPart, he, if_true] at h
      cases hs : spanDigits (signPart text).2 with
      | mk digits left =>
        rw [hs] at h
        cases digits with
        | nil => cases h
        | cons d ds =>
          cases h
          have ht : text ≠ [] := by
            rintro rfl
            cases hs
          have hl := spanDigits_append_rest (signPart text).2 fun c hc => (hr c hc).1
          rw [hs] at hl
          simp only [List.cons_append, exponentPart, he, if_true, signPart_append ht, hl]
          rfl
    · simp only [exponentPart, he, if_false] at h
      cases h

namespace Numeral

theorem scan?_of_ne {c : Char} (hc : c ≠ '-') (text : List Char) :
    scan? (c :: text) = (wholePart? (c :: text)).map fun (whole, rest) =>
      (⟨false, whole, (fractionPart rest).1, (exponentPart (fractionPart rest).2).1⟩,
        (exponentPart (fractionPart rest).2).2) := by
  unfold scan?
  split
  rename_i negative unsigned hs
  split at hs
  case h_1 h => exact absurd (List.cons.inj h).1 hc
  case h_2 =>
    cases hs
    rfl

/-- A numeral is a sign, digits, a fraction and an exponent. -/
theorem scan?_eq_some_iff {n : Numeral} :
    scan? text = some (n, left) ↔ ∃ unsigned rest, text = sign n.negative ++ unsigned ∧
      wholePart? unsigned = some (n.whole, rest) ∧ (fractionPart rest).1 = n.fraction ∧
        exponentPart (fractionPart rest).2 = (n.exponent?, left) := by
  constructor
  · intro h
    cases text with
    | nil => cases h
    | cons c text =>
      by_cases hc : c = '-'
      · subst hc
        obtain ⟨⟨whole, rest⟩, hw, hn⟩ := Option.map_eq_some_iff.1 h
        cases hn
        exact ⟨text, rest, rfl, hw, rfl, rfl⟩
      · rw [scan?_of_ne hc] at h
        obtain ⟨⟨whole, rest⟩, hw, hn⟩ := Option.map_eq_some_iff.1 h
        cases hn
        exact ⟨c :: text, rest, rfl, hw, rfl, rfl⟩
  · rintro ⟨unsigned, rest, rfl, hw, hf, he⟩
    obtain ⟨negative, whole, fraction, exponent?⟩ := n
    cases negative with
    | true =>
      refine Option.map_eq_some_iff.2 ⟨_, hw, ?_⟩
      simp only [he, hf]
      rfl
    | false =>
      obtain ⟨c, more, rfl, hc⟩ := exists_digit_of_wholePart? hw
      have hm : c ≠ '-' := by
        rintro rfl
        exact absurd hc (by decide)
      refine (scan?_of_ne hm more).trans (Option.map_eq_some_iff.2 ⟨_, hw, ?_⟩)
      simp only [he, hf]

theorem scan?_append {n : Numeral} (h : scan? text = some (n, [])) (hr : EndsNumeral rest) :
    scan? (text ++ rest) = some (n, rest) := by
  obtain ⟨unsigned, more, rfl, hw, hf, he⟩ := scan?_eq_some_iff.1 h
  refine scan?_eq_some_iff.2 ⟨unsigned ++ rest, more ++ rest, List.append_assoc _ _ _,
    wholePart?_append hw fun c hc => (hr c hc).1, ?_, ?_⟩
  · rw [fractionPart_append more hr, hf]
  · rw [fractionPart_append more hr]
    exact exponentPart_append he hr

theorem plainText_of_scan? {n : Numeral} (h : scan? text = some (n, [])) : PlainText text := by
  obtain ⟨unsigned, more, rfl, hw, -, he⟩ := scan?_eq_some_iff.1 h
  have hf := follows_exponentPart (fractionPart more).2
  rw [he] at hf
  have hu := hf.trans ((follows_fractionPart more).trans (follows_wholePart? hw))
  cases n.negative with
  | true => exact (hu.trans (.cons (by decide))).plainText
  | false => exact hu.plainText

theorem spells_iff {x : Float} :
    spells text x ↔ ∃ n, scan? text = some (n, []) ∧ n.isInteger = false ∧ n.toFloat = x := by
  unfold spells
  split
  case h_1 n h =>
    rw [Bool.and_eq_true, Bool.not_eq_true', beq_iff_eq, Float.toBits_inj]
    constructor
    · rintro ⟨hi, hx⟩
      exact ⟨n, h, hi, hx⟩
    · rintro ⟨m, hm, hi, hx⟩
      cases h.symm.trans hm
      exact ⟨hi, hx⟩
  case h_2 hn =>
    constructor
    · intro h
      cases h
    · rintro ⟨n, h, -⟩
      exact absurd h (hn n)

end Numeral

variable {x : Float} {negative : Bool} {mantissa : Nat} {exponent : Int}

theorem ofDigitChars_leftpad (places n : Nat) :
    Nat.ofDigitChars 10 ((Nat.toDigits 10 n).leftpad places '0') 0 = n := by
  rw [List.leftpad, Nat.ofDigitChars_append, Nat.ofDigitChars_replicate_zero, Nat.mul_zero,
    Nat.ofDigitChars_ten_toDigits]

theorem exponentPart_exponentText (k : Int) :
    exponentPart ('e' :: exponentText k) = (some k, []) := by
  have hd := digits_leftpad 1 k.natAbs
  have hn := ofDigitChars_leftpad 2 k.natAbs
  obtain ⟨c, digits, hc⟩ := List.exists_cons_of_ne_nil hd.ne_nil
  have hs : spanDigits ((Nat.toDigits 10 k.natAbs).leftpad 2 '0' ++ []) = _ :=
    spanDigits_append hd.isDigit nofun
  rw [List.append_nil, hc] at hs
  rw [hc] at hn
  unfold exponentText
  rw [hc]
  split
  case isTrue hk =>
    simp only [exponentPart, true_or, if_true, signPart, hs, hn]
    exact Prod.ext (congrArg some (by omega)) rfl
  case isFalse hk =>
    simp only [exponentPart, true_or, if_true, signPart, hs, hn, Bool.false_eq_true, if_false]
    exact Prod.ext (congrArg some (by omega)) rfl

theorem scan?_exponentText (negative : Bool) (n : Nat) (k : Int) :
    Numeral.scan? (sign negative ++ (Nat.toDigits 10 n ++ 'e' :: exponentText k)) =
      some (⟨negative, Nat.toDigits 10 n, [], some k⟩, []) := by
  have hw : Numeral.wholePart? (Nat.toDigits 10 n ++ []) = some (Nat.toDigits 10 n, []) :=
    Json.wholePart?_toDigits n nofun
  rw [List.append_nil] at hw
  have he : ∀ c ∈ ('e' :: exponentText k).head?, c.isDigit = false := by
    intro c hc
    cases hc
    rfl
  exact Numeral.scan?_eq_some_iff.2
    ⟨_, _, rfl, Numeral.wholePart?_append hw he, rfl, exponentPart_exponentText k⟩

theorem spells_exponentText {n : Nat} {k : Int} (h : ofDecimal negative n k = x) :
    Numeral.spells (sign negative ++ (Nat.toDigits 10 n ++ 'e' :: exponentText k)) x := by
  refine Numeral.spells_iff.2 ⟨_, scan?_exponentText negative n k, rfl, ?_⟩
  have hk : (some k).getD 0 - ([] : List Char).length = k := Int.sub_zero k
  rw [Numeral.toFloat, List.append_nil, Nat.ofDigitChars_ten_toDigits, hk, h]

theorem le_log2_mul_pow (hm : mantissa ≠ 0) (k : Nat) : k ≤ (mantissa * Nat.pow 5 k).log2 := by
  have hpow : 0 < 5 ^ k := Nat.pow_pos (by decide)
  refine (Nat.le_log2 (Nat.mul_ne_zero hm (Nat.ne_of_gt hpow))).2 ?_
  calc 2 ^ k ≤ 5 ^ k := Nat.pow_le_pow_left (by decide) k
    _ ≤ mantissa * 5 ^ k := Nat.le_mul_of_pos_left _ (Nat.pos_of_ne_zero hm)

theorem spells_allDigits (h : Exact.ofFloat x = .finite negative mantissa exponent)
    (hm : mantissa ≠ 0) : Numeral.spells (sign negative ++ allDigits mantissa exponent) x := by
  unfold allDigits
  split
  case isTrue he =>
    have ht : "e+00".toList = 'e' :: exponentText 0 := by decide
    have hx : ofDecimal negative (mantissa * Nat.pow 2 exponent.toNat) 0 = x := by
      refine ofDecimal_eq h (by omega) (by omega) ?_
      simp only [Ratio.dyadic, Ratio.scale, if_pos he, if_pos (Int.le_refl 0)]
      exact congrArg (· * 1) (Nat.mul_one _)
    rw [ht]
    exact spells_exponentText hx
  case isFalse he =>
    have hx : ofDecimal negative (mantissa * Nat.pow 5 (-exponent).toNat) exponent = x := by
      have hlog := le_log2_mul_pow hm (-exponent).toNat
      refine ofDecimal_eq h (by omega) (by omega) ?_
      simp only [Ratio.dyadic, Ratio.scale, if_neg he, Nat.one_mul, Nat.pow_eq, Nat.mul_assoc,
        ← Nat.mul_pow]
    exact spells_exponentText hx

theorem spells_zero (h : Exact.ofFloat x = .finite negative 0 exponent) :
    Numeral.spells (sign negative ++ ['0', '.', '0']) x := by
  have hd : (Ratio.dyadic 0 exponent).num = 0 := by
    unfold Ratio.dyadic
    split
    · exact Nat.zero_mul _
    · rfl
  have hx : ofDecimal negative 0 (-1) = x := by
    refine ofDecimal_eq h (by decide) (by decide) ?_
    rw [hd, Nat.zero_mul]
    exact Nat.zero_mul _
  refine Numeral.spells_iff.2 ⟨⟨negative, ['0'], ['0'], none⟩, ?_, rfl, hx⟩
  cases negative <;> rfl

theorem spells_getD {found? : Option (List Char)} {text : List Char}
    (h : ∀ t, found? = some t → Numeral.spells t x) (ht : Numeral.spells text x) :
    Numeral.spells (found?.getD text) x := by
  cases found? with
  | none => exact ht
  | some t => exact h t rfl

/-- The text of a finite double spells it. -/
theorem spells_shortestText (h : Exact.ofFloat x = .finite negative mantissa exponent) :
    Numeral.spells (shortestText x) x := by
  simp only [shortestText, h]
  split
  case isTrue hm =>
    subst hm
    exact spells_zero h
  case isFalse hm =>
    -- A text that is found was tried; only the one that closes the search needs an argument.
    refine spells_getD (fun t ht => ?_) (spells_allDigits h hm)
    obtain ⟨count, -, ht⟩ := List.exists_of_findSome?_eq_some ht
    exact List.find?_some (p := (Numeral.spells · x)) ht

end Decimal

namespace Json

open Decimal Float.Model Float.Model.UnpackedFloat

variable {text rest : List Char} {x : Float}

theorem floatLegible_of_spells (h : Numeral.spells (floatText x) x) : FloatLegible x := by
  obtain ⟨n, hs, hi, hx⟩ := Numeral.spells_iff.1 h
  refine ⟨Numeral.plainText_of_scan? hs, fun inner? rest hr => ?_⟩
  have hn : number? (floatText x ++ rest) = some (.float x, rest) := by
    simp only [number?, Numeral.scan?_append hs hr, Option.map_some, hi, hx]
    rfl
  exact valueWith_of_number? inner? hn

theorem eq_of_unpack {y : Float} (h : x.toModel.unpack = y.toModel.unpack) : x = y := by
  have hb := (unpack_inj_of_valid x.toModel.valid y.toModel.valid).1 h
  exact Float.toBits_inj.1 (UInt64.toBitVec_inj.1 hb)

theorem floatLegible_infinity : FloatLegible (1 / 0) :=
  ⟨by decide, fun _ _ _ => rfl⟩

theorem floatLegible_neg_infinity : FloatLegible (-1 / 0) :=
  ⟨by decide, fun _ _ _ => rfl⟩

theorem floatLegible_finite {negative : Bool} {mantissa : Nat} {exponent : Int}
    (h : Exact.ofFloat x = .finite negative mantissa exponent) (hn : x.isNaN = false)
    (hi : x.isInf = false) : FloatLegible x := by
  refine floatLegible_of_spells ?_
  rw [floatText, hn, hi, if_neg Bool.false_ne_true, if_neg Bool.false_ne_true]
  exact spells_shortestText h

theorem floatLegible (h : x.isNaN = false) : FloatLegible x := by
  cases hu : x.toModel.unpack with
  | notANumber =>
    rw [show x.isNaN = x.toModel.unpack.isNaN from rfl, hu] at h
    cases h
  | infinity sign =>
    cases sign with
    | positive =>
      rw [eq_of_unpack (y := 1 / 0) hu]
      exact floatLegible_infinity
    | negative =>
      rw [eq_of_unpack (y := -1 / 0) hu]
      exact floatLegible_neg_infinity
  | zero | finite =>
    have hi : x.isInf = false := by
      rw [show x.isInf = x.toModel.unpack.isInf from rfl, hu]
      rfl
    exact floatLegible_finite (by rw [Exact.ofFloat, hu]) h hi

end Json

end TurtlePlot
