import TurtlePlot.Proofs.DoubleText
import TurtlePlot.Proofs.NearestDecimal
import TurtlePlot.Svg

/-!
Numbers without a digit too many. What is written for a finite double is the short numeral of the
decimal that the double is rounded to, so the text tells this decimal and nothing else of the double.
-/

namespace TurtlePlot

namespace Decimal

namespace Numeral

/-- The number that a numeral spells exactly. -/
def toRat (n : Numeral) : ℚ :=
  signed n.negative (Nat.ofDigitChars 10 (n.whole ++ n.fraction) 0 *
    10 ^ (n.exponent?.getD 0 - n.fraction.length))

/-- A numeral without exponent, as a text. -/
def spelling (n : Numeral) : List Char :=
  sign n.negative ++ (n.whole ++ pointed n.fraction)

/-- A numeral without exponent that has no zeros at its ends but a lone one before the point, and no
minus in front of zero. -/
structure IsShort (n : Numeral) : Prop where
  whole : Digits n.whole
  leading : n.whole.head? = some '0' → n.whole = ['0']
  fraction : ∀ c ∈ n.fraction, c.isDigit
  closing : n.fraction.getLast? ≠ some '0'
  exponent : n.exponent? = none
  negative : n.negative → n.toRat ≠ 0

variable {n : Numeral}

/-- A short numeral is read back from its text. -/
theorem IsShort.scan?_spelling (h : n.IsShort) : scan? n.spelling = some (n, []) := by
  have hp : ∀ c ∈ (pointed n.fraction).head?, c.isDigit = false := by
    unfold pointed
    split
    · exact nofun
    · rintro c ⟨⟩
      rfl
  have hw : wholePart? (n.whole ++ pointed n.fraction) = some (n.whole, pointed n.fraction) := by
    apply wholePart?_eq_some_iff.2
    by_cases hz : n.whole.head? = some '0'
    · left
      rw [h.leading hz]
      exact ⟨rfl, rfl⟩
    · right
      refine ⟨?_, h.whole.ne_nil, spanDigits_append h.whole.isDigit hp⟩
      rwa [List.head?_append_of_ne_nil _ h.whole.ne_nil]
  have hf : fractionPart (pointed n.fraction) = (n.fraction, []) := by
    have hs : spanDigits (n.fraction ++ []) = (n.fraction, []) := spanDigits_append h.fraction nofun
    rw [List.append_nil] at hs
    unfold pointed
    split
    case isTrue hn =>
      rw [hn]
      rfl
    case isFalse hn =>
      obtain ⟨c, digits, hc⟩ := List.exists_cons_of_ne_nil hn
      rw [hc] at hs ⊢
      simp only [fractionPart, hs]
  apply scan?_eq_some_iff.2
  refine ⟨_, _, rfl, hw, ?_, ?_⟩
  · rw [hf]
  · rw [hf, h.exponent]
    rfl

theorem IsShort.spelling_ne_nil (h : n.IsShort) : n.spelling ≠ [] :=
  List.append_ne_nil_of_right_ne_nil _ (List.append_ne_nil_of_left_ne_nil h.whole.ne_nil _)

theorem IsShort.spelling_ne_minus_zero (h : n.IsShort) : n.spelling ≠ ['-', '0'] := by
  intro hs
  have hr := h.scan?_spelling
  have hz : scan? ['-', '0'] = some (⟨true, ['0'], [], none⟩, []) := rfl
  rw [hs, hz] at hr
  obtain rfl := congrArg Prod.fst (Option.some.inj hr)
  exact h.negative rfl (by decide +kernel)

theorem IsShort.getLast?_spelling (h : n.IsShort) : n.spelling.getLast? ≠ some '.' := by
  intro hl
  have hd {digits : List Char} (hd : ∀ c ∈ digits, c.isDigit) : digits.getLast? ≠ some '.' :=
    fun hl => absurd (hd '.' (List.mem_of_getLast? hl)) (by decide)
  unfold spelling pointed at hl
  split at hl
  case isTrue =>
    rw [List.append_nil, List.getLast?_append_of_ne_nil _ h.whole.ne_nil] at hl
    exact hd h.whole.isDigit hl
  case isFalse hn =>
    rw [← List.append_assoc, List.append_cons, List.getLast?_append_of_ne_nil _ hn] at hl
    exact hd h.fraction hl

end Numeral

section Digits

variable (places n : ℕ)

/-- The digits of `n`, of which at least one is before the point. -/
def padded : List Char :=
  (Nat.toDigits 10 n).leftpad (places + 1) '0'

def wholeDigits : List Char :=
  (padded places n).take ((padded places n).length - places)

def fractionDigits : List Char :=
  (padded places n).drop ((padded places n).length - places)

theorem length_padded : (padded places n).length = max (places + 1) (Nat.toDigits 10 n).length :=
  List.length_leftpad

theorem wholeDigits_append : wholeDigits places n ++ fractionDigits places n = padded places n :=
  List.take_append_drop _ _

theorem length_fractionDigits : (fractionDigits places n).length = places := by
  rw [fractionDigits, List.length_drop, length_padded]
  omega

theorem placed_eq : placed places n =
    wholeDigits places n ++ if places = 0 then [] else '.' :: fractionDigits places n := by
  change (if places = 0 then padded places n else
    wholeDigits places n ++ '.' :: fractionDigits places n) = _
  split
  case isTrue h =>
    have hf : fractionDigits places n = [] :=
      List.eq_nil_of_length_eq_zero ((length_fractionDigits places n).trans h)
    rw [List.append_nil, ← wholeDigits_append, hf, List.append_nil]
  case isFalse => rfl

theorem digits_wholeDigits : Digits (wholeDigits places n) where
  ne_nil := by
    apply List.ne_nil_of_length_pos
    rw [wholeDigits, List.length_take, length_padded]
    omega
  isDigit c hc := (digits_leftpad places n).isDigit c (List.mem_of_mem_take hc)

theorem isDigit_fractionDigits : ∀ c ∈ fractionDigits places n, c.isDigit :=
  fun c hc => (digits_leftpad places n).isDigit c (List.mem_of_mem_drop hc)

theorem leading_wholeDigits (h : (wholeDigits places n).head? = some '0') :
    wholeDigits places n = ['0'] := by
  rcases Nat.lt_or_ge (places + 1) (Nat.toDigits 10 n).length with hlt | hge
  · have hn : 0 < n := by
      apply Nat.pos_of_ne_zero
      rintro rfl
      rw [Nat.toDigits_zero, List.length_singleton] at hlt
      omega
    have hp : padded places n = Nat.toDigits 10 n := by
      rw [padded, List.leftpad, Nat.sub_eq_zero_of_le hlt.le]
      rfl
    rw [wholeDigits, hp, List.head?_take, if_neg (by omega)] at h
    exact absurd h (Json.head?_toDigits hn)
  · have hl : (wholeDigits places n).length = 1 := by
      rw [wholeDigits, List.length_take, length_padded]
      omega
    obtain ⟨c, hc⟩ := List.length_eq_one_iff.1 hl
    rw [hc] at h ⊢
    rw [Option.some.inj h]

theorem exists_trimEnd (c : Char) (text : List Char) :
    ∃ k, text = trimEnd c text ++ List.replicate k c := by
  have ht : text.rtakeWhile (· == c) = List.replicate (text.rtakeWhile (· == c)).length c := by
    refine List.eq_replicate_iff.2 ⟨rfl, fun d hd => ?_⟩
    have hb := List.mem_rtakeWhile_imp hd
    exact beq_iff_eq.1 hb
  refine ⟨(text.rtakeWhile (· == c)).length, ?_⟩
  rw [← ht]
  exact List.rdropWhile_append_rtakeWhile.symm

theorem getLast?_trimEnd (c : Char) (text : List Char) : (trimEnd c text).getLast? ≠ some c := by
  intro h
  have hn : trimEnd c text ≠ [] := by
    intro hn
    rw [hn] at h
    cases h
  have hl := List.rdropWhile_last_not (· == c) text hn
  rw [List.getLast?_eq_some_getLast hn] at h
  exact hl (beq_iff_eq.2 (Option.some.inj h))

end Digits

/-- The short numeral of `n` units of the last of `places` decimals. -/
def shortNumeral (places : ℕ) (n : ℤ) : Numeral where
  negative := decide (n < 0)
  whole := wholeDigits places n.natAbs
  fraction := trimEnd '0' (fractionDigits places n.natAbs)
  exponent? := none

variable (places : ℕ) (n : ℤ)

/-- Without the zeros at the end the digits spell the same number. -/
theorem toRat_shortNumeral : (shortNumeral places n).toRat = n / 10 ^ places := by
  obtain ⟨k, hk⟩ := exists_trimEnd '0' (fractionDigits places n.natAbs)
  have hl := congrArg List.length hk
  have hd : Nat.ofDigitChars 10 (padded places n.natAbs) 0 = n.natAbs :=
    ofDigitChars_leftpad (places + 1) n.natAbs
  rw [← wholeDigits_append, hk, ← List.append_assoc, Nat.ofDigitChars_append,
    Nat.ofDigitChars_replicate_zero] at hd
  rw [length_fractionDigits, List.length_append, List.length_replicate] at hl
  simp only [shortNumeral, Numeral.toRat, Option.getD_none, Int.zero_sub]
  generalize trimEnd '0' (fractionDigits places n.natAbs) = fraction at hd hl ⊢
  generalize Nat.ofDigitChars 10 (wholeDigits places n.natAbs ++ fraction) 0 = units at hd ⊢
  have hs : (units : ℚ) * 10 ^ (-(fraction.length : ℤ)) = n.natAbs / 10 ^ places := by
    rw [← hd, hl, pow_add, zpow_neg, zpow_natCast]
    push_cast
    field_simp
  rw [hs, signed]
  split
  case isTrue hn =>
    have hn : ((n.natAbs : ℤ) : ℚ) = -n := by
      rw [Int.ofNat_natAbs_of_nonpos (of_decide_eq_true hn).le, Int.cast_neg]
    rw [← Int.cast_natCast, hn, neg_div, neg_neg]
  case isFalse hn =>
    have hn : ((n.natAbs : ℤ) : ℚ) = n := by
      rw [Int.natAbs_of_nonneg (not_lt.1 fun h => hn (decide_eq_true h))]
    rw [← Int.cast_natCast, hn]

theorem isShort_shortNumeral : (shortNumeral places n).IsShort where
  whole := digits_wholeDigits places n.natAbs
  leading := leading_wholeDigits places n.natAbs
  fraction c hc := isDigit_fractionDigits places n.natAbs c (mem_of_mem_trimEnd hc)
  closing := getLast?_trimEnd '0' _
  exponent := rfl
  negative hn := by
    rw [toRat_shortNumeral]
    apply div_ne_zero
    · exact Int.cast_ne_zero.2 (of_decide_eq_true hn).ne
    · exact pow_ne_zero _ (by norm_num)

theorem length_fraction_shortNumeral : (shortNumeral places n).fraction.length ≤ places := by
  obtain ⟨k, hk⟩ := exists_trimEnd '0' (fractionDigits places n.natAbs)
  have hl := congrArg List.length hk
  rw [length_fractionDigits, List.length_append] at hl
  exact Nat.le.intro hl.symm

theorem spelling_shortNumeral_zero : (shortNumeral places 0).spelling = ['0'] := by
  have hp : ∀ c ∈ padded places 0, c = '0' := by
    intro c hc
    rcases List.mem_append.1 hc with hc | hc
    · exact List.eq_of_mem_replicate hc
    · exact List.mem_singleton.1 hc
  have hw : wholeDigits places 0 = ['0'] := by
    apply leading_wholeDigits
    obtain ⟨c, digits, hc⟩ := List.exists_cons_of_ne_nil (digits_wholeDigits places 0).ne_nil
    have hm : c ∈ wholeDigits places 0 := hc ▸ List.mem_cons_self
    rw [hc, List.head?_cons, hp c (List.mem_of_mem_take hm)]
  have hf : trimEnd '0' (fractionDigits places 0) = [] := by
    rcases List.eq_nil_or_concat (trimEnd '0' (fractionDigits places 0)) with h | ⟨digits, c, h⟩
    · exact h
    · rw [List.concat_eq_append] at h
      have hm : c ∈ trimEnd '0' (fractionDigits places 0) := by
        rw [h]
        exact List.mem_append_right _ List.mem_cons_self
      have hl := getLast?_trimEnd '0' (fractionDigits places 0)
      rw [h, List.getLast?_concat, hp c (List.mem_of_mem_drop (mem_of_mem_trimEnd hm))] at hl
      exact absurd rfl hl
  simp only [Numeral.spelling, shortNumeral, Int.natAbs_zero, hw, hf]
  rfl

theorem trimmed_placed (negative : Bool) (places n : ℕ) :
    let text := sign negative ++ placed places n
    (if '.' ∈ text then trimEnd '.' (trimEnd '0' text) else text) =
      sign negative ++ (wholeDigits places n ++ pointed (trimEnd '0' (fractionDigits places n))) := by
  intro text
  have hw := digits_wholeDigits places n
  have hs : '.' ∉ sign negative := by cases negative <;> decide
  have hd : '.' ∉ wholeDigits places n := fun h => absurd (hw.isDigit '.' h) (by decide)
  simp only [text, placed_eq]
  by_cases hp : places = 0
  · have hf : fractionDigits places n = [] :=
      List.eq_nil_of_length_eq_zero ((length_fractionDigits places n).trans hp)
    rw [if_pos hp, hf, List.append_nil, if_neg (List.not_mem_append hs hd)]
    rw [show pointed (trimEnd '0' []) = [] from rfl, List.append_nil]
  · rw [if_neg hp, if_pos (by simp), trimEnd_fraction _ hw (isDigit_fractionDigits places n)]

open Double (value value_of_beq_zero exists_exact)

variable {places : ℕ} {n : ℤ} {x y : Float}

theorem spelling_shortNumeral {negative : Bool} {size : ℕ} (h : ¬ (negative = true ∧ size = 0)) :
    (shortNumeral places (if negative then -size else size)).spelling =
      sign negative ++
        (wholeDigits places size ++ pointed (trimEnd '0' (fractionDigits places size))) := by
  have hn : decide ((if negative then -(size : ℤ) else size) < 0) = negative := by
    cases negative with
    | true =>
      have hp : size ≠ 0 := fun hz => h ⟨rfl, hz⟩
      rw [if_pos rfl]
      exact decide_eq_true (by omega)
    | false =>
      rw [if_neg Bool.false_ne_true]
      exact decide_eq_false (by omega)
  have hs : (if negative then -(size : ℤ) else size).natAbs = size := by
    split
    · exact Int.natAbs_neg size
    · exact Int.natAbs_natCast size
  simp only [Numeral.spelling, shortNumeral, hn, hs]

/-- What is written for a finite double tells to which decimal it is rounded. -/
theorem rounded_eq (hx : x.isFinite) (hn : IsNearest (value x * 10 ^ places) n) :
    rounded places x = (shortNumeral places n).spelling := by
  have hz : (if x == 0 then 0 else x).isFinite ∧
      value (if x == 0 then 0 else x) = value x := by
    split
    case isTrue h => exact ⟨rfl, (value_of_beq_zero rfl).trans (value_of_beq_zero h).symm⟩
    case isFalse => exact ⟨hx, rfl⟩
  simp only [rounded]
  generalize (if x == 0 then 0 else x) = z at hz
  rw [← hz.2] at hn
  obtain ⟨negative, mantissa, exponent, he⟩ := exists_exact hz.1
  obtain rfl := hn.unique (isNearest_value he places)
  simp only [fixed, he, trimmed_placed]
  generalize ((Ratio.dyadic mantissa exponent).scale places).round = size
  by_cases hs : negative = true ∧ size = 0
  · -- A negative number that rounds to zero has lost its sign.
    obtain ⟨rfl, rfl⟩ := hs
    have hz : wholeDigits places 0 ++ pointed (trimEnd '0' (fractionDigits places 0)) = ['0'] :=
      spelling_shortNumeral_zero places
    rw [hz, if_pos rfl, Nat.cast_zero, neg_zero, spelling_shortNumeral_zero]
    exact if_pos rfl
  · rw [← spelling_shortNumeral hs, if_neg (isShort_shortNumeral places _).spelling_ne_minus_zero]

/-- A text is the short numeral of the decimal that a double is rounded to. -/
structure Spells (places : ℕ) (x : Float) (n : Numeral) (text : List Char) : Prop where
  spelling : text = n.spelling
  reads : Numeral.scan? text = some (n, [])
  short : n.IsShort
  length_le : n.fraction.length ≤ places
  rounds : RoundsTo places (value x) n.toRat

theorem exists_spells (hx : x.isFinite) (places : ℕ) :
    ∃ n, Spells places x n (rounded places x) := by
  obtain ⟨negative, mantissa, exponent, he⟩ := exists_exact hx
  obtain ⟨n, hn⟩ : ∃ n, IsNearest (value x * 10 ^ places) n := ⟨_, isNearest_value he places⟩
  have hs := isShort_shortNumeral places n
  rw [rounded_eq hx hn]
  exact ⟨shortNumeral places n, rfl, hs.scan?_spelling, hs, length_fraction_shortNumeral places n,
    n, hn, toRat_shortNumeral places n⟩

theorem rounded_eq_iff (hx : x.isFinite) (hy : y.isFinite) : rounded places x = rounded places y ↔
    ∃ d, RoundsTo places (value x) d ∧ RoundsTo places (value y) d := by
  constructor
  · intro h
    obtain ⟨m, hm⟩ := exists_spells hx places
    obtain ⟨n, hn⟩ := exists_spells hy places
    have hr := hm.reads
    rw [h, hn.reads] at hr
    obtain rfl := congrArg Prod.fst (Option.some.inj hr)
    exact ⟨_, hm.rounds, hn.rounds⟩
  · rintro ⟨_, ⟨m, hm, rfl⟩, ⟨n, hn, he⟩⟩
    have hp : (10 : ℚ) ^ places ≠ 0 := pow_ne_zero _ (by norm_num)
    obtain rfl : m = n := Int.cast_injective ((div_left_inj' hp).1 he)
    rw [rounded_eq hx hm, rounded_eq hy hn]

theorem placesOf_of_lt (h : places < 2 ^ 31) : placesOf places = .ok places := by
  have hlt : (places : ℤ) < Nat.pow 2 31 := by exact_mod_cast h
  rw [placesOf, if_neg (by omega), if_pos hlt, Int.toNat_natCast]

theorem placesOf_of_le (h : 2 ^ 31 ≤ places) : ∃ fault, placesOf places = .error fault := by
  have hge : ¬ (places : ℤ) < Nat.pow 2 31 := not_lt.2 (by exact_mod_cast h)
  rw [placesOf, if_neg (by omega), if_neg hge]
  split
  · exact ⟨_, rfl⟩
  · exact ⟨_, rfl⟩

end Decimal

namespace Svg

open Decimal
open Double (value)

theorem exists_spells_number {x : Float} (hx : x.isFinite) (places : ℕ) :
    ∃ n, Spells places x n (number places x).toList := by
  rw [number, String.toList_ofList]
  exact exists_spells hx places

/-- A finite double is written with up to `places` decimals as the short numeral of the one decimal
that is nearest to it, so two doubles are written alike exactly if this decimal is the same, and a
greater one never as a lesser number. The digits must be fewer than `2 ^ 31`, of which up to 309
stand before the point; with as many decimals alone nothing is written. -/
theorem numberWith_exact {x : Float} (hx : x.isFinite) (places : ℕ) :
    (2 ^ 31 ≤ places → ∃ fault, numberWith x places = .error fault) ∧
    (places + 309 < 2 ^ 31 → ∃ text n, numberWith x places = .ok text ∧
      Spells places x n text.toList ∧ (∀ d, RoundsTo places (value x) d → d = n.toRat) ∧
      text ≠ "" ∧ text ≠ "-0" ∧ text.toList.getLast? ≠ some '.' ∧
      ∀ y : Float, y.isFinite → ∃ text' n', numberWith y places = .ok text' ∧
        Spells places y n' text'.toList ∧
        (text = text' ↔ ∃ d, RoundsTo places (value x) d ∧ RoundsTo places (value y) d) ∧
        (x ≤ y → n.toRat ≤ n'.toRat)) := by
  have hw (h : places + 309 < 2 ^ 31) (z : Float) :
      numberWith z places = .ok (number places z) := by
    rw [numberWith, placesOf_of_lt (Nat.lt_of_add_right_lt h)]
    rfl
  constructor
  · intro h
    obtain ⟨fault, hf⟩ := placesOf_of_le h
    exact ⟨fault, by rw [numberWith, hf]; rfl⟩
  · intro h
    obtain ⟨n, hn⟩ := exists_spells_number hx places
    refine ⟨number places x, n, hw h x, hn, fun d hd => hd.unique hn.rounds, ?_, ?_, ?_,
      fun y hy => ?_⟩
    · intro ht
      rw [ht] at hn
      exact hn.short.spelling_ne_nil hn.spelling.symm
    · intro ht
      rw [ht] at hn
      exact hn.short.spelling_ne_minus_zero hn.spelling.symm
    · rw [hn.spelling]
      exact hn.short.getLast?_spelling
    · obtain ⟨n', hn'⟩ := exists_spells_number hy places
      refine ⟨number places y, n', hw h y, hn', ?_, fun hxy => ?_⟩
      · rw [number, number, String.ofList_inj, rounded_eq_iff hx hy]
      · exact hn.rounds.mono hn'.rounds ((Double.le_iff_value_le hx hy).1 hxy)

theorem numberWith_exact_carry :
    let x : Float := 99.9996
    let y : Float := 100.0003
    x.isFinite ∧ y.isFinite ∧ 3 + 309 < 2 ^ 31 ∧ x ≤ y ∧ numberWith x 3 = .ok "100" ∧
      numberWith y 3 = .ok "100" ∧ (∃ n, Spells 3 x n "100".toList) ∧
      ∃ d, RoundsTo 3 (value x) d ∧ RoundsTo 3 (value y) d := by
  intro x y
  have hx : x.isFinite := by decide +kernel
  have hy : y.isFinite := by decide +kernel
  have hxy : x ≤ y := by decide +kernel
  have hlt : 3 + 309 < 2 ^ 31 := by decide
  have ht : numberWith x 3 = .ok "100" := congrArg Except.ok (by decide +kernel : number 3 x = "100")
  have ht' : numberWith y 3 = .ok "100" :=
    congrArg Except.ok (by decide +kernel : number 3 y = "100")
  obtain ⟨text, n, he, hs, -, -, -, -, ha⟩ := (numberWith_exact hx 3).2 hlt
  obtain ⟨text', -, he', -, hd, -⟩ := ha y hy
  cases ht.symm.trans he
  cases ht'.symm.trans he'
  exact ⟨hx, hy, hlt, hxy, ht, ht', ⟨n, hs⟩, hd.1 rfl⟩

/-- A count of decimals that is refused. -/
theorem numberWith_too_many_places :
    (1.5 : Float).isFinite ∧ (0 : ℤ) ≤ 2 ^ 31 ∧ ¬ ∃ text, numberWith 1.5 (2 ^ 31) = .ok text := by
  refine ⟨rfl, by decide, ?_⟩
  have h : numberWith 1.5 (2 ^ 31) = .error .tooBig := rfl
  rw [h]
  exact nofun

end Svg

end TurtlePlot
