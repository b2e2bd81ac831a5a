import Mathlib

namespace TurtlePlot.Double

open Float.Model Float.Model.UnpackedFloat

theorem targetExponent_eq (total : Int) :
    Format.binary64.targetExponent total = max (total - 53) (-1074) :=
  rfl

section Shift

variable (em : ExtendedMantissa) (m s : Nat) (acc : Accuracy)

theorem shift_succ : em >>> (s + 1) = (em >>> s).shiftRightOne :=
  rfl

theorem mantissa_shift : (em >>> s).mantissa = em.mantissa / 2 ^ s := by
  induction s with
  | zero => exact (Nat.div_one _).symm
  | succ s ih =>
    rw [shift_succ, ExtendedMantissa.shiftRightOne, ih, Nat.div_div_eq_div_mul, Nat.pow_succ]

theorem mantissa_ofMantissaAndAccuracy :
    (ExtendedMantissa.ofMantissaAndAccuracy m acc).mantissa = m := by
  match acc with
  | .exact | .inexact .lt | .inexact .eq | .inexact .gt => rfl

theorem mantissa_shifted :
    (ExtendedMantissa.ofMantissaAndAccuracy m acc >>> s).mantissa = m / 2 ^ s := by
  rw [mantissa_shift, mantissa_ofMantissaAndAccuracy]

theorem mantissa_shifted_succ :
    (ExtendedMantissa.ofMantissaAndAccuracy m acc >>> (s + 1)).mantissa = m / 2 ^ s / 2 := by
  rw [mantissa_shifted, Nat.pow_succ, Nat.div_div_eq_div_mul]

theorem roundBit_shifted_succ :
    (ExtendedMantissa.ofMantissaAndAccuracy m acc >>> (s + 1)).roundBit =
      (m / 2 ^ s % 2 != 0) := by
  rw [shift_succ, ExtendedMantissa.shiftRightOne, mantissa_shifted]

theorem roundedMantissa_eq :
    em.roundedMantissa = em.mantissa ∨ em.roundedMantissa = em.mantissa + 1 := by
  obtain ⟨m, roundBit, stickyBit⟩ := em
  cases roundBit with
  | false =>
    left
    cases stickyBit <;> rfl
  | true =>
    cases stickyBit with
    | true => exact .inr rfl
    | false => exact (Nat.mod_two_eq_zero_or_one m).imp (congrArg (m + ·)) (congrArg (m + ·))

variable {em}

theorem roundedMantissa_of_roundBit_eq_false (h : em.roundBit = false) :
    em.roundedMantissa = em.mantissa := by
  obtain ⟨m, roundBit, stickyBit⟩ := em
  subst h
  cases stickyBit <;> rfl

theorem roundedMantissa_of_odd (h : em.roundBit = true) (ho : em.mantissa % 2 = 1) :
    em.roundedMantissa = em.mantissa + 1 := by
  obtain ⟨m, roundBit, stickyBit⟩ := em
  subst h
  cases stickyBit with
  | true => rfl
  | false => exact congrArg (m + ·) ho

end Shift

/-- How far rounding shifts a mantissa, so that at most 53 bits of it are left. -/
def firstShift (m : Nat) (e : Int) : Nat :=
  (max (totalExponent m e - 53) (-1074) - e).toNat

def firstRounded (m : Nat) (e : Int) (acc : Accuracy) : Nat :=
  (ExtendedMantissa.ofMantissaAndAccuracy m acc >>> firstShift m e).roundedMantissa

theorem firstRounded_le_succ (m : Nat) (e : Int) (acc : Accuracy) :
    firstRounded m e acc ≤ m / 2 ^ firstShift m e + 1 := by
  rw [firstRounded, ← mantissa_shifted m _ acc]
  rcases roundedMantissa_eq (ExtendedMantissa.ofMantissaAndAccuracy m acc >>> firstShift m e) with
    h | h
  · rw [h]
    exact Nat.le_succ _
  · rw [h]

theorem le_firstRounded (m : Nat) (e : Int) (acc : Accuracy) :
    m / 2 ^ firstShift m e ≤ firstRounded m e acc := by
  rw [firstRounded, ← mantissa_shifted m _ acc]
  rcases roundedMantissa_eq (ExtendedMantissa.ofMantissaAndAccuracy m acc >>> firstShift m e) with
    h | h
  · rw [h]
  · rw [h]
    exact Nat.le_succ _

theorem roundWithAccuracy_eq (sign : Sign) (m : Nat) (e : Int) (acc : Accuracy) :
    let r := firstRounded m e acc
    let e₁ := e + firstShift m e
    roundWithAccuracy .binary64 sign m e acc =
      if h : r / 2 ^ firstShift r e₁ = 0 then .zero sign
      else .finite sign (r / 2 ^ firstShift r e₁) (e₁ + firstShift r e₁) (Nat.pos_of_ne_zero h) := by
  intro r e₁
  have hm : (ExtendedMantissa.ofMantissaAndAccuracy r .exact >>> firstShift r e₁).mantissa =
      r / 2 ^ firstShift r e₁ := mantissa_shifted ..
  simp only [← hm]
  rfl

theorem lt_two_pow_succ {m j : Nat} (h : m ≤ 2 ^ j) : m < 2 ^ (j + 1) :=
  Nat.lt_of_le_of_lt h (Nat.pow_lt_pow_succ (by decide))

theorem log2_le_of_lt {m j : Nat} (h : m < 2 ^ (j + 1)) : m.log2 ≤ j := by
  rcases Nat.eq_zero_or_pos m with rfl | hm
  · exact Nat.zero_le j
  · exact Nat.le_of_lt_succ ((Nat.log2_lt (Nat.ne_of_gt hm)).2 h)

section PowersOfTwo

variable {m j : Nat} {e k : Int} {acc : Accuracy} {sign : Sign}

theorem firstShift_le (h : m < 2 ^ (j + 1)) (hj : 52 ≤ j) (hk : -1022 ≤ e + j) :
    firstShift m e ≤ j - 52 := by
  have hl := log2_le_of_lt h
  rw [firstShift, totalExponent]
  omega

theorem firstRounded_of_le (hj : 52 ≤ j) (hk : -1022 ≤ e + j) (hm : 2 ^ j ≤ m)
    (h : 2 ^ 53 * m < (2 ^ 53 + 1) * 2 ^ j) :
    firstShift m e = j - 52 ∧ firstRounded m e .exact = 2 ^ 52 := by
  obtain ⟨s, rfl⟩ := Nat.exists_eq_add_of_le hj
  have hm₀ : m ≠ 0 := Nat.ne_of_gt (Nat.lt_of_lt_of_le (Nat.two_pow_pos _) hm)
  have hl : m.log2 = 52 + s := by
    refine (Nat.log2_eq_iff hm₀).2 ⟨hm, ?_⟩
    rw [Nat.pow_succ]
    omega
  have hs : firstShift m e = s := by
    rw [firstShift, totalExponent, hl]
    omega
  refine ⟨hs.trans (Nat.add_sub_cancel_left ..).symm, ?_⟩
  rw [firstRounded, hs]
  cases s with
  | zero =>
    have hm : m = 2 ^ 52 := by omega
    rw [hm]
    rfl
  | succ s =>
    have hp : 2 ^ (52 + (s + 1)) = 2 ^ 53 * 2 ^ s := by rw [← Nat.pow_add]; congr 1; omega
    have hq : m / 2 ^ s = 2 ^ 53 := by
      rw [hp] at hm h
      refine Nat.div_eq_of_lt_le hm (Nat.lt_of_mul_lt_mul_left (a := 2 ^ 53) ?_)
      rw [Nat.mul_left_comm] at h
      exact h
    have hb : (ExtendedMantissa.ofMantissaAndAccuracy m .exact >>> (s + 1)).roundBit = false := by
      rw [roundBit_shifted_succ, hq]
      rfl
    rw [roundedMantissa_of_roundBit_eq_false hb, mantissa_shifted_succ, hq]
    rfl

/-- Rounding does not pass a power of two that is exceeded by less than half a unit. -/
theorem firstRounded_le (hj : 52 ≤ j) (hk : -1022 ≤ e + j)
    (h : m < 2 ^ j ∨ acc = .exact ∧ 2 ^ 53 * m < (2 ^ 53 + 1) * 2 ^ j) :
    firstShift m e ≤ j - 52 ∧ firstRounded m e acc ≤ 2 ^ (j - firstShift m e) := by
  by_cases hlt : m < 2 ^ j
  · have hs : firstShift m e ≤ j - 52 := firstShift_le (lt_two_pow_succ (Nat.le_of_lt hlt)) hj hk
    have hr := firstRounded_le_succ m e acc
    refine ⟨hs, hr.trans ?_⟩
    generalize firstShift m e = s at hs
    change m / 2 ^ s < 2 ^ (j - s)
    rw [Nat.div_lt_iff_lt_mul (Nat.two_pow_pos s), ← Nat.pow_add]
    exact Nat.lt_of_lt_of_eq hlt (congrArg _ (by omega))
  · obtain ⟨rfl, hm⟩ := h.resolve_left hlt
    obtain ⟨hs, hr⟩ := firstRounded_of_le hj hk (Nat.le_of_not_lt hlt) hm
    rw [hs, hr, Nat.sub_sub_self hj]
    exact ⟨le_rfl, le_rfl⟩

end PowersOfTwo

/-- Zero, or finite and at most a power of two. -/
def Within (k : Int) : UnpackedFloat → Prop
  | .zero _ => True
  | .finite _ m e _ => ∃ j : Nat, e + j = k ∧ 52 ≤ j ∧ m ≤ 2 ^ j
  | .infinity _ | .notANumber => False

variable {m : Nat} {e k : Int} {acc : Accuracy}

theorem within_roundWithAccuracy {j : Nat} (hj : 52 ≤ j) (he : e + j = k) (hk : -1022 ≤ k)
    (h : m < 2 ^ j ∨ acc = .exact ∧ 2 ^ 53 * m < (2 ^ 53 + 1) * 2 ^ j) (sign : Sign) :
    Within k (roundWithAccuracy .binary64 sign m e acc) := by
  subst he
  obtain ⟨hs, hr⟩ := firstRounded_le hj hk h
  rw [roundWithAccuracy_eq]
  generalize firstRounded m e acc = r at hr
  generalize firstShift m e = s at hs hr
  have hs₂ : firstShift r (e + s) ≤ j - s - 52 :=
    firstShift_le (lt_two_pow_succ hr) (by omega) (by omega)
  generalize firstShift r (e + s) = s₂ at hs₂
  split
  · trivial
  · refine ⟨j - s - s₂, by omega, by omega, ?_⟩
    refine Nat.div_le_of_le_mul ?_
    rw [← Nat.pow_add]
    exact hr.trans_eq (congrArg _ (by omega))

theorem within_round {j : Nat} (he : e + j = k) (hk : -1022 ≤ k)
    (h : 2 ^ 53 * m < (2 ^ 53 + 1) * 2 ^ j) (sign : Sign) :
    Within k (UnpackedFloat.round .binary64 sign m e) := by
  have hl : m.log2 ≤ j := log2_le_of_lt (by rw [Nat.pow_succ]; omega)
  have ht : Format.binary64.targetExponent (totalExponent m e) ≤ k - 52 := by
    rw [targetExponent_eq, totalExponent]
    omega
  rw [UnpackedFloat.round, decreaseExponent]
  generalize Format.binary64.targetExponent (totalExponent m e) = t at ht
  -- The mantissa takes up what the exponent gives off.
  generalize hd : (e - t).toNat = d
  refine within_roundWithAccuracy (j := j + d) (by omega) (by omega) hk (.inr ⟨rfl, ?_⟩) sign
  rw [Nat.shiftLeft_eq, Nat.pow_add, ← Nat.mul_assoc, ← Nat.mul_assoc]
  exact Nat.mul_lt_mul_of_pos_right h (Nat.two_pow_pos d)

theorem within_normalize {n : Int} {j : Nat} (he : e + j = k) (hk : -1022 ≤ k)
    (h : 2 ^ 53 * n.natAbs < (2 ^ 53 + 1) * 2 ^ j) (zeroSign : Sign) :
    Within k (UnpackedFloat.normalize .binary64 n e zeroSign) := by
  rw [UnpackedFloat.normalize]
  split
  case h_1 hn =>
    refine within_round he hk ?_ _
    rwa [show (-n).toNat = n.natAbs by have := Int.compare_eq_lt.1 hn; omega]
  case h_2 => trivial
  case h_3 hn =>
    refine within_round he hk ?_ _
    rwa [show n.toNat = n.natAbs by have := Int.compare_eq_gt.1 hn; omega]

theorem within_ofInt {n : Int} {j : Nat} (hn : n.natAbs ≤ 2 ^ j) :
    Within j (UnpackedFloat.ofInt .binary64 n) := by
  refine within_normalize (Int.zero_add _) (by omega) ?_ _
  have hj := Nat.two_pow_pos j
  omega

theorem Within.mono {x : UnpackedFloat} {l : Int} (h : Within l x) (hl : l ≤ k) : Within k x := by
  cases x with
  | zero => trivial
  | finite sign m e =>
    obtain ⟨j, he, hj, hm⟩ := h
    obtain ⟨d, rfl⟩ := Int.le.dest hl
    refine ⟨j + d, by omega, by omega, hm.trans ?_⟩
    exact Nat.pow_le_pow_right (by decide) (Nat.le_add_right j d)
  | infinity | notANumber => exact h

theorem natAbs_apply (sign : Sign) (n : Nat) : (sign.apply n).natAbs = n := by
  cases sign with
  | negative => exact Int.natAbs_neg n
  | positive => rfl

/-- A sum stays within a power of two if one term is much smaller than the other may be. -/
theorem Within.add {x y : UnpackedFloat} {l : Int} (hx : Within k x) (hy : Within l y)
    (hl : l + 54 ≤ k) (hk : -1022 ≤ k) : Within k (x.add .binary64 y) := by
  cases x with
  | infinity | notANumber => cases hx
  | zero s₁ =>
    cases y with
    | infinity | notANumber => cases hy
    | zero s₂ =>
      rw [UnpackedFloat.add]
      split <;> trivial
    | finite => exact hy.mono (by omega)
  | finite s₁ m₁ e₁ =>
    cases y with
    | infinity | notANumber => cases hy
    | zero s₂ => exact hx
    | finite s₂ m₂ e₂ =>
      obtain ⟨j₁, he₁, -, hm₁⟩ := hx
      obtain ⟨j₂, he₂, -, hm₂⟩ := hy
      simp only [UnpackedFloat.add, decreaseExponent]
      generalize hd₁ : (e₁ - min e₁ e₂).toNat = d₁
      generalize hd₂ : (e₂ - min e₁ e₂).toNat = d₂
      refine within_normalize (j := j₁ + d₁) (by omega) hk ?_ _
      have h₁ : m₁ <<< d₁ ≤ 2 ^ (j₁ + d₁) := by
        rw [Nat.shiftLeft_eq, Nat.pow_add]
        exact Nat.mul_le_mul_right _ hm₁
      have h₂ : m₂ <<< d₂ ≤ 2 ^ (j₂ + d₂) := by
        rw [Nat.shiftLeft_eq, Nat.pow_add]
        exact Nat.mul_le_mul_right _ hm₂
      have h₃ : 2 ^ 54 * 2 ^ (j₂ + d₂) ≤ 2 ^ (j₁ + d₁) := by
        rw [← Nat.pow_add]
        exact Nat.pow_le_pow_right (by decide) (by omega)
      have ha := Int.natAbs_add_le (s₁.apply (m₁ <<< d₁ : Nat)) (s₂.apply (m₂ <<< d₂ : Nat))
      rw [natAbs_apply, natAbs_apply] at ha
      have hp := Nat.two_pow_pos (j₂ + d₂)
      omega

theorem Within.mul {x y : UnpackedFloat} {k l : Int} (hx : Within k x) (hy : Within l y)
    (hk : -1022 ≤ k + l) : Within (k + l) (x.mul .binary64 y) := by
  cases x with
  | infinity | notANumber => cases hx
  | zero =>
    cases y with
    | infinity | notANumber => cases hy
    | zero | finite => trivial
  | finite s₁ m₁ e₁ =>
    cases y with
    | infinity | notANumber => cases hy
    | zero => trivial
    | finite s₂ m₂ e₂ =>
      obtain ⟨j₁, he₁, hj₁, hm₁⟩ := hx
      obtain ⟨j₂, he₂, hj₂, hm₂⟩ := hy
      refine within_roundWithAccuracy (j := j₁ + j₂) (by omega) (by omega) hk (.inr ⟨rfl, ?_⟩) _
      have hm := Nat.mul_le_mul hm₁ hm₂
      rw [← Nat.pow_add] at hm
      have hp := Nat.two_pow_pos (j₁ + j₂)
      omega

theorem Within.div {x : UnpackedFloat} (hx : Within k x) {sign : Sign} {d j₂ : Nat} (hd : 0 < d)
    (hj₂ : 2 ^ j₂ ≤ d) (hk : -1022 ≤ k) :
    Within k (x.div .binary64 (.finite sign d (-j₂) hd)) := by
  cases x with
  | infinity | notANumber => cases hx
  | zero => trivial
  | finite s₁ m e =>
    obtain ⟨j, he, hj, hm⟩ := hx
    have hl : m.log2 ≤ j := log2_le_of_lt (lt_two_pow_succ hm)
    have hl₂ : j₂ ≤ d.log2 := (Nat.le_log2 (Nat.ne_of_gt hd)).2 hj₂
    simp only [UnpackedFloat.div, divCore]
    have ht : min (e - -j₂) (Format.binary64.targetExponent
        (totalExponent m e - totalExponent d (-j₂))) ≤ k - 52 := by
      rw [targetExponent_eq, totalExponent, totalExponent]
      omega
    have ht₂ := min_le_left (e - -j₂) (Format.binary64.targetExponent
      (totalExponent m e - totalExponent d (-j₂)))
    generalize min (e - -j₂) (Format.binary64.targetExponent
      (totalExponent m e - totalExponent d (-j₂))) = t at ht ht₂
    generalize hs : (e - -j₂ - t).toNat = s
    obtain ⟨i, hi⟩ := Int.le.dest (show t ≤ k by omega)
    have hle : m <<< s ≤ 2 ^ i * d := by
      rw [Nat.shiftLeft_eq]
      calc m * 2 ^ s ≤ 2 ^ j * 2 ^ s := Nat.mul_le_mul_right _ hm
        _ = 2 ^ i * 2 ^ j₂ := by rw [← Nat.pow_add, ← Nat.pow_add]; congr 1; omega
        _ ≤ 2 ^ i * d := Nat.mul_le_mul_left _ hj₂
    refine within_roundWithAccuracy (j := i) (by omega) hi hk ?_ _
    rcases Nat.lt_or_eq_of_le hle with hlt | heq
    · exact .inl ((Nat.div_lt_iff_lt_mul hd).2 hlt)
    · rw [heq, Nat.mul_mod_left, Nat.mul_div_left _ hd]
      refine .inr ⟨rfl, ?_⟩
      have hp := Nat.two_pow_pos i
      omega

section Greatest

variable {i : Nat}

theorem sub_le_firstShift (m : Nat) (e : Int) : m.log2 - 52 ≤ firstShift m e := by
  rw [firstShift, totalExponent]
  omega

theorem firstShift_le_log2 (he : -1074 ≤ e) : firstShift m e ≤ m.log2 := by
  rw [firstShift, totalExponent]
  omega

theorem firstRounded_le_two_pow (m : Nat) (e : Int) (acc : Accuracy) :
    firstRounded m e acc ≤ 2 ^ 53 := by
  have hq : m / 2 ^ firstShift m e < 2 ^ 53 := by
    rw [Nat.div_lt_iff_lt_mul (Nat.two_pow_pos _), ← Nat.pow_add]
    refine Nat.lt_of_lt_of_le Nat.lt_log2_self (Nat.pow_le_pow_right (by decide) ?_)
    have hs := sub_le_firstShift m e
    omega
  exact (firstRounded_le_succ m e acc).trans hq

theorem div_two_pow_ne_zero {r s : Nat} (hr : r ≠ 0) (hs : s ≤ r.log2) : r / 2 ^ s ≠ 0 := by
  have hp : 2 ^ s ≤ r := (Nat.pow_le_pow_right (by decide) hs).trans (Nat.log2_self_le hr)
  exact Nat.ne_of_gt (Nat.div_pos hp (Nat.two_pow_pos s))

theorem exists_finite_roundWithAccuracy (acc : Accuracy) (hm : m ≠ 0) (he : -1074 ≤ e + firstShift m e)
    (hs : firstShift m e ≤ m.log2) (sign : Sign) :
    let r := firstRounded m e acc
    let e₁ := e + firstShift m e
    ∃ m' hm, roundWithAccuracy .binary64 sign m e acc = .finite sign m' (e₁ + firstShift r e₁) hm := by
  intro r e₁
  have hr : r ≠ 0 := by
    have hp := Nat.pos_of_ne_zero (div_two_pow_ne_zero hm hs)
    exact Nat.ne_of_gt (Nat.lt_of_lt_of_le hp (le_firstRounded m e acc))
  have hz : r / 2 ^ firstShift r e₁ ≠ 0 := div_two_pow_ne_zero hr (firstShift_le_log2 he)
  rw [roundWithAccuracy_eq, dif_neg hz]
  exact ⟨_, _, rfl⟩

theorem firstRounded_of_eq (hs : firstShift m e = i + 1) (hq : m / 2 ^ i = 2 ^ 54 - 1) :
    firstRounded m e .exact = 2 ^ 53 := by
  have hb : (ExtendedMantissa.ofMantissaAndAccuracy m .exact >>> (i + 1)).roundBit = true := by
    rw [roundBit_shifted_succ, hq]
    rfl
  have hm : (ExtendedMantissa.ofMantissaAndAccuracy m .exact >>> (i + 1)).mantissa = 2 ^ 53 - 1 := by
    rw [mantissa_shifted_succ, hq]
    rfl
  have ho : (2 ^ 53 - 1) % 2 = 1 := by decide
  rw [firstRounded, hs, roundedMantissa_of_odd hb (hm ▸ ho), hm]
  rfl

theorem firstRounded_lt (hs : firstShift m e = i + 1) (hq : m / 2 ^ i < 2 ^ 54 - 1) :
    firstRounded m e .exact < 2 ^ 53 := by
  by_cases hb : m / 2 ^ i % 2 = 0
  · have hr : (ExtendedMantissa.ofMantissaAndAccuracy m .exact >>> (i + 1)).roundBit = false := by
      rw [roundBit_shifted_succ, hb]
      rfl
    rw [firstRounded, hs, roundedMantissa_of_roundBit_eq_false hr, mantissa_shifted_succ]
    omega
  · have hr := firstRounded_le_succ m e .exact
    rw [hs, Nat.pow_succ, ← Nat.div_div_eq_div_mul] at hr
    omega

/-- From the midpoint after the greatest double on, the exponent gets too large. -/
theorem roundWithAccuracy_of_le (he : e + i = 970) (h : (2 ^ 54 - 1) * 2 ^ i ≤ m) (sign : Sign) :
    ∃ m' e' hm, roundWithAccuracy .binary64 sign m e .exact = .finite sign m' e' hm ∧ 972 ≤ e' := by
  have hp := Nat.two_pow_pos i
  have hm : m ≠ 0 := by omega
  have hl : 53 + i ≤ m.log2 := by
    rw [Nat.le_log2 hm, Nat.pow_add]
    omega
  have hs : firstShift m e = m.log2 - 52 := by
    rw [firstShift, totalExponent]
    omega
  obtain ⟨m', hm', hr⟩ := exists_finite_roundWithAccuracy (e := e) .exact hm (by omega)
    (by omega) sign
  refine ⟨m', _, hm', hr, ?_⟩
  rcases Nat.eq_or_lt_of_le hl with hl | hl
  · have hq : m / 2 ^ i = 2 ^ 54 - 1 := by
      have hlt := (Nat.log2_lt hm).1 (Nat.lt_succ_of_le (Nat.le_of_eq hl.symm))
      rw [show (53 + i).succ = 54 + i by omega, Nat.pow_add 2 54 i] at hlt
      exact Nat.div_eq_of_lt_le h hlt
    have hs₁ : firstShift m e = i + 1 := by omega
    have h₁ : e + firstShift m e = 971 := by omega
    rw [firstRounded_of_eq hs₁ hq, h₁]
    decide
  · omega

theorem exponent_le_of_lt (he : e + i = 970) (h : m < (2 ^ 54 - 1) * 2 ^ i) {sign s' : Sign}
    {m' : Nat} {e' : Int} {hm : 0 < m'}
    (hr : roundWithAccuracy .binary64 sign m e .exact = .finite s' m' e' hm) : e' ≤ 971 := by
  rw [roundWithAccuracy_eq] at hr
  split at hr
  · cases hr
  · obtain ⟨-, -, rfl⟩ := UnpackedFloat.finite.inj hr
    have hl : m.log2 ≤ 53 + i := by
      have hp := Nat.two_pow_pos i
      refine log2_le_of_lt (h.trans ?_)
      rw [show 53 + i + 1 = 54 + i by omega, Nat.pow_add 2 54 i]
      omega
    have hr₂ : (firstRounded m e .exact).log2 ≤ 53 :=
      log2_le_of_lt (Nat.lt_of_le_of_lt (firstRounded_le_two_pow m e .exact) (by decide))
    rcases Nat.eq_or_lt_of_le hl with hl | hl
    · have hs : firstShift m e = i + 1 := by
        rw [firstShift, totalExponent]
        omega
      have hr₁ : (firstRounded m e .exact).log2 ≤ 52 := log2_le_of_lt
        (firstRounded_lt hs ((Nat.div_lt_iff_lt_mul (Nat.two_pow_pos i)).2 h))
      rw [hs]
      generalize firstRounded m e .exact = r at hr₁ ⊢
      rw [firstShift, totalExponent]
      omega
    · have hs : e + firstShift m e ≤ 970 := by
        rw [firstShift, totalExponent]
        omega
      generalize firstRounded m e .exact = r at hr₂ ⊢
      generalize e + (firstShift m e : Int) = e₁ at hs ⊢
      rw [firstShift, totalExponent]
      omega

end Greatest

end TurtlePlot.Double
