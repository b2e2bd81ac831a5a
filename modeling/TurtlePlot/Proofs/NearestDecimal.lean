import TurtlePlot.Proofs.NumberLine

namespace TurtlePlot.Decimal

/-- The integer nearest to a number; halfway between two, the even one. -/
structure IsNearest (v : ℚ) (n : ℤ) : Prop where
  near : |v - n| ≤ 1 / 2
  even : |v - n| = 1 / 2 → Even n

/-- A number rounded to at most `places` decimals, halfway to the even last one. -/
def RoundsTo (places : ℕ) (v d : ℚ) : Prop :=
  ∃ n : ℤ, IsNearest (v * 10 ^ places) n ∧ d = n / 10 ^ places

variable {places : ℕ} {u v d : ℚ} {m n : ℤ}

theorem IsNearest.mono (hu : IsNearest u m) (hv : IsNearest v n) (h : u ≤ v) : m ≤ n := by
  by_contra hlt
  have hm : (n : ℚ) + 1 ≤ m := by exact_mod_cast not_le.1 hlt
  obtain ⟨hu₁, hu₂⟩ := abs_le.1 hu.near
  obtain ⟨hv₁, hv₂⟩ := abs_le.1 hv.near
  -- Both numbers are halfway between the two integers, which are not both even.
  have hum : u - m = -(1 / 2) := by linarith
  have hvn : v - n = 1 / 2 := by linarith
  have hmn : m = n + 1 := by
    have hq : (m : ℚ) = n + 1 := by linarith
    exact_mod_cast hq
  have hme : Even m := hu.even (by rw [hum]; norm_num)
  have hne : Even n := hv.even (by rw [hvn]; norm_num)
  rw [hmn, Int.even_add_one] at hme
  exact hme hne

theorem IsNearest.unique (hm : IsNearest v m) (hn : IsNearest v n) : m = n :=
  le_antisymm (hm.mono hn le_rfl) (hn.mono hm le_rfl)

theorem IsNearest.neg (h : IsNearest v n) : IsNearest (-v) (-n) := by
  have ha : |-v - ((-n : ℤ) : ℚ)| = |v - n| := by
    rw [Int.cast_neg, ← neg_sub', abs_neg]
  constructor
  · rw [ha]
    exact h.near
  · rw [ha]
    intro he
    exact (h.even he).neg

theorem isNearest_down {f : ℚ} (h₀ : 0 ≤ f) (h : f ≤ 1 / 2) (he : f = 1 / 2 → Even n) :
    IsNearest (n + f) n := by
  have ha : |n + f - n| = f := by rw [add_sub_cancel_left, abs_of_nonneg h₀]
  exact ⟨ha.trans_le h, fun hf => he (ha.symm.trans hf)⟩

theorem isNearest_up {f : ℚ} (h : 1 / 2 ≤ f) (h₁ : f ≤ 1) (he : f = 1 / 2 → ¬ Even n) :
    IsNearest (n + f) (n + 1) := by
  have ha : |n + f - ((n + 1 : ℤ) : ℚ)| = 1 - f := by
    rw [Int.cast_add, Int.cast_one, add_sub_add_left_eq_sub, abs_sub_comm,
      abs_of_nonneg (sub_nonneg.2 h₁)]
  constructor
  · rw [ha]
    linarith
  · rw [ha]
    intro hf
    exact Int.even_add_one.2 (he (by linarith))

theorem RoundsTo.mono {d' : ℚ} (h : RoundsTo places u d) (h' : RoundsTo places v d')
    (huv : u ≤ v) : d ≤ d' := by
  obtain ⟨m, hm, rfl⟩ := h
  obtain ⟨n, hn, rfl⟩ := h'
  have hmn : m ≤ n := hm.mono hn (by gcongr)
  gcongr

theorem RoundsTo.unique {d' : ℚ} (h : RoundsTo places v d) (h' : RoundsTo places v d') : d = d' :=
  le_antisymm (h.mono h' le_rfl) (h'.mono h le_rfl)

def Ratio.toRat (r : Ratio) : ℚ :=
  r.num / r.den

namespace Ratio

variable {r : Ratio}

theorem toRat_dyadic (mantissa : ℕ) (exponent : ℤ) :
    (dyadic mantissa exponent).toRat = mantissa * 2 ^ exponent := by
  unfold dyadic
  split
  case isTrue he =>
    obtain ⟨k, rfl⟩ := Int.eq_ofNat_of_zero_le he
    simp [toRat]
  case isFalse he =>
    obtain ⟨k, hk⟩ := Int.eq_ofNat_of_zero_le (show 0 ≤ -exponent by omega)
    obtain rfl : exponent = -k := by omega
    simp [toRat, div_eq_mul_inv]

theorem toRat_scale (r : Ratio) (places : ℕ) :
    (r.scale places).toRat = r.toRat * 10 ^ places := by
  unfold scale
  rw [if_pos (Int.natCast_nonneg places)]
  simp only [toRat, Int.toNat_natCast, Nat.pow_eq]
  push_cast
  ring

theorem toRat_eq (h : 0 < r.den) :
    r.toRat = (r.num / r.den : ℕ) + ((r.num % r.den : ℕ) : ℚ) / r.den := by
  have hd : (r.den : ℚ) ≠ 0 := Nat.cast_ne_zero.2 (Nat.ne_of_gt h)
  have hn : (r.num : ℚ) = r.den * (r.num / r.den : ℕ) + (r.num % r.den : ℕ) := by
    exact_mod_cast (Nat.div_add_mod r.num r.den).symm
  rw [toRat, hn]
  field_simp

/-- Rounding gives the nearest integer. -/
theorem isNearest_round (h : 0 < r.den) : IsNearest r.toRat r.round := by
  have hd : (0 : ℚ) < r.den := Nat.cast_pos.2 h
  have hm : r.num % r.den < r.den := Nat.mod_lt r.num h
  simp only [toRat_eq h, round]
  generalize r.num / r.den = q
  generalize r.num % r.den = t at hm ⊢
  have hhalf : (t : ℚ) / r.den = 1 / 2 ↔ 2 * t = r.den := by
    rw [div_eq_div_iff hd.ne' two_ne_zero, one_mul, mul_comm]
    exact_mod_cast Iff.rfl
  have hlt : (t : ℚ) / r.den < 1 / 2 ↔ 2 * t < r.den := by
    rw [div_lt_div_iff₀ hd two_pos, one_mul, mul_comm]
    exact_mod_cast Iff.rfl
  rw [← Int.cast_natCast q]
  split
  case isTrue hr =>
    apply isNearest_down (by positivity)
    · rcases hr with ht | ⟨ht, -⟩
      · exact (hlt.2 ht).le
      · exact (hhalf.2 ht).le
    · intro hf
      have ht := hhalf.1 hf
      exact (Int.even_coe_nat q).2 (Nat.even_iff.2 (hr.elim (by omega) And.right))
  case isFalse hr =>
    rw [not_or, not_and] at hr
    rw [Nat.cast_succ]
    apply isNearest_up (not_lt.1 fun hf => hr.1 (hlt.1 hf))
    · rw [div_le_one hd]
      exact_mod_cast hm.le
    · intro hf he
      exact hr.2 (hhalf.1 hf) (Nat.even_iff.1 ((Int.even_coe_nat q).1 he))

end Ratio

open Double (value)

/-- A finite double is rounded by its sign and its size. -/
theorem isNearest_value {x : Float} {negative : Bool} {mantissa : ℕ} {exponent : ℤ}
    (h : Exact.ofFloat x = .finite negative mantissa exponent) (places : ℕ) :
    let size := ((Ratio.dyadic mantissa exponent).scale places).round
    IsNearest (value x * 10 ^ places) (if negative then -size else size) := by
  intro size
  have hd := Ratio.den_scale_pos (Ratio.den_dyadic_pos mantissa exponent) (places : ℤ)
  have hn := Ratio.isNearest_round hd
  rw [Ratio.toRat_scale, Ratio.toRat_dyadic] at hn
  rw [value, h, Exact.toRat]
  cases negative with
  | false => exact hn
  | true =>
    rw [signed, if_pos rfl, if_pos rfl, neg_mul]
    exact hn.neg

end TurtlePlot.Decimal
