import TurtlePlot.Proofs.Double
import TurtlePlot.Proofs.ExactDouble

namespace TurtlePlot

namespace Decimal

/-- The number of the given sign and size. -/
def signed (negative : Bool) (size : ℚ) : ℚ :=
  if negative then -size else size

/-- The exact number that a finite double denotes. -/
def Exact.toRat : Exact → ℚ
  | .finite negative mantissa exponent => signed negative (mantissa * 2 ^ exponent)
  | .infinite _ | .notANumber => 0

/-- The place on the line with its ends. What is not a number has none and is put at zero. -/
noncomputable def Exact.place : Exact → EReal
  | .infinite true => ⊥
  | .infinite false => ⊤
  | exact => ((exact.toRat : ℝ) : EReal)

end Decimal

namespace Double

open Decimal Float.Model Float.Model.UnpackedFloat

def value (x : Float) : ℚ :=
  (Exact.ofFloat x).toRat

noncomputable def place (x : Float) : EReal :=
  (Exact.ofFloat x).place

variable {x y : Float}

section Sizes

variable {s₁ s₂ : Sign} {m₁ m₂ : ℕ} {e₁ e₂ : ℤ} {h₁ : 0 < m₁} {h₂ : 0 < m₂}

theorem normal_of_unpack (hx : x.toModel.unpack = .finite s₁ m₁ e₁ h₁) :
    m₁ < 2 ^ 53 ∧ -1074 ≤ e₁ ∧ (-1074 < e₁ → 2 ^ 52 ≤ m₁) := by
  have he : Exact.ofFloat x = .finite (s₁ == .negative) m₁ e₁ := by rw [Exact.ofFloat, hx]
  obtain ⟨binade, hp, hb⟩ := Exact.packed_of_finite he
  have hn := hp.normal
  refine ⟨hp.mantissa_lt, ?_, ?_⟩
  · omega
  · intro hlt
    omega

theorem size_lt_size (h₁ : m₁ < 2 ^ 53) (h₂ : 2 ^ 52 ≤ m₂) (he : e₁ < e₂) :
    (m₁ * 2 ^ e₁ : ℚ) < m₂ * 2 ^ e₂ :=
  calc (m₁ * 2 ^ e₁ : ℚ) < 2 ^ 53 * 2 ^ e₁ := by
        gcongr
        exact_mod_cast h₁
    _ = 2 ^ 52 * 2 ^ (e₁ + 1) := by
        rw [zpow_add_one₀ two_ne_zero]
        ring
    _ ≤ m₂ * 2 ^ e₂ := by
        gcongr
        · exact_mod_cast h₂
        · exact one_le_two
        · exact he

theorem compares_size (hx : x.toModel.unpack = .finite s₁ m₁ e₁ h₁)
    (hy : y.toModel.unpack = .finite s₂ m₂ e₂ h₂) :
    ((compare e₁ e₂).then (compare m₁ m₂)).Compares (m₁ * 2 ^ e₁ : ℚ) (m₂ * 2 ^ e₂) := by
  obtain ⟨hlt₁, hle₁, hn₁⟩ := normal_of_unpack hx
  obtain ⟨hlt₂, hle₂, hn₂⟩ := normal_of_unpack hy
  rcases lt_trichotomy e₁ e₂ with he | rfl | he
  · rw [compare_lt_iff_lt.2 he]
    exact size_lt_size hlt₁ (hn₂ (by omega)) he
  · have hp : (0 : ℚ) < 2 ^ e₁ := zpow_pos two_pos e₁
    rw [compare_eq_iff_eq.2 rfl]
    rcases lt_trichotomy m₁ m₂ with hm | rfl | hm
    · rw [compare_lt_iff_lt.2 hm]
      exact mul_lt_mul_of_pos_right (Nat.cast_lt.2 hm) hp
    · rw [compare_eq_iff_eq.2 rfl]
      rfl
    · rw [compare_gt_iff_gt.2 hm]
      exact mul_lt_mul_of_pos_right (Nat.cast_lt.2 hm) hp
  · rw [compare_gt_iff_gt.2 he]
    exact size_lt_size hlt₂ (hn₁ (by omega)) he

theorem compares_neg {o : Ordering} {a b : ℚ} (h : o.Compares a b) : o.swap.Compares (-a) (-b) := by
  cases o with
  | lt => exact neg_lt_neg h
  | eq => exact congrArg Neg.neg h
  | gt => exact neg_lt_neg h

theorem size_pos (h : 0 < m₁) (e : ℤ) : (0 : ℚ) < m₁ * 2 ^ e :=
  mul_pos (Nat.cast_pos.2 h) (zpow_pos two_pos e)

theorem value_of_zero (hx : x.toModel.unpack = .zero s₁) : value x = 0 := by
  have he : Exact.ofFloat x = .finite (s₁ == .negative) 0 0 := by rw [Exact.ofFloat, hx]
  rw [value, he, Exact.toRat, signed, Nat.cast_zero, zero_mul, neg_zero, ite_self]

theorem value_of_beq_zero (h : x == 0) : value x = 0 := by
  obtain rfl | rfl := beq_zero_iff.1 h
  · exact value_of_zero (by rfl : (0 : Float).toModel.unpack = .zero .positive)
  · exact value_of_zero (by rfl : (-0 : Float).toModel.unpack = .zero .negative)

theorem value_of_finite (hx : x.toModel.unpack = .finite s₁ m₁ e₁ h₁) :
    value x = signed (s₁ == .negative) (m₁ * 2 ^ e₁) := by
  have he : Exact.ofFloat x = .finite (s₁ == .negative) m₁ e₁ := by rw [Exact.ofFloat, hx]
  rw [value, he, Exact.toRat]

end Sizes

/-- The order of finite doubles is that of the numbers that they denote. -/
theorem exists_compares_value (hx : x.isFinite) (hy : y.isFinite) :
    ∃ o, x.toModel.unpack.compare y.toModel.unpack = some o ∧ o.Compares (value x) (value y) := by
  have hx' : x.toModel.unpack.isFinite := hx
  have hy' : y.toModel.unpack.isFinite := hy
  cases hu : x.toModel.unpack with
  | infinity | notANumber =>
    rw [hu] at hx'
    cases hx'
  | zero s₁ =>
    rw [value_of_zero hu]
    cases hv : y.toModel.unpack with
    | infinity | notANumber =>
      rw [hv] at hy'
      cases hy'
    | zero s₂ =>
      rw [value_of_zero hv]
      exact ⟨.eq, rfl, rfl⟩
    | finite s₂ m₂ e₂ h₂ =>
      rw [value_of_finite hv]
      cases s₂ with
      | negative => exact ⟨.gt, rfl, neg_lt_zero.2 (size_pos h₂ e₂)⟩
      | positive => exact ⟨.lt, rfl, size_pos h₂ e₂⟩
  | finite s₁ m₁ e₁ h₁ =>
    rw [value_of_finite hu]
    have hp₁ := size_pos h₁ e₁
    cases hv : y.toModel.unpack with
    | infinity | notANumber =>
      rw [hv] at hy'
      cases hy'
    | zero s₂ =>
      rw [value_of_zero hv]
      cases s₁ with
      | negative => exact ⟨.lt, rfl, neg_lt_zero.2 hp₁⟩
      | positive => exact ⟨.gt, rfl, hp₁⟩
    | finite s₂ m₂ e₂ h₂ =>
      rw [value_of_finite hv]
      have hp₂ := size_pos h₂ e₂
      have hs := compares_size hu hv
      cases s₁ with
      | negative =>
        cases s₂ with
        | negative => exact ⟨_, rfl, compares_neg hs⟩
        | positive => exact ⟨.lt, rfl, (neg_lt_zero.2 hp₁).trans hp₂⟩
      | positive =>
        cases s₂ with
        | negative => exact ⟨.gt, rfl, (neg_lt_zero.2 hp₂).trans hp₁⟩
        | positive => exact ⟨_, rfl, hs⟩

theorem lt_iff_compare :
    x < y ↔ x.toModel.unpack.compare y.toModel.unpack = some .lt := by
  change decide (x.toModel < y.toModel) = true ↔ _
  rw [decide_eq_true_iff]
  exact beq_iff_eq

theorem le_iff_compare :
    x ≤ y ↔ ∃ o, x.toModel.unpack.compare y.toModel.unpack = some o ∧ o ≠ .gt := by
  change decide (x.toModel ≤ y.toModel) = true ↔ _
  rw [decide_eq_true_iff]
  change (x.toModel.unpack.compare y.toModel.unpack).any (·.isLE) = true ↔ _
  simp only [Option.any_eq_true, Ordering.isLE_iff_ne_gt]

theorem le_iff_value_le (hx : x.isFinite) (hy : y.isFinite) : x ≤ y ↔ value x ≤ value y := by
  obtain ⟨o, hc, ho⟩ := exists_compares_value hx hy
  simp only [le_iff_compare, hc, Option.some.injEq, exists_eq_left', ho.ne_gt]

theorem place_of_isFinite (h : x.isFinite) : place x = ((value x : ℝ) : EReal) := by
  obtain ⟨negative, mantissa, exponent, he⟩ := exists_exact h
  rw [place, value, he]
  rfl

theorem place_of_infinity {s : Sign} (h : x.toModel.unpack = .infinity s) :
    place x = if s == .negative then ⊥ else ⊤ := by
  unfold place Exact.ofFloat
  rw [h]
  cases s <;> rfl

theorem finite_or_infinity (h : x.isNaN = false) :
    x.isFinite ∨ ∃ s, x.toModel.unpack = .infinity s := by
  have h' : x.toModel.unpack.isNaN = false := h
  cases hu : x.toModel.unpack with
  | notANumber =>
    rw [hu] at h'
    cases h'
  | infinity s => exact .inr ⟨s, rfl⟩
  | zero | finite =>
    left
    change x.toModel.unpack.isFinite
    rw [hu]
    rfl

theorem compare_infinity {u : UnpackedFloat} (h : u.isFinite) (s : Sign) :
    u.compare (.infinity s) = some (if s == .negative then .gt else .lt) ∧
      (UnpackedFloat.infinity s).compare u = some (if s == .negative then .lt else .gt) := by
  cases u with
  | infinity | notANumber => cases h
  | zero => cases s <;> exact ⟨rfl, rfl⟩
  | finite t => cases s <;> cases t <;> exact ⟨rfl, rfl⟩

theorem compares_coe {o : Ordering} {a b : ℚ} (h : o.Compares a b) :
    o.Compares ((a : ℝ) : EReal) ((b : ℝ) : EReal) := by
  cases o with
  | lt => exact EReal.coe_lt_coe_iff.2 (Rat.cast_lt.2 h)
  | eq => exact congrArg (fun c : ℚ => ((c : ℝ) : EReal)) h
  | gt => exact EReal.coe_lt_coe_iff.2 (Rat.cast_lt.2 h)

/-- Doubles that are numbers compare as their places do. -/
theorem exists_compares_place (hx : x.isNaN = false) (hy : y.isNaN = false) :
    ∃ o, x.toModel.unpack.compare y.toModel.unpack = some o ∧ o.Compares (place x) (place y) := by
  rcases finite_or_infinity hx with hx | ⟨s, hu⟩
  · rw [place_of_isFinite hx]
    rcases finite_or_infinity hy with hy | ⟨t, hv⟩
    · obtain ⟨o, hc, ho⟩ := exists_compares_value hx hy
      rw [place_of_isFinite hy]
      exact ⟨o, hc, compares_coe ho⟩
    · rw [place_of_infinity hv, hv, (compare_infinity hx t).1]
      cases t with
      | negative => exact ⟨.gt, rfl, EReal.bot_lt_coe _⟩
      | positive => exact ⟨.lt, rfl, EReal.coe_lt_top _⟩
  · rw [place_of_infinity hu, hu]
    rcases finite_or_infinity hy with hy | ⟨t, hv⟩
    · rw [place_of_isFinite hy, (compare_infinity hy s).2]
      cases s with
      | negative => exact ⟨.lt, rfl, EReal.bot_lt_coe _⟩
      | positive => exact ⟨.gt, rfl, EReal.coe_lt_top _⟩
    · rw [place_of_infinity hv, hv]
      cases s with
      | negative =>
        cases t with
        | negative => exact ⟨.eq, rfl, rfl⟩
        | positive => exact ⟨.lt, rfl, bot_lt_top⟩
      | positive =>
        cases t with
        | negative => exact ⟨.gt, rfl, bot_lt_top⟩
        | positive => exact ⟨.eq, rfl, rfl⟩

theorem compare_of_isNaN (h : x.isNaN ∨ y.isNaN) :
    x.toModel.unpack.compare y.toModel.unpack = none := by
  rcases h with hx | hy
  · have hu : x.toModel.unpack = .notANumber := isNaN_iff.1 hx
    rw [hu]
    rfl
  · have hv : y.toModel.unpack = .notANumber := isNaN_iff.1 hy
    rw [hv]
    cases x.toModel.unpack <;> rfl

theorem lt_iff_place : x < y ↔ x.isNaN = false ∧ y.isNaN = false ∧ place x < place y := by
  by_cases h : x.isNaN ∨ y.isNaN
  · rw [lt_iff_compare, compare_of_isNaN h]
    refine iff_of_false nofun ?_
    rintro ⟨hx, hy, -⟩
    rw [hx, hy] at h
    exact h.elim nofun nofun
  · simp only [not_or, Bool.not_eq_true] at h
    obtain ⟨o, hc, ho⟩ := exists_compares_place h.1 h.2
    simp only [lt_iff_compare, hc, Option.some.injEq, ho.eq_lt, h, true_and]

theorem le_of_not_lt (hx : x.isNaN = false) (hy : y.isNaN = false) (h : ¬ y < x) : x ≤ y := by
  obtain ⟨o, hc, ho⟩ := exists_compares_place hx hy
  have hp : ¬ place y < place x := fun hp => h (lt_iff_place.2 ⟨hy, hx, hp⟩)
  exact le_iff_compare.2 ⟨o, hc, ho.ne_gt.2 (not_lt.1 hp)⟩

theorem beq_of_not_lt (hx : x.isNaN = false) (hy : y.isNaN = false) (h : ¬ x < y)
    (h' : ¬ y < x) : x == y := by
  obtain ⟨o, hc, ho⟩ := exists_compares_place hx hy
  have hp : place x = place y := by
    apply le_antisymm
    · exact not_lt.1 fun hp => h' (lt_iff_place.2 ⟨hy, hx, hp⟩)
    · exact not_lt.1 fun hp => h (lt_iff_place.2 ⟨hx, hy, hp⟩)
  change (x.toModel.unpack.compare y.toModel.unpack == some .eq) = true
  rw [hc, ho.eq_eq.2 hp]
  rfl

end Double

end TurtlePlot
