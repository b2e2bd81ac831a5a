import TurtlePlot.Heading
import TurtlePlot.Proofs.Rounding

namespace TurtlePlot.Double

open Float.Model Float.Model.UnpackedFloat

variable {k : Int}

section Components

variable (sign : Sign) {exponent : BitVec 11} (mantissa : BitVec 52)

theorem within_of_subnormal (hk : -1022 ≤ k) :
    Within k (unpack .binary64 (packComponents .binary64 sign 0#11 mantissa)) := by
  unfold UnpackedFloat.unpack
  simp only [unpackExponent_packComponents, unpackMantissa_packComponents,
    unpackSign_packComponents, Sign.ofBitVec_toBitVec]
  rw [if_neg (by decide), if_pos trivial]
  split
  · trivial
  · obtain ⟨j, hj⟩ := Int.le.dest hk
    refine ⟨52 + j, ?_, by omega, ?_⟩
    · change (-1074 : Int) + (52 + j : Nat) = k
      omega
    · exact (Nat.le_of_lt mantissa.isLt).trans (Nat.pow_le_pow_right (by decide) (by omega))

theorem unpack_of_normal (h₀ : exponent ≠ 0#11) (h₁ : exponent ≠ -1#11) :
    ∃ hm, unpack .binary64 (packComponents .binary64 sign exponent mantissa) =
      .finite sign (2 ^ 52 + mantissa.toNat) (exponent.toNat - 1075) hm := by
  unfold UnpackedFloat.unpack
  simp only [unpackExponent_packComponents, unpackMantissa_packComponents,
    unpackSign_packComponents, Sign.ofBitVec_toBitVec]
  rw [if_neg h₁, if_neg h₀]
  have hm : (1#1 ++ mantissa).toNat = 2 ^ 52 + mantissa.toNat := by
    rw [BitVec.toNat_append, ← Nat.shiftLeft_add_eq_or_of_lt mantissa.isLt]
    rfl
  refine ⟨by omega, ?_⟩
  simp only [hm]
  rfl

end Components

theorem pack_finite {sign : Sign} {m : Nat} {e : Int} (hm : 0 < m) (he : e ≤ 971) :
    pack .binary64 (.finite sign m e hm) =
      if m.log2 = 52 then
        packComponents .binary64 sign (BitVec.ofNat 11 (e + 1075).toNat) (BitVec.ofNat 52 m)
      else packComponents .binary64 sign 0#11 (BitVec.ofNat 52 m) := by
  have hb : (e + Format.binary64.exponentBias + Format.binary64.mantissaBitsWithoutImplicit).toNat =
      (e + 1075).toNat := congrArg Int.toNat (Int.add_assoc e 1023 52)
  have hl : m.log2 + 1 = Format.binary64.mantissaBits ↔ m.log2 = 52 := Nat.succ_inj
  rw [UnpackedFloat.pack]
  simp only [hb, hl]
  rw [if_neg]
  change ¬ 2048 ≤ (e + 1075).toNat + 1
  omega

theorem unpack_pack_finite (sign : Sign) {m : Nat} {e : Int} (hm : 0 < m) (he : e ≤ 971) :
    unpack .binary64 (pack .binary64 (.finite sign m e hm)) = .finite sign m e hm ∨
      ∃ mantissa, pack .binary64 (.finite sign m e hm) =
        packComponents .binary64 sign 0#11 mantissa := by
  rw [pack_finite hm he]
  split
  case isFalse => exact .inr ⟨_, rfl⟩
  case isTrue hl =>
    obtain ⟨hlo, hhi⟩ := (Nat.log2_eq_iff (Nat.ne_of_gt hm)).1 hl
    rcases Nat.eq_zero_or_pos (e + 1075).toNat with hz | hpos
    · rw [hz]
      exact .inr ⟨_, rfl⟩
    · have hx : (BitVec.ofNat 11 (e + 1075).toNat).toNat = (e + 1075).toNat := by
        rw [BitVec.toNat_ofNat, Nat.mod_eq_of_lt (by omega)]
      have h₀ : BitVec.ofNat 11 (e + 1075).toNat ≠ 0#11 := by
        intro h
        rw [h] at hx
        exact Nat.ne_of_lt hpos hx
      have h₁ : BitVec.ofNat 11 (e + 1075).toNat ≠ -1#11 := by
        intro h
        rw [h, show (-1#11).toNat = 2047 from rfl] at hx
        omega
      obtain ⟨_, hu⟩ := unpack_of_normal sign (BitVec.ofNat 52 m) h₀ h₁
      have hm₂ : 2 ^ 52 + (BitVec.ofNat 52 m).toNat = m := by
        rw [BitVec.toNat_ofNat]
        omega
      have he₂ : ((e + 1075).toNat : Int) - 1075 = e := by omega
      left
      rw [hu]
      simp only [hx, hm₂, he₂]

/-- Packing keeps a number within a power of two that doubles have. -/
theorem Within.unpack_pack {x : UnpackedFloat} (h : Within k x) (hl : -1022 ≤ k) (hk : k ≤ 1023) :
    Within k (unpack .binary64 (pack .binary64 x)) := by
  cases x with
  | infinity | notANumber => cases h
  | zero sign =>
    rw [UnpackedFloat.pack, unpack_packedZero]
    trivial
  | finite sign m e hm =>
    obtain ⟨j, he, hj, -⟩ := id h
    rcases unpack_pack_finite sign hm (show e ≤ 971 by omega) with hu | ⟨mantissa, hp⟩
    · rw [hu]
      exact h
    · rw [hp]
      exact within_of_subnormal sign mantissa hl

theorem Within.isFinite {x : UnpackedFloat} (h : Within k x) : x.isFinite := by
  cases x with
  | infinity | notANumber => cases h
  | zero | finite => rfl

theorem isFinite_unpack_pack {sign : Sign} {m : Nat} {e : Int} (hm : 0 < m) (he : e ≤ 971) :
    (unpack .binary64 (pack .binary64 (.finite sign m e hm))).isFinite := by
  rcases unpack_pack_finite sign hm he with hu | ⟨mantissa, hp⟩
  · rw [hu]
    rfl
  · rw [hp]
    exact (within_of_subnormal (k := 0) sign mantissa (by decide)).isFinite

theorem unpack_packedInfinity (sign : Sign) :
    unpack .binary64 (packedInfinity .binary64 sign) = .infinity sign := by
  cases sign <;> rfl

theorem unpack_pack_of_large {sign : Sign} {m : Nat} {e : Int} (hm : 0 < m) (he : 972 ≤ e) :
    unpack .binary64 (pack .binary64 (.finite sign m e hm)) = .infinity sign := by
  have hb : 2 ^ Format.binary64.exponentBits ≤
      (e + Format.binary64.exponentBias + Format.binary64.mantissaBitsWithoutImplicit).toNat + 1 := by
    change 2048 ≤ (e + 1023 + 52).toNat + 1
    omega
  rw [UnpackedFloat.pack]
  simp only [if_pos hb]
  exact unpack_packedInfinity sign

theorem exponent_unpack_le {bits : BitVec 64} {sign : Sign} {m : Nat} {hm : 0 < m} {e : Int}
    (h : unpack .binary64 bits = .finite sign m e hm) : e ≤ 971 := by
  have hle (x : BitVec 11) (hx : x ≠ -1#11) : (x.toNat : Int) - 1075 ≤ 971 := by
    have hn : x.toNat ≠ 2047 := fun hx₂ => hx (BitVec.eq_of_toNat_eq hx₂)
    omega
  unfold UnpackedFloat.unpack at h
  simp only at h
  split at h
  case isTrue => split at h <;> cases h
  case isFalse hx =>
    split at h
    case isFalse =>
      obtain ⟨-, -, rfl⟩ := UnpackedFloat.finite.inj h
      exact hle _ hx
    case isTrue h₀ =>
      split at h
      · cases h
      · obtain ⟨-, -, rfl⟩ := UnpackedFloat.finite.inj h
        rw [h₀]
        decide

theorem isFinite_neg (x : Float) : (-x).isFinite = x.isFinite := by
  change (unpack .binary64 (pack .binary64 x.toModel.unpack.neg)).isFinite =
    x.toModel.unpack.isFinite
  cases hu : x.toModel.unpack with
  | infinity sign =>
    rw [UnpackedFloat.neg, UnpackedFloat.pack, unpack_packedInfinity]
    rfl
  | notANumber =>
    rw [UnpackedFloat.neg, UnpackedFloat.pack, unpack_packedNaN]
  | zero sign =>
    rw [UnpackedFloat.neg, UnpackedFloat.pack, unpack_packedZero]
    rfl
  | finite sign m e hm => exact isFinite_unpack_pack hm (exponent_unpack_le hu)

theorem isFinite_of_unpack_pack {x : UnpackedFloat}
    (h : (unpack .binary64 (pack .binary64 x)).isFinite) : x.isFinite := by
  cases x with
  | infinity sign =>
    rw [UnpackedFloat.pack, unpack_packedInfinity] at h
    cases h
  | notANumber =>
    rw [UnpackedFloat.pack, unpack_packedNaN] at h
    cases h
  | zero | finite => rfl

theorem isFinite_of_add {x y : Float} (h : (x + y).isFinite) : x.isFinite ∧ y.isFinite := by
  have hs : (UnpackedFloat.add .binary64 x.toModel.unpack y.toModel.unpack).isFinite :=
    isFinite_of_unpack_pack h
  change x.toModel.unpack.isFinite ∧ y.toModel.unpack.isFinite
  cases hx : x.toModel.unpack with
  | notANumber =>
    rw [hx] at hs
    cases hs
  | infinity s =>
    rw [hx] at hs
    cases hy : y.toModel.unpack with
    | infinity t =>
      rw [hy, UnpackedFloat.add] at hs
      split at hs <;> cases hs
    | notANumber | zero | finite =>
      rw [hy] at hs
      cases hs
  | zero | finite =>
    rw [hx] at hs
    cases hy : y.toModel.unpack with
    | infinity | notANumber =>
      rw [hy] at hs
      cases hs
    | zero | finite => exact ⟨rfl, rfl⟩

theorem isFinite_zero_add (x : Float) : (0 + x).isFinite = x.isFinite := by
  change (unpack .binary64 (pack .binary64
    (UnpackedFloat.add .binary64 (.zero .positive) x.toModel.unpack))).isFinite =
      x.toModel.unpack.isFinite
  cases hu : x.toModel.unpack with
  | infinity sign =>
    have ha : UnpackedFloat.add .binary64 (.zero .positive) (.infinity sign) = .infinity sign := rfl
    rw [ha, UnpackedFloat.pack, unpack_packedInfinity]
  | notANumber =>
    have ha : UnpackedFloat.add .binary64 (.zero .positive) .notANumber = .notANumber := rfl
    rw [ha, UnpackedFloat.pack, unpack_packedNaN]
  | zero sign => cases sign <;> rfl
  | finite sign m e hm => exact isFinite_unpack_pack hm (exponent_unpack_le hu)

theorem isFinite_of_mul {x y : Float} (h : (x * y).isFinite) : x.isFinite ∧ y.isFinite := by
  have hp : (UnpackedFloat.mul .binary64 x.toModel.unpack y.toModel.unpack).isFinite :=
    isFinite_of_unpack_pack h
  change x.toModel.unpack.isFinite ∧ y.toModel.unpack.isFinite
  cases hx : x.toModel.unpack with
  | notANumber | infinity =>
    rw [hx] at hp
    cases hy : y.toModel.unpack with
    | notANumber | infinity | zero | finite =>
      rw [hy] at hp
      cases hp
  | zero | finite =>
    rw [hx] at hp
    cases hy : y.toModel.unpack with
    | infinity | notANumber =>
      rw [hy] at hp
      cases hp
    | zero | finite => exact ⟨rfl, rfl⟩

/-- A double that is finite and at most a power of two. -/
def AtMost (k : Int) (x : Float) : Prop :=
  Within k x.toModel.unpack

section Doubles

variable {x y : Float} {l : Int}

theorem AtMost.isInf_eq_false (h : AtMost k x) : x.isInf = false := by
  have hx : x.isInf = x.toModel.unpack.isInf := rfl
  rw [AtMost] at h
  rw [hx]
  cases hu : x.toModel.unpack with
  | infinity =>
    rw [hu] at h
    cases h
  | notANumber | zero | finite => rfl

theorem AtMost.mono (h : AtMost k x) (hl : k ≤ l) : AtMost l x :=
  Within.mono h hl

theorem AtMost.isFinite (h : AtMost k x) : x.isFinite :=
  Within.isFinite h

theorem AtMost.add (hx : AtMost k x) (hy : AtMost l y) (hl : l + 54 ≤ k) (hk : -1022 ≤ k)
    (hk' : k ≤ 1023) : AtMost k (x + y) :=
  (Within.add hx hy hl hk).unpack_pack hk hk'

theorem AtMost.mul (hx : AtMost k x) (hy : AtMost l y) (hl : -1022 ≤ k + l) (hk : k + l ≤ 1023) :
    AtMost (k + l) (x * y) :=
  (Within.mul hx hy hl).unpack_pack hl hk

theorem AtMost.neg (h : AtMost k x) (hl : -1022 ≤ k) (hk : k ≤ 1023) : AtMost k (-x) := by
  have hn : Within k x.toModel.unpack.neg := by
    rw [AtMost] at h
    cases hu : x.toModel.unpack with
    | infinity | notANumber =>
      rw [hu] at h
      cases h
    | zero => trivial
    | finite =>
      rw [hu] at h
      exact h
  exact hn.unpack_pack hl hk

theorem atMost_one : AtMost 0 1 :=
  ⟨52, rfl, le_rfl, le_rfl⟩

theorem ofScientific_zero {n : Nat} (hn : n ≠ 0) :
    UnpackedFloat.ofScientific .binary64 n 0 =
      roundWithAccuracy .binary64 .positive (n * 2 ^ 53) (-53) .exact := by
  have hl : ¬ (0 : Int) < -((2 ^ Format.binary64.exponentBits : Int) + n.log2) := by
    have hp : (0 : Int) ≤ 2 ^ Format.binary64.exponentBits := by decide
    omega
  rw [UnpackedFloat.ofScientific, dif_neg hn, if_neg (by decide), if_neg hl, if_pos (by decide)]
  simp only [UnpackedFloat.mul, Nat.shiftLeft_eq]
  change roundWithAccuracy .binary64 .positive (n * 2 ^ 53 * 1) (-53) .exact = _
  rw [Nat.mul_one]

theorem atMost_ofNat {n j : Nat} (hn : n ≤ 2 ^ j) (hj : j ≤ 1023) : AtMost j (Float.ofNat n) := by
  by_cases hs : n < 2 ^ 53 ∧ 0 ≤ 22
  · have hf : Float.ofNat n = n.toUInt64.toFloat * 1 := dif_pos hs
    have hu : n.toUInt64.toNat = n := Nat.mod_eq_of_lt (by omega)
    have hw : Within j (ofInt .binary64 n.toUInt64.toNat) := within_ofInt (by rwa [hu])
    have hx : AtMost j n.toUInt64.toFloat := hw.unpack_pack (by omega) (by omega)
    rw [hf, ← Int.add_zero (j : Int)]
    exact hx.mul atMost_one (by omega) (by omega)
  · have hf : Float.ofNat n = .ofModel (Float.Model.ofScientific n 0) := dif_neg hs
    have hw : Within j (roundWithAccuracy .binary64 .positive (n * 2 ^ 53) (-53) .exact) := by
      refine within_roundWithAccuracy (j := j + 53) (by omega) (by omega) (by omega) (.inr ⟨rfl, ?_⟩) _
      have hp := Nat.two_pow_pos j
      rw [Nat.pow_add]
      omega
    rw [hf, Float.Model.ofScientific, ofScientific_zero (by omega)]
    exact hw.unpack_pack (by omega) (by omega)

theorem atMost_ofInt {n : Int} {j : Nat} (hn : n.natAbs ≤ 2 ^ j) (hj : j ≤ 1023) :
    AtMost j (Float.ofInt n) := by
  cases n with
  | ofNat n => exact atMost_ofNat hn hj
  | negSucc n => exact (atMost_ofNat hn hj).neg (by omega) (by omega)

end Doubles

/-- The midpoint between the greatest double and the power of two after it. -/
@[irreducible] def halfway : Nat :=
  (2 ^ 54 - 1) * 2 ^ 970

theorem halfway_mul_two_pow (b : Nat) : halfway * 2 ^ b = (2 ^ 54 - 1) * 2 ^ (970 + b) := by
  unfold halfway
  rw [Nat.mul_assoc, ← Nat.pow_add]

theorem le_halfway : 2 ^ 53 ≤ halfway := by
  have hle (a : Nat) : 2 ^ 53 ≤ (2 ^ 54 - 1) * 2 ^ a :=
    Nat.le_trans (by decide) (Nat.le_mul_of_pos_right _ (Nat.two_pow_pos a))
  unfold halfway
  exact hle 970

/-- A whole number is rounded to a finite double below the midpoint after the greatest one. -/
theorem isFinite_round_iff {n b : Nat} {e : Int} (he : e + b = 0) (sign : Sign) :
    (unpack .binary64 (pack .binary64
      (roundWithAccuracy .binary64 sign (n * 2 ^ b) e .exact))).isFinite ↔ n < halfway := by
  have hi : e + (970 + b : Nat) = 970 := by omega
  rcases Nat.lt_or_ge n halfway with hlt | hle
  · refine iff_of_true ?_ hlt
    have hm : n * 2 ^ b < (2 ^ 54 - 1) * 2 ^ (970 + b) :=
      halfway_mul_two_pow b ▸ Nat.mul_lt_mul_of_pos_right hlt (Nat.two_pow_pos b)
    cases hr : roundWithAccuracy .binary64 sign (n * 2 ^ b) e .exact with
    | finite sign m e hm₀ => exact isFinite_unpack_pack hm₀ (exponent_le_of_lt hi hm hr)
    | zero sign =>
      rw [UnpackedFloat.pack, unpack_packedZero]
      rfl
    | infinity | notANumber =>
      rw [roundWithAccuracy_eq] at hr
      split at hr <;> cases hr
  · refine iff_of_false ?_ (Nat.not_lt.2 hle)
    have hm : (2 ^ 54 - 1) * 2 ^ (970 + b) ≤ n * 2 ^ b :=
      halfway_mul_two_pow b ▸ Nat.mul_le_mul_right _ hle
    obtain ⟨m, e, hm₀, hr, he⟩ := roundWithAccuracy_of_le hi hm sign
    rw [hr, unpack_pack_of_large hm₀ he]
    exact Bool.false_ne_true

theorem isFinite_ofNat_iff (n : Nat) : (Float.ofNat n).isFinite ↔ n < halfway := by
  by_cases hs : n < 2 ^ 53 ∧ 0 ≤ 22
  · exact iff_of_true (atMost_ofNat (Nat.le_of_lt hs.1) (by decide)).isFinite
      (hs.1.trans_le le_halfway)
  · have hf : Float.ofNat n = .ofModel (Float.Model.ofScientific n 0) := dif_neg hs
    rw [hf, Float.Model.ofScientific, ofScientific_zero (by omega)]
    exact isFinite_round_iff (by decide) .positive

theorem isFinite_ofInt_iff (n : Int) : (Float.ofInt n).isFinite ↔ n.natAbs < halfway := by
  cases n with
  | ofNat n => exact isFinite_ofNat_iff n
  | negSucc n =>
    change (-Float.ofNat (n + 1)).isFinite ↔ _
    rw [isFinite_neg]
    exact isFinite_ofNat_iff (n + 1)

theorem atMost_pi : AtMost 2 pi :=
  ⟨53, rfl, by decide, by decide⟩

theorem AtMost.radians {x : Float} (h : AtMost k x) (hl : -1022 ≤ k + 2) (hk : k + 2 ≤ 1023) :
    AtMost (k + 2) (radians x) := by
  have hc : (180 : Float).toModel.unpack =
      .finite .positive (180 * 2 ^ 45) (-(45 : Nat)) (by decide) := rfl
  have hd : Within (k + 2) ((x * pi).toModel.unpack.div .binary64 (180 : Float).toModel.unpack) := by
    rw [hc]
    exact Within.div (h.mul atMost_pi hl hk) (by decide) (by decide) hl
  exact hd.unpack_pack hl hk

theorem atMost_north : AtMost 9 north :=
  ⟨61, rfl, by decide, by decide⟩

end TurtlePlot.Double
