import TurtlePlot.Decimal.Exact
import TurtlePlot.Proofs.Magnitude

namespace TurtlePlot.Decimal

open Float.Model Float.Model.UnpackedFloat

/-- The bits of the double whose size is `mantissa * 2 ^ binade` least positive doubles. -/
def finiteBits (negative : Bool) (mantissa binade : Nat) : Nat :=
  (if negative then 2 ^ 63 else 0) + (binade * 2 ^ 52 + mantissa)

variable {negative : Bool} {mantissa binade : Nat} {exponent : Int} {x : Float} {r : Ratio}

theorem toNat_packComponents (sign : Sign) (e : BitVec 11) (m : BitVec 52) :
    (packComponents .binary64 sign e m).toNat =
      finiteBits (sign == .negative) m.toNat e.toNat := by
  have hs : (sign.toBitVec ++ e).toNat = sign.toBitVec.toNat * 2 ^ 11 + e.toNat := by
    rw [BitVec.toNat_append, ← Nat.shiftLeft_add_eq_or_of_lt e.isLt, Nat.shiftLeft_eq]
  have hp : (packComponents .binary64 sign e m).toNat =
      (sign.toBitVec ++ e).toNat * 2 ^ 52 + m.toNat := by
    rw [packComponents, BitVec.toNat_append, ← Nat.shiftLeft_add_eq_or_of_lt m.isLt,
      Nat.shiftLeft_eq]
  rw [hp, hs, finiteBits]
  cases sign with
  | negative =>
    change (1 * 2 ^ 11 + e.toNat) * 2 ^ 52 + m.toNat = 2 ^ 63 + _
    omega
  | positive =>
    change (0 * 2 ^ 11 + e.toNat) * 2 ^ 52 + m.toNat = 0 + _
    omega

/-- What the bits of a finite double say of its size. -/
structure Exact.Packed (x : Float) (negative : Bool) (mantissa binade : Nat) : Prop where
  bits : x.toBits.toNat = finiteBits negative mantissa binade
  mantissa_lt : mantissa < 2 ^ 53
  normal : binade = 0 ∨ 2 ^ 52 ≤ mantissa
  binade_lt : binade < 2046

theorem exists_components (x : Float) : ∃ (sign : Sign) (e : BitVec 11) (m : BitVec 52),
    x.toModel.toBits.toBitVec = packComponents .binary64 sign e m := by
  have h (bits : BitVec Format.binary64.numBits) := 
    (packComponents_unpackSign_unpackExponent_unpackMantissa bits).symm
  exact ⟨_, _, _, h _⟩

theorem unpack_of_no_exponent (sign : Sign) (m : BitVec 52) :
    unpack .binary64 (packComponents .binary64 sign 0#11 m) = .zero sign ∧ m.toNat = 0 ∨
      ∃ hm, unpack .binary64 (packComponents .binary64 sign 0#11 m) =
        .finite sign m.toNat (-1074) hm := by
  unfold UnpackedFloat.unpack
  simp only [unpackExponent_packComponents, unpackMantissa_packComponents,
    unpackSign_packComponents, Sign.ofBitVec_toBitVec]
  rw [if_neg (by decide), if_pos trivial]
  split
  case isTrue h => exact .inl ⟨rfl, congrArg BitVec.toNat h⟩
  case isFalse h =>
    exact .inr ⟨Nat.pos_of_ne_zero fun hm => h (BitVec.eq_of_toNat_eq hm), rfl⟩

theorem not_finite_of_all_exponent (sign : Sign) (m : BitVec 52) :
    (unpack .binary64 (packComponents .binary64 sign (-1#11) m)).isFinite = false := by
  unfold UnpackedFloat.unpack
  simp only [unpackExponent_packComponents, unpackMantissa_packComponents,
    unpackSign_packComponents, Sign.ofBitVec_toBitVec]
  rw [if_pos trivial]
  split <;> rfl

theorem Exact.packed_of_finite (h : Exact.ofFloat x = .finite negative mantissa exponent) :
    ∃ binade : Nat, Packed x negative mantissa binade ∧
      (mantissa = 0 ∨ exponent = binade - 1074) := by
  obtain ⟨sign, e, m, hx⟩ := exists_components x
  have hb : x.toBits.toNat = finiteBits (sign == .negative) m.toNat e.toNat := by
    rw [← toNat_packComponents, ← hx]
    rfl
  have hu : x.toModel.unpack = unpack .binary64 (packComponents .binary64 sign e m) :=
    congrArg (unpack .binary64) hx
  have hm := m.isLt
  rw [Exact.ofFloat, hu] at h
  by_cases h₀ : e = 0#11
  · subst h₀
    rcases unpack_of_no_exponent sign m with ⟨hz, hm₀⟩ | ⟨_, hf⟩
    · rw [hz] at h
      obtain ⟨rfl, rfl, rfl⟩ := Exact.finite.inj h
      rw [hm₀] at hb
      exact ⟨0, ⟨hb, by omega, .inl rfl, by omega⟩, .inl rfl⟩
    · rw [hf] at h
      obtain ⟨rfl, rfl, rfl⟩ := Exact.finite.inj h
      exact ⟨0, ⟨hb, by omega, .inl rfl, by omega⟩, .inr rfl⟩
  · by_cases h₁ : e = -1#11
    · subst h₁
      have hf := not_finite_of_all_exponent sign m
      split at h
      case h_3 hz | h_4 hz =>
        rw [hz] at hf
        cases hf
      all_goals cases h
    · obtain ⟨_, hf⟩ := Double.unpack_of_normal sign m h₀ h₁
      rw [hf] at h
      obtain ⟨rfl, rfl, rfl⟩ := Exact.finite.inj h
      have he : 0 < e.toNat := Nat.pos_of_ne_zero fun he => h₀ (BitVec.eq_of_toNat_eq he)
      have hlt : e.toNat ≠ 2047 := fun he => h₁ (BitVec.eq_of_toNat_eq he)
      have hle := e.isLt
      -- The highest bit of a normal mantissa is not stored; with it the exponent counts one less.
      have hp : finiteBits (sign == .negative) m.toNat e.toNat =
          finiteBits (sign == .negative) (2 ^ 52 + m.toNat) (e.toNat - 1) := by
        unfold finiteBits
        omega
      refine ⟨e.toNat - 1, ⟨hb.trans hp, by omega, .inr (Nat.le_add_right _ _), by omega⟩, ?_⟩
      right
      omega

/-- A size is a whole count of units of `2 ^ -k`. -/
def Ratio.Counts (r : Ratio) (k count : Nat) : Prop :=
  r.num * Nat.pow 2 k = count * r.den

theorem Ratio.round_mul {n den : Nat} (h : 0 < den) : Ratio.round ⟨n * den, den⟩ = n := by
  have hd : n * den / den = n := Nat.mul_div_cancel n h
  have hm : n * den % den = 0 := Nat.mul_mod_left n den
  simp only [round, hd, hm, Nat.mul_zero, h, true_or, if_true]

theorem log2_mul_two_pow (hn : binade = 0 ∨ 2 ^ 52 ≤ mantissa) (hm : mantissa < 2 ^ 53) :
    (mantissa * 2 ^ binade).log2 - 52 = binade := by
  rcases hn with rfl | hn
  · rw [Nat.pow_zero, Nat.mul_one]
    exact Nat.sub_eq_zero_of_le (Double.log2_le_of_lt hm)
  · have hpos : 0 < 2 ^ binade := Nat.two_pow_pos binade
    have hlog : (mantissa * 2 ^ binade).log2 = 52 + binade := by
      refine (Nat.log2_eq_iff (Nat.mul_ne_zero (by omega) (Nat.ne_of_gt hpos))).2 ⟨?_, ?_⟩
      · rw [Nat.pow_add]
        exact Nat.mul_le_mul_right _ hn
      · rw [Nat.add_right_comm, Nat.pow_add]
        exact Nat.mul_lt_mul_of_pos_right hm hpos
    rw [hlog, Nat.add_sub_cancel_left]

/-- The nearest double to a size that is one is this double. -/
theorem Ratio.nearestBits_eq {k : Nat} (hk : k = 1074) (hd : 0 < r.den)
    (hu : r.Counts k (mantissa * 2 ^ binade)) (hn : binade = 0 ∨ 2 ^ 52 ≤ mantissa)
    (hm : mantissa < 2 ^ 53) : r.nearestBits = binade * 2 ^ 52 + mantissa := by
  have hp : 0 < r.den * Nat.pow 2 binade := Nat.mul_pos hd (Nat.two_pow_pos binade)
  have hr : mantissa * 2 ^ binade * r.den = mantissa * (r.den * Nat.pow 2 binade) := by
    rw [Nat.mul_assoc, Nat.mul_comm (2 ^ binade)]
    rfl
  have hq : mantissa * 2 ^ binade * r.den / r.den = mantissa * 2 ^ binade :=
    Nat.mul_div_cancel _ hd
  unfold Counts at hu
  simp only [nearestBits, ← hk, hu, hq, log2_mul_two_pow hn hm]
  rw [hr, round_mul hp]
  rfl

theorem Ratio.nearest_eq (hx : Exact.Packed x negative mantissa binade) (hd : 0 < r.den)
    (hu : r.Counts 1074 (mantissa * 2 ^ binade)) : r.nearest negative = x := by
  have hle : r.nearestBits ≤ infinityBits := by
    rw [nearestBits_eq rfl hd hu hx.normal hx.mantissa_lt]
    have hb := hx.binade_lt
    have hm := hx.mantissa_lt
    change _ ≤ 0x7ff * 2 ^ 52
    omega
  have hbits : (if negative then Nat.pow 2 63 + r.nearestBits else r.nearestBits) =
      x.toBits.toNat := by
    rw [hx.bits, nearestBits_eq rfl hd hu hx.normal hx.mantissa_lt, finiteBits]
    cases negative with
    | true => rfl
    | false => exact (Nat.zero_add _).symm
  simp only [nearest, Nat.min_eq_left hle, hbits]
  rw [Nat.toUInt64_eq, UInt64.ofNat_toNat, Float.ofBits_toBits]

theorem Ratio.den_dyadic_pos (mantissa : Nat) (exponent : Int) :
    0 < (dyadic mantissa exponent).den := by
  unfold dyadic
  split
  · exact Nat.one_pos
  · exact Nat.two_pow_pos _

theorem Ratio.den_scale_pos (h : 0 < r.den) (power : Int) : 0 < (r.scale power).den := by
  unfold scale
  split
  · exact h
  · exact Nat.mul_pos h (Nat.pow_pos (by decide))

theorem Ratio.counts_dyadic {k : Nat} (hm : mantissa = 0 ∨ exponent = binade - k) :
    (dyadic mantissa exponent).Counts k (mantissa * 2 ^ binade) := by
  unfold Counts dyadic
  rcases hm with rfl | hm
  · split <;> simp only [Nat.zero_mul]
  · split
    case isTrue he =>
      have hb : binade = exponent.toNat + k := by omega
      simp only [hb, Nat.pow_eq, Nat.pow_add, Nat.mul_one, Nat.mul_assoc]
    case isFalse he =>
      have hb : k = binade + (-exponent).toNat := by omega
      simp only [hb, Nat.pow_eq, Nat.pow_add, Nat.mul_assoc]

theorem Ratio.Counts.of_same {s : Ratio} {k count : Nat} (hu : s.Counts k count) (hd : 0 < s.den)
    (hs : r.num * s.den = s.num * r.den) : r.Counts k count := by
  unfold Counts at hu ⊢
  refine Nat.eq_of_mul_eq_mul_right hd ?_
  calc r.num * Nat.pow 2 k * s.den = r.num * s.den * Nat.pow 2 k := by ac_rfl
    _ = s.num * Nat.pow 2 k * r.den := by rw [hs]; ac_rfl
    _ = count * r.den * s.den := by rw [hu]; ac_rfl

/-- A decimal that is exactly a finite double is read as this double. -/
theorem ofDecimal_eq (h : Exact.ofFloat x = .finite negative mantissa exponent) {digits : Nat}
    {power : Int} (hl : -401 - (digits.log2 : Int) ≤ power) (hp : power ≤ 400)
    (hs : ((Ratio.mk digits 1).scale power).num * (Ratio.dyadic mantissa exponent).den =
      (Ratio.dyadic mantissa exponent).num * ((Ratio.mk digits 1).scale power).den) :
    ofDecimal negative digits power = x := by
  obtain ⟨binade, hx, hm⟩ := Exact.packed_of_finite h
  have hclamp : max (-401 - (digits.log2 : Int)) (min power 400) = power := by omega
  simp only [ofDecimal, hclamp]
  refine Ratio.nearest_eq hx (Ratio.den_scale_pos Nat.one_pos power) ?_
  exact (Ratio.counts_dyadic hm).of_same (Ratio.den_dyadic_pos mantissa exponent) hs

end TurtlePlot.Decimal

namespace TurtlePlot.Double

open Float.Model Float.Model.UnpackedFloat Decimal

theorem unpack_neg (x : Float) : (-x).toModel.unpack = x.toModel.unpack.neg := by
  change unpack .binary64 (pack .binary64 x.toModel.unpack.neg) = x.toModel.unpack.neg
  obtain ⟨sign, e, m, hx⟩ := exists_components x
  have hu : x.toModel.unpack = unpack .binary64 (packComponents .binary64 sign e m) :=
    congrArg (unpack .binary64) hx
  have hm := m.isLt
  by_cases h₀ : e = 0#11
  · subst h₀
    rcases unpack_of_no_exponent sign m with ⟨hz, -⟩ | ⟨hp, hf⟩
    · rw [hu, hz]
      exact unpack_packedZero
    · have hl : m.toNat.log2 ≠ 52 := Nat.ne_of_lt ((Nat.log2_lt (Nat.ne_of_gt hp)).2 hm)
      rw [hu, hf, UnpackedFloat.neg, pack_finite hp (by decide), if_neg hl, BitVec.ofNat_toNat,
        BitVec.setWidth_eq]
      rcases unpack_of_no_exponent (-sign) m with ⟨-, hz⟩ | ⟨_, hn⟩
      · exact absurd hz (Nat.ne_of_gt hp)
      · exact hn
  · by_cases h₁ : e = -1#11
    · subst h₁
      have hf := not_finite_of_all_exponent sign m
      rw [← hu] at hf
      cases hi : x.toModel.unpack with
      | infinity sign => exact unpack_packedInfinity _
      | notANumber => exact unpack_packedNaN
      | zero | finite =>
        rw [hi] at hf
        cases hf
    · obtain ⟨hp, hf⟩ := unpack_of_normal sign m h₀ h₁
      obtain ⟨_, hn⟩ := unpack_of_normal (-sign) m h₀ h₁
      have hl : (2 ^ 52 + m.toNat).log2 = 52 := by
        rw [Nat.log2_eq_iff (Nat.ne_of_gt hp)]
        omega
      have he : ((e.toNat : Int) - 1075 + 1075).toNat = e.toNat := by omega
      have hb : BitVec.ofNat 52 (2 ^ 52 + m.toNat) = m := by
        apply BitVec.eq_of_toNat_eq
        rw [BitVec.toNat_ofNat]
        omega
      have hle := e.isLt
      have h₁' : e.toNat ≠ 2047 := fun he => h₁ (BitVec.eq_of_toNat_eq he)
      rw [hu, hf, UnpackedFloat.neg, pack_finite hp (by omega), if_pos hl, he, hb,
        BitVec.ofNat_toNat, BitVec.setWidth_eq, hn]

theorem neg_beq_neg (x y : Float) : (-x == -y) = (x == y) := by
  change ((-x).toModel.unpack.compare (-y).toModel.unpack == some .eq) =
    (x.toModel.unpack.compare y.toModel.unpack == some .eq)
  rw [unpack_neg, unpack_neg]
  generalize x.toModel.unpack = u
  generalize y.toModel.unpack = v
  cases u with
  | notANumber => rfl
  | infinity s =>
    cases v with
    | infinity t => cases s <;> cases t <;> rfl
    | notANumber | zero | finite => cases s <;> rfl
  | zero s =>
    cases v with
    | infinity t | finite t => cases t <;> rfl
    | notANumber | zero => rfl
  | finite s =>
    cases v with
    | infinity t => cases s <;> cases t <;> rfl
    | notANumber | zero => cases s <;> rfl
    | finite t =>
      have hs (o : Ordering) : (some o.swap == some Ordering.eq) = (some o == some Ordering.eq) := by
        cases o <;> rfl
      cases s with
      | negative =>
        cases t with
        | negative => exact (hs _).symm
        | positive => rfl
      | positive =>
        cases t with
        | negative => rfl
        | positive => exact hs _

end TurtlePlot.Double
