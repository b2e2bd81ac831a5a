import Mathlib
import TurtlePlot.Decimal.Fixed

namespace TurtlePlot.Double

/-- The same double, where zeros of either sign are one. -/
def Same (x y : Float) : Prop :=
  x = y ∨ x == 0 ∧ y == 0

variable {x y : Float}

theorem Same.refl (x : Float) : Same x x :=
  .inl rfl

theorem beq_zero_iff : x == 0 ↔ x = 0 ∨ x = -0 := by
  constructor
  · intro h
    obtain ⟨-, -, rfl | ⟨-, hz⟩ | ⟨rfl, -⟩⟩ := Float.beq_iff_ne_nan_and_eq.1 h
    · exact .inl rfl
    · cases hz
    · exact .inr rfl
  · rintro (rfl | rfl)
    · rfl
    · rfl

theorem same_of_beq (h : x == y) : Same x y := by
  obtain ⟨-, -, rfl | ⟨rfl, rfl⟩ | ⟨rfl, rfl⟩⟩ := Float.beq_iff_ne_nan_and_eq.1 h
  · exact .refl x
  · exact .inr ⟨rfl, rfl⟩
  · exact .inr ⟨rfl, rfl⟩

/-- The sign of zero shows in a sum only where the other term is zero too. -/
theorem same_add_zero (o : Float) : Same (o + 0) (o + -0) := by
  cases ho : o.toModel.unpack with
  | zero s =>
    have hz : o == 0 := by
      change (o.toModel.unpack.compare (0 : Float).toModel.unpack == some .eq) = true
      rw [ho]
      rfl
    obtain rfl | rfl := beq_zero_iff.1 hz
    · exact .inr ⟨rfl, rfl⟩
    · exact .inr ⟨rfl, rfl⟩
  | infinity | notANumber | finite =>
    have hs (z : Float) : o + z =
        .ofModel (.pack (.add .binary64 o.toModel.unpack z.toModel.unpack)) := rfl
    left
    rw [hs, hs, ho]
    rfl

theorem Same.symm (h : Same x y) : Same y x := by
  rcases h with rfl | ⟨hx, hy⟩
  · exact .refl x
  · exact .inr ⟨hy, hx⟩

theorem Same.add_left (h : Same x y) (o : Float) : Same (o + x) (o + y) := by
  rcases h with rfl | ⟨hx, hy⟩
  · exact .refl _
  · obtain ⟨rfl | rfl, rfl | rfl⟩ := And.intro (beq_zero_iff.1 hx) (beq_zero_iff.1 hy)
    · exact .refl _
    · exact same_add_zero o
    · exact (same_add_zero o).symm
    · exact .refl _

theorem Same.neg (h : Same x y) : Same (-x) (-y) := by
  rcases h with rfl | ⟨hx, hy⟩
  · exact .refl _
  · have hz {z : Float} (hz : z == 0) : -z == 0 := by
      obtain rfl | rfl := beq_zero_iff.1 hz
      · rfl
      · rfl
    exact .inr ⟨hz hx, hz hy⟩

open Decimal

theorem Same.rounded_eq (h : Same x y) (places : Nat) : rounded places x = rounded places y := by
  rcases h with rfl | ⟨hx, hy⟩
  · rfl
  · rw [rounded, rounded, if_pos hx, if_pos hy]

/-- A finite double denotes an exact number. -/
theorem exists_exact (h : x.isFinite) :
    ∃ negative mantissa exponent, Exact.ofFloat x = .finite negative mantissa exponent := by
  have hf : x.toModel.unpack.isFinite := h
  unfold Exact.ofFloat
  cases hu : x.toModel.unpack with
  | infinity | notANumber =>
    rw [hu] at hf
    cases hf
  | zero | finite => exact ⟨_, _, _, rfl⟩

end TurtlePlot.Double
