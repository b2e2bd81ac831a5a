import TurtlePlot.Decimal.Fixed

namespace TurtlePlot

namespace Text

/-- Printable in ASCII and no blank. -/
def IsVisible (c : Char) : Prop :=
  ' ' < c ∧ c ≤ '~'

instance : DecidablePred IsVisible :=
  fun c => inferInstanceAs (Decidable (' ' < c ∧ c ≤ '~'))

def Visible (text : List Char) : Prop :=
  ∀ c ∈ text, IsVisible c

instance : DecidablePred Visible :=
  fun text => List.decidableBAll IsVisible text

variable {c : Char} {text more : List Char}

theorem visible_cons : Visible (c :: text) ↔ IsVisible c ∧ Visible text :=
  List.forall_mem_cons

theorem visible_append : Visible (text ++ more) ↔ Visible text ∧ Visible more :=
  List.forall_mem_append

theorem isVisible_of_isDigit (h : c.isDigit) : IsVisible c := by
  simp only [Char.isDigit, Bool.and_eq_true, decide_eq_true_eq] at h
  exact ⟨Std.lt_of_lt_of_le (show ' ' < '0' by decide) h.1,
    Char.le_trans h.2 (show '9' ≤ '~' by decide)⟩

theorem Visible.not_mem (h : Visible text) (hc : ¬ IsVisible c) : c ∉ text :=
  fun hm => hc (h c hm)

theorem visible_toDigits (n : Nat) : Visible (Nat.toDigits 10 n) :=
  fun _ hd => isVisible_of_isDigit (Nat.isDigit_of_mem_toDigits (by decide) (by decide) hd)

theorem visible_toString (n : Int) : Visible (toString n).toList := by
  rw [Int.toString_eq_repr, Int.repr_eq_if]
  split
  case isTrue =>
    rw [Nat.toList_repr]
    exact visible_toDigits _
  case isFalse =>
    rw [String.toList_append, Nat.toList_repr]
    exact visible_cons.2 ⟨by decide, visible_toDigits _⟩

end Text

namespace Decimal

open Text

theorem visible_placed (places n : Nat) : Visible (placed places n) := by
  have hz : Visible (List.replicate (places + 1 - (Nat.toDigits 10 n).length) '0') := by
    intro c hc
    rw [List.eq_of_mem_replicate hc]
    decide
  have hd : Visible ((Nat.toDigits 10 n).leftpad (places + 1) '0') :=
    visible_append.2 ⟨hz, visible_toDigits n⟩
  simp only [placed]
  split
  · exact hd
  · refine visible_append.2 ⟨fun c hc => hd c (List.mem_of_mem_take hc), ?_⟩
    exact visible_cons.2 ⟨by decide, fun c hc => hd c (List.mem_of_mem_drop hc)⟩

theorem visible_fixed (places : Nat) (x : Float) : Visible (fixed places x) := by
  have hs (negative : Bool) : Visible (sign negative) := by
    cases negative <;> decide
  unfold fixed
  split
  · decide
  · exact visible_append.2 ⟨hs _, by decide⟩
  · exact visible_append.2 ⟨hs _, visible_placed _ _⟩

theorem mem_of_mem_trimEnd {c d : Char} {text : List Char} (h : d ∈ trimEnd c text) : d ∈ text := by
  rw [trimEnd, List.mem_reverse] at h
  exact List.mem_reverse.1 ((List.dropWhile_suffix _).mem h)

end Decimal

end TurtlePlot
