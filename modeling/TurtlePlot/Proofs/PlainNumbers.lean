import TurtlePlot.Proofs.Double
import TurtlePlot.Proofs.VisibleText

namespace TurtlePlot.Decimal

/-- Digits, of which there is at least one. -/
structure Digits (text : List Char) : Prop where
  ne_nil : text ≠ []
  isDigit : ∀ c ∈ text, c.isDigit

/-- A number in plain notation: a minus or none, digits, and perhaps a point with digits after it. -/
inductive Plain : List Char → Prop
  | whole (negative : Bool) {whole : List Char} (hw : Digits whole) : Plain (sign negative ++ whole)
  | fraction (negative : Bool) {whole fraction : List Char} (hw : Digits whole)
      (hf : Digits fraction) : Plain (sign negative ++ (whole ++ '.' :: fraction))

/-- What is written for doubles that are no finite number. -/
def names : List (List Char) :=
  ["nan".toList, "inf".toList, "-inf".toList]

variable {whole fraction text : List Char} {c : Char}

theorem Plain.mem (h : Plain text) (hc : c ∈ text) : c.isDigit ∨ c = '-' ∨ c = '.' := by
  have hs (negative : Bool) (h : c ∈ sign negative) : c = '-' := by
    cases negative with
    | true => exact List.mem_singleton.1 h
    | false => cases h
  cases h with
  | whole negative hw =>
    rcases List.mem_append.1 hc with h | h
    · exact .inr (.inl (hs negative h))
    · exact .inl (hw.isDigit c h)
  | fraction negative hw hf =>
    rcases List.mem_append.1 hc with h | h
    · exact .inr (.inl (hs negative h))
    · rcases List.mem_append.1 h with h | h
      · exact .inl (hw.isDigit c h)
      · rcases List.mem_cons.1 h with rfl | h
        · exact .inr (.inr rfl)
        · exact .inl (hf.isDigit c h)

theorem not_plain_of_mem_names (h : text ∈ names) : ¬ Plain text := by
  intro hp
  have hn : ∀ text ∈ names, 'n' ∈ text := by decide
  have hc : ¬ ('n'.isDigit ∨ 'n' = '-' ∨ 'n' = '.') := by decide
  exact hc (hp.mem (hn text h))

theorem digits_leftpad (places n : Nat) :
    Digits ((Nat.toDigits 10 n).leftpad (places + 1) '0') where
  ne_nil := List.append_ne_nil_of_right_ne_nil _ Nat.toDigits_ne_nil
  isDigit := by
    intro c hc
    rcases List.mem_append.1 hc with hz | hd
    · rw [List.eq_of_mem_replicate hz]
      rfl
    · exact Nat.isDigit_of_mem_toDigits (by decide) (by decide) hd

theorem plain_placed (negative : Bool) (places n : Nat) :
    Plain (sign negative ++ placed places n) := by
  have hd := digits_leftpad places n
  have hl : places + 1 ≤ ((Nat.toDigits 10 n).leftpad (places + 1) '0').length := by
    rw [List.leftpad, List.length_append, List.length_replicate]
    omega
  simp only [placed]
  generalize (Nat.toDigits 10 n).leftpad (places + 1) '0' = digits at hd hl
  split
  case isTrue => exact .whole negative hd
  case isFalse hp =>
    apply Plain.fraction
    · constructor
      · apply List.ne_nil_of_length_pos
        rw [List.length_take]
        omega
      · intro c hc
        exact hd.isDigit c (List.mem_of_mem_take hc)
    · constructor
      · apply List.ne_nil_of_length_pos
        rw [List.length_drop]
        omega
      · intro c hc
        exact hd.isDigit c (List.mem_of_mem_drop hc)

theorem trimEnd_concat (c d : Char) (text : List Char) :
    trimEnd c (text ++ [d]) = if d == c then trimEnd c text else text ++ [d] :=
  List.rdropWhile_concat _ _ _

theorem trimEnd_append_cons {d : Char} (h : d ≠ c) (before after : List Char) :
    trimEnd c (before ++ d :: after) = before ++ d :: trimEnd c after := by
  induction after using List.reverseRecOn with
  | nil => rw [trimEnd_concat, if_neg (by simpa using h)]; rfl
  | append_singleton after e ih =>
    rw [← List.cons_append, ← List.append_assoc, trimEnd_concat, trimEnd_concat, ih]
    split
    · rfl
    · rw [List.append_assoc, List.cons_append]

theorem trimEnd_of_digits (hc : c.isDigit = false) (before : List Char) (hw : Digits whole) :
    trimEnd c (before ++ whole) = before ++ whole := by
  rcases List.eq_nil_or_concat whole with hn | ⟨digits, d, rfl⟩
  · exact absurd hn hw.ne_nil
  · rw [List.concat_eq_append] at hw ⊢
    have hne : d ≠ c := by
      rintro rfl
      have hd := hw.isDigit d (List.mem_append_right _ List.mem_cons_self)
      cases hc.symm.trans hd
    rw [← List.append_assoc, trimEnd_concat, if_neg (by simpa using hne)]

/-- Digits behind a point, which is left out where there are none. -/
def pointed (fraction : List Char) : List Char :=
  if fraction = [] then [] else '.' :: fraction

theorem trimEnd_fraction (before : List Char) (hw : Digits whole)
    (hf : ∀ d ∈ fraction, d.isDigit) :
    trimEnd '.' (trimEnd '0' (before ++ (whole ++ '.' :: fraction))) =
      before ++ (whole ++ pointed (trimEnd '0' fraction)) := by
  rw [pointed, ← List.append_assoc, trimEnd_append_cons (by decide)]
  by_cases hn : trimEnd '0' fraction = []
  · rw [if_pos hn, hn, trimEnd_concat, if_pos (beq_self_eq_true '.'), trimEnd_of_digits rfl _ hw,
      List.append_nil]
  · have ht : Digits (trimEnd '0' fraction) := ⟨hn, fun d hd => hf d (mem_of_mem_trimEnd hd)⟩
    rw [if_neg hn, List.append_cons, trimEnd_of_digits rfl _ ht, ← List.append_cons,
      List.append_assoc]

theorem plain_pointed (negative : Bool) (hw : Digits whole) (hf : ∀ d ∈ fraction, d.isDigit) :
    Plain (sign negative ++ (whole ++ pointed fraction)) := by
  unfold pointed
  split
  case isTrue =>
    rw [List.append_nil]
    exact .whole negative hw
  case isFalse hn => exact .fraction negative hw ⟨hn, hf⟩

theorem plain_trimmed (h : Plain text) :
    Plain (if '.' ∈ text then trimEnd '.' (trimEnd '0' text) else text) := by
  split
  case isFalse => exact h
  case isTrue hp =>
    cases h with
    | @whole negative digits hw =>
      have hd : '.' ∈ digits := by
        rcases List.mem_append.1 hp with hs | hd
        · cases negative <;> simp [sign] at hs
        · exact hd
      cases hw.isDigit '.' hd
    | fraction negative hw hf =>
      rw [trimEnd_fraction _ hw hf.isDigit]
      exact plain_pointed negative hw fun d hd => hf.isDigit d (mem_of_mem_trimEnd hd)

section Doubles

variable (places : Nat) {x : Float}

theorem plain_fixed (h : x.isFinite) : Plain (fixed places x) := by
  obtain ⟨negative, mantissa, exponent, he⟩ := Double.exists_exact h
  simp only [fixed, he]
  exact plain_placed negative places _

theorem fixed_mem_names (h : ¬ x.isFinite) : fixed places x ∈ names := by
  have hf : ¬ x.toModel.unpack.isFinite := h
  unfold fixed Exact.ofFloat
  cases hu : x.toModel.unpack with
  | notANumber => exact List.mem_cons_self
  | infinity s =>
    cases s with
    | positive => exact .tail _ List.mem_cons_self
    | negative => exact .tail _ (.tail _ List.mem_cons_self)
  | zero | finite =>
    rw [hu] at hf
    exact absurd rfl hf

theorem plain_rounded (h : x.isFinite) : Plain (rounded places x) := by
  have hz : (if x == 0 then 0 else x).isFinite := by
    split
    · rfl
    · exact h
  have ht := plain_trimmed (plain_fixed places hz)
  simp only [rounded]
  generalize (if '.' ∈ fixed places (if x == 0 then 0 else x) then
    trimEnd '.' (trimEnd '0' (fixed places (if x == 0 then 0 else x)))
    else fixed places (if x == 0 then 0 else x)) = trimmed at ht
  split
  · exact .whole false ⟨List.cons_ne_nil _ _, List.forall_mem_singleton.2 rfl⟩
  · exact ht

theorem rounded_mem_names (h : ¬ x.isFinite) : rounded places x ∈ names := by
  have hz : ¬ (x == 0) := by
    intro hx
    obtain rfl | rfl := Double.beq_zero_iff.1 hx
    · exact h rfl
    · exact h rfl
  have hn := fixed_mem_names places h
  have hp : ∀ text ∈ names, '.' ∉ text ∧ text ≠ ['-', '0'] := by decide
  obtain ⟨hd, hm⟩ := hp _ hn
  rw [rounded, if_neg hz, if_neg hd, if_neg hm]
  exact hn

theorem all_rounded {p : Char → Bool} (hd : ∀ c, c.isDigit → p c) (hm : p '-') (hp : p '.')
    (hn : names.all fun text => text.all p) (x : Float) : (rounded places x).all p := by
  by_cases hx : x.isFinite
  · apply List.all_eq_true.2
    intro c hc
    rcases (plain_rounded places hx).mem hc with h | rfl | rfl
    · exact hd c h
    · exact hm
    · exact hp
  · exact List.all_eq_true.1 hn _ (rounded_mem_names places hx)

/-- What is written for a double is a plain number exactly if it is finite. -/
theorem plain_fixed_iff : Plain (fixed places x) ↔ x.isFinite := by
  refine ⟨fun h => ?_, plain_fixed places⟩
  by_contra hx
  exact not_plain_of_mem_names (fixed_mem_names places hx) h

theorem plain_rounded_iff : Plain (rounded places x) ↔ x.isFinite := by
  refine ⟨fun h => ?_, plain_rounded places⟩
  by_contra hx
  exact not_plain_of_mem_names (rounded_mem_names places hx) h

end Doubles

end TurtlePlot.Decimal
