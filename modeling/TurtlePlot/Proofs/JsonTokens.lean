import TurtlePlot.Json.Printer
import TurtlePlot.Json.Reader

namespace TurtlePlot.Json

open Decimal

/-- The code units of a character: two surrogates beyond 16 bits. -/
def codeUnits (c : Char) : List Nat :=
  if c.toNat < 0x10000 then [c.toNat]
  else [0xd800 + (c.toNat - 0x10000) / 0x400, 0xdc00 + (c.toNat - 0x10000) % 0x400]

theorem hexValue?_hexDigit (n : Nat) : hexValue? (hexDigit n) = some (n % 16) := by
  have h : ∀ d < 16, hexValue? ("0123456789abcdef".toList.getD d '0') = some d := by decide
  exact h (n % 16) (Nat.mod_lt n (by decide))

theorem hexQuad?_hexDigits {unit : Nat} (h : unit < 0x10000) :
    hexQuad? (hexDigit (unit / 0x1000)) (hexDigit (unit / 0x100)) (hexDigit (unit / 0x10))
      (hexDigit unit) = some unit := by
  have hu : ((unit / 0x1000 % 16 * 16 + unit / 0x100 % 16) * 16 + unit / 0x10 % 16) * 16
      + unit % 16 = unit := by omega
  simp only [hexQuad?, hexValue?_hexDigit, Option.bind_eq_bind, Option.bind_some, Option.pure_def,
    hu]

variable {start rest : List Char} {units : List Nat} {unit : Nat} {c : Char}

theorem stringUnits_unicodeEscape (h : unit < 0x10000) (hr : rest ≠ []) :
    stringUnits start units (unicodeEscape unit ++ rest) =
      stringUnits start (unit :: units) rest := by
  have he : rest.isEmpty = false := by
    cases rest with
    | nil => exact absurd rfl hr
    | cons => rfl
  simp only [unicodeEscape, List.cons_append, List.nil_append, stringUnits, he,
    hexQuad?_hexDigits h, Bool.false_eq_true, if_false]

theorem stringUnits_plain (hq : c ≠ '"') (hb : c ≠ '\\') (hc : ¬ c < ' ') :
    stringUnits start units (c :: rest) = stringUnits start (c.toNat :: units) rest := by
  rw [stringUnits.eq_def]
  split
  case h_1 h => cases h
  case h_2 h => exact absurd (List.cons.inj h).1 hq
  case h_7 h =>
    obtain ⟨rfl, rfl⟩ := List.cons.inj h
    exact if_neg hc
  all_goals
    rename_i h
    exact absurd (List.cons.inj h).1 hb

theorem stringUnits_plainEscape {d : Char} (hu : d ≠ 'u') (hd : plainEscape? d = some c) :
    stringUnits start units ('\\' :: d :: rest) = stringUnits start (c.toNat :: units) rest := by
  rw [stringUnits.eq_def]
  split
  case h_6 h =>
    obtain ⟨rfl, rfl⟩ := List.cons.inj (List.cons.inj h).2
    rw [hd]
  case h_4 h => exact absurd (List.cons.inj (List.cons.inj h).2).1 hu
  case h_5 h => exact absurd (List.cons.inj (List.cons.inj h).2).1 hu
  case h_7 hn h =>
    obtain ⟨hc, hr⟩ := List.cons.inj h
    exact (hn _ _ hc.symm hr.symm).elim
  all_goals
    rename_i h
    cases h

theorem toNat_lt (c : Char) : c.toNat < 0x110000 := by
  have h := c.valid
  simp only [UInt32.isValidChar, Nat.isValidChar] at h
  have : c.toNat = c.val.toNat := rfl
  omega

theorem stringUnits_escape (c : Char) (hr : rest ≠ []) :
    stringUnits start units (escape c ++ rest) =
      stringUnits start ((codeUnits c).reverse ++ units) rest := by
  unfold escape
  split
  case h_8 hq hb _ _ _ _ _ =>
    split
    case isTrue h =>
      have hs : c.toNat < 0x10000 := Nat.lt_of_le_of_lt (show c.toNat ≤ 0x7e from h.2) (by decide)
      rw [codeUnits, if_pos hs]
      exact stringUnits_plain hq hb (Char.not_lt.2 h.1)
    case isFalse h =>
      split
      case isTrue hs =>
        rw [stringUnits_unicodeEscape hs hr, codeUnits, if_pos hs]
        rfl
      case isFalse hs =>
        have hc := toNat_lt c
        have hlow {unit : Nat} : unicodeEscape unit ++ rest ≠ [] := List.cons_ne_nil _ _
        rw [codeUnits, if_neg hs, List.append_assoc, stringUnits_unicodeEscape (by omega) hlow,
          stringUnits_unicodeEscape (by omega) hr]
        rfl
  all_goals exact stringUnits_plainEscape (by decide) rfl

theorem stringUnits_escapes (cs : List Char) :
    stringUnits start units (cs.flatMap escape ++ '"' :: rest) =
      .ok ((cs.flatMap codeUnits).reverse ++ units, rest) := by
  induction cs generalizing units with
  | nil => rfl
  | cons c cs ih =>
    rw [List.flatMap_cons, List.append_assoc,
      stringUnits_escape c (List.append_ne_nil_of_right_ne_nil _ (List.cons_ne_nil _ _)), ih,
      List.flatMap_cons, List.reverse_append, List.append_assoc]

theorem joinUnits_cons (h : ¬ (0xd800 ≤ unit ∧ unit < 0xdc00)) (more : List Nat) :
    joinUnits (unit :: more) =
      (if unit.isValidChar then Char.ofNat unit else '\ufffd') :: joinUnits more := by
  cases more with
  | nil => rfl
  | cons next more => rw [joinUnits, if_neg fun hs => h ⟨hs.1, hs.2.1⟩]

/-- No character is a surrogate, so units are joined only where a character had two of them. -/
theorem joinUnits_codeUnits (c : Char) (more : List Nat) :
    joinUnits (codeUnits c ++ more) = c :: joinUnits more := by
  have hv : c.toNat.isValidChar := c.valid
  by_cases hs : c.toNat < 0x10000
  · have hn : ¬ (0xd800 ≤ c.toNat ∧ c.toNat < 0xdc00) := by
      unfold Nat.isValidChar at hv
      omega
    rw [codeUnits, if_pos hs, List.singleton_append, joinUnits_cons hn, if_pos hv, Char.ofNat_toNat]
  · have hlt := toNat_lt c
    rw [codeUnits, if_neg hs, List.cons_append, List.singleton_append, joinUnits, if_pos (by omega)]
    have hc : 0x10000 + (0xd800 + (c.toNat - 0x10000) / 0x400 - 0xd800) * 0x400
        + (0xdc00 + (c.toNat - 0x10000) % 0x400 - 0xdc00) = c.toNat := by omega
    rw [hc, Char.ofNat_toNat]

theorem joinUnits_flatMap (cs : List Char) : joinUnits (cs.flatMap codeUnits) = cs := by
  induction cs with
  | nil => rfl
  | cons c cs ih => rw [List.flatMap_cons, joinUnits_codeUnits, ih]

/-- A quoted string is read back, whatever follows it. -/
theorem string_quoted (s : String) :
    string (s.toList.flatMap escape ++ '"' :: rest) = .ok (s, rest) := by
  simp only [string, stringUnits_escapes, List.append_nil, List.reverse_reverse, joinUnits_flatMap,
    String.ofList_toList]

/-- What may follow a numeral without becoming a part of it. -/
def EndsNumeral (rest : List Char) : Prop :=
  ∀ c ∈ rest.head?, c.isDigit = false ∧ c ∉ ['.', 'e', 'E']

theorem exists_digit_cons (n : Nat) : ∃ d ds, Nat.toDigits 10 n = d :: ds ∧ d.isDigit := by
  obtain ⟨d, ds, hd⟩ := List.exists_cons_of_ne_nil (Nat.toDigits_ne_nil (n := n) (b := 10))
  exact ⟨d, ds, hd, Nat.isDigit_of_mem_toDigits (by decide) (by decide) (hd ▸ List.mem_cons_self)⟩

theorem head?_toDigits {n : Nat} (h : 0 < n) : (Nat.toDigits 10 n).head? ≠ some '0' := by
  induction n using Nat.strongRecOn with
  | ind n ih =>
    rcases Nat.lt_or_ge n 10 with hlt | hge
    · rw [Nat.toDigits_of_lt_base hlt, List.head?_cons, Ne, Option.some.injEq,
        Nat.digitChar_eq_zero]
      exact Nat.ne_of_gt h
    · have hq := ih (n / 10) (by omega) (by omega)
      obtain ⟨d, ds, hd, -⟩ := exists_digit_cons (n / 10)
      rw [Nat.toDigits_of_base_le (by decide) hge, hd]
      rwa [hd] at hq

theorem wholePart?_toDigits (n : Nat) (hr : EndsNumeral rest) :
    Numeral.wholePart? (Nat.toDigits 10 n ++ rest) = some (Nat.toDigits 10 n, rest) := by
  rcases Nat.eq_zero_or_pos n with rfl | hn
  · rfl
  · obtain ⟨d, ds, hd, -⟩ := exists_digit_cons n
    have hz := head?_toDigits hn
    have hs : spanDigits (Nat.toDigits 10 n ++ rest) = (Nat.toDigits 10 n, rest) :=
      spanDigits_append (fun c hc => Nat.isDigit_of_mem_toDigits (by decide) (by decide) hc)
        fun c hc => (hr c hc).1
    rw [hd] at hz hs ⊢
    unfold Numeral.wholePart?
    split
    case h_1 h => exact absurd (congrArg some (List.cons.inj h).1) hz
    case h_2 => simp only [hs]

theorem fractionPart_eq (hr : EndsNumeral rest) : Numeral.fractionPart rest = ([], rest) := by
  unfold Numeral.fractionPart
  split
  case h_1 => exact absurd (by decide) (hr '.' rfl).2
  case h_2 => rfl

theorem exponentPart_eq (hr : EndsNumeral rest) : exponentPart rest = (none, rest) := by
  cases rest with
  | nil => rfl
  | cons c rest =>
    refine if_neg ?_
    rintro (rfl | rfl) <;> exact absurd (by decide) (hr _ rfl).2

theorem scan?_toDigits (n : Nat) (hr : EndsNumeral rest) :
    Numeral.scan? (Nat.toDigits 10 n ++ rest) =
        some (⟨false, Nat.toDigits 10 n, [], none⟩, rest) ∧
      Numeral.scan? ('-' :: (Nat.toDigits 10 n ++ rest)) =
        some (⟨true, Nat.toDigits 10 n, [], none⟩, rest) := by
  have hw := wholePart?_toDigits n hr
  constructor
  · obtain ⟨d, ds, hd, hdig⟩ := exists_digit_cons n
    rw [hd] at hw ⊢
    unfold Numeral.scan?
    split
    rename_i negative unsigned hs
    have hs : (false, d :: ds ++ rest) = (negative, unsigned) := by
      rw [← hs]
      split
      case h_1 h =>
        rw [(List.cons.inj h).1] at hdig
        exact absurd hdig (by decide)
      case h_2 => rfl
    cases hs
    simp only [hw, Option.map_some, fractionPart_eq hr, exponentPart_eq hr]
  · simp only [Numeral.scan?, hw, Option.map_some, fractionPart_eq hr, exponentPart_eq hr]

theorem number?_intText (n : Int) (hr : EndsNumeral rest) :
    number? (intText n ++ rest) = some (.int n, rest) := by
  obtain ⟨hpos, hneg⟩ := scan?_toDigits n.natAbs hr
  unfold intText number?
  split
  case isTrue h =>
    have hn : Numeral.toInt ⟨true, Nat.toDigits 10 n.natAbs, [], none⟩ = n := by
      rw [Numeral.toInt, Nat.ofDigitChars_ten_toDigits, if_pos rfl]
      omega
    rw [List.cons_append, hneg]
    exact congrArg (fun m => some (Json.int m, rest)) hn
  case isFalse h =>
    have hn : Numeral.toInt ⟨false, Nat.toDigits 10 n.natAbs, [], none⟩ = n := by
      rw [Numeral.toInt, Nat.ofDigitChars_ten_toDigits, if_neg Bool.false_ne_true]
      omega
    rw [hpos]
    exact congrArg (fun m => some (Json.int m, rest)) hn

end TurtlePlot.Json
