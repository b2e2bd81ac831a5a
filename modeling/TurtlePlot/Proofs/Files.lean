import TurtlePlot.Files.Tree

namespace TurtlePlot

namespace Text.Utf8

theorem byteArray_toList_loop (bytes : ByteArray) (i : Nat) (read : List UInt8) :
    ByteArray.toList.loop bytes i read = read.reverse ++ bytes.data.toList.drop i := by
  fun_induction ByteArray.toList.loop bytes i read with
  | case1 i read h ih =>
    have hi : i < bytes.data.toList.length := h
    have hg : bytes.get! i = bytes.data.toList[i] := by
      rw [ByteArray.get!, getElem!_pos bytes.data i h]
      rfl
    rw [ih, List.drop_eq_getElem_cons hi, hg, List.reverse_cons, List.append_assoc,
      List.singleton_append]
  | case2 i read h =>
    have hi : bytes.data.toList.length ≤ i := Nat.le_of_not_lt h
    rw [List.drop_eq_nil_of_le hi, List.append_nil]

theorem byteArray_toList (bytes : ByteArray) : bytes.toList = bytes.data.toList :=
  byteArray_toList_loop bytes 0 []

variable {room offset : Nat} {read : List Char} {rest : List UInt8} {c : Char}

theorem toNat_ofNat {n : Nat} (h : n < 256) : (UInt8.ofNat n).toNat = n := by
  rw [UInt8.toNat_ofNat', Nat.mod_eq_of_lt h]

theorem lead?_ofNat {n : Nat} (h : n < 256) :
    lead? (UInt8.ofNat n) =
      if n < 0xc2 then none
      else if n < 0xe0 then some (1, n - 0xc0, 0x80, 0xbf)
      else if n = 0xe0 then some (2, 0, 0xa0, 0xbf)
      else if n = 0xed then some (2, 0xd, 0x80, 0x9f)
      else if n < 0xf0 then some (2, n - 0xe0, 0x80, 0xbf)
      else if n = 0xf0 then some (3, 0, 0x90, 0xbf)
      else if n < 0xf4 then some (3, n - 0xf0, 0x80, 0xbf)
      else if n = 0xf4 then some (3, 4, 0x80, 0x8f)
      else none := by
  simp only [lead?, UInt8.lt_iff_toNat_lt, ← UInt8.toNat_inj, toNat_ofNat h]
  rfl

theorem lead?_two {a : Nat} (h : 2 ≤ a ∧ a < 32) :
    lead? (UInt8.ofNat (a + 192)) = some (1, a, 0x80, 0xbf) := by
  rw [lead?_ofNat (by omega), if_neg (by omega), if_pos (by omega), Nat.add_sub_cancel]

theorem lead?_three {a b : Nat} (ha : a < 16) (hb : b < 64) (hs : a = 0 → 32 ≤ b)
    (hd : a = 0xd → b < 32) :
    ∃ low high, lead? (UInt8.ofNat (a + 224)) = some (2, a, low, high) ∧
      low.toNat ≤ b + 128 ∧ b + 128 ≤ high.toNat := by
  rw [lead?_ofNat (by omega), if_neg (by omega), if_neg (by omega)]
  split
  case isTrue h =>
    obtain rfl : a = 0 := by omega
    exact ⟨0xa0, 0xbf, rfl, Nat.add_le_add_right (hs rfl) 128,
      Nat.add_le_add_right (Nat.le_of_lt_succ hb) 128⟩
  case isFalse =>
    split
    case isTrue h =>
      obtain rfl : a = 0xd := by omega
      exact ⟨0x80, 0x9f, rfl, Nat.le_add_left 128 b,
        Nat.add_le_add_right (Nat.le_of_lt_succ (hd rfl)) 128⟩
    case isFalse =>
      rw [if_pos (by omega), Nat.add_sub_cancel]
      exact ⟨0x80, 0xbf, rfl, Nat.le_add_left 128 b,
        Nat.add_le_add_right (Nat.le_of_lt_succ hb) 128⟩

theorem lead?_four {a b : Nat} (ha : a ≤ 4) (hb : b < 64) (hs : a = 0 → 16 ≤ b)
    (hd : a = 4 → b < 16) :
    ∃ low high, lead? (UInt8.ofNat (a + 240)) = some (3, a, low, high) ∧
      low.toNat ≤ b + 128 ∧ b + 128 ≤ high.toNat := by
  rw [lead?_ofNat (by omega), if_neg (by omega), if_neg (by omega), if_neg (by omega),
    if_neg (by omega), if_neg (by omega)]
  split
  case isTrue h =>
    obtain rfl : a = 0 := by omega
    exact ⟨0x90, 0xbf, rfl, Nat.add_le_add_right (hs rfl) 128,
      Nat.add_le_add_right (Nat.le_of_lt_succ hb) 128⟩
  case isFalse =>
    split
    case isTrue h =>
      rw [Nat.add_sub_cancel]
      exact ⟨0x80, 0xbf, rfl, Nat.le_add_left 128 b,
        Nat.add_le_add_right (Nat.le_of_lt_succ hb) 128⟩
    case isFalse =>
      obtain rfl : a = 4 := by omega
      exact ⟨0x80, 0x8f, rfl, Nat.le_add_left 128 b,
        Nat.add_le_add_right (Nat.le_of_lt_succ (hd rfl)) 128⟩

theorem tail_ofNat {low high : UInt8} {count used code b : Nat} (h : b < 64)
    (hl : low.toNat ≤ b + 128) (hh : b + 128 ≤ high.toNat) :
    tail low high (count + 1) used code (UInt8.ofNat (b + 128) :: rest) =
      tail 0x80 0xbf count (used + 1) (code * 64 + b) rest := by
  have hb : (UInt8.ofNat (b + 128)).toNat = b + 128 := toNat_ofNat (by omega)
  simp only [tail, UInt8.le_iff_toNat_le, hb, Nat.add_sub_cancel]
  exact if_pos ⟨hl, hh⟩

theorem tail_next {count used code b : Nat} (h : b < 64) :
    tail 0x80 0xbf (count + 1) used code (UInt8.ofNat (b + 128) :: rest) =
      tail 0x80 0xbf count (used + 1) (code * 64 + b) rest :=
  tail_ofNat h (Nat.le_add_left 128 b) (Nat.add_le_add_right (Nat.le_of_lt_succ h) 128)

theorem charsFrom_lead {a count share : Nat} {more : List UInt8} {low high : UInt8}
    (ha : 0x80 ≤ a ∧ a < 256) (hl : lead? (UInt8.ofNat a) = some (count, share, low, high))
    (ht : tail low high count 1 share more = .ok (c.toNat, rest)) :
    charsFrom (room + 1) offset read (UInt8.ofNat a :: more) =
      charsFrom room (offset + count + 1) (c :: read) rest := by
  have hn : ¬ UInt8.ofNat a < 0x80 := by
    rw [UInt8.lt_iff_toNat_lt, toNat_ofNat ha.2]
    exact Nat.not_lt.2 ha.1
  simp only [charsFrom, if_neg hn, hl, ht, Char.ofNat_toNat]

theorem charsFrom_encodeChar (c : Char) :
    ∃ next, charsFrom (room + 1) offset read (String.utf8EncodeChar c ++ rest) =
      charsFrom room next (c :: read) rest := by
  have hv : c.toNat.isValidChar := c.valid
  have hn : c.val.toNat = c.toNat := rfl
  unfold Nat.isValidChar at hv
  simp only [String.utf8EncodeChar, hn]
  split
  case isTrue h =>
    have hc : (UInt8.ofNat c.toNat).toNat = c.toNat :=
      toNat_ofNat (Nat.lt_of_le_of_lt h (by decide))
    have ha : UInt8.ofNat c.toNat < 0x80 := by
      rw [UInt8.lt_iff_toNat_lt, hc]
      exact Nat.lt_succ_of_le h
    refine ⟨offset + 1, ?_⟩
    rw [List.singleton_append, charsFrom, if_pos ha, hc, Char.ofNat_toNat]
  case isFalse =>
    split
    case isTrue =>
      simp only [List.cons_append, List.nil_append]
      refine ⟨_, charsFrom_lead (by omega) (lead?_two (by omega)) ?_⟩
      rw [tail_next (by omega), tail]
      have : c.toNat / 64 % 32 * 64 + c.toNat % 64 = c.toNat := by omega
      rw [this]
    case isFalse =>
      split
      case isTrue =>
        obtain ⟨low, high, ha, hl, hh⟩ := lead?_three (a := c.toNat / 4096 % 16)
          (b := c.toNat / 64 % 64) (by omega) (by omega) (by omega) (by omega)
        simp only [List.cons_append, List.nil_append]
        refine ⟨_, charsFrom_lead (by omega) ha ?_⟩
        rw [tail_ofNat (by omega) hl hh, tail_next (by omega), tail]
        have : (c.toNat / 4096 % 16 * 64 + c.toNat / 64 % 64) * 64 + c.toNat % 64 = c.toNat := by
          omega
        rw [this]
      case isFalse =>
        obtain ⟨low, high, ha, hl, hh⟩ := lead?_four (a := c.toNat / 262144 % 8)
          (b := c.toNat / 4096 % 64) (by omega) (by omega) (by omega) (by omega)
        simp only [List.cons_append, List.nil_append]
        refine ⟨_, charsFrom_lead (by omega) ha ?_⟩
        rw [tail_ofNat (by omega) hl hh, tail_next (by omega), tail_next (by omega), tail]
        have : ((c.toNat / 262144 % 8 * 64 + c.toNat / 4096 % 64) * 64 + c.toNat / 64 % 64) * 64
            + c.toNat % 64 = c.toNat := by omega
        rw [this]

theorem charsFrom_flatMap (cs : List Char) (hr : cs.length ≤ room) :
    charsFrom room offset read (cs.flatMap String.utf8EncodeChar) = .ok (read.reverse ++ cs) := by
  induction cs generalizing room offset read with
  | nil =>
    rw [List.flatMap_nil, List.append_nil]
    cases room <;> rfl
  | cons c cs ih =>
    obtain ⟨room, rfl⟩ := Nat.exists_eq_add_one.2 (Nat.zero_lt_of_lt hr)
    rw [List.flatMap_cons]
    obtain ⟨next, hc⟩ := charsFrom_encodeChar c
    rw [hc, ih (Nat.le_of_succ_le_succ hr), List.reverse_cons, List.append_assoc,
      List.singleton_append]

theorem length_le_length_flatMap (cs : List Char) :
    cs.length ≤ (cs.flatMap String.utf8EncodeChar).length := by
  induction cs with
  | nil => exact Nat.le_refl 0
  | cons c cs ih =>
    have hc := c.utf8Size_pos
    rw [List.flatMap_cons, List.length_append, String.length_utf8EncodeChar, List.length_cons]
    omega

/-- A text is decoded from its bytes. -/
theorem decode_toUTF8 (s : String) : decode s.toUTF8 = .ok s := by
  have hb : s.toUTF8 = (s.toList.flatMap String.utf8EncodeChar).toByteArray := by
    rw [String.toUTF8_eq_toByteArray, ← List.utf8Encode, ← String.toByteArray_ofList,
      String.ofList_toList]
  have hl : s.toUTF8.data.toList = s.toList.flatMap String.utf8EncodeChar := by
    rw [hb, List.toList_data_toByteArray]
  have hs : s.toList.length ≤ s.toUTF8.size := by
    have h := length_le_length_flatMap s.toList
    rwa [← hl] at h
  rw [decode, byteArray_toList, hl, charsFrom_flatMap _ hs]
  exact congrArg Except.ok String.ofList_toList

end Text.Utf8

namespace FileTree

variable {t t' : FileTree} {way start : List String} {entry : Entry} {name : String}
  {content : ByteArray}

theorem lookup_filter_ne {w : List String} (hw : w ≠ way) (entries : List (List String × Entry)) :
    (entries.filter (·.1 ≠ way)).lookup w = entries.lookup w := by
  induction entries with
  | nil => rfl
  | cons first entries ih =>
    obtain ⟨v, e⟩ := first
    rw [List.filter_cons]
    split
    case isTrue => rw [List.lookup_cons, List.lookup_cons, ih]
    case isFalse h =>
      have hv : v = way := by simpa using h
      have hb : (w == v) = false := beq_false_of_ne (hv ▸ hw)
      rw [ih, List.lookup_cons, hb]

theorem lookup_put_self (hw : way ≠ []) : entry? (t.put way entry) way = some entry := by
  cases way with
  | nil => exact absurd rfl hw
  | cons part way => exact List.lookup_cons_self

theorem lookup_put_of_ne {w : List String} (hw : w ≠ way) :
    entry? (t.put way entry) w = t.entry? w := by
  cases w with
  | nil => rfl
  | cons part w =>
    have hb : (part :: w == way) = false := beq_false_of_ne hw
    have hl := lookup_filter_ne hw t.entries
    unfold entry? put
    simp only [List.lookup_cons, hb, hl]

theorem step_put (hd : t.entry? way ≠ some .directory) {w : List String} {part : String}
    (h : t.step start part = .ok w) : (t.put way entry).step start part = .ok w := by
  have hs : start ≠ way := by
    rintro rfl
    unfold step at h
    split at h
    case h_1 he => exact hd he
    all_goals cases h
  unfold step at h ⊢
  rwa [lookup_put_of_ne hs]

theorem foldlM_step_put (hd : t.entry? way ≠ some .directory) {parts : List String}
    {w : List String} (h : parts.foldlM t.step start = .ok w) :
    parts.foldlM (t.put way entry).step start = .ok w := by
  induction parts generalizing start with
  | nil => exact h
  | cons part parts ih =>
    rw [List.foldlM_cons] at h ⊢
    cases hs : t.step start part with
    | error problem =>
      rw [hs] at h
      cases h
    | ok next =>
      rw [hs] at h
      rw [step_put hd hs]
      exact ih h

theorem wayTo_put (hd : t.entry? way ≠ some .directory) {w : List String}
    (h : t.wayTo name = .ok w) : (t.put way entry).wayTo name = .ok w := by
  simp only [wayTo, follow] at h ⊢
  split at h
  case isTrue => cases h
  case isFalse hz =>
    split at h
    case isTrue => cases h
    case isFalse hn =>
      split at h
      case isTrue => cases h
      case isFalse hl =>
        rw [if_neg hz, if_neg hn, if_neg hl]
        exact foldlM_step_put hd h

/-- What is written to a file is read from it. -/
theorem read_write (h : t.write name content = .ok t') : t'.read name = .ok content := by
  unfold write at h
  split at h
  case isTrue =>
    cases hf : t.follow name ((parts name).dropLast ++ ["."]) with
    | error problem =>
      rw [hf] at h
      cases h
    | ok way =>
      rw [hf] at h
      cases h
  case isFalse hn =>
    cases hw : t.wayTo name with
    | error problem =>
      rw [hw] at h
      cases h
    | ok way =>
      rw [hw] at h
      have hd : t.entry? way ≠ some .directory := by
        intro hd
        simp only [bind, Except.bind, hd] at h
        cases h
      have hr : way ≠ [] := by
        rintro rfl
        exact hd rfl
      have ht : t.put way (.file content) = t' := by
        simp only [bind, Except.bind] at h
        exact Except.ok.inj h
      rw [← ht, read, wayTo_put hd hw]
      simp only [bind, Except.bind, lookup_put_self hr, if_neg hn]

theorem write_of_writeText {text : String}
    (h : (disk.writeText name text).run t = (.ok (), t')) :
    t.write name text.toUTF8 = .ok t' := by
  have hw : disk.writeText name text t =
      (((change (write name text.toUTF8) t).1.mapError (⟨·, name⟩)),
        (change (write name text.toUTF8) t).2) := rfl
  rw [StateT.run, hw, change] at h
  cases hr : t.write name text.toUTF8 with
  | error problem =>
    rw [hr] at h
    cases h
  | ok changed =>
    rw [hr] at h
    cases h
    rfl

/-- A text is read from the file that it was saved to. -/
theorem readText_of_saveText {text : String}
    (h : (disk.saveText name text).run t = (.ok (), t')) :
    (disk.readText name).run t' = (.ok text, t') := by
  have hs : ∃ made, (disk.writeText name text).run made = (.ok (), t') := by
    rw [Disk.saveText, StateT.run_bind] at h
    rcases hm : (disk.makeDirectories (Location.ofText name).parent).run t with ⟨result, made⟩
    rw [hm] at h
    cases result with
    | error fault => cases h
    | ok => exact ⟨made, h⟩
  obtain ⟨made, hw⟩ := hs
  have hr : t'.read name = .ok text.toUTF8 := read_write (write_of_writeText hw)
  have hd : (disk.read name).run t' = (.ok text.toUTF8, t') := congrArg (·, t') hr
  rw [Disk.readText, StateT.run_bind, hd]
  change ((Text.Utf8.decode text.toUTF8).mapError _, t') = _
  rw [Text.Utf8.decode_toUTF8]
  rfl

end FileTree

end TurtlePlot
