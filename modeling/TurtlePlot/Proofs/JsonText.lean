import TurtlePlot.Proofs.JsonTokens

namespace TurtlePlot

namespace Json

/-- Printable in ASCII, or the end of a line. -/
def IsPlain (c : Char) : Prop :=
  c = '\n' ∨ ' ' ≤ c ∧ c ≤ '~'

instance : DecidablePred IsPlain :=
  fun c => inferInstanceAs (Decidable (c = '\n' ∨ ' ' ≤ c ∧ c ≤ '~'))

/-- Text of printable ASCII and line ends. -/
def PlainText (text : List Char) : Prop :=
  ∀ c ∈ text, IsPlain c

instance : DecidablePred PlainText :=
  fun text => List.decidableBAll IsPlain text

/-- A double that is read back from the text that is written for it. -/
structure FloatLegible (x : Float) : Prop where
  plain : PlainText (floatText x)
  reads (inner? : Option (List Char → Reading Json)) {rest : List Char} (hr : EndsNumeral rest) :
    valueWith inner? (floatText x ++ rest) = .ok (.float x, rest)

/-- Data whose brackets nest within a depth, whose objects have no name twice, and whose doubles
are read back. -/
inductive Legible : (depth : Nat) → Json → Prop
  | null (depth : Nat) : Legible depth .null
  | bool (depth : Nat) (b : Bool) : Legible depth (.bool b)
  | int (depth : Nat) (n : Int) : Legible depth (.int n)
  | float (depth : Nat) {x : Float} (hx : FloatLegible x) : Legible depth (.float x)
  | str (depth : Nat) (s : String) : Legible depth (.str s)
  | arr {depth : Nat} {items : List Json} (h : ∀ item ∈ items, Legible depth item) :
      Legible (depth + 1) (.arr items)
  | obj {depth : Nat} {fields : List (String × Json)} (hk : (fields.map Prod.fst).Nodup)
      (h : ∀ field ∈ fields, Legible depth field.2) : Legible (depth + 1) (.obj fields)

/-- A value that is read, to a depth, from what is written for it in any layout. -/
def ReadsBack (depth : Nat) (j : Json) : Prop :=
  ∀ layout level rest, EndsNumeral rest →
    value depth (text layout level j ++ rest) = .ok (j, rest)

variable {layout : Layout} {level depth : Nat} {rest : List Char} {c : Char}

theorem skipBlanks_of_not_blank (h : isBlank c = false) (text : List Char) :
    skipBlanks (c :: text) = c :: text :=
  List.dropWhile_cons_of_neg (Bool.eq_false_iff.1 h)

theorem skipBlanks_replicate (n : Nat) (text : List Char) :
    skipBlanks (List.replicate n ' ' ++ text) = skipBlanks text := by
  induction n with
  | zero => rfl
  | succ n ih => exact ih

theorem skipBlanks_edge (layout : Layout) (level : Nat) (text : List Char) :
    skipBlanks (layout.edge level ++ text) = skipBlanks text := by
  cases layout with
  | inline => rfl
  | lines step => exact skipBlanks_replicate _ text

theorem separator_eq (layout : Layout) (level : Nat) :
    ∃ gap, layout.separator level = ',' :: gap ∧
      ∀ text, skipBlanks (gap ++ text) = skipBlanks text := by
  cases layout with
  | inline => exact ⟨[' '], rfl, fun _ => rfl⟩
  | lines step => exact ⟨_, rfl, skipBlanks_edge (.lines step) level⟩

theorem endsNumeral_cons (hd : c.isDigit = false) (hc : c ∉ ['.', 'e', 'E']) :
    EndsNumeral (c :: rest) := by
  intro d h
  obtain rfl := Option.some.inj h
  exact ⟨hd, hc⟩

theorem endsNumeral_edge (layout : Layout) (level : Nat) (h : EndsNumeral rest) :
    EndsNumeral (layout.edge level ++ rest) := by
  cases layout with
  | inline => exact h
  | lines step => exact endsNumeral_cons (by decide) (by decide)

theorem endsNumeral_separator (layout : Layout) (level : Nat) (rest : List Char) :
    EndsNumeral (layout.separator level ++ rest) := by
  obtain ⟨gap, hs, -⟩ := separator_eq layout level
  rw [hs]
  exact endsNumeral_cons (by decide) (by decide)

theorem value_eq_valueWith (depth : Nat) : ∃ inner?, value depth = valueWith inner? := by
  cases depth with
  | zero => exact ⟨_, rfl⟩
  | succ depth => exact ⟨_, rfl⟩

theorem head_of_value {text : List Char} {reading : Json × List Char}
    (h : value depth text = .ok reading) :
    ∃ c cs, text = c :: cs ∧ isBlank c = false ∧ c ≠ ']' := by
  obtain ⟨inner?, hv⟩ := value_eq_valueWith depth
  rw [hv] at h
  cases text with
  | nil => cases h
  | cons c cs =>
    refine ⟨c, cs, rfl, ?_, ?_⟩
    · rw [Bool.eq_false_iff]
      intro hb
      simp only [isBlank, Bool.or_eq_true, beq_iff_eq] at hb
      rcases hb with ((rfl | rfl) | rfl) | rfl <;> cases h
    · rintro rfl
      cases h

theorem ReadsBack.skipBlanks_text {j : Json} (h : ReadsBack depth j) (layout : Layout)
    (level : Nat) (hr : EndsNumeral rest) :
    skipBlanks (text layout level j ++ rest) = text layout level j ++ rest := by
  obtain ⟨c, cs, hc, hb, -⟩ := head_of_value (h layout level rest hr)
  rw [hc, skipBlanks_of_not_blank hb]

theorem endsNumeral_itemsText (layout : Layout) (level : Nat) (items : List Json)
    (rest : List Char) :
    EndsNumeral (itemsText layout (level + 1) items ++ (layout.edge level ++ ']' :: rest)) := by
  cases items with
  | nil => exact endsNumeral_edge layout level (endsNumeral_cons (by decide) (by decide))
  | cons item items =>
    rw [itemsText, List.append_assoc, List.append_assoc]
    exact endsNumeral_separator layout (level + 1) _

theorem itemsAfter_next {item next : Json} (hi : ReadsBack depth item)
    (hn : ∃ d, ReadsBack d next) (room : Nat) (before items : List Json) :
    itemsAfter (value depth) (room + 1) before (text layout (level + 1) item ++
        (itemsText layout (level + 1) (next :: items) ++ (layout.edge level ++ ']' :: rest))) =
      itemsAfter (value depth) room (item :: before) (text layout (level + 1) next ++
        (itemsText layout (level + 1) items ++ (layout.edge level ++ ']' :: rest))) := by
  obtain ⟨d, hn⟩ := hn
  have hv := hi layout (level + 1) _ (endsNumeral_itemsText layout level (next :: items) rest)
  have hb := hn.skipBlanks_text layout (level + 1) (endsNumeral_itemsText layout level items rest)
  obtain ⟨gap, hs, hg⟩ := separator_eq layout (level + 1)
  rw [itemsAfter, hv]
  simp only [bind, Except.bind, itemsText, hs, List.cons_append, List.append_assoc,
    skipBlanks_of_not_blank (c := ',') rfl, hg, hb]

theorem itemsAfter_text {item : Json} {items : List Json}
    (h : ∀ j ∈ item :: items, ReadsBack depth j) {room : Nat} (hr : items.length < room)
    (layout : Layout) (level : Nat) (before : List Json) (rest : List Char) :
    itemsAfter (value depth) room before (text layout (level + 1) item ++
        (itemsText layout (level + 1) items ++ (layout.edge level ++ ']' :: rest))) =
      .ok (before.reverse ++ item :: items, rest) := by
  induction items generalizing item room before with
  | nil =>
    obtain ⟨room, rfl⟩ := Nat.exists_eq_add_one.2 hr
    have hv := h item List.mem_cons_self layout (level + 1) _
      (endsNumeral_itemsText layout level [] rest)
    rw [itemsAfter, hv]
    simp only [bind, Except.bind, itemsText, List.nil_append, skipBlanks_edge,
      skipBlanks_of_not_blank (c := ']') rfl, List.reverse_cons]
    rfl
  | cons next items ih =>
    obtain ⟨room, rfl⟩ := Nat.exists_eq_add_one.2 (Nat.zero_lt_of_lt hr)
    have hi : ReadsBack depth item := h item List.mem_cons_self
    have hn : ReadsBack depth next := h next (List.mem_cons_of_mem _ List.mem_cons_self)
    rw [itemsAfter_next hi ⟨depth, hn⟩, ih (fun j hj => h j (List.mem_cons_of_mem _ hj))
      (Nat.lt_of_succ_lt_succ hr), List.reverse_cons, List.append_assoc, List.singleton_append]

theorem length_le_length_itemsText (layout : Layout) (level : Nat) (items : List Json) :
    items.length ≤ (itemsText layout level items).length := by
  induction items with
  | nil => exact Nat.le_refl 0
  | cons item items ih =>
    obtain ⟨gap, hs, -⟩ := separator_eq layout level
    simp only [itemsText, hs, List.cons_append, List.length_cons, List.length_append]
    omega

theorem endsNumeral_fieldsText (layout : Layout) (level : Nat) (fields : List (String × Json))
    (rest : List Char) :
    EndsNumeral
      (fieldsText layout (level + 1) fields ++ (layout.edge level ++ '\x7d' :: rest)) := by
  cases fields with
  | nil => exact endsNumeral_edge layout level (endsNumeral_cons (by decide) (by decide))
  | cons field fields =>
    rw [fieldsText, List.append_assoc, List.append_assoc, List.append_assoc, List.append_assoc]
    exact endsNumeral_separator layout (level + 1) _

theorem pairsAfter_quoted (item : List Char → Reading Json) (room : Nat)
    (before : List (String × Json)) (key : String) {body : List Char}
    (hs : skipBlanks body = body) :
    pairsAfter item (room + 1) before (quoted key ++ ':' :: ' ' :: body) =
      match item body with
      | .error stop => .error stop
      | .ok (j, rest) =>
        match skipBlanks rest with
        | '\x7d' :: rest => .ok (((key, j) :: before).reverse, rest)
        | ',' :: rest => pairsAfter item room ((key, j) :: before) (skipBlanks rest)
        | rest => .error (.problem .noComma rest) := by
  have hb : skipBlanks (' ' :: body) = body := hs
  simp only [pairsAfter, quoted, List.cons_append, List.append_assoc, List.nil_append,
    string_quoted, bind, Except.bind, skipBlanks_of_not_blank (c := ':') rfl, hb]
  cases item body <;> rfl

theorem pairsAfter_next {key name : String} {j k : Json} (hj : ReadsBack depth j) (room : Nat)
    (before fields : List (String × Json)) :
    pairsAfter (value depth) (room + 1) before (quoted key ++ ':' :: ' ' ::
        (text layout (level + 1) j ++ (fieldsText layout (level + 1) ((name, k) :: fields) ++
          (layout.edge level ++ '\x7d' :: rest)))) =
      pairsAfter (value depth) room ((key, j) :: before) (quoted name ++ ':' :: ' ' ::
        (text layout (level + 1) k ++ (fieldsText layout (level + 1) fields ++
          (layout.edge level ++ '\x7d' :: rest)))) := by
  have he := endsNumeral_fieldsText layout level ((name, k) :: fields) rest
  have hq (text : List Char) : skipBlanks (quoted name ++ text) = quoted name ++ text :=
    skipBlanks_of_not_blank rfl _
  obtain ⟨gap, hs, hg⟩ := separator_eq layout (level + 1)
  rw [pairsAfter_quoted _ _ _ _ (hj.skipBlanks_text layout (level + 1) he),
    hj layout (level + 1) _ he]
  simp only [fieldsText, hs, List.cons_append, List.append_assoc, List.nil_append,
    skipBlanks_of_not_blank (c := ',') rfl, hg, hq]

theorem pairsAfter_text {key : String} {j : Json} {fields : List (String × Json)}
    (h : ∀ field ∈ (key, j) :: fields, ReadsBack depth field.2) {room : Nat}
    (hr : fields.length < room) (layout : Layout) (level : Nat) (before : List (String × Json))
    (rest : List Char) :
    pairsAfter (value depth) room before (quoted key ++ ':' :: ' ' :: (text layout (level + 1) j ++
        (fieldsText layout (level + 1) fields ++ (layout.edge level ++ '\x7d' :: rest)))) =
      .ok (before.reverse ++ (key, j) :: fields, rest) := by
  induction fields generalizing key j room before with
  | nil =>
    obtain ⟨room, rfl⟩ := Nat.exists_eq_add_one.2 hr
    have hj : ReadsBack depth j := h (key, j) List.mem_cons_self
    have he := endsNumeral_fieldsText layout level [] rest
    rw [pairsAfter_quoted _ _ _ _ (hj.skipBlanks_text layout (level + 1) he),
      hj layout (level + 1) _ he]
    simp only [fieldsText, List.nil_append, skipBlanks_edge,
      skipBlanks_of_not_blank (c := '\x7d') rfl, List.reverse_cons]
  | cons next fields ih =>
    obtain ⟨room, rfl⟩ := Nat.exists_eq_add_one.2 (Nat.zero_lt_of_lt hr)
    obtain ⟨name, k⟩ := next
    have hj : ReadsBack depth j := h (key, j) List.mem_cons_self
    rw [pairsAfter_next hj, ih (fun field hf => h field (List.mem_cons_of_mem _ hf))
      (Nat.lt_of_succ_lt_succ hr), List.reverse_cons, List.append_assoc, List.singleton_append]

theorem length_le_length_fieldsText (layout : Layout) (level : Nat)
    (fields : List (String × Json)) :
    fields.length ≤ (fieldsText layout level fields).length := by
  induction fields with
  | nil => exact Nat.le_refl 0
  | cons field fields ih =>
    obtain ⟨gap, hs, -⟩ := separator_eq layout level
    simp only [fieldsText, hs, List.cons_append, List.length_cons, List.length_append]
    omega

theorem foldl_put (fields before : List (String × Json))
    (h : ((before ++ fields).map Prod.fst).Nodup) :
    fields.foldl (fun fields (key, value) => Association.put key value fields) before =
      before ++ fields := by
  induction fields generalizing before with
  | nil => exact (List.append_nil before).symm
  | cons field fields ih =>
    obtain ⟨key, j⟩ := field
    rw [List.append_cons] at h ⊢
    have hk : key ∉ before.map Prod.fst := by
      intro hm
      rw [List.map_append, List.map_append, List.append_assoc] at h
      exact (List.nodup_append.1 h).2.2 key hm key List.mem_cons_self rfl
    simp only [List.foldl_cons, Association.put_of_not_mem hk, ih _ h]

theorem ofPairs_eq {fields : List (String × Json)} (h : (fields.map Prod.fst).Nodup) :
    ofPairs fields = .obj fields :=
  congrArg obj (foldl_put fields [] h)

theorem array_eq (item : List Char → Reading Json) {text more : List Char}
    (h : skipBlanks text = c :: more) (hc : c ≠ ']') :
    array item text = (itemsAfter item ((c :: more).length + 1) [] (c :: more)).map
      fun (items, rest) => (.arr items, rest) := by
  unfold array
  rw [h]
  split
  case h_1 he => exact absurd (List.cons.inj he).1 hc
  case h_2 => rfl

theorem value_arr {item : Json} (hi : ∃ d, ReadsBack d item) (items : List Json) :
    ∃ room, items.length < room ∧
      value (depth + 1) (text layout level (.arr (item :: items)) ++ rest) =
        (itemsAfter (value depth) room [] (text layout (level + 1) item ++
          (itemsText layout (level + 1) items ++ (layout.edge level ++ ']' :: rest)))).map
          fun (items, rest) => (.arr items, rest) := by
  obtain ⟨d, hi⟩ := hi
  have he := endsNumeral_itemsText layout level items rest
  have hs := (skipBlanks_edge layout (level + 1) _).trans
    (hi.skipBlanks_text layout (level + 1) he)
  obtain ⟨c, more, hc, -, hb⟩ := head_of_value (hi layout (level + 1) _ he)
  have hl := length_le_length_itemsText layout (level + 1) items
  refine ⟨(c :: more).length + 1, ?_, ?_⟩
  · rw [← hc, List.length_append, List.length_append]
    omega
  · rw [hc] at hs ⊢
    rw [← array_eq (value depth) hs hb, ← hc]
    simp only [text, List.cons_append, List.append_assoc, List.nil_append]
    rfl

theorem value_obj (key : String) (j : Json) (fields : List (String × Json)) :
    ∃ room, fields.length < room ∧
      value (depth + 1) (text layout level (.obj ((key, j) :: fields)) ++ rest) =
        (pairsAfter (value depth) room [] (quoted key ++ ':' :: ' ' ::
          (text layout (level + 1) j ++ (fieldsText layout (level + 1) fields ++
            (layout.edge level ++ '\x7d' :: rest))))).map
          fun (pairs, rest) => (ofPairs pairs, rest) := by
  have hs (text : List Char) :
      skipBlanks (layout.edge (level + 1) ++ (quoted key ++ text)) = quoted key ++ text :=
    (skipBlanks_edge layout (level + 1) _).trans (skipBlanks_of_not_blank rfl _)
  have hl := length_le_length_fieldsText layout (level + 1) fields
  refine ⟨(quoted key ++ ':' :: ' ' :: (text layout (level + 1) j ++ (fieldsText layout (level + 1)
    fields ++ (layout.edge level ++ '\x7d' :: rest)))).length + 1, ?_, ?_⟩
  · simp only [List.length_append, List.length_cons]
    omega
  · simp only [text, List.cons_append, List.append_assoc, List.nil_append]
    change Json.object (value depth) _ = _
    rw [Json.object, hs]
    rfl

theorem ReadsBack.array {items : List Json} (h : ∀ item ∈ items, ReadsBack depth item) :
    ReadsBack (depth + 1) (.arr items) := by
  intro layout level rest _
  cases items with
  | nil => rfl
  | cons item items =>
    obtain ⟨room, hr, hv⟩ := value_arr ⟨depth, h item List.mem_cons_self⟩ items
    rw [hv, itemsAfter_text h hr]
    rfl

theorem ReadsBack.object {fields : List (String × Json)} (hk : (fields.map Prod.fst).Nodup)
    (h : ∀ field ∈ fields, ReadsBack depth field.2) : ReadsBack (depth + 1) (.obj fields) := by
  intro layout level rest _
  cases fields with
  | nil => rfl
  | cons field fields =>
    obtain ⟨key, j⟩ := field
    obtain ⟨room, hr, hv⟩ := value_obj key j fields
    rw [hv, pairsAfter_text h hr, ← ofPairs_eq hk]
    rfl

theorem valueWith_of_number? (inner? : Option (List Char → Reading Json)) {text : List Char}
    {reading : Json × List Char} (h : number? text = some reading) :
    valueWith inner? text = .ok reading := by
  unfold valueWith
  split
  case h_10 => rw [h]
  all_goals cases h

theorem valueWith_quoted (inner? : Option (List Char → Reading Json)) (s : String) :
    valueWith inner? (quoted s ++ rest) = .ok (.str s, rest) := by
  simp only [quoted, List.cons_append, List.append_assoc, List.nil_append]
  change (string _).map _ = _
  rw [string_quoted]
  rfl

/-- A value without brackets is read the same way at any depth. -/
theorem readsBack_of_valueWith {j : Json}
    (h : ∀ inner? layout level rest, EndsNumeral rest →
      valueWith inner? (text layout level j ++ rest) = .ok (j, rest)) : ReadsBack depth j := by
  obtain ⟨inner?, hv⟩ := value_eq_valueWith depth
  intro layout level rest hr
  rw [hv, h inner? layout level rest hr]

/-- What is written for data is read back as the data, whatever follows it. -/
theorem Legible.readsBack {j : Json} (h : Legible depth j) : ReadsBack depth j := by
  induction h with
  | null => exact readsBack_of_valueWith fun _ _ _ _ _ => rfl
  | bool _ b => cases b <;> exact readsBack_of_valueWith fun _ _ _ _ _ => rfl
  | int _ n =>
    exact readsBack_of_valueWith fun inner? _ _ _ hr =>
      valueWith_of_number? inner? (number?_intText n hr)
  | float _ hx => exact readsBack_of_valueWith fun inner? _ _ _ hr => hx.reads inner? hr
  | str _ s => exact readsBack_of_valueWith fun inner? _ _ _ _ => valueWith_quoted inner? s
  | arr _ ih => exact .array ih
  | obj hk _ ih => exact .object hk ih

/-- Data whose brackets do not nest deeper than they are read, if a value is read from its text. -/
def BoundedBy (depth : Nat) (j : Json) : Prop :=
  ∀ layout level rest reading, EndsNumeral rest →
    value depth (text layout level j ++ rest) = .ok reading → Legible depth j

theorem exists_of_itemsAfter {item : List Char → Reading Json} {room : Nat} {before : List Json}
    {text : List Char} {reading : List Json × List Char}
    (h : itemsAfter item room before text = .ok reading) :
    ∃ n first, room = n + 1 ∧ item text = .ok first := by
  cases room with
  | zero => cases h
  | succ room =>
    rw [itemsAfter] at h
    cases hv : item text with
    | error stop =>
      rw [hv] at h
      cases h
    | ok first => exact ⟨room, first, rfl, rfl⟩

theorem legible_of_itemsAfter {item : Json} {items : List Json}
    (hr : ∀ j ∈ item :: items, ∃ d, ReadsBack d j) (hb : ∀ j ∈ item :: items, BoundedBy depth j)
    {room : Nat} {before : List Json} {reading : List Json × List Char}
    (h : itemsAfter (value depth) room before (text layout (level + 1) item ++
      (itemsText layout (level + 1) items ++ (layout.edge level ++ ']' :: rest))) = .ok reading) :
    ∀ j ∈ item :: items, Legible depth j := by
  induction items generalizing item room before with
  | nil =>
    obtain ⟨_, first, -, hv⟩ := exists_of_itemsAfter h
    have he := endsNumeral_itemsText layout level [] rest
    exact List.forall_mem_singleton.2 (hb item List.mem_cons_self layout _ _ first he hv)
  | cons next items ih =>
    obtain ⟨_, first, rfl, hv⟩ := exists_of_itemsAfter h
    have he := endsNumeral_itemsText layout level (next :: items) rest
    have hi : Legible depth item := hb item List.mem_cons_self layout _ _ first he hv
    rw [itemsAfter_next hi.readsBack (hr next (List.mem_cons_of_mem _ List.mem_cons_self))] at h
    exact List.forall_mem_cons.2 ⟨hi, ih (fun j hj => hr j (List.mem_cons_of_mem _ hj))
      (fun j hj => hb j (List.mem_cons_of_mem _ hj)) h⟩

theorem exists_of_pairsAfter {item : List Char → Reading Json} {room : Nat}
    {before : List (String × Json)} {key : String} {body : List Char}
    {reading : List (String × Json) × List Char} (hs : skipBlanks body = body)
    (h : pairsAfter item room before (quoted key ++ ':' :: ' ' :: body) = .ok reading) :
    ∃ n first, room = n + 1 ∧ item body = .ok first := by
  cases room with
  | zero => cases h
  | succ room =>
    rw [pairsAfter_quoted _ _ _ _ hs] at h
    cases hv : item body with
    | error stop =>
      rw [hv] at h
      cases h
    | ok first => exact ⟨room, first, rfl, rfl⟩

theorem legible_of_pairsAfter {key : String} {j : Json} {fields : List (String × Json)}
    (hr : ∀ field ∈ (key, j) :: fields, ∃ d, ReadsBack d field.2)
    (hb : ∀ field ∈ (key, j) :: fields, BoundedBy depth field.2)
    {room : Nat} {before : List (String × Json)} {reading : List (String × Json) × List Char}
    (h : pairsAfter (value depth) room before (quoted key ++ ':' :: ' ' ::
      (text layout (level + 1) j ++ (fieldsText layout (level + 1) fields ++
        (layout.edge level ++ '\x7d' :: rest)))) = .ok reading) :
    ∀ field ∈ (key, j) :: fields, Legible depth field.2 := by
  obtain ⟨d, hd⟩ := hr (key, j) List.mem_cons_self
  induction fields generalizing key j d room before with
  | nil =>
    have he := endsNumeral_fieldsText layout level [] rest
    obtain ⟨_, first, -, hv⟩ := exists_of_pairsAfter (hd.skipBlanks_text layout _ he) h
    exact List.forall_mem_singleton.2 (hb (key, j) List.mem_cons_self layout _ _ first he hv)
  | cons next fields ih =>
    obtain ⟨name, k⟩ := next
    have he := endsNumeral_fieldsText layout level ((name, k) :: fields) rest
    obtain ⟨_, first, rfl, hv⟩ := exists_of_pairsAfter (hd.skipBlanks_text layout _ he) h
    have hj : Legible depth j := hb (key, j) List.mem_cons_self layout _ _ first he hv
    have hr := (List.forall_mem_cons.1 hr).2
    obtain ⟨e, hk⟩ := hr (name, k) List.mem_cons_self
    rw [pairsAfter_next hj.readsBack] at h
    exact List.forall_mem_cons.2 ⟨hj, ih hr (List.forall_mem_cons.1 hb).2 h e hk⟩

/-- Of data that is read back to some depth, nothing is read if its brackets nest deeper than they
are read. -/
theorem Legible.boundedBy {bound : Nat} {j : Json} (h : Legible bound j) (depth : Nat) :
    BoundedBy depth j := by
  induction h generalizing depth with
  | null => exact fun _ _ _ _ _ _ => .null depth
  | bool _ b => exact fun _ _ _ _ _ _ => .bool depth b
  | int _ n => exact fun _ _ _ _ _ _ => .int depth n
  | float _ hx => exact fun _ _ _ _ _ _ => .float depth hx
  | str _ s => exact fun _ _ _ _ _ _ => .str depth s
  | @arr _ items h ih =>
    intro layout level rest reading _ hv
    cases depth with
    | zero => cases items <;> cases hv
    | succ depth =>
      cases items with
      | nil => exact .arr nofun
      | cons item items =>
        have hr : ∀ j ∈ item :: items, ∃ d, ReadsBack d j := fun j hj => ⟨_, (h j hj).readsBack⟩
        obtain ⟨room, -, ht⟩ := value_arr (hr item List.mem_cons_self) items
        rw [ht] at hv
        cases hi : itemsAfter (value depth) room [] _ with
        | error stop =>
          rw [hi] at hv
          cases hv
        | ok first => exact .arr (legible_of_itemsAfter hr (fun j hj => ih j hj depth) hi)
  | @obj _ fields hk h ih =>
    intro layout level rest reading _ hv
    cases depth with
    | zero => cases fields <;> cases hv
    | succ depth =>
      cases fields with
      | nil => exact .obj hk nofun
      | cons field fields =>
        obtain ⟨key, j⟩ := field
        obtain ⟨room, -, ht⟩ := value_obj key j fields
        rw [ht] at hv
        cases hi : pairsAfter (value depth) room [] _ with
        | error stop =>
          rw [hi] at hv
          cases hv
        | ok first =>
          exact .obj hk (legible_of_pairsAfter (fun f hf => ⟨_, (h f hf).readsBack⟩)
            (fun f hf => ih f hf depth) hi)

theorem plainText_cons {text : List Char} : PlainText (c :: text) ↔ IsPlain c ∧ PlainText text :=
  List.forall_mem_cons

theorem plainText_append {text more : List Char} :
    PlainText (text ++ more) ↔ PlainText text ∧ PlainText more :=
  List.forall_mem_append

theorem isPlain_of_isDigit (h : c.isDigit) : IsPlain c := by
  simp only [Char.isDigit, Bool.and_eq_true, decide_eq_true_eq] at h
  exact .inr ⟨Char.le_trans (show ' ' ≤ '0' by decide) h.1,
    Char.le_trans h.2 (show '9' ≤ '~' by decide)⟩

theorem isPlain_hexDigit (n : Nat) : IsPlain (hexDigit n) := by
  have h : ∀ d < 16, IsPlain ("0123456789abcdef".toList.getD d '0') := by decide
  exact h (n % 16) (Nat.mod_lt n (by decide))

theorem plainText_unicodeEscape (unit : Nat) : PlainText (unicodeEscape unit) := by
  have hu : PlainText ['\\', 'u'] := by decide
  have hd : PlainText [hexDigit (unit / 0x1000), hexDigit (unit / 0x100), hexDigit (unit / 0x10),
      hexDigit unit] := by
    simp only [plainText_cons, isPlain_hexDigit, true_and]
    exact nofun
  exact plainText_append.2 ⟨hu, hd⟩

theorem plainText_escape (c : Char) : PlainText (escape c) := by
  unfold escape
  split
  case h_8 =>
    split
    case isTrue h => exact plainText_cons.2 ⟨.inr h, nofun⟩
    case isFalse =>
      split
      case isTrue => exact plainText_unicodeEscape _
      case isFalse =>
        exact plainText_append.2 ⟨plainText_unicodeEscape _, plainText_unicodeEscape _⟩
  all_goals decide

theorem plainText_quoted (s : String) : PlainText (quoted s) := by
  have hs : PlainText (s.toList.flatMap escape) :=
    List.forall_mem_flatMap.2 fun c _ => plainText_escape c
  rw [quoted, plainText_append, plainText_cons]
  exact ⟨⟨by decide, hs⟩, by decide⟩

theorem plainText_intText (n : Int) : PlainText (intText n) := by
  have hn : PlainText (Nat.toDigits 10 n.natAbs) := fun d hd =>
    isPlain_of_isDigit (Nat.isDigit_of_mem_toDigits (by decide) (by decide) hd)
  unfold intText
  split
  case isTrue => exact plainText_cons.2 ⟨by decide, hn⟩
  case isFalse => exact hn

theorem plainText_edge (layout : Layout) (level : Nat) : PlainText (layout.edge level) := by
  cases layout with
  | inline => exact nofun
  | lines step =>
    refine plainText_cons.2 ⟨by decide, fun d hd => ?_⟩
    rw [List.eq_of_mem_replicate hd]
    decide

theorem plainText_separator (layout : Layout) (level : Nat) :
    PlainText (layout.separator level) := by
  cases layout with
  | inline => exact (by decide : PlainText [',', ' '])
  | lines step => exact plainText_cons.2 ⟨by decide, plainText_edge (.lines step) level⟩

theorem plainText_itemsText {items : List Json}
    (h : ∀ item ∈ items, PlainText (text layout level item)) :
    PlainText (itemsText layout level items) := by
  induction items with
  | nil => exact nofun
  | cons item items ih =>
    rw [List.forall_mem_cons] at h
    simp only [itemsText, plainText_append]
    exact ⟨⟨plainText_separator layout level, h.1⟩, ih h.2⟩

theorem plainText_fieldsText {fields : List (String × Json)}
    (h : ∀ field ∈ fields, PlainText (text layout level field.2)) :
    PlainText (fieldsText layout level fields) := by
  induction fields with
  | nil => exact nofun
  | cons field fields ih =>
    rw [List.forall_mem_cons] at h
    simp only [fieldsText, plainText_append]
    exact ⟨⟨⟨⟨plainText_separator layout level, plainText_quoted _⟩, by decide⟩, h.1⟩, ih h.2⟩

theorem Legible.plainText {j : Json} (h : Legible depth j) (layout : Layout) (level : Nat) :
    PlainText (text layout level j) := by
  induction h generalizing level with
  | null => exact (by decide : PlainText "null".toList)
  | bool _ b =>
    cases b with
    | true => exact (by decide : PlainText "true".toList)
    | false => exact (by decide : PlainText "false".toList)
  | int _ n => exact plainText_intText n
  | float _ hx => exact hx.plain
  | str _ s => exact plainText_quoted s
  | @arr _ items _ ih =>
    cases items with
    | nil => exact (by decide : PlainText ['[', ']'])
    | cons item items =>
      have hi := List.forall_mem_cons.1 fun j hj => ih j hj (level + 1)
      simp only [text, plainText_append, plainText_cons]
      exact ⟨⟨⟨⟨⟨by decide, plainText_edge layout _⟩, hi.1⟩, plainText_itemsText hi.2⟩,
        plainText_edge layout _⟩, by decide, nofun⟩
  | @obj _ fields _ _ ih =>
    cases fields with
    | nil => exact (by decide : PlainText ['\x7b', '\x7d'])
    | cons field fields =>
      have hi := List.forall_mem_cons.1 fun f hf => ih f hf (level + 1)
      simp only [text, plainText_append]
      exact ⟨⟨⟨⟨⟨⟨plainText_cons.2 ⟨by decide, plainText_edge layout _⟩, plainText_quoted _⟩,
        by decide⟩, hi.1⟩, plainText_fieldsText hi.2⟩, plainText_edge layout _⟩, by decide⟩

theorem endsNumeral_newline : EndsNumeral ['\n'] :=
  endsNumeral_cons (by decide) (by decide)

theorem Legible.plainText_line {j : Json} (h : Legible depth j) (layout : Layout) (level : Nat) :
    PlainText (text layout level j ++ ['\n']) :=
  plainText_append.2 ⟨h.plainText layout level, by decide⟩

theorem Legible.document_eq {bound : Nat} {j : Json} (h : Legible bound j) (layout : Layout)
    (level depth : Nat) :
    document depth (text layout level j ++ ['\n']) =
      match value depth (text layout level j ++ ['\n']) with
      | .error stop => .error stop
      | .ok (data, rest) =>
        match skipBlanks rest with
        | [] => .ok data
        | rest => .error (.problem .extraData rest) := by
  have hs := h.readsBack.skipBlanks_text layout level endsNumeral_newline
  obtain ⟨c, cs, hc, -, -⟩ := head_of_value (h.readsBack layout level _ endsNumeral_newline)
  have hb : c ≠ '\ufeff' := by
    rintro rfl
    have hp := h.plainText_line layout level
    rw [hc] at hp
    exact absurd (hp _ List.mem_cons_self) (by decide)
  unfold document
  rw [hs, hc]
  split
  case h_1 he => exact absurd (List.cons.inj he).1 hb
  case h_2 => cases value depth (c :: cs) <;> rfl

theorem Legible.document {j : Json} (h : Legible depth j) (layout : Layout) (level : Nat) :
    Json.document depth (text layout level j ++ ['\n']) = .ok j := by
  rw [h.document_eq, h.readsBack layout level _ endsNumeral_newline]
  rfl

/-- What is written for data is a text of that one value. -/
theorem Legible.document_text {j : Json} (h : Legible depth j) (layout : Layout) (level : Nat) :
    Json.document depth (text layout level j) = .ok j := by
  have hr : EndsNumeral [] := nofun
  have hv := h.readsBack layout level [] hr
  have hs := h.readsBack.skipBlanks_text layout level hr
  rw [List.append_nil] at hv hs
  obtain ⟨c, cs, hc, -, -⟩ := head_of_value hv
  have hb : c ≠ '\ufeff' := by
    rintro rfl
    have hp := h.plainText layout level
    rw [hc] at hp
    exact absurd (hp _ List.mem_cons_self) (by decide)
  unfold Json.document
  rw [hs, hv, hc]
  split
  case h_1 he => exact absurd (List.cons.inj he).1 hb
  case h_2 => rfl

theorem Legible.of_document {bound : Nat} {j data : Json} (h : Legible bound j)
    (hd : Json.document depth (text layout level j ++ ['\n']) = .ok data) : Legible depth j := by
  rw [h.document_eq] at hd
  cases hv : value depth (text layout level j ++ ['\n']) with
  | error stop =>
    rw [hv] at hd
    cases hd
  | ok reading => exact h.boundedBy depth layout level _ reading endsNumeral_newline hv

theorem read_eq_ok {s : String} {data : Json} :
    read s = .ok data ↔ Json.document maxTextDepth s.toList = .ok data := by
  constructor
  · intro h
    simp only [read] at h
    split at h
    case h_1 hd => rw [hd, Except.ok.inj h]
    all_goals cases h
  · intro h
    simp only [read, h]

theorem read_eq_tooDeep {s : String} {container : Container} :
    read s = .error (.tooDeep container) ↔
      Json.document maxTextDepth s.toList = .error (.tooDeep container) := by
  constructor
  · intro h
    simp only [read] at h
    split at h
    case h_3 hd =>
      rw [hd]
      cases h
      rfl
    all_goals cases h
  · intro h
    simp only [read, h]

end Json

end TurtlePlot
