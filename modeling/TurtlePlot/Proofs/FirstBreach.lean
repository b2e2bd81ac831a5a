import TurtlePlot.Proofs.Grammar

/-!
Which breach is reported. The grammar asks something of each place of data that it comes to, and
reads these places in an order. Data that is refused is refused for the first place, in this order,
that is not what is asked: all items before it are commands, and nothing that comes later matters.
-/

namespace TurtlePlot

/-- What the grammar asks of a place. -/
inductive Role where
  | block
  | command
  | integer
  | string
  | pair
  | loop
  | definition
  | nothing
deriving DecidableEq

namespace Role

/-- What each command asks of its argument. -/
def arguments : List (String × Role) :=
  [("set_heading", integer), ("set_position", pair), ("turn", integer), ("left", integer),
    ("right", integer), ("forward", integer), ("loop", loop), ("set_macro", definition),
    ("play_macro", string), ("pass", nothing), ("center", nothing), ("reset_heading", nothing),
    ("pen_up", nothing), ("pen_down", nothing)]

/-- The field that is read before the body. -/
def first? : Role → Option (String × Role)
  | loop => some ("count", integer)
  | definition => some ("name", string)
  | _ => none

/-- What is wrong with a value itself, whatever is inside it. -/
def breach? : Role → Json → Option Breach
  | block, .arr _ => none
  | block, _ => some .notArray
  | command, .str name =>
    if name ∈ Action.bare.map Prod.fst then none else some (.unknownCommand name)
  | command, .obj [(name, _)] =>
    if name ∈ arguments.map Prod.fst then none else some (.unknownCommand name)
  | command, .obj _ => some .notOneKey
  | command, _ => some .notObject
  | integer, .int _ => none
  | integer, _ => some .notInteger
  | string, .str _ => none
  | string, _ => some .notString
  | pair, .arr [_, _] => none
  | pair, .arr _ => some .notPair
  | pair, _ => some .notArray
  | loop, .obj _ | definition, .obj _ => none
  | loop, _ | definition, _ => some .notObject
  | nothing, .null => none
  | nothing, _ => some .argument

/-- What the grammar asks of the parts of a value. A field that is missing is null, and a body that
is missing is empty. -/
inductive Part : Role → Json → Step → Role → Json → Prop
  | item {items : List Json} {i : Nat} {item : Json} (hi : items[i]? = some item) :
      Part block (.arr items) (.item i) command item
  | argument {name : String} {role : Role} (hn : (name, role) ∈ arguments) (argument : Json) :
      Part command (.obj [(name, argument)]) (.field name) role argument
  | abscissa (x y : Json) : Part pair (.arr [x, y]) (.item 0) integer x
  | ordinate (x y : Json) : Part pair (.arr [x, y]) (.item 1) integer y
  | first {role first : Role} {key : String} (hr : role.first? = some (key, first))
      (fields : List (String × Json)) :
      Part role (.obj fields) (.field key) first ((fields.lookup key).getD .null)
  | body {role first : Role} {key : String} (hr : role.first? = some (key, first))
      (fields : List (String × Json)) :
      Part role (.obj fields) (.field "body") block ((fields.lookup "body").getD (.arr []))

/-- What the grammar asks of the value that a path leads to. -/
inductive At : Role → Json → List Step → Role → Json → Prop
  | here (role : Role) (data : Json) : At role data [] role data
  | inside {role role₁ role₂ : Role} {data data₁ data₂ : Json} {step : Step} {path : List Step}
      (hp : Part role data step role₁ data₁) (h : At role₁ data₁ path role₂ data₂) :
      At role data (step :: path) role₂ data₂

end Role

/-- The order in which the parts of a value are read. -/
inductive Step.Before : Step → Step → Prop
  | item {i j : Nat} (h : i < j) : Before (.item i) (.item j)
  | body {key : String} (h : key = "count" ∨ key = "name") : Before (.field key) (.field "body")

/-- A path leads to a place that is read before that of another path, or that has it inside. -/
abbrev ReadBefore : List Step → List Step → Prop :=
  List.Lex Step.Before

theorem Step.Before.asymm {s t : Step} (h : Before s t) : ¬ Before t s := by
  intro h'
  cases h with
  | item h =>
    cases h' with
    | item h' => exact Nat.lt_asymm h h'
  | body h =>
    cases h' with
    | body => exact absurd h (by decide)

theorem Step.not_before_self (s : Step) : ¬ Before s s :=
  fun h => h.asymm h

namespace Role

/-- Data that is the same up to a place, in reading order, and has the same breach there. What comes
later may be anything. -/
inductive SameUpTo : Role → List Step → Json → Json → Prop
  | here {role : Role} {data data' : Json} (h : role.breach? data' = role.breach? data) :
      SameUpTo role [] data data'
  | inside {role part : Role} {data data' inner inner' : Json} {step : Step} {path : List Step}
      (hp : Part role data step part inner) (hp' : Part role data' step part inner')
      (hb : ∀ earlier, Step.Before earlier step →
        ∀ r value, Part role data' earlier r value ↔ Part role data earlier r value)
      (h : SameUpTo part path inner inner') : SameUpTo role (step :: path) data data'

/-- How deep blocks may still nest inside a value, if it may be opened at all. -/
def enter? : Role → (depth : Nat) → Option Nat
  | block, 0 => none
  | block, depth + 1 => some depth
  | _, depth => some depth

/-- A value that is what is asked, with everything in it that is read. -/
def Met (depth : Nat) : Role → Json → Prop
  | block, data => ∃ p : Program, p.depth ≤ depth ∧ p.WrittenAs data
  | command, data => ∃ c : Command, c.depth ≤ depth ∧ c.WrittenAs data
  | integer, data => ∃ n, data = .int n
  | string, data => ∃ s, data = .str s
  | pair, data => ∃ x y, data = .arr [.int x, .int y]
  | loop, data => ∃ fields count, data = .obj fields ∧ fields.lookup "count" = some (.int count) ∧
      ∃ p : Program, p.depth ≤ depth ∧ p.WrittenAs ((fields.lookup "body").getD (.arr []))
  | definition, data => ∃ fields name, data = .obj fields ∧
      fields.lookup "name" = some (.str name) ∧
      ∃ p : Program, p.depth ≤ depth ∧ p.WrittenAs ((fields.lookup "body").getD (.arr []))
  | nothing, data => data = .null

/-- The first breach in a value in which blocks may nest at most `depth` deep as far as it is
read. -/
inductive FirstBreach : (depth : Nat) → Role → Json → List Step → Breach → Prop
  | here {depth within : Nat} {role : Role} {data : Json} {breach : Breach}
      (hd : role.enter? depth = some within) (h : role.breach? data = some breach) :
      FirstBreach depth role data [] breach
  | inside {depth within : Nat} {role part : Role} {data inner : Json} {step : Step}
      {path : List Step} {breach : Breach} (hd : role.enter? depth = some within)
      (hp : Part role data step part inner)
      (hb : ∀ earlier, Step.Before earlier step →
        ∀ r value, Part role data earlier r value → r.Met within value)
      (h : FirstBreach within part inner path breach) :
      FirstBreach depth role data (step :: path) breach

variable {role role' first : Role} {key name : String} {data data' : Json} {depth within : Nat}
  {step step' : Step} {path : List Step} {breach : Breach}

theorem first?_cases (h : role.first? = some (key, first)) :
    role = loop ∧ key = "count" ∧ first = integer ∨
      role = definition ∧ key = "name" ∧ first = string := by
  cases role with
  | loop =>
    cases h
    exact .inl ⟨rfl, rfl, rfl⟩
  | definition =>
    cases h
    exact .inr ⟨rfl, rfl, rfl⟩
  | block | command | integer | string | pair | nothing => cases h

theorem argument_unique (h : (name, role) ∈ arguments) (h' : (name, role') ∈ arguments) :
    role' = role := by
  have hu : ∀ a ∈ arguments, ∀ b ∈ arguments, a.1 = b.1 → b.2 = a.2 := by decide
  exact hu _ h _ h' rfl

theorem bare_argument {action : Action} (h : (name, action) ∈ Action.bare) :
    (name, nothing) ∈ arguments := by
  have hb : ∀ b ∈ Action.bare, (b.1, nothing) ∈ arguments := by decide
  exact hb _ h

theorem before_body (h : role.first? = some (key, first)) :
    Step.Before (.field key) (.field "body") := by
  rcases first?_cases h with ⟨-, h, -⟩ | ⟨-, h, -⟩
  · exact .body (.inl h)
  · exact .body (.inr h)

theorem part_argument_iff {argument value : Json} (hn : (name, role) ∈ arguments) :
    Part command (.obj [(name, argument)]) step role' value ↔
      step = .field name ∧ role' = role ∧ value = argument := by
  constructor
  · intro h
    cases h with
    | argument hn' => exact ⟨rfl, argument_unique hn hn', rfl⟩
    | first hr | body hr => cases hr
  · rintro ⟨rfl, rfl, rfl⟩
    exact .argument hn _

theorem part_pair_iff {x y value : Json} :
    Part pair (.arr [x, y]) step role' value ↔
      step = .item 0 ∧ role' = integer ∧ value = x ∨
        step = .item 1 ∧ role' = integer ∧ value = y := by
  constructor
  · intro h
    cases h with
    | abscissa => exact .inl ⟨rfl, rfl, rfl⟩
    | ordinate => exact .inr ⟨rfl, rfl, rfl⟩
  · rintro (⟨rfl, rfl, rfl⟩ | ⟨rfl, rfl, rfl⟩)
    · exact .abscissa _ _
    · exact .ordinate _ _

theorem part_fields_iff {fields : List (String × Json)} {value : Json}
    (hr : role.first? = some (key, first)) :
    Part role (.obj fields) step role' value ↔
      step = .field key ∧ role' = first ∧ value = (fields.lookup key).getD .null ∨
        step = .field "body" ∧ role' = block ∧ value = (fields.lookup "body").getD (.arr []) := by
  constructor
  · intro h
    cases h with
    | argument => cases hr
    | first hr' =>
      cases hr.symm.trans hr'
      exact .inl ⟨rfl, rfl, rfl⟩
    | body => exact .inr ⟨rfl, rfl, rfl⟩
  · rintro (⟨rfl, rfl, rfl⟩ | ⟨rfl, rfl, rfl⟩)
    · exact .first hr _
    · exact .body hr _

theorem part_block_iff {items : List Json} {value : Json} :
    Part block (.arr items) step role' value ↔
      ∃ i, step = .item i ∧ role' = command ∧ items[i]? = some value := by
  constructor
  · intro h
    cases h with
    | item hi => exact ⟨_, rfl, rfl, hi⟩
  · rintro ⟨i, rfl, rfl, hi⟩
    exact .item hi

namespace Part

theorem breach?_eq_none (h : Part role data step role' data') : role.breach? data = none := by
  cases h with
  | item | abscissa | ordinate => rfl
  | argument hn => exact if_pos (List.mem_map_of_mem hn)
  | first hr | body hr =>
    rcases first?_cases hr with ⟨rfl, -, -⟩ | ⟨rfl, -, -⟩ <;> rfl

variable {part part' : Role} {inner inner' : Json}

theorem compare (h : Part role data step part inner) (h' : Part role data step' part' inner') :
    Step.Before step step' ∨ Step.Before step' step ∨
      step' = step ∧ part' = part ∧ inner' = inner := by
  cases h with
  | @item _ i _ hi =>
    obtain ⟨j, rfl, rfl, hj⟩ := part_block_iff.1 h'
    rcases Nat.lt_trichotomy i j with hij | rfl | hij
    · exact .inl (.item hij)
    · exact .inr (.inr ⟨rfl, rfl, Option.some.inj (hj.symm.trans hi)⟩)
    · exact .inr (.inl (.item hij))
  | argument hn => exact .inr (.inr ((part_argument_iff hn).1 h'))
  | abscissa =>
    rcases part_pair_iff.1 h' with h' | ⟨rfl, -⟩
    · exact .inr (.inr h')
    · exact .inl (.item Nat.one_pos)
  | ordinate =>
    rcases part_pair_iff.1 h' with ⟨rfl, -⟩ | h'
    · exact .inr (.inl (.item Nat.one_pos))
    · exact .inr (.inr h')
  | first hr =>
    rcases (part_fields_iff hr).1 h' with h' | ⟨rfl, -⟩
    · exact .inr (.inr h')
    · exact .inl (before_body hr)
  | body hr =>
    rcases (part_fields_iff hr).1 h' with ⟨rfl, -⟩ | h'
    · exact .inr (.inl (before_body hr))
    · exact .inr (.inr h')

theorem unique (h : Part role data step part inner) (h' : Part role data step part' inner') :
    part' = part ∧ inner' = inner := by
  rcases h.compare h' with h | h | ⟨-, h⟩
  · exact absurd h step.not_before_self
  · exact absurd h step.not_before_self
  · exact h

end Part

namespace SameUpTo

theorem item {items items' : List Json} {i : Nat} {item item' : Json}
    (hb : items'.take i = items.take i) (hi : items[i]? = some item) (hi' : items'[i]? = some item')
    (h : SameUpTo command path item item') :
    SameUpTo block (.item i :: path) (.arr items) (.arr items') := by
  refine .inside (.item hi) (.item hi') (fun earlier he r value => ?_) h
  cases he with
  | @item j _ hj =>
    have hj : items'[j]? = items[j]? := by
      rw [← List.getElem?_take_of_lt hj, hb, List.getElem?_take_of_lt hj]
    simp only [part_block_iff, Step.item.injEq, exists_eq_left', hj]

theorem argument (hn : (name, role) ∈ arguments) {argument argument' : Json}
    (h : SameUpTo role path argument argument') :
    SameUpTo command (.field name :: path) (.obj [(name, argument)])
      (.obj [(name, argument')]) := by
  refine .inside (.argument hn _) (.argument hn _) (fun earlier he r value => ?_) h
  have hne : earlier ≠ .field name := fun h => earlier.not_before_self (h ▸ he)
  simp only [part_argument_iff hn, hne, false_and]

theorem body (hr : role.first? = some (key, first)) {fields fields' : List (String × Json)}
    (hk : fields'.lookup key = fields.lookup key)
    (h : SameUpTo block path ((fields.lookup "body").getD (.arr []))
      ((fields'.lookup "body").getD (.arr []))) :
    SameUpTo role (.field "body" :: path) (.obj fields) (.obj fields') := by
  refine .inside (.body hr _) (.body hr _) (fun earlier he r value => ?_) h
  have hne : earlier ≠ .field "body" := fun h => earlier.not_before_self (h ▸ he)
  simp only [part_fields_iff hr, hk, hne, false_and]

end SameUpTo

theorem met_argument {c : Command} {argument : Json} (hd : c.depth ≤ depth)
    (hc : c.WrittenAs (.obj [(name, argument)])) (hn : (name, role) ∈ arguments) :
    role.Met depth argument := by
  cases hc with
  | noArgument h =>
    cases argument_unique (bare_argument h) hn
    rfl
  | setHeading n | turn n | left n | right n | forward n =>
    obtain rfl : role = integer := argument_unique (by decide) hn
    exact ⟨n, rfl⟩
  | setPosition x y =>
    obtain rfl : role = pair := argument_unique (by decide) hn
    exact ⟨x, y, rfl⟩
  | loop hc hi hb =>
    obtain rfl : role = loop := argument_unique (by decide) hn
    exact ⟨_, _, rfl, hc, _, hd, _, hi, hb⟩
  | define hc hi hb =>
    obtain rfl : role = definition := argument_unique (by decide) hn
    exact ⟨_, _, rfl, hc, _, hd, _, hi, hb⟩
  | play s =>
    obtain rfl : role = string := argument_unique (by decide) hn
    exact ⟨s, rfl⟩

theorem Met.part (h : role.Met depth data) (hp : Part role data step role' data') :
    ∃ within, role'.Met within data' := by
  cases hp with
  | item hi =>
    obtain ⟨p, -, _, hp, hw⟩ := h
    cases hp
    obtain ⟨i, hl, rfl⟩ := List.mem_iff_getElem.1 (List.mem_of_getElem? hi)
    exact ⟨_, _, Nat.le_refl _, hw.get (hw.length_eq ▸ hl) hl⟩
  | argument hn =>
    obtain ⟨c, hd, hc⟩ := h
    exact ⟨depth, met_argument hd hc hn⟩
  | abscissa | ordinate =>
    obtain ⟨m, n, hd⟩ := h
    cases hd
    exact ⟨depth, _, rfl⟩
  | first hr =>
    rcases first?_cases hr with ⟨rfl, rfl, rfl⟩ | ⟨rfl, rfl, rfl⟩
    all_goals
      obtain ⟨_, value, hd, hl, -⟩ := h
      cases hd
      exact ⟨depth, value, by rw [hl]; rfl⟩
  | body hr =>
    rcases first?_cases hr with ⟨rfl, -, -⟩ | ⟨rfl, -, -⟩
    all_goals
      obtain ⟨_, _, hd, -, hb⟩ := h
      cases hd
      exact ⟨depth, hb⟩

theorem Met.breach?_eq_none (h : role.Met depth data) : role.breach? data = none := by
  cases role with
  | block =>
    obtain ⟨p, -, _, rfl, -⟩ := h
    rfl
  | command =>
    obtain ⟨c, -, hc⟩ := h
    cases hc with
    | bare hb => exact if_pos (List.mem_map_of_mem hb)
    | noArgument hb => exact if_pos (List.mem_map_of_mem (bare_argument hb))
    | _ => rfl
  | integer | string =>
    obtain ⟨_, rfl⟩ := h
    rfl
  | pair =>
    obtain ⟨_, _, rfl⟩ := h
    rfl
  | loop | definition =>
    obtain ⟨_, _, rfl, -⟩ := h
    rfl
  | nothing =>
    cases h
    rfl

theorem Met.breach?_at (h : role.Met depth data) (ha : At role data path role' data') :
    role'.breach? data' = none := by
  induction ha generalizing depth with
  | here => exact h.breach?_eq_none
  | inside hp _ ih =>
    obtain ⟨within, h⟩ := h.part hp
    exact ih h

namespace FirstBreach

theorem at_path (h : FirstBreach depth role data path breach) :
    ∃ role' value, At role data path role' value ∧ role'.breach? value = some breach := by
  induction h with
  | here _ h => exact ⟨_, _, .here _ _, h⟩
  | inside _ hp _ _ ih =>
    obtain ⟨role', value, ha, hb⟩ := ih
    exact ⟨role', value, .inside hp ha, hb⟩

theorem readBefore (h : FirstBreach depth role data path breach) {path' : List Step} {value : Json}
    (ha : At role data path' role' value) (hb : role'.breach? value ≠ none) :
    path' = path ∨ ReadBefore path path' := by
  induction h generalizing path' with
  | here =>
    cases ha with
    | here => exact .inl rfl
    | inside => exact .inr .nil
  | inside _ hp hm _ ih =>
    cases ha with
    | here => exact absurd hp.breach?_eq_none hb
    | inside hp' ha =>
      -- The other place is in a later part, in an earlier one, which is met, or in the same.
      rcases hp.compare hp' with h | h | ⟨rfl, rfl, rfl⟩
      · exact .inr (.rel h)
      · exact absurd ((hm _ h _ _ hp').breach?_at ha) hb
      · rcases ih ha with rfl | h
        · exact .inl rfl
        · exact .inr (.cons h)

/-- Items before a place on its path are commands. -/
theorem earlier_items (h : FirstBreach depth role data path breach) {before after : List Step}
    {i : Nat} {items : List Json} (hp : path = before ++ .item i :: after)
    (ha : At role data before block (.arr items)) :
    ∀ earlier ∈ items.take i, ∃ c : Command, c.WrittenAs earlier := by
  induction h generalizing before with
  | here => cases before <;> cases hp
  | inside _ hpart hm _ ih =>
    cases ha with
    | here =>
      cases hp
      intro earlier he
      obtain ⟨j, hj, he⟩ := List.mem_take_iff_getElem.1 he
      have hlt : j < i := (Nat.lt_min.1 hj).1
      obtain ⟨c, -, hc⟩ := hm _ (.item hlt) _ _ (.item (List.getElem?_eq_some_iff.2 ⟨_, he⟩))
      exact ⟨c, hc⟩
    | inside hpart' ha =>
      cases hp
      obtain ⟨rfl, rfl⟩ := hpart.unique hpart'
      exact ih rfl ha

theorem sameUpTo (h : FirstBreach depth role data path breach)
    (hs : SameUpTo role path data data') : FirstBreach depth role data' path breach := by
  induction h generalizing data' with
  | here hd hb =>
    cases hs with
    | here h => exact .here hd (h.trans hb)
  | inside hd hp hm _ ih =>
    cases hs with
    | inside hp₁ hp' hb hs =>
      obtain ⟨rfl, rfl⟩ := hp.unique hp₁
      refine .inside hd hp' (fun earlier he r value hv => ?_) (ih hs)
      exact hm earlier he r value ((hb earlier he r value).1 hv)

theorem iff_part (hd : role.enter? depth = some within) (hn : role.breach? data = none) :
    FirstBreach depth role data path breach ↔
      ∃ step rest part inner, path = step :: rest ∧ Part role data step part inner ∧
        (∀ earlier, Step.Before earlier step →
          ∀ r value, Part role data earlier r value → r.Met within value) ∧
        FirstBreach within part inner rest breach := by
  constructor
  · intro h
    cases h with
    | here _ h => cases hn.symm.trans h
    | inside hd' hp hb h =>
      cases hd.symm.trans hd'
      exact ⟨_, _, _, _, rfl, hp, hb, h⟩
  · rintro ⟨step, rest, part, inner, rfl, hp, hb, h⟩
    exact .inside hd hp hb h

theorem iff_of_breach? {breach' : Breach} (hd : role.enter? depth = some within)
    (hb : role.breach? data = some breach') :
    FirstBreach depth role data path breach ↔ path = [] ∧ breach = breach' := by
  constructor
  · intro h
    cases h with
    | here _ h => exact ⟨rfl, Option.some.inj (h.symm.trans hb)⟩
    | inside _ hp => cases hb.symm.trans hp.breach?_eq_none
  · rintro ⟨rfl, rfl⟩
    exact .here hd hb

theorem not_of_met (h : role.Met depth data) : ¬ FirstBreach depth role data path breach := by
  intro hb
  obtain ⟨role', value, ha, hb⟩ := hb.at_path
  cases (h.breach?_at ha).symm.trans hb

variable {first second : Step} {role₁ role₂ : Role} {data₁ data₂ : Json}

theorem iff_one (hd : role.enter? depth = some within)
    (hp : ∀ step part inner, Part role data step part inner ↔
      step = first ∧ part = role₁ ∧ inner = data₁) :
    FirstBreach depth role data path breach ↔
      ∃ rest, path = first :: rest ∧ FirstBreach within role₁ data₁ rest breach := by
  rw [iff_part hd ((hp first role₁ data₁).2 ⟨rfl, rfl, rfl⟩).breach?_eq_none]
  constructor
  · rintro ⟨step, rest, part, inner, rfl, hpart, -, h⟩
    obtain ⟨rfl, rfl, rfl⟩ := (hp _ _ _).1 hpart
    exact ⟨rest, rfl, h⟩
  · rintro ⟨rest, rfl, h⟩
    refine ⟨first, rest, role₁, data₁, rfl, (hp _ _ _).2 ⟨rfl, rfl, rfl⟩, ?_, h⟩
    intro earlier he r value hv
    obtain ⟨rfl, -⟩ := (hp _ _ _).1 hv
    exact absurd he earlier.not_before_self

theorem iff_two (hd : role.enter? depth = some within)
    (hp : ∀ step part inner, Part role data step part inner ↔
      step = first ∧ part = role₁ ∧ inner = data₁ ∨ step = second ∧ part = role₂ ∧ inner = data₂)
    (hs : Step.Before first second) :
    FirstBreach depth role data path breach ↔
      (∃ rest, path = first :: rest ∧ FirstBreach within role₁ data₁ rest breach) ∨
        role₁.Met within data₁ ∧
          ∃ rest, path = second :: rest ∧ FirstBreach within role₂ data₂ rest breach := by
  have hfirst : Part role data first role₁ data₁ := (hp _ _ _).2 (.inl ⟨rfl, rfl, rfl⟩)
  have hsecond : Part role data second role₂ data₂ := (hp _ _ _).2 (.inr ⟨rfl, rfl, rfl⟩)
  rw [iff_part hd hfirst.breach?_eq_none]
  constructor
  · rintro ⟨step, rest, part, inner, rfl, hpart, hb, h⟩
    rcases (hp _ _ _).1 hpart with ⟨rfl, rfl, rfl⟩ | ⟨rfl, rfl, rfl⟩
    · exact .inl ⟨rest, rfl, h⟩
    · exact .inr ⟨hb _ hs _ _ hfirst, rest, rfl, h⟩
  · rintro (⟨rest, rfl, h⟩ | ⟨hm, rest, rfl, h⟩)
    · refine ⟨first, rest, role₁, data₁, rfl, hfirst, fun earlier he r value hv => ?_, h⟩
      rcases (hp _ _ _).1 hv with ⟨rfl, -⟩ | ⟨rfl, -⟩
      · exact absurd he earlier.not_before_self
      · exact absurd he hs.asymm
    · refine ⟨second, rest, role₂, data₂, rfl, hsecond, fun earlier he r value hv => ?_, h⟩
      rcases (hp _ _ _).1 hv with ⟨rfl, rfl, rfl⟩ | ⟨rfl, -⟩
      · exact hm
      · exact absurd he earlier.not_before_self

end FirstBreach

end Role

namespace Program

open Role

variable {α β : Type} {place : Place}

/-- A result of reading at a place is an error exactly with the breaches found from there. -/
def Reports (place : Place) (found : List Step → Breach → Prop) (result : Except ProgramError α) :
    Prop :=
  ∀ p breach, result = .error (.breach p breach) ↔
    ∃ path, p = path.reverse ++ place ∧ found path breach

namespace Reports

variable {found first second : List Step → Breach → Prop} {x : Except ProgramError α}
  {f : α → Except ProgramError β} {step : Step}

theorem ok (a : α) (h : ∀ path breach, ¬ found path breach) : Reports place found (.ok a) := by
  intro p breach
  constructor
  · intro h
    cases h
  · rintro ⟨path, -, hb⟩
    exact absurd hb (h path breach)

theorem error {breach : Breach} (h : ∀ path b, found path b ↔ path = [] ∧ b = breach) :
    Reports place found (.error (.breach place breach) : Except ProgramError α) := by
  intro p b
  constructor
  · intro he
    cases he
    exact ⟨[], rfl, (h _ _).2 ⟨rfl, rfl⟩⟩
  · rintro ⟨path, rfl, hb⟩
    obtain ⟨rfl, rfl⟩ := (h _ _).1 hb
    rfl

theorem congr (h : Reports place first x) (hf : ∀ path b, second path b ↔ first path b) :
    Reports place second x := by
  intro p b
  rw [h p b]
  exact exists_congr fun path => and_congr_right fun _ => (hf path b).symm

/-- What is found inside a part is found in the whole, one step farther. -/
theorem inside (h : Reports (step :: place) found x) :
    Reports place (fun path b => ∃ rest, path = step :: rest ∧ found rest b) x := by
  intro p b
  rw [h p b]
  constructor
  · rintro ⟨rest, rfl, hb⟩
    exact ⟨step :: rest, by simp, rest, rfl, hb⟩
  · rintro ⟨_, rfl, rest, rfl, hb⟩
    exact ⟨rest, by simp, hb⟩

theorem bind (hx : Reports place first x) (hf : ∀ a, x = .ok a → Reports place second (f a)) :
    Reports place (fun path b => first path b ∨ (∃ a, x = .ok a) ∧ second path b) (x >>= f) := by
  intro p b
  rw [bind_eq_error, hx p b]
  constructor
  · rintro (⟨path, hp, hb⟩ | ⟨a, ha, h⟩)
    · exact ⟨path, hp, .inl hb⟩
    · obtain ⟨path, hp, hb⟩ := (hf a ha p b).1 h
      exact ⟨path, hp, .inr ⟨⟨a, ha⟩, hb⟩⟩
  · rintro ⟨path, hp, hb | ⟨⟨a, ha⟩, hb⟩⟩
    · exact .inl ⟨path, hp, hb⟩
    · exact .inr ⟨a, ha, (hf a ha p b).2 ⟨path, hp, hb⟩⟩

theorem map (h : Reports place found x) (g : α → β) :
    Reports place found (x >>= fun a => .ok (g a)) := by
  have hg (a : α) : Reports place (fun _ _ => False) (.ok (g a) : Except ProgramError β) :=
    ok (g a) fun _ _ => id
  exact (h.bind fun a _ => hg a).congr (by simp)

variable {depth : Nat} {role : Role} {data : Json}

theorem of_met (a : α) (h : role.Met depth data) :
    Reports place (FirstBreach depth role data) (.ok a) :=
  ok a fun _ _ => FirstBreach.not_of_met h

theorem of_breach? {breach : Breach} {within : Nat} (hd : role.enter? depth = some within)
    (h : role.breach? data = some breach) :
    Reports place (FirstBreach depth role data)
      (.error (.breach place breach) : Except ProgramError α) :=
  error fun _ _ => FirstBreach.iff_of_breach? hd h

theorem integerAt (depth : Nat) (place : Place) (data : Json) :
    Reports place (FirstBreach depth integer data) (integerAt place data) := by
  cases data with
  | int n => exact of_met n ⟨n, rfl⟩
  | null | bool | float | str | arr | obj => exact of_breach? rfl rfl

theorem stringAt (depth : Nat) (place : Place) (data : Json) :
    Reports place (FirstBreach depth string data) (stringAt place data) := by
  cases data with
  | str s => exact of_met s ⟨s, rfl⟩
  | null | bool | int | float | arr | obj => exact of_breach? rfl rfl

end Reports

theorem integerAt_met_iff (depth : Nat) (place : Place) (data : Json) :
    (∃ n, integerAt place data = .ok n) ↔ integer.Met depth data :=
  exists_congr fun _ => integerAt_eq_ok

theorem stringAt_met_iff (depth : Nat) (place : Place) (data : Json) :
    (∃ s, stringAt place data = .ok s) ↔ string.Met depth data :=
  exists_congr fun _ => stringAt_eq_ok

namespace Reports

section Parts

variable {role role₁ role₂ : Role} {data data₁ data₂ : Json} {depth within : Nat}
  {first second : Step} {x : Except ProgramError α} {f : α → Except ProgramError β}

theorem one (hd : role.enter? depth = some within)
    (hp : ∀ step part inner, Part role data step part inner ↔
      step = first ∧ part = role₁ ∧ inner = data₁)
    (hx : Reports (first :: place) (FirstBreach within role₁ data₁) x) :
    Reports place (FirstBreach depth role data) x :=
  hx.inside.congr fun _ _ => FirstBreach.iff_one hd hp

theorem two (hd : role.enter? depth = some within)
    (hp : ∀ step part inner, Part role data step part inner ↔
      step = first ∧ part = role₁ ∧ inner = data₁ ∨ step = second ∧ part = role₂ ∧ inner = data₂)
    (hs : Step.Before first second)
    (hx : Reports (first :: place) (FirstBreach within role₁ data₁) x)
    (hm : (∃ a, x = .ok a) ↔ role₁.Met within data₁)
    (hf : ∀ a, Reports (second :: place) (FirstBreach within role₂ data₂) (f a)) :
    Reports place (FirstBreach depth role data) (x >>= f) := by
  refine (hx.inside.bind fun a _ => (hf a).inside).congr fun path b => ?_
  rw [hm]
  exact FirstBreach.iff_two hd hp hs

end Parts

variable {depth : Nat} {data : Json}

theorem pairAt (depth : Nat) (place : Place) (data : Json) :
    Reports place (FirstBreach depth pair data) (pairAt place data) := by
  cases data with
  | arr items =>
    rcases items with _ | ⟨x, _ | ⟨y, _ | ⟨z, items⟩⟩⟩
    case cons.cons.nil =>
      exact two rfl (fun _ _ _ => part_pair_iff) (.item Nat.one_pos) (integerAt depth _ x)
        (integerAt_met_iff depth _ x) fun a => (integerAt depth _ y).map (Prod.mk a)
    all_goals exact of_breach? rfl rfl
  | null | bool | int | float | str | obj => exact of_breach? rfl rfl

theorem fields {first : Role} {key : String} {role : Role} (hr : role.first? = some (key, first))
    {read : Place → Json → Except ProgramError α}
    {block : Place → Json → Except ProgramError Program} {fields : List (String × Json)}
    (hf : ∀ place data, Reports place (FirstBreach depth first data) (read place data))
    (hm : ∀ place data, (∃ a, read place data = .ok a) ↔ first.Met depth data)
    (hb : ∀ place data, Reports place (FirstBreach depth .block data) (block place data))
    (g : α → Program → Command) :
    Reports place (FirstBreach depth role (.obj fields))
      (read (.field key :: place) ((Json.field? key fields).getD .null) >>= fun a =>
        bodyAt block place fields >>= fun body => .ok (g a body)) := by
  have hd : role.enter? depth = some depth := by
    rcases first?_cases hr with ⟨rfl, -⟩ | ⟨rfl, -⟩ <;> rfl
  exact two hd (fun _ _ _ => part_fields_iff hr) (before_body hr) (hf _ _) (hm _ _)
    fun a => (hb _ _).map (g a)

end Reports

/-- A way to read blocks that reports the first breach. -/
def ReportsBlocks (depth : Nat) (block : Place → Json → Except ProgramError Program) : Prop :=
  ∀ place data, Reports place (FirstBreach depth .block data) (block place data)

namespace ReportsBlocks

variable {depth : Nat} {block : Place → Json → Except ProgramError Program}

theorem commandNamed (h : ReportsBlocks depth block) (place : Place) (name : String)
    (argument : Json) :
    Reports place (FirstBreach depth command (.obj [(name, argument)]))
      (commandNamed block place name argument) := by
  have hone {role : Role} {result : Except ProgramError Command} (hn : (name, role) ∈ arguments)
      (hr : Reports (.field name :: place) (FirstBreach depth role argument) result) :
      Reports place (FirstBreach depth command (.obj [(name, argument)])) result :=
    .one rfl (fun _ _ _ => part_argument_iff hn) hr
  unfold Program.commandNamed
  split
  case h_2 =>
    exact hone (by decide) ((Reports.pairAt _ _ _).map _)
  case h_7 =>
    refine hone (show ("loop", loop) ∈ arguments by decide) ?_
    cases argument with
    | obj fields =>
      exact .fields rfl (Reports.integerAt _) (integerAt_met_iff _) h .loop
    | null | bool | int | float | str | arr => exact .of_breach? rfl rfl
  case h_8 =>
    refine hone (show ("set_macro", definition) ∈ arguments by decide) ?_
    cases argument with
    | obj fields =>
      exact .fields rfl (Reports.stringAt _) (stringAt_met_iff _) h .define
    | null | bool | int | float | str | arr => exact .of_breach? rfl rfl
  case h_9 => exact hone (by decide) ((Reports.stringAt _ _ _).map _)
  case h_10 =>
    split
    case h_1 hn =>
      exact hone (bare_argument (Action.named?_eq_some_iff.1 hn)) (.of_met _ rfl)
    case h_2 argument _ _ _ hn hnull =>
      refine hone (bare_argument (Action.named?_eq_some_iff.1 hn)) (.of_breach? rfl ?_)
      cases argument with
      | null => exact absurd rfl hnull
      | bool | int | float | str | arr | obj => rfl
    case h_3 hn =>
      refine .of_breach? rfl (if_neg fun hm => ?_)
      simp only [arguments, List.map_cons, List.map_nil, List.mem_cons, List.not_mem_nil,
        or_false] at hm
      rcases hm with h | h | h | h | h | h | h | h | h | rfl | rfl | rfl | rfl | rfl
      all_goals contradiction
  all_goals exact hone (by decide) ((Reports.integerAt _ _ _).map _)

theorem commandAt (h : ReportsBlocks depth block) (place : Place) (data : Json) :
    Reports place (FirstBreach depth command data) (commandAt block place data) := by
  cases data with
  | str name =>
    rw [Program.commandAt]
    split
    case h_1 hn =>
      exact .of_met _ ⟨_, Nat.zero_le _, .bare (Action.named?_eq_some_iff.1 hn)⟩
    case h_2 hn =>
      refine .of_breach? rfl (if_neg fun hm => ?_)
      obtain ⟨⟨_, action⟩, ha, rfl⟩ := List.mem_map.1 hm
      cases hn.symm.trans (Action.named?_eq_some_iff.2 ha)
  | obj fields =>
    rcases fields with _ | ⟨⟨name, argument⟩, _ | ⟨field, fields⟩⟩
    case cons.nil => exact h.commandNamed place name argument
    all_goals exact .of_breach? rfl rfl
  | null | bool | int | float | arr => exact .of_breach? rfl rfl

/-- Items are read in order, and the first that has a breach ends it. -/
theorem commandsFrom (hr : ReadsBlocks depth block) (h : ReportsBlocks depth block) (place : Place)
    (index : Nat) (items : List Json) :
    Reports place
      (fun path b => ∃ i item rest, items[i]? = some item ∧ path = .item (index + i) :: rest ∧
        (∀ j < i, ∀ earlier, items[j]? = some earlier → command.Met depth earlier) ∧
        FirstBreach depth command item rest b)
      (commandsFrom (Program.commandAt block) place index items) := by
  induction items generalizing index with
  | nil =>
    refine .ok _ ?_
    rintro path b ⟨i, item, rest, hi, -⟩
    cases hi
  | cons item items ih =>
    refine ((h.commandAt _ item).inside.bind fun c _ => (ih (index + 1)).map (c :: ·)).congr ?_
    have hm : (∃ c, Program.commandAt block (.item index :: place) item = .ok c) ↔
        command.Met depth item :=
      exists_congr fun _ => hr.commandAt_eq_ok
    intro path b
    rw [hm]
    constructor
    · rintro ⟨i, found, rest, hi, rfl, hb, hf⟩
      cases i with
      | zero =>
        cases hi
        exact .inl ⟨rest, rfl, hf⟩
      | succ i =>
        refine .inr ⟨hb 0 i.succ_pos item rfl, i, found, rest, hi, ?_, fun j hj => ?_, hf⟩
        · rw [Nat.add_right_comm, Nat.add_assoc]
        · exact hb (j + 1) (Nat.succ_lt_succ hj)
    · rintro (⟨rest, rfl, hf⟩ | ⟨hc, i, found, rest, hi, rfl, hb, hf⟩)
      · exact ⟨0, item, rest, rfl, rfl, fun j hj => absurd hj j.not_lt_zero, hf⟩
      · refine ⟨i + 1, found, rest, hi, ?_, fun j hj earlier he => ?_, hf⟩
        · rw [Nat.add_right_comm, Nat.add_assoc]
        · cases j with
          | zero =>
            cases he
            exact hc
          | succ j => exact hb j (Nat.lt_of_succ_lt_succ hj) earlier he

end ReportsBlocks

theorem reportsBlocks_blockAt (depth : Nat) : ReportsBlocks depth (blockAt depth) := by
  induction depth with
  | zero =>
    intro place data p b
    constructor
    · intro h
      cases h
    · rintro ⟨path, -, hb⟩
      cases hb with
      | here hd | inside hd => cases hd
  | succ depth ih =>
    intro place data
    cases data with
    | arr items =>
      refine (ih.commandsFrom (readsBlocks_blockAt depth) place 0 items).congr fun path b => ?_
      rw [FirstBreach.iff_part rfl rfl]
      constructor
      · rintro ⟨step, rest, part, item, rfl, hp, hb, hf⟩
        obtain ⟨i, rfl, rfl, hi⟩ := part_block_iff.1 hp
        refine ⟨i, item, rest, hi, by rw [Nat.zero_add], fun j hj earlier he => ?_, hf⟩
        exact hb _ (.item hj) _ _ (.item he)
      · rintro ⟨i, item, rest, hi, rfl, hb, hf⟩
        refine ⟨.item i, rest, command, item, by rw [Nat.zero_add], .item hi, ?_, hf⟩
        intro earlier he r value hv
        obtain ⟨j, rfl, rfl, hj⟩ := part_block_iff.1 hv
        cases he with
        | item hji => exact hb j hji value hj
    | null | bool | int | float | str | obj => exact .of_breach? rfl rfl

variable {data : Json} {e : ProgramError}

theorem ofJson_eq_breach {p : Place} {breach : Breach} :
    ofJson data = .error (.breach p breach) ↔
      ∃ path, p = path.reverse ∧ FirstBreach maxBlockDepth block data path breach := by
  rw [ofJson, reportsBlocks_blockAt maxBlockDepth [] data p breach]
  simp only [List.append_nil]

/-- Data writes a program exactly if no place in it has a breach. -/
theorem written_iff_no_breach (hn : data.NestsWithin maxBlockDepth) :
    (∃ p : Program, p.WrittenAs data) ↔
      ∀ path role value, Role.At block data path role value → role.breach? value = none := by
  constructor
  · rintro ⟨p, hp⟩ path role value ha
    have hm : block.Met p.depth data := ⟨p, Nat.le_refl _, hp⟩
    exact hm.breach?_at ha
  · intro h
    cases hr : ofJson data with
    | ok p => exact ⟨p, (ofJson_eq_ok.1 hr).2⟩
    | error e =>
      obtain ⟨place, breach, rfl⟩ := OnlyBreaches.blockAt hn e hr
      obtain ⟨path, -, hf⟩ := ofJson_eq_breach.1 hr
      obtain ⟨role, value, ha, hb⟩ := hf.at_path
      cases (h path role value ha).symm.trans hb

/-- Data that is refused is refused for the place with a breach that is read before all other places
with one. The message says the path to it, every item before it on this path is a command, and data
that differs only in what comes later is refused for the same. -/
theorem ofJson_first_breach (hn : data.NestsWithin maxBlockDepth) (he : ofJson data = .error e) :
    ∃ path role value breach, Role.At block data path role value ∧
      role.breach? value = some breach ∧
      e = .breach path.reverse breach ∧
      e.message = "program" ++ String.join (path.map Step.text) ++ breach.text ∧
      (∀ path' role' value', Role.At block data path' role' value' → role'.breach? value' ≠ none →
        path' = path ∨ ReadBefore path path') ∧
      (∀ before i after items, path = before ++ .item i :: after →
        Role.At block data before block (.arr items) →
        ∀ earlier ∈ items.take i, ∃ c : Command, c.WrittenAs earlier) ∧
      ∀ data', SameUpTo block path data data' → ofJson data' = .error e := by
  obtain ⟨place, breach, rfl⟩ := OnlyBreaches.blockAt hn e he
  obtain ⟨path, rfl, hf⟩ := ofJson_eq_breach.1 he
  obtain ⟨role, value, ha, hb⟩ := hf.at_path
  refine ⟨path, role, value, breach, ha, hb, rfl, ?_, ?_, ?_, ?_⟩
  · rw [ProgramError.message, Place.text, List.reverse_reverse]
  · exact fun path' role' value' => hf.readBefore
  · exact fun before i after items hp hat => hf.earlier_items hp hat
  · exact fun data' hs => ofJson_eq_breach.2 ⟨path, rfl, hf.sameUpTo hs⟩

theorem ofJson_first_breach_nested :
    let body : List Json := [.str "pass", .obj [("forward", .bool true)], .int 5]
    let data : Json := .arr [.obj [("loop", .obj [("body", .arr body), ("count", .int 2)])], .int 7]
    let body' : List Json := [.str "pass", .obj [("forward", .str "far")]]
    let data' : Json := .arr [.obj [("loop", .obj [("count", .int 2), ("body", .arr body')])]]
    data.NestsWithin maxBlockDepth ∧ ∃ e, ofJson data = .error e ∧ ofJson data' = .error e ∧
      e.message = "program[0].loop.body[1].forward must be an integer" := by
  intro body data body' data'
  have hn : data.NestsWithin maxBlockDepth := by
    simp [data, body, maxBlockDepth, Json.NestsWithin]
  have he : ofJson data = .error (.breach
      [.field "forward", .item 1, .field "body", .field "loop", .item 0] .notInteger) := rfl
  obtain ⟨path, _, _, _, -, -, hp, -, -, -, hs⟩ := ofJson_first_breach hn he
  have hpath : path = [.item 0, .field "loop", .field "body", .item 1, .field "forward"] := by
    injection hp with hp
    exact List.reverse_eq_iff.1 hp.symm
  subst hpath
  refine ⟨hn, _, he, hs data' ?_, rfl⟩
  have hloop : ("loop", loop) ∈ arguments := by decide
  have hcount : loop.first? = some ("count", integer) := rfl
  have hforward : ("forward", integer) ∈ arguments := by decide
  refine .item rfl rfl rfl (.argument hloop (.body hcount rfl ?_))
  exact .item rfl rfl rfl (.argument hforward (.here rfl))

end Program

end TurtlePlot
