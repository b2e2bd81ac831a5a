import Mathlib.Data.List.Forall2
import TurtlePlot.Program.Decode

/-!
The grammar of programs as data. An array is read as a program exactly if each of its items writes
a command, and then as these commands in order. All other data has a breach at some place, if its
blocks do not nest too deep to be read.
-/

namespace TurtlePlot

/-- The actions that take no argument, by their names. -/
def Action.bare : List (String × Action) :=
  [("pass", .pass), ("center", .center), ("reset_heading", .resetHeading), ("pen_up", .penUp),
    ("pen_down", .penDown)]

/-- How data writes a command. An object may hold more fields than are read, and a body that is
missing is empty. -/
inductive Command.WrittenAs : Command → Json → Prop
  | bare {name : String} {action : Action} (h : (name, action) ∈ Action.bare) :
      WrittenAs (.act action) (.str name)
  | noArgument {name : String} {action : Action} (h : (name, action) ∈ Action.bare) :
      WrittenAs (.act action) (.obj [(name, .null)])
  | setHeading (degrees : Int) :
      WrittenAs (.act (.setHeading degrees)) (.obj [("set_heading", .int degrees)])
  | setPosition (x y : Int) :
      WrittenAs (.act (.setPosition x y)) (.obj [("set_position", .arr [.int x, .int y])])
  | turn (degrees : Int) : WrittenAs (.act (.turn degrees)) (.obj [("turn", .int degrees)])
  | left (degrees : Int) : WrittenAs (.act (.turn degrees)) (.obj [("left", .int degrees)])
  | right (degrees : Int) : WrittenAs (.act (.turn (-degrees))) (.obj [("right", .int degrees)])
  | forward (distance : Int) :
      WrittenAs (.act (.forward distance)) (.obj [("forward", .int distance)])
  | loop {fields : List (String × Json)} {count : Int} {items : List Json} {body : Program}
      (hc : fields.lookup "count" = some (.int count))
      (hi : (fields.lookup "body").getD (.arr []) = .arr items)
      (hb : List.Forall₂ WrittenAs body items) :
      WrittenAs (.loop count body) (.obj [("loop", .obj fields)])
  | define {fields : List (String × Json)} {name : String} {items : List Json} {body : Program}
      (hn : fields.lookup "name" = some (.str name))
      (hi : (fields.lookup "body").getD (.arr []) = .arr items)
      (hb : List.Forall₂ WrittenAs body items) :
      WrittenAs (.define name body) (.obj [("set_macro", .obj fields)])
  | play (name : String) : WrittenAs (.play name) (.obj [("play_macro", .str name)])

/-- How data writes a program: as an array with one item for each command. -/
def Program.WrittenAs (p : Program) (data : Json) : Prop :=
  ∃ items, data = .arr items ∧ List.Forall₂ Command.WrittenAs p items

mutual

/-- How deep blocks nest in the body of a command, if it has one. -/
def Command.depth : Command → Nat
  | .act _ | .play _ => 0
  | .loop _ body | .define _ body => Program.depth body

/-- How deep blocks nest in a program, which is a block itself. -/
def Program.depth : Program → Nat
  | [] => 1
  | c :: rest => max (c.depth + 1) (Program.depth rest)

end

/-- Whether blocks nest at most `depth` deep in data that is read as a block. -/
def Json.NestsWithin : (depth : Nat) → Json → Prop
  | 0, _ => False
  | depth + 1, .arr items => ∀ name ∈ ["loop", "set_macro"], ∀ fields,
      .obj [(name, .obj fields)] ∈ items →
        NestsWithin depth ((fields.lookup "body").getD (.arr []))
  | _ + 1, _ => True

section Except

variable {ε α β : Type} {x : Except ε α} {f : α → Except ε β} {e : ε} {b : β}

theorem bind_eq_ok : x >>= f = .ok b ↔ ∃ a, x = .ok a ∧ f a = .ok b := by
  cases x with
  | error e =>
    constructor
    · intro h
      cases h
    · rintro ⟨a, h, -⟩
      cases h
  | ok a =>
    constructor
    · exact fun h => ⟨a, rfl, h⟩
    · rintro ⟨a, h, hf⟩
      cases h
      exact hf

theorem bind_eq_error :
    x >>= f = .error e ↔ x = .error e ∨ ∃ a, x = .ok a ∧ f a = .error e := by
  cases x with
  | error e' =>
    constructor
    · intro h
      cases h
      exact .inl rfl
    · rintro (h | ⟨a, h, -⟩)
      · cases h
        rfl
      · cases h
  | ok a =>
    constructor
    · exact fun h => .inr ⟨a, rfl, h⟩
    · rintro (h | ⟨a, h, hf⟩)
      · cases h
      · cases h
        exact hf

end Except

theorem Action.named?_eq_some_iff {name : String} {action : Action} :
    named? name = some action ↔ (name, action) ∈ bare := by
  constructor
  · intro h
    unfold named? at h
    split at h <;> cases h <;> decide
  · intro h
    simp only [bare, List.mem_cons, Prod.mk.injEq, List.not_mem_nil, or_false] at h
    rcases h with ⟨rfl, rfl⟩ | ⟨rfl, rfl⟩ | ⟨rfl, rfl⟩ | ⟨rfl, rfl⟩ | ⟨rfl, rfl⟩ <;> rfl

namespace Program

variable {place : Place} {data : Json} {e : ProgramError}

theorem integerAt_eq_ok {n : Int} : integerAt place data = .ok n ↔ data = .int n := by
  cases data <;> simp [integerAt]

theorem stringAt_eq_ok {s : String} : stringAt place data = .ok s ↔ data = .str s := by
  cases data <;> simp [stringAt]

theorem fieldsAt_eq_ok {fields : List (String × Json)} :
    fieldsAt place data = .ok fields ↔ data = .obj fields := by
  cases data <;> simp [fieldsAt]

theorem pairAt_eq_ok {x y : Int} :
    pairAt place data = .ok (x, y) ↔ data = .arr [.int x, .int y] := by
  constructor
  · intro h
    unfold pairAt at h
    split at h
    case h_1 a b =>
      obtain ⟨x', hx, h⟩ := bind_eq_ok.1 h
      obtain ⟨y', hy, h⟩ := bind_eq_ok.1 h
      cases h
      rw [integerAt_eq_ok.1 hx, integerAt_eq_ok.1 hy]
    all_goals cases h
  · rintro rfl
    rfl

theorem integerAt_bind_eq_ok {f : Int → Command} {c : Command} :
    (do return f (← integerAt place data)) = .ok c ↔ ∃ n, data = .int n ∧ f n = c := by
  rw [bind_eq_ok]
  refine exists_congr fun n => and_congr integerAt_eq_ok ⟨fun h => ?_, fun h => ?_⟩
  · cases h
    rfl
  · rw [h]
    rfl

theorem field?_getD_eq {fields : List (String × Json)} {key : String} (hn : data ≠ .null) :
    (Json.field? key fields).getD .null = data ↔ fields.lookup key = some data := by
  rw [Json.field?]
  cases fields.lookup key with
  | none => exact iff_of_false (fun h => hn h.symm) nofun
  | some value => exact ⟨congrArg some, Option.some.inj⟩

theorem integerAt_field_eq_ok {fields : List (String × Json)} {key : String} {n : Int} :
    integerAt place ((Json.field? key fields).getD .null) = .ok n ↔
      fields.lookup key = some (.int n) := by
  have hn : Json.int n ≠ .null := nofun
  rw [integerAt_eq_ok, field?_getD_eq hn]

theorem stringAt_field_eq_ok {fields : List (String × Json)} {key s : String} :
    stringAt place ((Json.field? key fields).getD .null) = .ok s ↔
      fields.lookup key = some (.str s) := by
  have hn : Json.str s ≠ .null := nofun
  rw [stringAt_eq_ok, field?_getD_eq hn]

/-- A way to read blocks that reads exactly the programs whose blocks nest within a depth. -/
def ReadsBlocks (depth : Nat) (block : Place → Json → Except ProgramError Program) : Prop :=
  ∀ place data p, block place data = .ok p ↔
    p.depth ≤ depth ∧ p.WrittenAs data

namespace ReadsBlocks

variable {depth : Nat} {block : Place → Json → Except ProgramError Program}
  {fields : List (String × Json)} {name : String} {c : Command} {p : Program}

theorem bodyAt_eq_ok (h : ReadsBlocks depth block) :
    bodyAt block place fields = .ok p ↔
      p.depth ≤ depth ∧ p.WrittenAs ((fields.lookup "body").getD (.arr [])) :=
  h _ _ p

theorem commandNamed_eq_ok (h : ReadsBlocks depth block) :
    commandNamed block place name data = .ok c ↔
      c.depth ≤ depth ∧ c.WrittenAs (.obj [(name, data)]) := by
  constructor
  · intro hc
    unfold commandNamed at hc
    split at hc
    case h_1 =>
      obtain ⟨degrees, rfl, rfl⟩ := integerAt_bind_eq_ok.1 hc
      exact ⟨Nat.zero_le _, .setHeading degrees⟩
    case h_2 =>
      obtain ⟨⟨x, y⟩, hxy, hc⟩ := bind_eq_ok.1 hc
      cases hc
      rw [pairAt_eq_ok.1 hxy]
      exact ⟨Nat.zero_le _, .setPosition x y⟩
    case h_3 =>
      obtain ⟨degrees, rfl, rfl⟩ := integerAt_bind_eq_ok.1 hc
      exact ⟨Nat.zero_le _, .turn degrees⟩
    case h_4 =>
      obtain ⟨degrees, rfl, rfl⟩ := integerAt_bind_eq_ok.1 hc
      exact ⟨Nat.zero_le _, .left degrees⟩
    case h_5 =>
      obtain ⟨degrees, rfl, rfl⟩ := integerAt_bind_eq_ok.1 hc
      exact ⟨Nat.zero_le _, .right degrees⟩
    case h_6 =>
      obtain ⟨distance, rfl, rfl⟩ := integerAt_bind_eq_ok.1 hc
      exact ⟨Nat.zero_le _, .forward distance⟩
    case h_7 =>
      obtain ⟨fields, hf, hc⟩ := bind_eq_ok.1 hc
      obtain ⟨count, hn, hc⟩ := bind_eq_ok.1 hc
      obtain ⟨body, hb, hc⟩ := bind_eq_ok.1 hc
      obtain ⟨hd, items, hi, hb⟩ := h.bodyAt_eq_ok.1 hb
      cases hc
      rw [fieldsAt_eq_ok.1 hf]
      exact ⟨hd, .loop (integerAt_field_eq_ok.1 hn) hi hb⟩
    case h_8 =>
      obtain ⟨fields, hf, hc⟩ := bind_eq_ok.1 hc
      obtain ⟨name, hn, hc⟩ := bind_eq_ok.1 hc
      obtain ⟨body, hb, hc⟩ := bind_eq_ok.1 hc
      obtain ⟨hd, items, hi, hb⟩ := h.bodyAt_eq_ok.1 hb
      cases hc
      rw [fieldsAt_eq_ok.1 hf]
      exact ⟨hd, .define (stringAt_field_eq_ok.1 hn) hi hb⟩
    case h_9 =>
      obtain ⟨name, hn, hc⟩ := bind_eq_ok.1 hc
      cases hc
      rw [stringAt_eq_ok.1 hn]
      exact ⟨Nat.zero_le _, .play name⟩
    case h_10 =>
      split at hc
      case h_1 hn =>
        cases hc
        exact ⟨Nat.zero_le _, .noArgument (Action.named?_eq_some_iff.1 hn)⟩
      all_goals cases hc
  · rintro ⟨hd, hc⟩
    cases hc with
    | noArgument hn =>
      simp only [Action.bare, List.mem_cons, Prod.mk.injEq, List.not_mem_nil, or_false] at hn
      rcases hn with ⟨rfl, rfl⟩ | ⟨rfl, rfl⟩ | ⟨rfl, rfl⟩ | ⟨rfl, rfl⟩ | ⟨rfl, rfl⟩ <;> rfl
    | loop hl hi hb =>
      refine bind_eq_ok.2 ⟨_, rfl, bind_eq_ok.2 ⟨_, integerAt_field_eq_ok.2 hl, ?_⟩⟩
      exact bind_eq_ok.2 ⟨_, h.bodyAt_eq_ok.2 ⟨hd, _, hi, hb⟩, rfl⟩
    | define hl hi hb =>
      refine bind_eq_ok.2 ⟨_, rfl, bind_eq_ok.2 ⟨_, stringAt_field_eq_ok.2 hl, ?_⟩⟩
      exact bind_eq_ok.2 ⟨_, h.bodyAt_eq_ok.2 ⟨hd, _, hi, hb⟩, rfl⟩
    | setHeading | setPosition | turn | left | right | forward | play => rfl

theorem commandAt_eq_ok (h : ReadsBlocks depth block) :
    commandAt block place data = .ok c ↔ c.depth ≤ depth ∧ c.WrittenAs data := by
  constructor
  · intro hc
    unfold commandAt at hc
    split at hc
    case h_1 =>
      split at hc
      case h_1 hn =>
        cases hc
        exact ⟨Nat.zero_le _, .bare (Action.named?_eq_some_iff.1 hn)⟩
      case h_2 => cases hc
    case h_2 => exact h.commandNamed_eq_ok.1 hc
    all_goals cases hc
  · rintro ⟨hd, hc⟩
    cases data with
    | str name =>
      cases hc with
      | bare hn => simp only [commandAt, Action.named?_eq_some_iff.2 hn]
    | obj fields =>
      obtain ⟨name, argument, rfl⟩ : ∃ name argument, fields = [(name, argument)] := by
        cases hc <;> exact ⟨_, _, rfl⟩
      exact h.commandNamed_eq_ok.2 ⟨hd, hc⟩
    | null | bool | int | float | arr => cases hc

theorem commandsFrom_eq_ok (h : ReadsBlocks depth block) {index : Nat} {items : List Json} :
    commandsFrom (commandAt block) place index items = .ok p ↔
      p.depth ≤ depth + 1 ∧ List.Forall₂ Command.WrittenAs p items := by
  induction items generalizing index p with
  | nil =>
    constructor
    · intro hp
      cases hp
      exact ⟨Nat.le_add_left _ _, .nil⟩
    · rintro ⟨-, hp⟩
      cases hp
      rfl
  | cons item items ih =>
    constructor
    · intro hp
      obtain ⟨c, hc, hp⟩ := bind_eq_ok.1 hp
      obtain ⟨rest, hr, hp⟩ := bind_eq_ok.1 hp
      obtain ⟨hdc, hc⟩ := h.commandAt_eq_ok.1 hc
      obtain ⟨hdr, hr⟩ := ih.1 hr
      cases hp
      exact ⟨Nat.max_le.2 ⟨Nat.succ_le_succ hdc, hdr⟩, .cons hc hr⟩
    · rintro ⟨hd, hp⟩
      cases hp with
      | cons hc hr =>
        obtain ⟨hdc, hdr⟩ := Nat.max_le.1 hd
        refine bind_eq_ok.2 ⟨_, h.commandAt_eq_ok.2 ⟨Nat.le_of_succ_le_succ hdc, hc⟩, ?_⟩
        exact bind_eq_ok.2 ⟨_, ih.2 ⟨hdr, hr⟩, rfl⟩

end ReadsBlocks

theorem depth_pos (p : Program) : 0 < p.depth := by
  induction p with
  | nil => exact Nat.one_pos
  | cons c rest ih => exact Nat.lt_of_lt_of_le ih (Nat.le_max_right _ _)

theorem readsBlocks_blockAt (depth : Nat) : ReadsBlocks depth (blockAt depth) := by
  induction depth with
  | zero =>
    intro place data p
    constructor
    · intro h
      cases h
    · rintro ⟨h, -⟩
      exact absurd h (Nat.not_le.2 p.depth_pos)
  | succ depth ih =>
    intro place data p
    cases data with
    | arr items =>
      rw [blockAt, ih.commandsFrom_eq_ok]
      refine and_congr_right fun _ => ⟨fun h => ⟨items, rfl, h⟩, ?_⟩
      rintro ⟨_, h, hp⟩
      cases h
      exact hp
    | null | bool | int | float | str | obj =>
      constructor
      · intro h
        cases h
      · rintro ⟨-, _, h, -⟩
        cases h

/-- Data is read as a program exactly if it is an array that writes the program, in which blocks do
not nest too deep. -/
theorem ofJson_eq_ok {p : Program} :
    ofJson data = .ok p ↔ p.depth ≤ maxBlockDepth ∧ p.WrittenAs data :=
  readsBlocks_blockAt maxBlockDepth [] data p

/-- Whether a result is an error only as a breach at some place. -/
def OnlyBreaches {α : Type} (result : Except ProgramError α) : Prop :=
  ∀ e, result = .error e → ∃ place breach, e = .breach place breach

namespace OnlyBreaches

variable {α β : Type} {block : Place → Json → Except ProgramError Program} {name : String}

theorem ok (a : α) : OnlyBreaches (.ok a) := by
  intro e h
  cases h

theorem breach (place : Place) (breach : Breach) :
    OnlyBreaches (.error (.breach place breach) : Except ProgramError α) := by
  intro e h
  cases h
  exact ⟨place, breach, rfl⟩

theorem bind {x : Except ProgramError α} {f : α → Except ProgramError β} (hx : OnlyBreaches x)
    (hf : ∀ a, x = .ok a → OnlyBreaches (f a)) : OnlyBreaches (x >>= f) := by
  intro e h
  rcases bind_eq_error.1 h with h | ⟨a, ha, h⟩
  · exact hx e h
  · exact hf a ha e h

theorem integerAt (place : Place) (data : Json) : OnlyBreaches (integerAt place data) := by
  cases data with
  | int n => exact .ok n
  | null | bool | float | str | arr | obj => exact .breach _ _

theorem stringAt (place : Place) (data : Json) : OnlyBreaches (stringAt place data) := by
  cases data with
  | str s => exact .ok s
  | null | bool | int | float | arr | obj => exact .breach _ _

theorem fieldsAt (place : Place) (data : Json) : OnlyBreaches (fieldsAt place data) := by
  cases data with
  | obj fields => exact .ok fields
  | null | bool | int | float | str | arr => exact .breach _ _

theorem pairAt (place : Place) (data : Json) : OnlyBreaches (pairAt place data) := by
  unfold Program.pairAt
  split
  case h_1 => exact (integerAt _ _).bind fun _ _ => (integerAt _ _).bind fun _ _ => .ok _
  all_goals exact .breach _ _

theorem commandNamed
    (h : name ∈ ["loop", "set_macro"] → ∀ fields, data = .obj fields →
      ∀ place, OnlyBreaches (block place ((fields.lookup "body").getD (.arr [])))) :
    OnlyBreaches (commandNamed block place name data) := by
  unfold Program.commandNamed
  split
  case h_2 => exact (pairAt _ _).bind fun _ _ => .ok _
  case h_7 =>
    refine (fieldsAt _ _).bind fun fields hf => (integerAt _ _).bind fun _ _ => ?_
    exact (h (by decide) fields (fieldsAt_eq_ok.1 hf) _).bind fun _ _ => .ok _
  case h_8 =>
    refine (fieldsAt _ _).bind fun fields hf => (stringAt _ _).bind fun _ _ => ?_
    exact (h (by decide) fields (fieldsAt_eq_ok.1 hf) _).bind fun _ _ => .ok _
  case h_9 => exact (stringAt _ _).bind fun _ _ => .ok _
  case h_10 =>
    split
    case h_1 => exact .ok _
    all_goals exact .breach _ _
  all_goals exact (integerAt _ _).bind fun _ _ => .ok _

theorem commandAt
    (h : ∀ name ∈ ["loop", "set_macro"], ∀ fields, data = .obj [(name, .obj fields)] →
      ∀ place, OnlyBreaches (block place ((fields.lookup "body").getD (.arr [])))) :
    OnlyBreaches (commandAt block place data) := by
  unfold Program.commandAt
  split
  case h_1 =>
    split
    · exact .ok _
    · exact .breach _ _
  case h_2 name argument => exact .commandNamed fun hn fields hf => h name hn fields (by rw [hf])
  all_goals exact .breach _ _

theorem commandsFrom {command : Place → Json → Except ProgramError Command} {index : Nat}
    {items : List Json} (h : ∀ item ∈ items, ∀ place, OnlyBreaches (command place item)) :
    OnlyBreaches (commandsFrom command place index items) := by
  induction items generalizing index with
  | nil => exact .ok _
  | cons item items ih =>
    refine (h item List.mem_cons_self _).bind fun _ _ => ?_
    exact (ih fun item hi => h item (List.mem_cons_of_mem _ hi)).bind fun _ _ => .ok _

theorem blockAt {depth : Nat} (h : data.NestsWithin depth) :
    OnlyBreaches (blockAt depth place data) := by
  induction depth generalizing place data with
  | zero => exact h.elim
  | succ depth ih =>
    cases data with
    | arr items =>
      refine .commandsFrom fun item hi place => .commandAt fun name hn fields hf place => ih ?_
      exact h name hn fields (hf ▸ hi)
    | null | bool | int | float | str | obj => exact .breach _ _

end OnlyBreaches

theorem WrittenAs.depth_le {p : Program} {depth : Nat} (hp : p.WrittenAs data)
    (h : data.NestsWithin depth) : p.depth ≤ depth := by
  induction depth generalizing p data with
  | zero => exact h.elim
  | succ depth ih =>
    obtain ⟨items, rfl, hp⟩ := hp
    have hbody {name : String} {fields : List (String × Json)} {inner : List Json} {body : Program}
        (hn : name ∈ ["loop", "set_macro"]) (hm : .obj [(name, .obj fields)] ∈ items)
        (hi : (fields.lookup "body").getD (.arr []) = .arr inner)
        (hb : List.Forall₂ Command.WrittenAs body inner) : body.depth ≤ depth :=
      ih ⟨inner, hi, hb⟩ (h name hn fields hm)
    clear h
    induction hp with
    | nil => exact Nat.le_add_left _ _
    | @cons c item rest items hc _ ihr =>
      refine Nat.max_le.2 ⟨Nat.succ_le_succ ?_, ?_⟩
      · cases hc with
        | loop _ hi hb => exact hbody (by decide) List.mem_cons_self hi hb
        | define _ hi hb => exact hbody (by decide) List.mem_cons_self hi hb
        | _ => exact Nat.zero_le _
      · exact ihr fun hn hm hi hb => hbody hn (List.mem_cons_of_mem _ hm) hi hb

/-- Data whose blocks do not nest too deep is read as a program exactly if it is an array whose
items write the commands of the program in order; otherwise it is refused for a breach. -/
theorem ofJson_follows_grammar (h : data.NestsWithin maxBlockDepth) :
    (∀ p, ofJson data = .ok p ↔ p.WrittenAs data) ∧
      ((¬ ∃ p : Program, p.WrittenAs data) →
        ∃ place breach, ofJson data = .error (.breach place breach)) := by
  have hok (p : Program) : ofJson data = .ok p ↔ p.WrittenAs data :=
    ofJson_eq_ok.trans ⟨And.right, fun hp => ⟨hp.depth_le h, hp⟩⟩
  refine ⟨hok, fun hn => ?_⟩
  cases hr : ofJson data with
  | ok p => exact absurd ⟨p, (hok p).1 hr⟩ hn
  | error e =>
    obtain ⟨place, breach, rfl⟩ := OnlyBreaches.blockAt h e hr
    exact ⟨place, breach, rfl⟩

theorem ofJson_follows_grammar_nested :
    let data : Json := .arr [.obj [("right", .int 30)], .obj [("pen_up", .null)],
      .obj [("loop", .obj [("note", .bool true),
        ("body", .arr [.obj [("set_macro", .obj [("name", .str "m")])]]), ("count", .int (-2))])]]
    let program : Program := [.act (.turn (-30)), .act .penUp, .loop (-2) [.define "m" []]]
    let refused : Json := .arr [.obj [("turn", .bool true)]]
    data.NestsWithin maxBlockDepth ∧ ofJson data = .ok program ∧ program.WrittenAs data ∧
      refused.NestsWithin maxBlockDepth ∧ (¬ ∃ p : Program, p.WrittenAs refused) ∧
      ∃ place breach, ofJson refused = .error (.breach place breach) := by
  intro data program refused
  have h : data.NestsWithin maxBlockDepth := by
    simp [data, maxBlockDepth, Json.NestsWithin, Association.lookup_cons_eq]
  have hr : refused.NestsWithin maxBlockDepth := by
    simp [refused, maxBlockDepth, Json.NestsWithin]
  have hp : ofJson data = .ok program := rfl
  have hn : ¬ ∃ p : Program, p.WrittenAs refused := by
    rintro ⟨p, hw⟩
    cases ((ofJson_follows_grammar hr).1 p).2 hw
  exact ⟨h, hp, ((ofJson_follows_grammar h).1 program).1 hp, hr, hn,
    (ofJson_follows_grammar hr).2 hn⟩

end Program

end TurtlePlot
