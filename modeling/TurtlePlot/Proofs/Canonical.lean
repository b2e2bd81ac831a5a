import Mathlib.Data.List.Permutation
import TurtlePlot.Program.Encode
import TurtlePlot.Proofs.Grammar

/-!
The canonical form of programs as data. What is written for a program is read as the same program.
Data that is read as a program is what is written for it, up to the order of fields, exactly if it
is canonical.
-/

namespace TurtlePlot

/-- Programs by what they start with; the bodies in them are programs too. -/
@[elab_as_elim]
theorem Program.induction {P : Program → Prop} (nil : P [])
    (act : ∀ action rest, P rest → P (.act action :: rest))
    (loop : ∀ count body rest, P body → P rest → P (.loop count body :: rest))
    (define : ∀ name body rest, P body → P rest → P (.define name body :: rest))
    (play : ∀ name rest, P rest → P (.play name :: rest)) : ∀ p, P p
  | [] => nil
  | .act action :: rest => act action rest (Program.induction nil act loop define play rest)
  | .loop count body :: rest =>
    loop count body rest (Program.induction nil act loop define play body)
      (Program.induction nil act loop define play rest)
  | .define name body :: rest =>
    define name body rest (Program.induction nil act loop define play body)
      (Program.induction nil act loop define play rest)
  | .play name :: rest => play name rest (Program.induction nil act loop define play rest)

namespace Json

/-- The same data but for the order of fields. -/
inductive SameData : Json → Json → Prop
  | null : SameData .null .null
  | bool (b : Bool) : SameData (.bool b) (.bool b)
  | int (n : Int) : SameData (.int n) (.int n)
  | float (x : Float) : SameData (.float x) (.float x)
  | str (s : String) : SameData (.str s) (.str s)
  | arr {items items' : List Json} (h : List.Forall₂ SameData items items') :
      SameData (.arr items) (.arr items')
  | obj {fields reordered fields' : List (String × Json)}
      (hk : reordered.map Prod.fst = fields.map Prod.fst)
      (hv : List.Forall₂ SameData (fields.map Prod.snd) (reordered.map Prod.snd))
      (hp : reordered.Perm fields') : SameData (.obj fields) (.obj fields')

/-- The names of commands with a body, each with the one other field that is read. -/
def compoundKeys : List (String × String) :=
  [("loop", "count"), ("set_macro", "name")]

/-- Names that are no key of a canonical command, unless that has a body and just the fields that
are read. -/
def restrictedKeys : List String :=
  ["left", "right"] ++ compoundKeys.map Prod.fst ++ Action.bare.map Prod.fst

/-- Commands without aliases, with bare names for actions without argument, and with all and only
the fields that are read. -/
inductive CanonicalCommand : Json → Prop
  | bare (name : String) : CanonicalCommand (.str name)
  | argument {name : String} (argument : Json) (hn : name ∉ restrictedKeys) :
      CanonicalCommand (.obj [(name, argument)])
  | compound {name key : String} {fields : List (String × Json)} {items : List Json}
      (hn : (name, key) ∈ compoundKeys) (hk : (fields.map Prod.fst).Perm [key, "body"])
      (hb : fields.lookup "body" = some (.arr items))
      (hi : ∀ item ∈ items, CanonicalCommand item) :
      CanonicalCommand (.obj [(name, .obj fields)])

def Canonical (data : Json) : Prop :=
  ∃ items, data = .arr items ∧ ∀ item ∈ items, CanonicalCommand item

/-- Data as it is written for the program that it is read as. -/
def normalized? (data : Json) : Except ProgramError Json :=
  (Program.ofJson data).map Program.toJson

namespace SameData

variable {a b : Json} {key key' : String} {items items' : List Json}
  {fields : List (String × Json)}

theorem int_iff {n : Int} : SameData (.int n) b ↔ .int n = b := by
  constructor
  · rintro ⟨⟩
    rfl
  · rintro rfl
    exact .int n

theorem str_iff {s : String} : SameData (.str s) b ↔ .str s = b := by
  constructor
  · rintro ⟨⟩
    rfl
  · rintro rfl
    exact .str s

theorem arr_iff : SameData (.arr items) (.arr items') ↔ List.Forall₂ SameData items items' := by
  constructor
  · rintro ⟨⟩
    assumption
  · exact .arr

theorem field_iff : SameData (.obj [(key, a)]) (.obj [(key', b)]) ↔ key = key' ∧ SameData a b := by
  constructor
  · intro h
    cases h with
    | obj hk hv hp =>
      rw [List.perm_singleton.1 hp] at hk hv
      simp only [List.map_cons, List.map_nil, List.cons.injEq, and_true, List.forall₂_cons,
        List.Forall₂.nil] at hk hv
      exact ⟨hk.symm, hv⟩
  · rintro ⟨rfl, h⟩
    have hk : [(key, b)].map Prod.fst = [(key, a)].map Prod.fst := rfl
    exact .obj hk (.cons h .nil) (.refl _)

theorem eq_of_keys {first second : String} (hne : first ≠ second)
    (hk : fields.map Prod.fst = [first, second]) (ha : fields.lookup first = some a)
    (hb : fields.lookup second = some b) : fields = [(first, a), (second, b)] := by
  match fields, hk with
  | [(_, a'), (_, b')], rfl =>
    rw [Association.lookup_cons_eq, if_pos rfl] at ha
    rw [Association.lookup_cons_eq, if_neg hne.symm, Association.lookup_cons_eq, if_pos rfl] at hb
    cases ha
    cases hb
    rfl

theorem fields_iff (hne : key ≠ "body") (ha : ∀ b, SameData a b ↔ a = b)
    (hl : fields.lookup key = some a)
    (hb : (fields.lookup "body").getD (.arr []) = .arr items') :
    SameData (.obj [(key, a), ("body", .arr items)]) (.obj fields) ↔
      (fields.map Prod.fst).Perm [key, "body"] ∧ fields.lookup "body" = some (.arr items') ∧
        List.Forall₂ SameData items items' := by
  constructor
  · intro h
    cases h with
    | @obj _ reordered _ hk hv hp =>
      match reordered, hk with
      | [(_, a'), (_, b')], rfl =>
        have hbody : fields.lookup "body" = some b' := by
          rcases List.pair_perm.1 hp with rfl | rfl
          · rw [Association.lookup_cons_eq, if_neg hne.symm, Association.lookup_cons_eq, if_pos rfl]
          · rw [Association.lookup_cons_eq, if_pos rfl]
        rw [hbody] at hb
        cases hb
        cases hv with
        | cons _ hv =>
          cases hv with
          | cons hv _ => exact ⟨hp.symm.map Prod.fst, hbody, arr_iff.1 hv⟩
  · rintro ⟨hk, hbody, hi⟩
    have hkeys : [(key, a), ("body", .arr items')].map Prod.fst =
        [(key, a), ("body", .arr items)].map Prod.fst := rfl
    have hp : [(key, a), ("body", .arr items')].Perm fields := by
      rcases List.perm_pair.1 hk with hk | hk
      · rw [eq_of_keys hne hk hl hbody]
      · rw [eq_of_keys hne.symm hk hbody hl]
        exact .swap _ _ _
    exact .obj hkeys (.cons ((ha a).2 rfl) (.cons (.arr hi) .nil)) hp

end SameData

theorem loop_mem_compoundKeys : ("loop", "count") ∈ compoundKeys :=
  List.mem_cons_self

theorem define_mem_compoundKeys : ("set_macro", "name") ∈ compoundKeys :=
  List.mem_cons_of_mem _ List.mem_cons_self

theorem mem_restrictedKeys {name key : String} (h : (name, key) ∈ compoundKeys) :
    name ∈ restrictedKeys :=
  List.mem_append_left _ (List.mem_append_right _ (List.mem_map_of_mem h))

theorem compoundKeys_unique {name key key' : String} (h : (name, key) ∈ compoundKeys)
    (h' : (name, key') ∈ compoundKeys) : key' = key := by
  simp only [compoundKeys, List.mem_cons, Prod.mk.injEq, List.not_mem_nil, or_false] at h h'
  rcases h with ⟨rfl, rfl⟩ | ⟨rfl, rfl⟩ <;> simpa using h'

theorem not_canonicalCommand {name : String} {argument : Json} (hn : name ∈ restrictedKeys)
    (hc : name ∉ compoundKeys.map Prod.fst) : ¬ CanonicalCommand (.obj [(name, argument)]) := by
  intro h
  cases h with
  | argument _ h => exact h hn
  | compound h => exact hc (List.mem_map_of_mem h)

theorem canonicalCommand_compound_iff {name key : String} {fields : List (String × Json)}
    {items : List Json} (hn : (name, key) ∈ compoundKeys)
    (hi : (fields.lookup "body").getD (.arr []) = .arr items) :
    CanonicalCommand (.obj [(name, .obj fields)]) ↔
      (fields.map Prod.fst).Perm [key, "body"] ∧ fields.lookup "body" = some (.arr items) ∧
        ∀ item ∈ items, CanonicalCommand item := by
  constructor
  · intro h
    cases h with
    | argument _ h => exact absurd (mem_restrictedKeys hn) h
    | compound hn' hk hb h =>
      rw [hb] at hi
      cases hi
      rw [compoundKeys_unique hn hn'] at hk
      exact ⟨hk, hb, h⟩
  · rintro ⟨hk, hb, h⟩
    exact .compound hn hk hb h

section

variable {items items' : List Json}

theorem compound_sameData_iff {name key : String} {a : Json} {fields : List (String × Json)}
    (hn : (name, key) ∈ compoundKeys) (ha : ∀ b, SameData a b ↔ a = b)
    (hl : fields.lookup key = some a) (hi : (fields.lookup "body").getD (.arr []) = .arr items')
    (hb : List.Forall₂ SameData items items' ↔ ∀ item ∈ items', CanonicalCommand item) :
    SameData (.obj [(name, .obj [(key, a), ("body", .arr items)])]) (.obj [(name, .obj fields)]) ↔
      CanonicalCommand (.obj [(name, .obj fields)]) := by
  have hk : ∀ names ∈ compoundKeys, names.2 ≠ "body" := by decide
  rw [SameData.field_iff, and_iff_right rfl, canonicalCommand_compound_iff hn hi,
    SameData.fields_iff (hk _ hn) ha hl hi, hb]

theorem cons_sameData_iff {item item' : Json}
    (hc : SameData item item' ↔ CanonicalCommand item')
    (hr : List.Forall₂ SameData items items' ↔ ∀ item ∈ items', CanonicalCommand item) :
    List.Forall₂ SameData (item :: items) (item' :: items') ↔
      ∀ item ∈ item' :: items', CanonicalCommand item := by
  rw [List.forall₂_cons, List.forall_mem_cons, hc, hr]

end

end Json

open Json

theorem Action.toJson_of_bare {name : String} {action : Action} (h : (name, action) ∈ bare) :
    action.toJson = .str name ∧ name ∈ restrictedKeys ∧
      name ∉ compoundKeys.map Prod.fst := by
  simp only [bare, List.mem_cons, Prod.mk.injEq, List.not_mem_nil, or_false] at h
  rcases h with ⟨rfl, rfl⟩ | ⟨rfl, rfl⟩ | ⟨rfl, rfl⟩ | ⟨rfl, rfl⟩ | ⟨rfl, rfl⟩ <;>
    exact ⟨rfl, by decide, by decide⟩

theorem Action.sameData_iff {action : Action} {item : Json}
    (h : Command.WrittenAs (.act action) item) :
    SameData action.toJson item ↔ CanonicalCommand item := by
  cases h with
  | bare hn =>
    rw [(toJson_of_bare hn).1]
    exact iff_of_true (.str _) (.bare _)
  | noArgument hn =>
    obtain ⟨hj, hr, hb⟩ := toJson_of_bare hn
    rw [hj]
    exact iff_of_false nofun (not_canonicalCommand hr hb)
  | setHeading degrees | turn degrees | forward degrees =>
    exact iff_of_true (SameData.field_iff.2 ⟨rfl, .int _⟩) (.argument _ (by decide))
  | setPosition x y =>
    refine iff_of_true (SameData.field_iff.2 ⟨rfl, .arr ?_⟩) (.argument _ (by decide))
    exact .cons (.int x) (.cons (.int y) .nil)
  | left degrees | right degrees =>
    refine iff_of_false (fun h => ?_) (not_canonicalCommand (by decide) (by decide))
    exact absurd (SameData.field_iff.1 h).1 (by decide)

namespace Program

theorem items_writtenAs (p : Program) : List.Forall₂ Command.WrittenAs p (items p) := by
  induction p using Program.induction with
  | nil => exact .nil
  | act action rest ih =>
    refine .cons ?_ ih
    cases action with
    | pass | center | resetHeading | penUp | penDown => exact .bare (by decide)
    | setHeading degrees => exact .setHeading degrees
    | setPosition x y => exact .setPosition x y
    | turn degrees => exact .turn degrees
    | forward distance => exact .forward distance
  | loop count body rest ihb ih => exact .cons (.loop rfl rfl ihb) ih
  | define name body rest ihb ih => exact .cons (.define rfl rfl ihb) ih
  | play name rest ih => exact .cons (.play name) ih

theorem toJson_writtenAs (p : Program) : p.WrittenAs p.toJson :=
  ⟨items p, rfl, p.items_writtenAs⟩

theorem items_canonical (p : Program) : ∀ item ∈ items p, CanonicalCommand item := by
  induction p using Program.induction with
  | nil => exact nofun
  | act action rest ih =>
    refine List.forall_mem_cons.2 ⟨?_, ih⟩
    cases action with
    | pass | center | resetHeading | penUp | penDown => exact .bare _
    | setHeading | setPosition | turn | forward => exact .argument _ (by decide)
  | loop count body rest ihb ih =>
    exact List.forall_mem_cons.2 ⟨.compound loop_mem_compoundKeys (.refl _) rfl ihb, ih⟩
  | define name body rest ihb ih =>
    exact List.forall_mem_cons.2 ⟨.compound define_mem_compoundKeys (.refl _) rfl ihb, ih⟩
  | play name rest ih => exact List.forall_mem_cons.2 ⟨.argument _ (by decide), ih⟩

/-- Of the ways to write a program, the canonical ones are the data that is written for it, up to
the order of fields. -/
theorem items_sameData_iff (p : Program) {items' : List Json}
    (h : List.Forall₂ Command.WrittenAs p items') :
    List.Forall₂ SameData (items p) items' ↔ ∀ item ∈ items', CanonicalCommand item := by
  induction p using Program.induction generalizing items' with
  | nil =>
    cases h
    exact iff_of_true .nil nofun
  | act action rest ih =>
    cases h with
    | cons hc hr => exact cons_sameData_iff (Action.sameData_iff hc) (ih hr)
  | loop count body rest ihb ih =>
    cases h with
    | cons hc hr =>
      refine cons_sameData_iff ?_ (ih hr)
      cases hc with
      | loop hl hi hb =>
        exact compound_sameData_iff loop_mem_compoundKeys (fun _ => SameData.int_iff) hl hi (ihb hb)
  | define name body rest ihb ih =>
    cases h with
    | cons hc hr =>
      refine cons_sameData_iff ?_ (ih hr)
      cases hc with
      | define hl hi hb =>
        exact compound_sameData_iff define_mem_compoundKeys (fun _ => SameData.str_iff) hl hi
          (ihb hb)
  | play name rest ih =>
    cases h with
    | cons hc hr =>
      refine cons_sameData_iff ?_ (ih hr)
      cases hc
      exact iff_of_true (SameData.field_iff.2 ⟨rfl, .str _⟩) (.argument _ (by decide))

theorem ofJson_toJson {p : Program} : ofJson p.toJson = .ok p ↔ p.depth ≤ maxBlockDepth :=
  ofJson_eq_ok.trans ⟨And.left, fun h => ⟨h, p.toJson_writtenAs⟩⟩

theorem toJson_canonical (p : Program) : p.toJson.Canonical :=
  ⟨items p, rfl, p.items_canonical⟩

theorem toJson_sameData_iff {p : Program} {data : Json} (h : p.WrittenAs data) :
    p.toJson.SameData data ↔ data.Canonical := by
  obtain ⟨items', rfl, h⟩ := h
  rw [toJson, SameData.arr_iff, p.items_sameData_iff h]
  constructor
  · exact fun hi => ⟨items', rfl, hi⟩
  · rintro ⟨_, h, hi⟩
    cases h
    exact hi

/-- A program is read from what is written for it, up to the greatest depth. What is written for
the program that some data is read as is canonical, is the same as that data exactly if the data is
canonical, is read as the same program and is written for it again. -/
theorem canonical_round_trip :
    (∀ p : Program, ofJson p.toJson = .ok p ↔ p.depth ≤ maxBlockDepth) ∧
      ∀ data p, ofJson data = .ok p →
        p.toJson.Canonical ∧ (p.toJson.SameData data ↔ data.Canonical) ∧
          ofJson p.toJson = .ok p ∧ data.normalized? = .ok p.toJson ∧
          p.toJson.normalized? = .ok p.toJson := by
  refine ⟨fun p => ofJson_toJson, fun data p h => ?_⟩
  obtain ⟨hd, hw⟩ := ofJson_eq_ok.1 h
  have hp : ofJson p.toJson = .ok p := ofJson_toJson.2 hd
  refine ⟨p.toJson_canonical, toJson_sameData_iff hw, hp, ?_, ?_⟩
  · rw [normalized?, h]
    rfl
  · rw [normalized?, hp]
    rfl

theorem canonical_round_trip_reordered :
    let data : Json :=
      .arr [.obj [("loop", .obj [("body", .arr []), ("count", .int 2)])], .obj [("turn", .int 5)]]
    let aliased : Json :=
      .arr [.obj [("loop", .obj [("count", .int 2)])], .obj [("left", .int 5)]]
    let p : Program := [.loop 2 [], .act (.turn 5)]
    ofJson data = .ok p ∧ p.toJson.SameData data ∧ ofJson aliased = .ok p ∧
      ¬ p.toJson.SameData aliased ∧ aliased.normalized? = .ok p.toJson := by
  intro data aliased p
  have hd : ofJson data = .ok p := rfl
  have ha : ofJson aliased = .ok p := rfl
  obtain ⟨-, hs, -⟩ := canonical_round_trip.2 data p hd
  obtain ⟨-, hn, -, hz, -⟩ := canonical_round_trip.2 aliased p ha
  have hc : data.Canonical := by
    refine ⟨_, rfl, List.forall_mem_cons.2 ⟨?_, List.forall_mem_singleton.2 ?_⟩⟩
    · exact .compound loop_mem_compoundKeys (.swap _ _ _) rfl nofun
    · exact .argument _ (by decide)
  have hl : ¬ aliased.Canonical := by
    rintro ⟨items, h, hi⟩
    rw [← Json.arr.inj h] at hi
    have hm : CanonicalCommand (.obj [("left", .int 5)]) :=
      hi _ (List.mem_cons_of_mem _ List.mem_cons_self)
    exact not_canonicalCommand (by decide) (by decide) hm
  exact ⟨hd, hs.2 hc, ha, fun h => hl (hn.1 h), hz⟩

end Program

end TurtlePlot
