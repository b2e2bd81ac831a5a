import Mathlib.Data.Set.Function
import TurtlePlot.Compile
import TurtlePlot.Proofs.Unrolling

/-!
Programs whose names are exchanged for others. As long as different names stay different, a run of
the renamed program makes the same moves: it has the same outcome in a session that differs in names
alone, and the program compiles to the same strokes or fails with the same fault.
-/

namespace TurtlePlot

mutual

/-- The names that a command binds or plays, those in its body included. -/
def Command.names : Command → List String
  | .act _ => []
  | .loop _ body => Program.names body
  | .define name body => name :: Program.names body
  | .play name => [name]

def Program.names : Program → List String
  | [] => []
  | c :: rest => c.names ++ Program.names rest

end

mutual

/-- The command with each name in it exchanged for another, at any depth. -/
def Command.rename (f : String → String) : Command → Command
  | .act action => .act action
  | .loop count body => .loop count (Program.rename f body)
  | .define name body => .define (f name) (Program.rename f body)
  | .play name => .play (f name)

def Program.rename (f : String → String) : Program → Program
  | [] => []
  | c :: rest => c.rename f :: Program.rename f rest

end

def Task.names : Task → List String
  | .command c => c.names
  | .pass body => Program.names body
  | .leave => []

def Task.rename (f : String → String) : Task → Task
  | .command c => .command (c.rename f)
  | .pass body => .pass (Program.rename f body)
  | .leave => .leave

def Event.rename (f : String → String) : Event → Event
  | .unknownName name => .unknownName (f name)
  | .negativeCount count => .negativeCount count
  | .compiled steps strokes => .compiled steps strokes

def Move.rename (f : String → String) : Move → Move
  | .define name body => .define (f name) (body.rename f)
  | .remark event => .remark (event.rename f)
  | .act action => .act action
  | .enter => .enter
  | .pass => .pass
  | .leave => .leave

def Association.rename (f : String → String) (a : Association Program) : Association Program :=
  a.map (Prod.map f (Program.rename f))

/-- The session with other names in what they stand for and in what was remarked on. -/
def Session.rename (f : String → String) (s : Session) : Session :=
  { s with bindings := s.bindings.rename f, events := s.events.map (Event.rename f) }

variable {f : String → String} {names : Set String} {limits : Limits} {a : Association Program}
  {s s' : Session} {t : Task} {name : String}

theorem Program.rename_eq_map (f : String → String) (p : Program) :
    p.rename f = p.map (Command.rename f) := by
  induction p with
  | nil => rfl
  | cons c p ih => rw [rename, ih, List.map_cons]

theorem Program.mem_names {p : Program} : name ∈ p.names ↔ ∃ c ∈ p, name ∈ c.names := by
  induction p with
  | nil => simp [names]
  | cons c p ih => simp [names, ih]

theorem Task.rename_commands (f : String → String) (p : Program) :
    (p.rename f).map .command = (p.map .command).map (Task.rename f) := by
  rw [Program.rename_eq_map, List.map_map, List.map_map]
  rfl

/-- Names that stand for something and names in what they stand for are all from one set. -/
def Association.NamedIn (names : Set String) (a : Association Program) : Prop :=
  ∀ b ∈ a, b.1 ∈ names ∧ ∀ name ∈ b.2.names, name ∈ names

def Task.NamedIn (names : Set String) (t : Task) : Prop :=
  ∀ name ∈ t.names, name ∈ names

namespace Association

theorem mem_of_lookup {body : Program} (h : a.lookup name = some body) : (name, body) ∈ a := by
  obtain ⟨first, rest, rfl, -⟩ := List.lookup_eq_some_iff.1 h
  exact List.mem_append_right _ List.mem_cons_self

theorem lookup_rename (hf : Set.InjOn f names) (ha : a.NamedIn names) (hn : name ∈ names) :
    (a.rename f).lookup (f name) = (a.lookup name).map (Program.rename f) := by
  induction a with
  | nil => rfl
  | cons b a ih =>
    obtain ⟨key, body⟩ := b
    obtain ⟨⟨hk, -⟩, ha⟩ := List.forall_mem_cons.1 ha
    rw [rename, List.map_cons, Prod.map_apply, lookup_cons_eq, lookup_cons_eq]
    by_cases h : name = key
    · rw [if_pos h, if_pos (congrArg f h)]
      rfl
    · rw [if_neg h, if_neg fun he => h (hf hn hk he)]
      exact ih ha

theorem put_rename (hf : Set.InjOn f names) (ha : a.NamedIn names) (hn : name ∈ names)
    (body : Program) :
    put (f name) (body.rename f) (a.rename f) = (put name body a).rename f := by
  induction a with
  | nil => rfl
  | cons b a ih =>
    obtain ⟨key, old⟩ := b
    obtain ⟨⟨hk, -⟩, ha⟩ := List.forall_mem_cons.1 ha
    rw [rename, List.map_cons, Prod.map_apply, put, put]
    by_cases h : key = name
    · rw [if_pos h, if_pos (congrArg f h)]
      rfl
    · rw [if_neg h, if_neg fun he => h (hf hk hn he)]
      exact congrArg ((f key, old.rename f) :: ·) (ih ha)

theorem NamedIn.put (ha : a.NamedIn names) {body : Program} (hn : name ∈ names)
    (hb : ∀ name ∈ body.names, name ∈ names) : (Association.put name body a).NamedIn names := by
  induction a with
  | nil => exact List.forall_mem_singleton.2 ⟨hn, hb⟩
  | cons first a ih =>
    obtain ⟨⟨hk, ho⟩, ha⟩ := List.forall_mem_cons.1 ha
    rw [Association.put]
    split
    · exact List.forall_mem_cons.2 ⟨⟨hk, hb⟩, ha⟩
    · exact List.forall_mem_cons.2 ⟨⟨hk, ho⟩, ih ha⟩

end Association

theorem Task.namedIn_commands {p : Program} (h : ∀ name ∈ p.names, name ∈ names) :
    ∀ t ∈ p.map Task.command, t.NamedIn names :=
  List.forall_mem_map.2 fun c hc name hn => h name (Program.mem_names.2 ⟨c, hc, hn⟩)

theorem Task.namedIn_followers (ht : t.NamedIn names) (ha : a.NamedIn names) :
    ∀ u ∈ t.followers a, u.NamedIn names := by
  have hl : Task.leave.NamedIn names := List.forall_mem_nil _
  cases t with
  | leave => exact List.forall_mem_nil _
  | pass body => exact namedIn_commands ht
  | command c =>
    cases c with
    | act | define => exact List.forall_mem_nil _
    | loop count body =>
      rw [followers]
      split
      · exact List.forall_mem_nil _
      · refine List.forall_mem_append.2 ⟨fun u hu => ?_, List.forall_mem_singleton.2 hl⟩
        rw [List.eq_of_mem_replicate hu]
        exact ht
    | play name =>
      rw [followers]
      cases hb : a.lookup name with
      | none => exact List.forall_mem_nil _
      | some body =>
        have hp : (Task.pass body).NamedIn names := (ha _ (Association.mem_of_lookup hb)).2
        exact List.forall_mem_cons.2 ⟨hp, List.forall_mem_singleton.2 hl⟩

theorem Association.NamedIn.of_changes (hs : s.bindings.NamedIn names) (ht : t.NamedIn names)
    (h : Move.Changes s (t.move s.bindings) s') : s'.bindings.NamedIn names := by
  cases t with
  | pass | leave =>
    cases h
    exact hs
  | command c =>
    cases c with
    | act =>
      cases h
      exact hs
    | define name body =>
      cases h
      exact hs.put (ht name List.mem_cons_self) fun n hn => ht n (List.mem_cons_of_mem _ hn)
    | loop count body =>
      obtain ⟨-, hb, -⟩ := h.of_enter_or_remark (Task.move_loop _ _ _)
      exact hb ▸ hs
    | play name =>
      obtain ⟨-, hb, -⟩ := h.of_enter_or_remark (Task.move_play _ _)
      exact hb ▸ hs

theorem Task.move_rename (hf : Set.InjOn f names) (ht : t.NamedIn names) (ha : a.NamedIn names) :
    (t.rename f).move (a.rename f) = (t.move a).rename f := by
  cases t with
  | pass | leave => rfl
  | command c =>
    cases c with
    | act | define => rfl
    | loop count body =>
      rw [rename, Command.rename, move, move]
      split <;> rfl
    | play name =>
      have hl := Association.lookup_rename hf ha (ht name List.mem_cons_self)
      rw [rename, Command.rename, move, hl, move]
      cases a.lookup name <;> rfl

theorem Task.followers_rename (hf : Set.InjOn f names) (ht : t.NamedIn names)
    (ha : a.NamedIn names) :
    (t.rename f).followers (a.rename f) = (t.followers a).map (Task.rename f) := by
  cases t with
  | leave => rfl
  | pass body => exact rename_commands f body
  | command c =>
    cases c with
    | act | define => rfl
    | loop count body =>
      rw [rename, Command.rename, followers, followers]
      split
      · rfl
      · rw [List.map_append, List.map_replicate]
        rfl
    | play name =>
      have hl := Association.lookup_rename hf ha (ht name List.mem_cons_self)
      rw [rename, Command.rename, followers, hl, followers]
      cases a.lookup name <;> rfl

theorem Move.make_map {g : Session → Session} {m m' : Move} (ht : m'.ticks = m.ticks)
    (hs : (g s).steps = s.steps) (hg : (g s).stepped = g s.stepped)
    (ha : ∀ {s₁ : Session}, s₁.bindings = s.bindings →
      m'.apply limits (g s₁) = (m.apply limits s₁).mapSession g) :
    m'.make limits (g s) = (m.make limits s).mapSession g := by
  by_cases hm : m.ticks
  · have hm' : m'.ticks := ht.trans hm
    rcases Nat.lt_or_ge s.steps limits.maxSteps with hlt | hle
    · rw [make_of_lt hm hlt, make_of_lt hm' (hs.trans_lt hlt), hg]
      exact ha rfl
    · rw [make_of_le hm hle, make_of_le hm' (hs.symm ▸ hle), hg]
      rfl
  · rw [make, if_neg (ht ▸ hm), make, if_neg hm]
    exact ha rfl

theorem Session.nest_rename (f : String → String) (limits : Limits) (s : Session) :
    (s.rename f).nest limits = (s.nest limits).mapSession (rename f) := by
  rw [nest, nest]
  split
  case isTrue h =>
    rw [if_pos (show s.depth < limits.maxDepth from h)]
    rfl
  case isFalse h =>
    rw [if_neg (show ¬ s.depth < limits.maxDepth from h)]
    rfl

theorem Move.apply_rename (hf : Set.InjOn f names) (hs : s.bindings.NamedIn names) {m : Move}
    (hm : ∀ name body, m = .define name body → name ∈ names) :
    (m.rename f).apply limits (s.rename f) = (m.apply limits s).mapSession (Session.rename f) := by
  cases m with
  | remark | pass | leave => rfl
  | enter => exact s.nest_rename f limits
  | act action =>
    have ht : (s.rename f).turtle = s.turtle := rfl
    simp only [rename, apply, Session.act, ht]
    cases action.perform s.turtle <;> rfl
  | define name body =>
    have hb := Association.put_rename hf hs (hm name body rfl) body
    simp only [rename, apply, Session.define, Session.rename, hb]
    rfl

theorem Move.make_rename (hf : Set.InjOn f names) (hs : s.bindings.NamedIn names) {m : Move}
    (hm : ∀ name body, m = .define name body → name ∈ names) :
    (m.rename f).make limits (s.rename f) = (m.make limits s).mapSession (Session.rename f) := by
  have ht : (m.rename f).ticks = m.ticks := by cases m <;> rfl
  exact make_map ht rfl rfl fun hb => apply_rename hf (hb ▸ hs) hm

theorem Task.eq_define_of_move {body : Program} (h : t.move a = .define name body) :
    t = .command (.define name body) := by
  cases t with
  | pass | leave => cases h
  | command c =>
    cases c with
    | act => cases h
    | define =>
      cases h
      rfl
    | loop count body =>
      rcases move_loop a count body with hm | ⟨event, hm⟩
      · cases hm.symm.trans h
      · cases hm.symm.trans h
    | play name =>
      rcases move_play a name with hm | ⟨event, hm⟩
      · cases hm.symm.trans h
      · cases hm.symm.trans h

/-- With other names, a task comes to the same, other names aside. -/
theorem Task.make_rename (hf : Set.InjOn f names) (limits : Limits) (ht : t.NamedIn names)
    (hs : s.bindings.NamedIn names) :
    ((t.rename f).move (s.rename f).bindings).make limits (s.rename f) =
      ((t.move s.bindings).make limits s).mapSession (Session.rename f) := by
  have hm : (t.rename f).move (s.rename f).bindings = (t.move s.bindings).rename f :=
    move_rename hf ht hs
  rw [hm]
  refine Move.make_rename hf hs fun name body hd => ?_
  rw [eq_define_of_move hd] at ht
  exact ht name List.mem_cons_self

theorem Session.unwind_rename (f : String → String) (agenda : List Task) (s : Session) :
    (s.rename f).unwind (agenda.map (Task.rename f)) = (s.unwind agenda).rename f := by
  have hc : (agenda.map (Task.rename f)).count .leave = agenda.count .leave := by
    induction agenda with
    | nil => rfl
    | cons t agenda ih =>
      rw [List.map_cons, List.count_cons, List.count_cons, ih]
      cases t <;> rfl
  rw [unwind, hc]
  rfl

/-- With other names, an agenda is worked off to the same outcome, other names aside. -/
theorem execute_rename (hf : Set.InjOn f names) (limits : Limits) (agenda : List Task) (s : Session)
    (ha : ∀ t ∈ agenda, t.NamedIn names) (hs : s.bindings.NamedIn names) :
    (execute limits (agenda.map (Task.rename f)) (s.rename f)).outcome =
      (execute limits agenda s).outcome.mapSession (Session.rename f) := by
  induction agenda, s using execute_induction limits with
  | nil s =>
    rw [List.map_nil, execute_nil, execute_nil]
    rfl
  | @done t rest s s₁ hm ih =>
    obtain ⟨ht, hr⟩ := List.forall_mem_cons.1 ha
    have hm' := Task.make_rename hf limits ht hs
    rw [hm] at hm'
    have hf' : (t.rename f).followers (s.rename f).bindings =
        (t.followers s.bindings).map (Task.rename f) := Task.followers_rename hf ht hs
    rw [List.map_cons, execute_of_done hm', execute_of_done hm, hf', ← List.map_append]
    exact ih (List.forall_mem_append.2 ⟨Task.namedIn_followers ht hs, hr⟩)
      (hs.of_changes ht (Move.changes_of_make hm))
  | @failed t rest s fault s₁ hm =>
    obtain ⟨ht, -⟩ := List.forall_mem_cons.1 ha
    have hm' := Task.make_rename hf limits ht hs
    rw [hm] at hm'
    rw [List.map_cons, execute_of_failed hm', execute_of_failed hm]
    exact congrArg (Outcome.failed fault) (s₁.unwind_rename f rest)

theorem Session.run_of_namedIn {program : Program} (hf : Set.InjOn f names)
    (hp : ∀ name ∈ program.names, name ∈ names) (hs : s.bindings.NamedIn names) (limits : Limits) :
    (s.rename f).run limits (program.rename f) = (s.run limits program).mapSession (rename f) := by
  rw [← execute_outcome, ← execute_outcome, Task.rename_commands]
  exact execute_rename hf limits _ s (Task.namedIn_commands hp) hs

/-- Names are only names. A program whose names are exchanged so that different ones stay different
has the same outcome, in a session that differs in names alone: turtle, depths and steps are the
same, and so is what the exchanged names stand for, but for the names in it. It compiles to the same
strokes or fails with the same fault. -/
theorem Session.run_rename {program : Program} (hf : Set.InjOn f {name | name ∈ program.names})
    (limits : Limits) :
    Session.run limits (program.rename f) {} =
        (Session.run limits program {}).mapSession (rename f) ∧
      ((program.rename f).compile limits).strokes = (program.compile limits).strokes ∧
      ((program.rename f).compile limits).events =
        (program.compile limits).events.map (Event.rename f) := by
  have hr (limits : Limits) : Session.run limits (program.rename f) {} =
      (Session.run limits program {}).mapSession (rename f) :=
    run_of_namedIn (s := {}) hf (fun _ hn => hn) (List.forall_mem_nil _) limits
  refine ⟨hr limits, ?_⟩
  simp only [Program.compile, hr]
  cases Session.run _ program {} with
  | done s => simp [Outcome.mapSession, rename, note, Event.rename]
  | failed fault s => cases fault <;> simp [Outcome.mapSession, rename]

theorem Session.run_rename_swapped :
    let f (name : String) : String :=
      if name = "a" then "b" else if name = "c" then "c" else "a"
    let again : Program := [.play "c", .act (.setPosition 3 4)]
    let other : Program := [.define "a" again, .loop 2 [.play "a"], .play "b"]
    let program : Program :=
      [.define "a" [.act .penDown, .play "b"], .define "b" other, .play "a"]
    let s : Session :=
      { turtle := ⟨north, ⟨3, 4⟩, true, [[⟨3, 4⟩, .origin]]⟩
        bindings := [("a", again), ("b", other)], depth := 1, deepest := 5, steps := 25
        events := [.unknownName "c", .unknownName "c"] }
    Set.InjOn f {name | name ∈ program.names} ∧
      Session.run ⟨4, 60⟩ program {} = .failed (.depthExceeded 5 4) s ∧
      Session.run ⟨4, 60⟩ (program.rename f) {} = .failed (.depthExceeded 5 4) (s.rename f) := by
  intro f again other program s
  have hf : ∀ a ∈ program.names, ∀ b ∈ program.names, f a = f b → a = b := by decide
  have hi : Set.InjOn f {name | name ∈ program.names} := fun a ha b hb => hf a ha b hb
  have hr : Session.run ⟨4, 60⟩ program {} = .failed (.depthExceeded 5 4) s := by decide +kernel
  obtain ⟨h, -⟩ := run_rename hi ⟨4, 60⟩
  rw [hr] at h
  exact ⟨hi, hr, h⟩

end TurtlePlot
