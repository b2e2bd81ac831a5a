import TurtlePlot.Proofs.Adequacy

/-!
Programs without loops and names. Unrolling writes out each pass of a loop and puts in the place of
a name the body that it stands for at that moment. A run that finishes leaves the turtle where the
unrolled actions take it and counts each command, iteration and playback as a step.
-/

namespace TurtlePlot

/-- The actions that a program comes down to, what names stand for afterwards, and how many
commands, iterations of loops and playbacks of bound names were met on the way. -/
structure Unrolling where
  actions : List Action
  bindings : Association Program
  commands : Nat
  iterations : Nat
  playbacks : Nat

/-- How a program unrolls while names stand for `bindings`. A program that plays itself without end
does not unroll. -/
inductive Unrolls : Association Program → Program → Unrolling → Prop
  | nil (bindings : Association Program) : Unrolls bindings [] ⟨[], bindings, 0, 0, 0⟩
  | act {bindings : Association Program} {rest : Program} {u : Unrolling} (action : Action)
      (h : Unrolls bindings rest u) :
      Unrolls bindings (.act action :: rest)
        { u with actions := action :: u.actions, commands := u.commands + 1 }
  | loop {bindings : Association Program} {count : Int} {body rest : Program} {u : Unrolling}
      (h : Unrolls bindings ((List.replicate count.toNat body).flatten ++ rest) u) :
      Unrolls bindings (.loop count body :: rest)
        { u with commands := u.commands + 1, iterations := u.iterations + count.toNat }
  | define {bindings : Association Program} {name : String} {body rest : Program} {u : Unrolling}
      (h : Unrolls (Association.put name body bindings) rest u) :
      Unrolls bindings (.define name body :: rest) { u with commands := u.commands + 1 }
  | play {bindings : Association Program} {name : String} {body rest : Program} {u : Unrolling}
      (hb : bindings.lookup name = some body) (h : Unrolls bindings (body ++ rest) u) :
      Unrolls bindings (.play name :: rest)
        { u with commands := u.commands + 1, playbacks := u.playbacks + 1 }
  | unbound {bindings : Association Program} {name : String} {rest : Program} {u : Unrolling}
      (hb : bindings.lookup name = none) (h : Unrolls bindings rest u) :
      Unrolls bindings (.play name :: rest) { u with commands := u.commands + 1 }

namespace Unrolls

variable {bindings : Association Program} {program : Program} {u v : Unrolling}

theorem unique (hu : Unrolls bindings program u) (hv : Unrolls bindings program v) : v = u := by
  induction hu generalizing v with
  | nil =>
    cases hv
    rfl
  | act action _ ih =>
    cases hv with
    | act _ hv => rw [ih hv]
  | loop _ ih =>
    cases hv with
    | loop hv => rw [ih hv]
  | define _ ih =>
    cases hv with
    | define hv => rw [ih hv]
  | play hb _ ih =>
    cases hv with
    | play hb' hv =>
      obtain rfl := Option.some.inj (hb.symm.trans hb')
      rw [ih hv]
    | unbound hb' _ => cases hb.symm.trans hb'
  | unbound hb _ ih =>
    cases hv with
    | play hb' _ => cases hb.symm.trans hb'
    | unbound _ hv => rw [ih hv]

end Unrolls

namespace Task

def program : Task → Program
  | .command c => [c]
  | .pass body => body
  | .leave => []

def isPass : Task → Bool
  | .pass _ => true
  | .command _ | .leave => false

@[simp] theorem countP_isPass_command (c : Command) (rest : List Task) :
    (command c :: rest).countP isPass = rest.countP isPass :=
  List.countP_cons_of_neg Bool.false_ne_true

@[simp] theorem countP_isPass_leave (rest : List Task) :
    (leave :: rest).countP isPass = rest.countP isPass :=
  List.countP_cons_of_neg Bool.false_ne_true

@[simp] theorem countP_isPass_pass (body : Program) (rest : List Task) :
    (pass body :: rest).countP isPass = rest.countP isPass + 1 :=
  List.countP_cons_of_pos rfl

theorem flatMap_program_commands (program : Program) :
    (program.map Task.command).flatMap Task.program = program := by
  induction program with
  | nil => rfl
  | cons c program ih => rw [List.map_cons, List.flatMap_cons, ih]; rfl

theorem countP_isPass_commands (program : Program) :
    (program.map Task.command).countP isPass = 0 := by
  rw [List.countP_map, List.countP_eq_zero]
  intro c _ h
  cases h

variable (bindings : Association Program) (count : Int) (name : String) (body : Program)

theorem countP_isPass_loop :
    ((command (.loop count body)).followers bindings).countP isPass = count.toNat := by
  rw [followers]
  split
  case isTrue hn => rw [List.countP_nil, Int.toNat_of_nonpos (Int.le_of_lt hn)]
  case isFalse =>
    rw [List.countP_append, countP_isPass_leave, List.countP_nil, List.countP_replicate,
      if_pos (show (pass body).isPass from rfl), Nat.add_zero]

theorem flatMap_program_loop :
    ((command (.loop count body)).followers bindings).flatMap Task.program =
      (List.replicate count.toNat body).flatten := by
  rw [followers]
  split
  case isTrue hn => rw [Int.toNat_of_nonpos (Int.le_of_lt hn)]; rfl
  case isFalse =>
    rw [List.flatMap_append, List.flatMap_replicate]
    exact List.append_nil _

theorem move_loop : (command (.loop count body)).move bindings = .enter ∨
    ∃ event, (command (.loop count body)).move bindings = .remark event := by
  rw [move]
  split
  case isTrue => exact .inr ⟨_, rfl⟩
  case isFalse => exact .inl rfl

theorem move_play : (command (.play name)).move bindings = .enter ∨
    ∃ event, (command (.play name)).move bindings = .remark event := by
  rw [move]
  split
  case h_1 => exact .inl rfl
  case h_2 => exact .inr ⟨_, rfl⟩

end Task

theorem Move.Changes.of_enter_or_remark {s s₁ : Session} {m : Move} (h : Move.Changes s m s₁)
    (hm : m = .enter ∨ ∃ event, m = .remark event) :
    s₁.turtle = s.turtle ∧ s₁.bindings = s.bindings ∧ s₁.steps = s.steps + 1 := by
  rcases hm with rfl | ⟨event, rfl⟩
  · cases h
    exact ⟨rfl, rfl, rfl⟩
  · cases h
    exact ⟨rfl, rfl, rfl⟩

/-- A run from `s` to `s'` follows an unrolling and makes some passes that this does not count. -/
structure Follows (u : Unrolling) (passes : Nat) (s s' : Session) : Prop where
  turtle : u.actions.foldlM Action.perform s.turtle = .ok s'.turtle
  bindings : s'.bindings = u.bindings
  steps : s'.steps = s.steps + u.commands + u.iterations + u.playbacks + passes

namespace Follows

variable {u : Unrolling} {passes : Nat} {s s₁ s' : Session}

theorem act {action : Action} {turtle : Turtle} (ha : action.perform s.turtle = .ok turtle)
    (h : Follows u passes { s.stepped with turtle } s') :
    Follows { u with actions := action :: u.actions, commands := u.commands + 1 } passes s s' where
  turtle := by
    rw [List.foldlM_cons, ha]
    exact h.turtle
  bindings := h.bindings
  steps := by
    rw [h.steps]
    simp only [Session.stepped]
    omega

theorem step (iterations playbacks : Nat)
    (h : Follows u (passes + (iterations + playbacks)) s₁ s')
    (ht : s₁.turtle = s.turtle) (hs : s₁.steps = s.steps + 1) :
    Follows { u with
      commands := u.commands + 1
      iterations := u.iterations + iterations
      playbacks := u.playbacks + playbacks } passes s s' where
  turtle := by
    rw [← ht]
    exact h.turtle
  bindings := h.bindings
  steps := by
    rw [h.steps, hs]
    simp only
    omega

end Follows

/-- What is left of a run to `s'` unrolls, and the run follows that. Passes that are on the agenda
already are not in the unrolling. -/
def Session.UnrollsTo (s : Session) (agenda : List Task) (s' : Session) : Prop :=
  ∃ u, Unrolls s.bindings (agenda.flatMap Task.program) u ∧
    Follows u (agenda.countP Task.isPass) s s'

theorem unrollsTo_command {c : Command} {rest : List Task} {s s₁ s' : Session}
    (hc : Move.Changes s ((Task.command c).move s.bindings) s₁)
    (h : s₁.UnrollsTo ((Task.command c).followers s.bindings ++ rest) s') :
    s.UnrollsTo (.command c :: rest) s' := by
  obtain ⟨u, hu, hf⟩ := h
  rw [Session.UnrollsTo, Task.countP_isPass_command]
  cases c with
  | act action =>
    cases hc with
    | act ha => exact ⟨_, .act action hu, hf.act ha⟩
  | define name body =>
    cases hc
    exact ⟨_, .define hu, hf.step 0 0 rfl rfl⟩
  | loop count body =>
    obtain ⟨ht, hb, hs⟩ := hc.of_enter_or_remark (Task.move_loop _ _ _)
    rw [hb, List.flatMap_append, Task.flatMap_program_loop] at hu
    rw [List.countP_append, Task.countP_isPass_loop, Nat.add_comm] at hf
    exact ⟨_, .loop hu, hf.step count.toNat 0 ht hs⟩
  | play name =>
    obtain ⟨ht, hb, hs⟩ := hc.of_enter_or_remark (Task.move_play _ _)
    rw [hb, Task.followers] at hu
    rw [Task.followers] at hf
    cases hl : s.bindings.lookup name with
    | none =>
      rw [hl] at hu hf
      exact ⟨_, .unbound hl hu, hf.step 0 0 ht hs⟩
    | some body =>
      rw [hl] at hu hf
      simp only [List.cons_append, List.nil_append, Task.countP_isPass_pass,
        Task.countP_isPass_leave] at hf
      exact ⟨_, .play hl hu, hf.step 0 1 ht hs⟩

theorem unrollsTo_of_changes {t : Task} {rest : List Task} {s s₁ s' : Session}
    (hc : Move.Changes s (t.move s.bindings) s₁)
    (h : s₁.UnrollsTo (t.followers s.bindings ++ rest) s') : s.UnrollsTo (t :: rest) s' := by
  cases t with
  | command c => exact unrollsTo_command hc h
  | leave =>
    obtain ⟨u, hu, hf⟩ := h
    cases hc
    rw [Session.UnrollsTo, Task.countP_isPass_leave]
    exact ⟨u, hu, hf.turtle, hf.bindings, hf.steps⟩
  | pass body =>
    obtain ⟨u, hu, hf⟩ := h
    cases hc
    rw [Task.followers, List.flatMap_append, Task.flatMap_program_commands] at hu
    rw [Task.followers, List.countP_append, Task.countP_isPass_commands, Nat.zero_add] at hf
    refine ⟨u, hu, hf.turtle, hf.bindings, ?_⟩
    rw [hf.steps, Task.countP_isPass_pass]
    simp only [Session.stepped]
    omega

theorem unrollsTo_of_execute (limits : Limits) (agenda : List Task) (s : Session) {s' : Session}
    (h : (execute limits agenda s).outcome = .done s') : s.UnrollsTo agenda s' := by
  induction agenda, s using execute_induction limits with
  | nil s =>
    rw [execute_nil] at h
    cases h
    exact ⟨_, .nil _, rfl, rfl, rfl⟩
  | done hm ih =>
    rw [execute_of_done hm] at h
    exact unrollsTo_of_changes (Move.changes_of_make hm) (ih h)
  | failed hm =>
    rw [execute_of_failed hm] at h
    cases h

/-- A program that runs to its end unrolls, in one way only; its actions are the unrolled ones, its
names end as unrolled, and its steps are its commands, iterations and playbacks. -/
theorem Session.run_follows_unrolling {limits : Limits} {program : Program} {s s' : Session}
    (h : s.run limits program = .done s') :
    ∃ u, Unrolls s.bindings program u ∧ (∀ v, Unrolls s.bindings program v → v = u) ∧
      u.actions.foldlM Action.perform s.turtle = .ok s'.turtle ∧ s'.bindings = u.bindings ∧
      s'.steps = s.steps + u.commands + u.iterations + u.playbacks := by
  rw [← execute_outcome] at h
  obtain ⟨u, hu, hf⟩ := unrollsTo_of_execute limits _ s h
  rw [Task.flatMap_program_commands] at hu
  refine ⟨u, hu, fun _ => hu.unique, hf.turtle, hf.bindings, ?_⟩
  rw [hf.steps, Task.countP_isPass_commands, Nat.add_zero]

theorem Session.run_follows_unrolling_rebound :
    let program : Program :=
      [.define "corner" [.act .penDown, .define "corner" [.act .penUp], .act .pass],
        .loop 2 [.play "corner"], .loop (-1) [.act .center], .play "edge"]
    let s : Session :=
      { turtle := ⟨north, .origin, false, [[.origin]]⟩, bindings := [("corner", [.act .penUp])],
        deepest := 2, steps := 14, events := [.unknownName "edge", .negativeCount (-1)] }
    Session.run ⟨2, 14⟩ program {} = .done s ∧
      ∃ u, Unrolls [] program u ∧ (∀ v, Unrolls [] program v → v = u) ∧
        u.actions.foldlM Action.perform {} = .ok s.turtle ∧ s.bindings = u.bindings ∧
        s.steps = 0 + u.commands + u.iterations + u.playbacks := by
  intro program s
  have h : Session.run ⟨2, 14⟩ program {} = .done s := rfl
  exact ⟨h, Session.run_follows_unrolling h⟩

end TurtlePlot
