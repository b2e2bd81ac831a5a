import Mathlib.Algebra.Group.Int.Defs
import TurtlePlot.Proofs.Unrolling

/-!
What a run that fails leaves behind. A program unfolds into its actions and definitions in the order
in which they come up, whether this ends or not. A run that fails has performed those that come up
before the moment where it failed, and nothing else; an action that fails does so before it writes.
-/

namespace TurtlePlot

/-- A change of a turtle that may fail midway. What was written before the failure stays. -/
abbrev InPlace := ExceptT NumberFault (StateM Turtle)

theorem InPlace.run_get_bind {α : Type} (f : Turtle → InPlace α) (t : Turtle) :
    ExceptT.run (get >>= f) t = (f t).run t :=
  rfl

namespace Turtle

def moveInPlace (p : Point) : InPlace Unit := do
  if (← get).penDown then
    modify fun t => { t with trail := t.trail.modifyHead (p :: ·) }
  modify fun t => { t with position := p }

/-- Moves unless the turtle is there already. -/
def goInPlace (p : Point) : InPlace Unit := do
  unless p.coincides (← get).position do
    moveInPlace p

def lowerPenInPlace : InPlace Unit := do
  if !(← get).penDown then
    modify fun t => { t with trail := [t.position] :: t.trail }
  modify fun t => { t with penDown := true }

theorem run_moveInPlace (p : Point) (t : Turtle) : (moveInPlace p).run t = (.ok (), t.moveTo p) := by
  obtain ⟨heading, position, penDown, trail⟩ := t
  cases penDown with
  | false => rfl
  | true => cases trail <;> rfl

theorem run_goInPlace (p : Point) (t : Turtle) :
    (goInPlace p).run t = (.ok (), if p.coincides t.position then t else t.moveTo p) := by
  have hr : (goInPlace p).run t =
      ExceptT.run (if p.coincides t.position then pure () else moveInPlace p) t := rfl
  rw [hr]
  split
  · rfl
  · exact run_moveInPlace p t

theorem run_lowerPenInPlace (t : Turtle) : lowerPenInPlace.run t = (.ok (), t.lowerPen) := by
  obtain ⟨heading, position, penDown, trail⟩ := t
  cases penDown <;> rfl

end Turtle

namespace Action

/-- An action as reads and writes of one turtle, in order. -/
def inPlace : Action → InPlace Unit
  | .pass => pure ()
  | .center => Turtle.moveInPlace .origin
  | .resetHeading => modify fun t => t.face north
  | .setHeading degrees => do
    let angle ← headingOf (90 + degrees)
    modify fun t => t.face angle
  | .setPosition x y => do
    let p : Point := ⟨← nearestFloat x, ← nearestFloat y⟩
    Turtle.goInPlace p
  | .penUp => modify fun t => t.liftPen
  | .penDown => Turtle.lowerPenInPlace
  | .turn degrees => do
    let heading := (← get).heading
    let angle ← headingOf degrees
    modify fun t => t.face (heading + angle)
  | .forward distance => do
    let t ← get
    let direction ← unitVector t.heading
    let length ← nearestFloat distance
    Turtle.moveInPlace (t.position + ⟨direction.x * length, direction.y * length⟩)

/-- An action writes either all or nothing: whatever can fail it comes before its first write. -/
theorem run_inPlace (action : Action) (t : Turtle) :
    action.inPlace.run t =
      match action.perform t with
      | .ok t' => (.ok (), t')
      | .error fault => (.error fault, t) := by
  cases action with
  | pass | resetHeading | penUp => rfl
  | center => exact Turtle.run_moveInPlace _ t
  | penDown => exact Turtle.run_lowerPenInPlace t
  | setHeading degrees =>
    rw [inPlace, perform]
    cases headingOf (90 + degrees) <;> rfl
  | turn degrees =>
    rw [inPlace, perform]
    cases headingOf degrees <;> rfl
  | setPosition x y =>
    rw [inPlace, perform]
    cases nearestFloat x with
    | error fault => rfl
    | ok x =>
      cases nearestFloat y with
      | error fault => rfl
      | ok y =>
        exact Turtle.run_goInPlace ⟨x, y⟩ t
  | forward distance =>
    rw [inPlace, perform, InPlace.run_get_bind]
    cases unitVector t.heading with
    | error fault => rfl
    | ok direction =>
      cases nearestFloat distance with
      | error fault => rfl
      | ok length => exact Turtle.run_moveInPlace _ t

end Action

/-- What commands act on: the turtle, and what names stand for. -/
structure Scene where
  turtle : Turtle
  bindings : Association Program

def Session.scene (s : Session) : Scene :=
  ⟨s.turtle, s.bindings⟩

/-- A command that acts by itself. -/
inductive Effect where
  | act (action : Action)
  | define (name : String) (body : Program)

def Effect.perform (scene : Scene) : Effect → Except NumberFault Scene
  | .act action => (action.perform scene.turtle).map fun turtle => { scene with turtle }
  | .define name body => .ok { scene with bindings := Association.put name body scene.bindings }

/-- A moment in the order in which commands and passes come up: the effects and the count of steps
before it, the command or pass that is next, and what comes after. -/
structure Moment where
  effects : List Effect
  steps : Nat
  next : Task
  rest : List Task

/-- How an agenda unfolds up to some moment while names stand for `bindings`. It need not come to an
end, and neither limits nor numbers matter. -/
inductive Unfolds : Association Program → List Task → Moment → Prop
  | here {bindings : Association Program} {t : Task} {rest : List Task} (ht : t ≠ .leave) :
      Unfolds bindings (t :: rest) ⟨[], 0, t, rest⟩
  | act {bindings : Association Program} {action : Action} {rest : List Task} {p : Moment}
      (h : Unfolds bindings rest p) :
      Unfolds bindings (.command (.act action) :: rest)
        { p with effects := .act action :: p.effects, steps := p.steps + 1 }
  | define {bindings : Association Program} {name : String} {body : Program} {rest : List Task}
      {p : Moment} (h : Unfolds (Association.put name body bindings) rest p) :
      Unfolds bindings (.command (.define name body) :: rest)
        { p with effects := .define name body :: p.effects, steps := p.steps + 1 }
  | loop {bindings : Association Program} {count : Int} {body : Program} {rest : List Task}
      {p : Moment}
      (h : Unfolds bindings (List.replicate count.toNat (.pass body) ++ .leave :: rest) p) :
      Unfolds bindings (.command (.loop count body) :: rest) { p with steps := p.steps + 1 }
  | play {bindings : Association Program} {name : String} {body : Program} {rest : List Task}
      {p : Moment} (hb : bindings.lookup name = some body)
      (h : Unfolds bindings (.pass body :: .leave :: rest) p) :
      Unfolds bindings (.command (.play name) :: rest) { p with steps := p.steps + 1 }
  | unbound {bindings : Association Program} {name : String} {rest : List Task} {p : Moment}
      (hb : bindings.lookup name = none) (h : Unfolds bindings rest p) :
      Unfolds bindings (.command (.play name) :: rest) { p with steps := p.steps + 1 }
  | pass {bindings : Association Program} {body : Program} {rest : List Task} {p : Moment}
      (h : Unfolds bindings (body.map .command ++ rest) p) :
      Unfolds bindings (.pass body :: rest) { p with steps := p.steps + 1 }
  | leave {bindings : Association Program} {rest : List Task} {p : Moment}
      (h : Unfolds bindings rest p) : Unfolds bindings (.leave :: rest) p

/-- There is one moment after each count of steps. -/
theorem Unfolds.unique {bindings : Association Program} {agenda : List Task} {p q : Moment}
    (hp : Unfolds bindings agenda p) (hq : Unfolds bindings agenda q) (hs : q.steps = p.steps) :
    q = p := by
  induction hp generalizing q with
  | here ht =>
    cases hq with
    | here => rfl
    | leave => exact absurd rfl ht
    | act | define | loop | play | unbound | pass => cases hs
  | act _ ih =>
    cases hq with
    | here => cases hs
    | act hq => rw [ih hq (Nat.succ.inj hs)]
  | define _ ih =>
    cases hq with
    | here => cases hs
    | define hq => rw [ih hq (Nat.succ.inj hs)]
  | loop _ ih =>
    cases hq with
    | here => cases hs
    | loop hq => rw [ih hq (Nat.succ.inj hs)]
  | play hb _ ih =>
    cases hq with
    | here => cases hs
    | play hb' hq =>
      obtain rfl := Option.some.inj (hb.symm.trans hb')
      rw [ih hq (Nat.succ.inj hs)]
    | unbound hb' => cases hb.symm.trans hb'
  | unbound hb _ ih =>
    cases hq with
    | here => cases hs
    | play hb' => cases hb.symm.trans hb'
    | unbound _ hq => rw [ih hq (Nat.succ.inj hs)]
  | pass _ ih =>
    cases hq with
    | here => cases hs
    | pass hq => rw [ih hq (Nat.succ.inj hs)]
  | leave _ ih =>
    cases hq with
    | here ht => exact absurd rfl ht
    | leave hq => exact ih hq hs

/-- A run from `s` has come to a moment of its agenda in the session `s₁`. -/
structure Session.CameTo (s : Session) (agenda : List Task) (p : Moment) (s₁ : Session) : Prop where
  unfolds : Unfolds s.bindings agenda p
  scene : p.effects.foldlM Effect.perform s.scene = .ok s₁.scene
  steps : s₁.steps = s.steps + p.steps
  depth : agenda.count .leave ≤ s.depth →
    s₁.depth + agenda.count .leave = s.depth + p.rest.count .leave

namespace Task

theorem count_leave_commands (program : Program) : (program.map command).count leave = 0 := by
  rw [List.count_eq_zero, List.mem_map]
  rintro ⟨c, -, hc⟩
  cases hc

theorem count_leave_passes (count : Nat) (body : Program) :
    (List.replicate count (pass body)).count leave = 0 := by
  rw [List.count_replicate, if_neg]
  intro h
  cases beq_iff_eq.1 h

theorem count_leave_followers (bindings : Association Program) (t : Task) :
    (t.followers bindings).count leave = if t.move bindings = .enter then 1 else 0 := by
  cases t with
  | leave => rfl
  | pass body => exact count_leave_commands body
  | command c =>
    cases c with
    | act | define => rfl
    | loop count body =>
      rw [followers, move]
      by_cases hc : count < 0
      · rw [if_pos hc, if_pos hc]
        rfl
      · rw [if_neg hc, if_neg hc, if_pos rfl, List.count_append, count_leave_passes]
        rfl
    | play name =>
      rw [followers, move]
      cases bindings.lookup name <;> rfl

end Task

/-- The depth and the ends of bodies that are on the agenda go up and down together. -/
theorem Move.Changes.depth_followers {s s' : Session} {t : Task} {rest : List Task}
    (hc : Changes s (t.move s.bindings) s') (hd : (t :: rest).count .leave ≤ s.depth) :
    (t.followers s.bindings ++ rest).count .leave ≤ s'.depth ∧
      s'.depth + (t :: rest).count .leave =
        s.depth + (t.followers s.bindings ++ rest).count .leave := by
  rw [List.count_append, Task.count_leave_followers]
  by_cases hl : t = .leave
  · subst hl
    cases hc
    rw [List.count_cons_self] at hd ⊢
    rw [if_neg nofun]
    simp only [Session.leave]
    omega
  · rw [List.count_cons_of_ne hl] at hd ⊢
    by_cases he : t.move s.bindings = .enter
    · rw [he] at hc
      cases hc
      rw [if_pos he]
      simp only [Session.stepped, Session.enter]
      omega
    · have hn : t.move s.bindings ≠ .leave := by
        intro h
        exact hl (Task.eq_leave_of_not_ticks (by rw [h]; exact Bool.false_ne_true))
      rw [if_neg he, hc.depth_eq he hn]
      omega

namespace Session.CameTo

variable {s s' s₁ : Session} {t : Task} {rest agenda : List Task} {p q : Moment}

theorem of_step (hc : Move.Changes s (t.move s.bindings) s')
    (h : s'.CameTo (t.followers s.bindings ++ rest) p s₁) (hu : Unfolds s.bindings (t :: rest) q)
    (hq : q.effects.foldlM Effect.perform s.scene = p.effects.foldlM Effect.perform s'.scene)
    (hs : q.steps = (if (t.move s.bindings).ticks then 1 else 0) + p.steps)
    (hr : q.rest = p.rest) : s.CameTo (t :: rest) q s₁ where
  unfolds := hu
  scene := hq.trans h.scene
  steps := by
    rw [h.steps, hc.steps_eq, hs, Nat.add_assoc]
  depth := by
    intro hd
    obtain ⟨hle, heq⟩ := hc.depth_followers hd
    have hp := h.depth hle
    rw [hr]
    omega

theorem scene_of_command {c : Command} (hc : Move.Changes s ((Task.command c).move s.bindings) s')
    (hn : ∀ action, c ≠ .act action) (hd : ∀ name body, c ≠ .define name body) :
    s'.scene = s.scene ∧ s'.bindings = s.bindings := by
  have hm : (Task.command c).move s.bindings = .enter ∨
      ∃ event, (Task.command c).move s.bindings = .remark event := by
    cases c with
    | act action => exact absurd rfl (hn action)
    | define name body => exact absurd rfl (hd name body)
    | loop count body => exact Task.move_loop _ _ _
    | play name => exact Task.move_play _ _
  obtain ⟨ht, hb, -⟩ := hc.of_enter_or_remark hm
  refine ⟨?_, hb⟩
  rw [Session.scene, ht, hb, Session.scene]

theorem of_command {c : Command} (hc : Move.Changes s ((Task.command c).move s.bindings) s')
    (h : s'.CameTo ((Task.command c).followers s.bindings ++ rest) p s₁) :
    ∃ q, s.CameTo (.command c :: rest) q s₁ ∧ q.next = p.next ∧ q.rest = p.rest := by
  have hu := h.unfolds
  have hs : p.steps + 1 = (if ((Task.command c).move s.bindings).ticks then 1 else 0) + p.steps := by
    rw [if_pos (Task.ticks_command s.bindings c), Nat.add_comm]
  cases c with
  | act action =>
    cases hc with
    | @act _ turtle ha =>
      have he : Effect.perform s.scene (.act action) = .ok ⟨turtle, s.bindings⟩ :=
        congrArg (Except.map _) ha
      refine ⟨_, h.of_step (.act ha) (.act hu) ?_ hs rfl, rfl, rfl⟩
      rw [List.foldlM_cons, he]
      rfl
  | define name body =>
    cases hc
    exact ⟨_, h.of_step (.define name body) (.define hu) rfl hs rfl, rfl, rfl⟩
  | loop count body =>
    obtain ⟨he, hb⟩ := scene_of_command hc (by simp) (by simp)
    rw [hb, Task.followers] at hu
    refine ⟨_, h.of_step hc (.loop ?_) (by rw [he]) hs rfl, rfl, rfl⟩
    split at hu
    case isTrue hn =>
      rw [Int.toNat_of_nonpos (Int.le_of_lt hn)]
      exact .leave hu
    case isFalse =>
      rw [List.append_assoc] at hu
      exact hu
  | play name =>
    obtain ⟨he, hb⟩ := scene_of_command hc (by simp) (by simp)
    rw [hb, Task.followers] at hu
    cases hl : s.bindings.lookup name with
    | none =>
      rw [hl] at hu
      exact ⟨_, h.of_step hc (.unbound hl hu) (by rw [he]) hs rfl, rfl, rfl⟩
    | some body =>
      rw [hl] at hu
      exact ⟨_, h.of_step hc (.play hl hu) (by rw [he]) hs rfl, rfl, rfl⟩

theorem of_changes (hc : Move.Changes s (t.move s.bindings) s')
    (h : s'.CameTo (t.followers s.bindings ++ rest) p s₁) :
    ∃ q, s.CameTo (t :: rest) q s₁ ∧ q.next = p.next ∧ q.rest = p.rest := by
  cases t with
  | command c => exact of_command hc h
  | pass body =>
    cases hc
    exact ⟨_, h.of_step .pass (.pass h.unfolds) rfl (Nat.add_comm _ _) rfl, rfl, rfl⟩
  | leave =>
    cases hc
    exact ⟨p, h.of_step .leave (.leave h.unfolds) rfl (Nat.zero_add _).symm rfl, rfl, rfl⟩

end Session.CameTo

/-- A run that fails has come to the moment of its last deed, which is the one that fails. -/
theorem cameTo_execute (limits : Limits) (agenda : List Task) (s : Session) {fault : Fault}
    {s' : Session} (h : (execute limits agenda s).outcome = .failed fault s') :
    ∃ p s₁ s₂ before, s.CameTo agenda p s₁ ∧
      Move.Fails limits s₁ (p.next.move s₁.bindings) fault s₂ ∧ s' = s₂.unwind p.rest ∧
      (execute limits agenda s).journal =
        before ++ [⟨p.next.move s₁.bindings, s₁, .failed fault s₂⟩] := by
  induction agenda, s using execute_induction limits with
  | nil s =>
    rw [execute_nil] at h
    cases h
  | @done t rest s s₀ hm ih =>
    rw [execute_of_done hm] at h ⊢
    obtain ⟨p, s₁, s₂, before, hp, hf, hs, hj⟩ := ih h
    obtain ⟨q, hq, hn, hr⟩ := hp.of_changes (Move.changes_of_make hm)
    refine ⟨q, s₁, s₂, ⟨t.move s.bindings, s, .done s₀⟩ :: before, hq, ?_, ?_, ?_⟩
    · rw [hn]
      exact hf
    · rw [hr]
      exact hs
    · rw [hn, List.cons_append, ← hj]
  | @failed t rest s fault s₂ hm =>
    rw [execute_of_failed hm] at h ⊢
    cases h
    have hf := Move.fails_of_make hm
    have ht : t ≠ .leave := by
      rintro rfl
      cases hm
    refine ⟨⟨[], 0, t, rest⟩, s, s₂, [], ⟨.here ht, rfl, rfl, fun _ => ?_⟩, hf, rfl, rfl⟩
    rw [List.count_cons_of_ne ht]

/-- How a run that started at some depth stops at a task that it came to in a session: what the
fault says, and the session that is left. -/
inductive Session.Stops (limits : Limits) (s : Session) (depth : Nat) : Task → Fault → Session → Prop
  | steps {t : Task} (h : limits.maxSteps ≤ s.steps) :
      Stops limits s depth t (.stepsExceeded limits.maxSteps)
        { s with steps := s.steps + 1, depth }
  | depth {t : Task} (hs : s.steps < limits.maxSteps) (ht : t.move s.bindings = .enter)
      (h : limits.maxDepth ≤ s.depth) :
      Stops limits s depth t (.depthExceeded (s.depth + 1) limits.maxDepth)
        { s with
          steps := s.steps + 1
          depth := depth + 1
          deepest := max s.deepest (s.depth + 1) }
  | number {action : Action} {fault : NumberFault} (hs : s.steps < limits.maxSteps)
      (h : action.inPlace.run s.turtle = (.error fault, s.turtle)) :
      Stops limits s depth (.command (.act action)) (.number fault)
        { s with steps := s.steps + 1, depth }

theorem Action.run_inPlace_of_error {action : Action} {t : Turtle} {fault : NumberFault}
    (h : action.perform t = .error fault) : action.inPlace.run t = (.error fault, t) := by
  rw [run_inPlace, h]

theorem Task.eq_act_of_move {bindings : Association Program} {t : Task} {action : Action}
    (h : t.move bindings = .act action) : t = .command (.act action) := by
  cases t with
  | pass | leave => cases h
  | command c =>
    cases c with
    | act =>
      cases h
      rfl
    | define => cases h
    | loop count body =>
      rcases Task.move_loop bindings count body with hm | ⟨event, hm⟩
      · cases hm.symm.trans h
      · cases hm.symm.trans h
    | play name =>
      rcases Task.move_play bindings name with hm | ⟨event, hm⟩
      · cases hm.symm.trans h
      · cases hm.symm.trans h

theorem Session.unwind_eq {s : Session} {rest : List Task} {depth : Nat}
    (h : s.depth = depth + rest.count .leave) : s.unwind rest = { s with depth } := by
  rw [unwind, h, Nat.add_sub_cancel]

theorem Session.stops_of_fails {limits : Limits} {s₁ s₂ : Session} {t : Task} {rest : List Task}
    {fault : Fault} {depth : Nat} (h : Move.Fails limits s₁ (t.move s₁.bindings) fault s₂)
    (hd : s₁.depth = depth + rest.count .leave) :
    s₁.Stops limits depth t fault (s₂.unwind rest) := by
  generalize hm : t.move s₁.bindings = m at h
  cases h with
  | steps _ hs =>
    have hd₂ : s₁.stepped.depth = depth + rest.count .leave := hd
    rw [unwind_eq hd₂]
    exact .steps hs
  | depth hs hle =>
    have hd₂ : s₁.stepped.enter.depth = depth + 1 + rest.count .leave := by
      rw [Nat.add_right_comm, ← hd]
      rfl
    rw [unwind_eq hd₂]
    exact .depth hs hm hle
  | number hs ha =>
    have hd₂ : s₁.stepped.depth = depth + rest.count .leave := hd
    obtain rfl := Task.eq_act_of_move hm
    rw [unwind_eq hd₂]
    exact .number hs (Action.run_inPlace_of_error ha)

theorem Session.Stops.scene_eq {limits : Limits} {s s' : Session} {depth : Nat} {t : Task}
    {fault : Fault} (h : s.Stops limits depth t fault s') : s'.scene = s.scene := by
  cases h <;> rfl

/-- A run that fails leaves the turtle and the names as the effects make them that come up before
the moment where it failed. The task there changes nothing but the steps, and the depths if it is
refused a body; the depth is that of the start otherwise. -/
theorem Session.run_failed_at {limits : Limits} {program : Program} {s s' : Session} {fault : Fault}
    (h : s.run limits program = .failed fault s') :
    let agenda := program.map Task.command
    ∃ (p : Moment) (s₁ : Session), Unfolds s.bindings agenda p ∧
      (∀ q, Unfolds s.bindings agenda q → q.steps = p.steps → q = p) ∧
      p.effects.foldlM Effect.perform s.scene = .ok s'.scene ∧
      s₁.scene = s'.scene ∧ s₁.steps = s.steps + p.steps ∧
      s₁.depth = s.depth + p.rest.count .leave ∧
      s₁.Stops limits s.depth p.next fault s' ∧
      ∃ before s₂, (execute limits agenda s).journal =
        before ++ [⟨p.next.move s₁.bindings, s₁, .failed fault s₂⟩] := by
  intro agenda
  rw [← execute_outcome] at h
  obtain ⟨p, s₁, s₂, before, hp, hf, rfl, hj⟩ := cameTo_execute limits agenda s h
  have hd := hp.depth
  rw [Task.count_leave_commands] at hd
  have hd := hd (Nat.zero_le _)
  have hstops := stops_of_fails hf hd
  rw [hstops.scene_eq]
  exact ⟨p, s₁, hp.unfolds, fun q hq => hp.unfolds.unique hq, hp.scene, rfl, hp.steps, hd, hstops,
    before, s₂, hj⟩

theorem Session.run_failed_at_rebound :
    let program : Program :=
      [.define "m" [.act (.setPosition 3 4), .define "m" [.act (.turn ((10 ^ 200) ^ 2))]],
        .act .penDown, .loop 3 [.play "m"]]
    let agenda := program.map Task.command
    let left : Session :=
      { turtle := ⟨north, ⟨3, 4⟩, true, [[⟨3, 4⟩, .origin]]⟩
        bindings := [("m", [.act (.turn ((10 ^ 200) ^ 2))])], deepest := 2, steps := 12 }
    Session.run {} program {} = .failed (.number .integerTooLarge) left ∧
      ∃ (p : Moment) (s₁ : Session), Unfolds [] agenda p ∧
        p.effects.foldlM Effect.perform ⟨{}, []⟩ = .ok left.scene ∧
        s₁.steps = 0 + p.steps ∧ s₁.Stops {} 0 p.next (.number .integerTooLarge) left := by
  intro program agenda left
  have h : Session.run {} program {} = .failed (.number .integerTooLarge) left := by
    decide +kernel
  obtain ⟨p, s₁, hp, -, he, -, hs, -, hstops, -⟩ := Session.run_failed_at h
  exact ⟨h, p, s₁, hp, he, hs, hstops⟩

end TurtlePlot
