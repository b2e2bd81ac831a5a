import TurtlePlot.Session

namespace TurtlePlot

namespace Session

/-- Counts a step, whatever the limit. -/
def stepped (s : Session) : Session :=
  { s with steps := s.steps + 1 }

theorem tick_of_lt {limits : Limits} {s : Session} (h : s.steps < limits.maxSteps) :
    s.tick limits = .done s.stepped := by
  unfold tick
  exact if_neg (by simp only; omega)

theorem tick_of_le {limits : Limits} {s : Session} (h : limits.maxSteps ≤ s.steps) :
    s.tick limits = .failed (.stepsExceeded limits.maxSteps) s.stepped := by
  unfold tick
  exact if_pos (by simp only; omega)

theorem tick_eq_done {limits : Limits} {s s' : Session} (h : s.tick limits = .done s') :
    s.steps < limits.maxSteps ∧ s' = s.stepped := by
  rcases Nat.lt_or_ge s.steps limits.maxSteps with hlt | hle
  · rw [tick_of_lt hlt] at h
    exact ⟨hlt, (Outcome.done.inj h).symm⟩
  · rw [tick_of_le hle] at h
    cases h

theorem tick_andThen_congr (limits : Limits) {s : Session} {f g : Session → Outcome}
    (h : f s.stepped = g s.stepped) : (s.tick limits).andThen f = (s.tick limits).andThen g := by
  rcases Nat.lt_or_ge s.steps limits.maxSteps with hlt | hle
  · rw [tick_of_lt hlt, Outcome.done_andThen, Outcome.done_andThen, h]
  · rw [tick_of_le hle, Outcome.failed_andThen, Outcome.failed_andThen]

/-- Nests one deeper within the limit; a depth that is refused stays entered. -/
def nest (limits : Limits) (s : Session) : Outcome :=
  if s.depth < limits.maxDepth then .done s.enter
  else .failed (.depthExceeded s.enter.depth limits.maxDepth) s.enter

end Session

/-- What changes a session at one stroke. -/
inductive Move where
  | act (action : Action)
  | define (name : String) (body : Program)
  | remark (event : Event)
  | enter
  | pass
  | leave
deriving DecidableEq

namespace Move

def ticks : Move → Bool
  | .leave => false
  | _ => true

def binds : Move → Bool
  | .define .. => true
  | _ => false

def apply (limits : Limits) (s : Session) : Move → Outcome
  | .act action => s.act action
  | .define name body => .done (s.define name body)
  | .remark event => .done (s.note event)
  | .enter => s.nest limits
  | .pass => .done s
  | .leave => .done s.leave

/-- Takes the step of a move and makes it. -/
def make (limits : Limits) (m : Move) (s : Session) : Outcome :=
  if m.ticks then (s.tick limits).andThen fun s => m.apply limits s else m.apply limits s

theorem make_of_lt {limits : Limits} {m : Move} {s : Session} (hm : m.ticks)
    (h : s.steps < limits.maxSteps) : m.make limits s = m.apply limits s.stepped := by
  rw [make, if_pos hm, Session.tick_of_lt h, Outcome.done_andThen]

theorem make_of_le {limits : Limits} {m : Move} {s : Session} (hm : m.ticks)
    (h : limits.maxSteps ≤ s.steps) :
    m.make limits s = .failed (.stepsExceeded limits.maxSteps) s.stepped := by
  rw [make, if_pos hm, Session.tick_of_le h, Outcome.failed_andThen]

@[simp] theorem make_leave (limits : Limits) (s : Session) : leave.make limits s = .done s.leave :=
  rfl

/-- What a move makes of a session when no limit strikes. -/
inductive Changes (s : Session) : Move → Session → Prop
  | act {action : Action} {turtle : Turtle} (h : action.perform s.turtle = .ok turtle) :
      Changes s (.act action) { s.stepped with turtle }
  | define (name : String) (body : Program) :
      Changes s (.define name body) (s.stepped.define name body)
  | remark (event : Event) : Changes s (.remark event) (s.stepped.note event)
  | enter : Changes s .enter s.stepped.enter
  | pass : Changes s .pass s.stepped
  | leave : Changes s .leave s.leave

/-- How a move fails: at its step, at the depth it enters, or at a number it cannot use. -/
inductive Fails (limits : Limits) (s : Session) : Move → Fault → Session → Prop
  | steps {m : Move} (hm : m.ticks) (h : limits.maxSteps ≤ s.steps) :
      Fails limits s m (.stepsExceeded limits.maxSteps) s.stepped
  | depth (hs : s.steps < limits.maxSteps) (h : limits.maxDepth ≤ s.depth) :
      Fails limits s .enter (.depthExceeded (s.depth + 1) limits.maxDepth) s.stepped.enter
  | number {action : Action} {fault : NumberFault} (hs : s.steps < limits.maxSteps)
      (h : action.perform s.turtle = .error fault) :
      Fails limits s (.act action) (.number fault) s.stepped

variable {limits : Limits} {m : Move} {s s' : Session} {fault : Fault}

theorem apply_of_make (h : m.make limits s = .done s') (hm : m.ticks) :
    s.steps < limits.maxSteps ∧ m.apply limits s.stepped = .done s' := by
  rw [make, if_pos hm] at h
  obtain ⟨s₁, ht, ha⟩ := Outcome.andThen_eq_done h
  obtain ⟨hlt, rfl⟩ := Session.tick_eq_done ht
  exact ⟨hlt, ha⟩

theorem lt_maxDepth_of_make (h : enter.make limits s = .done s') : s.depth < limits.maxDepth := by
  obtain ⟨-, ha⟩ := apply_of_make h rfl
  apply Nat.lt_of_not_le
  intro hle
  have hn : s.stepped.nest limits = _ := if_neg (Nat.not_lt.2 hle)
  cases hn.symm.trans ha

theorem changes_of_make (h : m.make limits s = .done s') : Changes s m s' := by
  cases m with
  | leave =>
    cases h
    exact .leave
  | act action =>
    obtain ⟨-, ha⟩ := apply_of_make h rfl
    rw [apply, Session.act] at ha
    split at ha
    case h_1 turtle hp =>
      cases ha
      exact .act hp
    case h_2 => cases ha
  | define name body =>
    obtain ⟨-, ⟨⟩⟩ := apply_of_make h rfl
    exact .define name body
  | remark event =>
    obtain ⟨-, ⟨⟩⟩ := apply_of_make h rfl
    exact .remark event
  | enter =>
    obtain ⟨-, ha⟩ := apply_of_make h rfl
    have hn : s.stepped.nest limits = _ := if_pos (lt_maxDepth_of_make h)
    cases hn.symm.trans ha
    exact .enter
  | pass =>
    obtain ⟨-, ⟨⟩⟩ := apply_of_make h rfl
    exact .pass

theorem fails_of_make (h : m.make limits s = .failed fault s') : Fails limits s m fault s' := by
  by_cases hm : m.ticks
  · rcases Nat.lt_or_ge s.steps limits.maxSteps with hlt | hle
    · rw [make_of_lt hm hlt] at h
      cases m with
      | act action =>
        rw [apply, Session.act] at h
        split at h
        case h_1 => cases h
        case h_2 ha =>
          cases h
          exact .number hlt ha
      | enter =>
        rw [apply, Session.nest] at h
        split at h
        case isTrue => cases h
        case isFalse hd =>
          cases h
          exact .depth hlt (Nat.le_of_not_lt hd)
      | define | remark | pass | leave => cases h
    · rw [make_of_le hm hle] at h
      cases h
      exact .steps hm hle
  · cases m with
    | leave => cases h
    | act | define | remark | enter | pass => exact absurd rfl hm

theorem Changes.unique {s₁ s₂ : Session} (h₁ : Changes s m s₁) (h₂ : Changes s m s₂) :
    s₁ = s₂ := by
  cases h₁ with
  | act ha₁ =>
    cases h₂ with
    | act ha₂ => rw [Except.ok.inj (ha₁.symm.trans ha₂)]
  | define | remark | enter | pass | leave =>
    cases h₂
    rfl

theorem Changes.steps_eq (h : Changes s m s') : s'.steps = s.steps + if m.ticks then 1 else 0 := by
  cases h <;> rfl

theorem Changes.bindings_eq (h : Changes s m s') (hm : m.binds = false) :
    s'.bindings = s.bindings := by
  cases h with
  | define name body => cases hm
  | act | remark | enter | pass | leave => rfl

theorem Changes.depth_eq (h : Changes s m s') (he : m ≠ .enter) (hl : m ≠ .leave) :
    s'.depth = s.depth := by
  cases h with
  | enter => exact absurd rfl he
  | leave => exact absurd rfl hl
  | act | define | remark | pass => rfl

end Move

/-- A piece of work that is left of a run. -/
inductive Task where
  | command (command : Command)
  | pass (body : Program)
  | leave
deriving DecidableEq

namespace Task

def move (bindings : Association Program) : Task → Move
  | .command (.act action) => .act action
  | .command (.loop count _) => if count < 0 then .remark (.negativeCount count) else .enter
  | .command (.define name body) => .define name body
  | .command (.play name) =>
    match bindings.lookup name with
    | some _ => .enter
    | none => .remark (.unknownName name)
  | .pass _ => .pass
  | .leave => .leave

def followers (bindings : Association Program) : Task → List Task
  | .command (.loop count body) =>
    if count < 0 then [] else List.replicate count.toNat (.pass body) ++ [.leave]
  | .command (.play name) =>
    match bindings.lookup name with
    | some body => [.pass body, .leave]
    | none => []
  | .pass body => body.map .command
  | .command (.act _) | .command (.define ..) | .leave => []

theorem ticks_command (bindings : Association Program) (c : Command) :
    ((Task.command c).move bindings).ticks := by
  cases c with
  | act | define => rfl
  | loop count body =>
    rw [move]
    split <;> rfl
  | play name =>
    rw [move]
    split <;> rfl

theorem move_command_ne_leave (bindings : Association Program) (c : Command) :
    (Task.command c).move bindings ≠ .leave := by
  intro h
  have ht := ticks_command bindings c
  rw [h] at ht
  cases ht

theorem eq_leave_of_not_ticks {bindings : Association Program} {t : Task}
    (h : ¬ (t.move bindings).ticks) : t = leave := by
  cases t with
  | command c => exact absurd (ticks_command bindings c) h
  | pass => exact absurd rfl h
  | leave => rfl

end Task

/-- Leaves the bodies that an agenda would have left. -/
def Session.unwind (agenda : List Task) (s : Session) : Session :=
  { s with depth := s.depth - agenda.count .leave }

/-- A move that was made, with the session that it found and what came of it. -/
structure Deed where
  move : Move
  before : Session
  outcome : Outcome

/-- The moves of a run in order, and its end. -/
structure Execution where
  journal : List Deed
  outcome : Outcome

structure Work where
  agenda : List Task
  session : Session

namespace Work

inductive Next (limits : Limits) : Work → Work → Prop
  | mk {t : Task} {rest : List Task} {s s' : Session}
      (h : (t.move s.bindings).make limits s = .done s') :
      Next limits ⟨t :: rest, s⟩ ⟨t.followers s.bindings ++ rest, s'⟩

/-- The steps that are left, and for as long as none is taken the tasks that are left. -/
def measure (limits : Limits) (w : Work) : Nat × Nat :=
  (limits.maxSteps - w.session.steps, w.agenda.length)

theorem measure_of_make {limits : Limits} {t : Task} {rest : List Task} {s s' : Session}
    (h : (t.move s.bindings).make limits s = .done s') :
    Prod.Lex (· < ·) (· < ·) (measure limits ⟨t.followers s.bindings ++ rest, s'⟩)
      (measure limits ⟨t :: rest, s⟩) := by
  have hs := (Move.changes_of_make h).steps_eq
  by_cases hm : (t.move s.bindings).ticks
  · obtain ⟨hlt, -⟩ := Move.apply_of_make h hm
    rw [if_pos hm] at hs
    apply Prod.Lex.left
    simp only [hs]
    omega
  · obtain rfl := Task.eq_leave_of_not_ticks hm
    cases h
    exact .right _ (Nat.lt_succ_self _)

/-- No run goes on without end, whatever its names stand for and however often its loops count. -/
theorem wellFounded_next (limits : Limits) : WellFounded fun w' w => Next limits w w' := by
  apply Subrelation.wf _ (InvImage.wf (measure limits) (Prod.lex Nat.lt_wfRel Nat.lt_wfRel).wf)
  rintro _ _ ⟨h⟩
  exact measure_of_make h

end Work

/-- Works off an agenda. A move that fails ends it, and the bodies under way are left. -/
def execute (limits : Limits) (agenda : List Task) (s : Session) : Execution :=
  match agenda with
  | [] => ⟨[], .done s⟩
  | t :: rest =>
    let m := t.move s.bindings
    match _h : m.make limits s with
    | .done s' =>
      let e := execute limits (t.followers s.bindings ++ rest) s'
      ⟨⟨m, s, .done s'⟩ :: e.journal, e.outcome⟩
    | .failed fault s' => ⟨[⟨m, s, .failed fault s'⟩], .failed fault (s'.unwind rest)⟩
termination_by Work.measure limits ⟨agenda, s⟩
decreasing_by exact Work.measure_of_make _h

section Execute

variable {limits : Limits} {t : Task} {rest : List Task} {s s' : Session}

@[simp] theorem execute_nil (limits : Limits) (s : Session) : execute limits [] s = ⟨[], .done s⟩ := by
  rw [execute]

theorem execute_of_done (h : (t.move s.bindings).make limits s = .done s') :
    execute limits (t :: rest) s =
      let e := execute limits (t.followers s.bindings ++ rest) s'
      ⟨⟨t.move s.bindings, s, .done s'⟩ :: e.journal, e.outcome⟩ := by
  rw [execute]
  split
  case h_1 _ h' =>
    rw [h] at h'
    cases h'
    rfl
  case h_2 _ _ h' =>
    rw [h] at h'
    cases h'

theorem execute_of_failed {fault : Fault}
    (h : (t.move s.bindings).make limits s = .failed fault s') :
    execute limits (t :: rest) s =
      ⟨[⟨t.move s.bindings, s, .failed fault s'⟩], .failed fault (s'.unwind rest)⟩ := by
  rw [execute]
  split
  case h_1 _ h' =>
    rw [h] at h'
    cases h'
  case h_2 _ _ h' =>
    rw [h] at h'
    cases h'
    rfl

/-- Induction on the moves by which an agenda is worked off. -/
theorem execute_induction (limits : Limits) {motive : List Task → Session → Prop}
    (nil : ∀ s, motive [] s)
    (done : ∀ {t rest s s'}, (t.move s.bindings).make limits s = .done s' →
      motive (t.followers s.bindings ++ rest) s' → motive (t :: rest) s)
    (failed : ∀ {t rest s fault s'}, (t.move s.bindings).make limits s = .failed fault s' →
      motive (t :: rest) s) (agenda : List Task) (s : Session) : motive agenda s := by
  induction agenda, s using execute.induct limits with
  | case1 s => exact nil s
  | case2 s t rest m s' h ih => exact done h ih
  | case3 s t rest m fault s' h => exact failed h

/-- What every move from a session within an invariant satisfies, the deeds of a run satisfy. -/
theorem forall_deeds_execute {P : Session → Prop} {Q : Deed → Prop}
    (done : ∀ {m s s'}, P s → m.make limits s = .done s' → P s' ∧ Q ⟨m, s, .done s'⟩)
    (failed : ∀ {m s fault s'}, P s → m.make limits s = .failed fault s' →
      Q ⟨m, s, .failed fault s'⟩) (agenda : List Task) (s : Session) (hs : P s) :
    ∀ deed ∈ (execute limits agenda s).journal, Q deed := by
  induction agenda, s using execute_induction limits with
  | nil s =>
    intro deed hmem
    rw [execute_nil] at hmem
    cases hmem
  | done hm ih =>
    obtain ⟨hs', hq⟩ := done hs hm
    rw [execute_of_done hm]
    rintro deed (_ | ⟨_, hmem⟩)
    · exact hq
    · exact ih hs' deed hmem
  | failed hm =>
    rw [execute_of_failed hm]
    intro deed hmem
    rw [List.mem_singleton.1 hmem]
    exact failed hs hm

@[simp] theorem execute_leave (limits : Limits) (rest : List Task) (s : Session) :
    (execute limits (.leave :: rest) s).outcome = (execute limits rest s.leave).outcome := by
  rw [execute_of_done (Move.make_leave limits s)]
  rfl

end Execute

end TurtlePlot
