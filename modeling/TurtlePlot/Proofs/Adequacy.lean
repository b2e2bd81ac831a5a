import TurtlePlot.Proofs.Agenda

namespace TurtlePlot

variable {limits : Limits} {rest : List Task} {s : Session}

/-- Goes on with an agenda unless the run has failed. -/
def Outcome.resume (limits : Limits) (agenda : List Task) : Outcome → Outcome
  | .done s => (execute limits agenda s).outcome
  | .failed fault s => .failed fault (s.unwind agenda)

namespace Session

@[simp] theorem unwind_leave (rest : List Task) (s : Session) :
    s.unwind (.leave :: rest) = s.leave.unwind rest := by
  have h : s.depth - (rest.count .leave + 1) = s.depth - 1 - rest.count .leave := by omega
  simp only [unwind, leave, List.count_cons_self, h]

@[simp] theorem unwind_pass (body : Program) (rest : List Task) (s : Session) :
    s.unwind (.pass body :: rest) = s.unwind rest := by
  simp only [unwind, List.count_cons, beq_iff_eq, reduceCtorEq, if_false, Nat.add_zero]

@[simp] theorem unwind_command (c : Command) (rest : List Task) (s : Session) :
    s.unwind (.command c :: rest) = s.unwind rest := by
  simp only [unwind, List.count_cons, beq_iff_eq, reduceCtorEq, if_false, Nat.add_zero]

theorem unwind_commands (program : Program) (rest : List Task) (s : Session) :
    s.unwind (program.map .command ++ rest) = s.unwind rest := by
  induction program with
  | nil => rfl
  | cons c program ih => rw [List.map_cons, List.cons_append, unwind_command, ih]

theorem unwind_passes (body : Program) (count : Nat) (rest : List Task) (s : Session) :
    s.unwind (List.replicate count (Task.pass body) ++ rest) = s.unwind rest := by
  induction count with
  | zero => rfl
  | succ count ih => rw [List.replicate_succ, List.cons_append, unwind_pass, ih]

end Session

namespace Outcome

@[simp] theorem resume_nil (limits : Limits) (o : Outcome) : o.resume limits [] = o := by
  cases o with
  | done s => rw [resume, execute_nil]
  | failed fault s => rfl

theorem resume_leave (limits : Limits) (rest : List Task) (o : Outcome) :
    o.resume limits (.leave :: rest) = (o.mapSession Session.leave).resume limits rest := by
  cases o with
  | done s => exact execute_leave limits rest s
  | failed fault s => exact congrArg (failed fault) (Session.unwind_leave rest s)

end Outcome

theorem Session.command_cases (limits : Limits) (run? : Option (Command → Session → Outcome))
    (c : Command) (s : Session) :
    ((Task.command c).followers s.bindings = [] ∧ (Task.command c).move s.bindings ≠ .enter ∧
      s.command limits run? c = ((Task.command c).move s.bindings).make limits s) ∨
    ∃ body count, (Task.command c).move s.bindings = .enter ∧
      (Task.command c).followers s.bindings = List.replicate count (Task.pass body) ++ [Task.leave] ∧
      s.command limits run? c = (s.tick limits).andThen fun s =>
        s.descend limits run? body count := by
  cases c with
  | act | define =>
    refine .inl ⟨rfl, ?_, rfl⟩
    intro h
    cases h
  | loop count body =>
    by_cases hc : count < 0
    · refine .inl ⟨if_pos hc, ?_, ?_⟩
      · rw [Task.move, if_pos hc]
        intro h
        cases h
      · rw [Task.move, if_pos hc, Session.command]
        simp only [if_pos hc]
        rfl
    · refine .inr ⟨body, count.toNat, if_neg hc, if_neg hc, ?_⟩
      rw [Session.command]
      simp only [if_neg hc]
  | play name =>
    cases hb : s.bindings.lookup name with
    | none =>
      refine .inl ⟨?_, ?_, ?_⟩
      · rw [Task.followers, hb]
      · rw [Task.move, hb]
        intro h
        cases h
      · rw [Task.move, hb]
        apply tick_andThen_congr
        simp only [show s.stepped.body? name = none from hb]
        rfl
    | some body =>
      refine .inr ⟨body, 1, ?_, ?_, ?_⟩
      · rw [Task.move, hb]
      · rw [Task.followers, hb]
        rfl
      · apply tick_andThen_congr
        simp only [show s.stepped.body? name = some body from hb]

theorem outcome_of_followers_nil {t : Task} (h : t.followers s.bindings = []) :
    (execute limits (t :: rest) s).outcome =
      ((t.move s.bindings).make limits s).resume limits rest := by
  cases hm : (t.move s.bindings).make limits s with
  | done s' =>
    rw [execute_of_done hm, h]
    rfl
  | failed fault s' =>
    rw [execute_of_failed hm]
    rfl

/-- A way to run commands that agrees with working them off, for sessions at one depth. -/
structure AgreesAt (limits : Limits) (depth : Nat) (run : Command → Session → Outcome) : Prop where
  outcome (c : Command) (rest : List Task) {s : Session} (hs : s.depth = depth) :
    (execute limits (.command c :: rest) s).outcome = (run c s).resume limits rest
  depth_eq {c : Command} {s s' : Session} (hs : s.depth = depth) (h : run c s = .done s') :
    s'.depth = depth

namespace AgreesAt

variable {depth : Nat} {run : Command → Session → Outcome}

theorem depth_runAll (h : AgreesAt limits depth run) {program : Program} {s s' : Session}
    (hs : s.depth = depth) (hr : Session.runAll run program s = .done s') : s'.depth = depth := by
  induction program generalizing s with
  | nil =>
    cases hr
    exact hs
  | cons c program ih =>
    obtain ⟨s₁, hc, hr⟩ := Outcome.andThen_eq_done hr
    exact ih (h.depth_eq hs hc) hr

theorem depth_passes (h : AgreesAt limits depth run) {body : Program} {count : Nat}
    {s s' : Session} (hs : s.depth = depth)
    (hr : Session.passes limits run body count s = .done s') : s'.depth = depth := by
  induction count generalizing s with
  | zero =>
    cases hr
    exact hs
  | succ count ih =>
    obtain ⟨s₂, hb, hr⟩ := Outcome.andThen_eq_done hr
    obtain ⟨s₁, ht, hb⟩ := Outcome.andThen_eq_done hb
    obtain ⟨-, rfl⟩ := Session.tick_eq_done ht
    have hs₁ : s.stepped.depth = depth := hs
    exact ih (h.depth_runAll hs₁ hb) hr

theorem outcome_runAll (h : AgreesAt limits depth run) (program : Program) (rest : List Task)
    {s : Session} (hs : s.depth = depth) :
    (execute limits (program.map .command ++ rest) s).outcome =
      (Session.runAll run program s).resume limits rest := by
  induction program generalizing s with
  | nil => rfl
  | cons c program ih =>
    rw [List.map_cons, List.cons_append, h.outcome c _ hs, Session.runAll]
    cases hc : run c s with
    | failed fault s₁ => exact congrArg (Outcome.failed fault) (s₁.unwind_commands program rest)
    | done s₁ => exact ih (h.depth_eq hs hc)

theorem outcome_passes (h : AgreesAt limits depth run) (body : Program) (count : Nat)
    (rest : List Task) {s : Session} (hs : s.depth = depth) :
    (execute limits (List.replicate count (Task.pass body) ++ rest) s).outcome =
      (Session.passes limits run body count s).resume limits rest := by
  induction count generalizing s with
  | zero => rfl
  | succ count ih =>
    rw [List.replicate_succ, List.cons_append, Session.passes]
    rcases Nat.lt_or_ge s.steps limits.maxSteps with hlt | hle
    · have hm : ((Task.pass body).move s.bindings).make limits s = .done s.stepped :=
        Move.make_of_lt rfl hlt
      rw [execute_of_done hm, Session.tick_of_lt hlt, Outcome.done_andThen]
      simp only [Task.followers]
      rw [h.outcome_runAll body _ (s := s.stepped) hs]
      cases hb : Session.runAll run body s.stepped with
      | failed fault s₁ => exact congrArg (Outcome.failed fault) (s₁.unwind_passes body count rest)
      | done s₁ => exact ih (h.depth_runAll (s := s.stepped) hs hb)
    · have hm : ((Task.pass body).move s.bindings).make limits s =
          .failed (.stepsExceeded limits.maxSteps) s.stepped := Move.make_of_le rfl hle
      rw [execute_of_failed hm, Session.tick_of_le hle, Session.unwind_passes]
      rfl

end AgreesAt

/-- What runs the commands of bodies at a depth: nothing at the limit, and below it a way to run
them one level deeper. -/
def RunsBodies (limits : Limits) (depth : Nat) : Option (Command → Session → Outcome) → Prop
  | none => limits.maxDepth ≤ depth
  | some run => depth < limits.maxDepth ∧ AgreesAt limits (depth + 1) run

namespace RunsBodies

variable {depth : Nat} {run? : Option (Command → Session → Outcome)}

theorem depth_descend (h : RunsBodies limits depth run?) {body : Program} {count : Nat}
    {s s' : Session} (hs : s.depth = depth) (hr : s.descend limits run? body count = .done s') :
    s'.depth = depth := by
  cases run? with
  | none => cases hr
  | some run =>
    obtain ⟨s₁, hp, rfl⟩ := Outcome.mapSession_eq_done hr
    have he : s.enter.depth = depth + 1 := congrArg (· + 1) hs
    exact congrArg (· - 1) (h.2.depth_passes he hp)

theorem outcome_descend (h : RunsBodies limits depth run?) {t : Task} {body : Program} {count : Nat}
    (hs : s.depth = depth) (hlt : s.steps < limits.maxSteps) (hm : t.move s.bindings = .enter)
    (hf : t.followers s.bindings = List.replicate count (Task.pass body) ++ [Task.leave]) :
    (execute limits (t :: rest) s).outcome =
      (s.stepped.descend limits run? body count).resume limits rest := by
  have hmake : (t.move s.bindings).make limits s = s.stepped.nest limits := by
    rw [hm]
    exact Move.make_of_lt rfl hlt
  have hd : s.stepped.depth = depth := hs
  cases run? with
  | none =>
    have hn : s.stepped.nest limits =
        .failed (.depthExceeded s.stepped.enter.depth limits.maxDepth) s.stepped.enter :=
      if_neg (Nat.not_lt.2 (hd ▸ h))
    rw [execute_of_failed (hmake.trans hn)]
    rfl
  | some run =>
    have hn : s.stepped.nest limits = .done s.stepped.enter := if_pos (hd ▸ h.1)
    have he : s.stepped.enter.depth = depth + 1 := congrArg (· + 1) hs
    rw [execute_of_done (hmake.trans hn), hf, List.append_assoc]
    simp only [List.singleton_append]
    rw [h.2.outcome_passes body count _ he, Outcome.resume_leave]
    rfl

theorem depth_command (h : RunsBodies limits depth run?) {c : Command} {s' : Session}
    (hs : s.depth = depth) (hr : s.command limits run? c = .done s') : s'.depth = depth := by
  rcases Session.command_cases limits run? c s with ⟨_, he, hc⟩ | ⟨body, count, _, _, hc⟩
  · rw [hc] at hr
    exact ((Move.changes_of_make hr).depth_eq he (Task.move_command_ne_leave _ c)).trans hs
  · rw [hc] at hr
    obtain ⟨s₁, ht, hr⟩ := Outcome.andThen_eq_done hr
    obtain ⟨-, rfl⟩ := Session.tick_eq_done ht
    have hs₁ : s.stepped.depth = depth := hs
    exact h.depth_descend hs₁ hr

theorem outcome_command (h : RunsBodies limits depth run?) (c : Command) (rest : List Task)
    (hs : s.depth = depth) :
    (execute limits (.command c :: rest) s).outcome =
      (s.command limits run? c).resume limits rest := by
  rcases Session.command_cases limits run? c s with ⟨hf, _, hc⟩ | ⟨body, count, hm, hf, hc⟩
  · rw [hc, outcome_of_followers_nil hf]
  · rw [hc]
    rcases Nat.lt_or_ge s.steps limits.maxSteps with hlt | hle
    · rw [Session.tick_of_lt hlt]
      exact h.outcome_descend hs hlt hm hf
    · have hmake := Move.make_of_le (Task.ticks_command s.bindings c) hle
      rw [Session.tick_of_le hle, execute_of_failed hmake]
      rfl

end RunsBodies

/-- The levels that are left at a depth are those that the evaluator recurses on. -/
theorem agreesAt_runWithin (limits : Limits) (room : Nat) {depth : Nat}
    (h : limits.maxDepth - depth = room) : AgreesAt limits depth (Session.runWithin limits room) := by
  induction room generalizing depth with
  | zero =>
    have hb : RunsBodies limits depth none := Nat.sub_eq_zero_iff_le.1 h
    exact ⟨fun c rest _ hs => hb.outcome_command c rest hs, hb.depth_command⟩
  | succ room ih =>
    have hb : RunsBodies limits depth (some (Session.runWithin limits room)) :=
      ⟨by omega, ih (by omega)⟩
    exact ⟨fun c rest _ hs => hb.outcome_command c rest hs, hb.depth_command⟩

theorem execute_command (limits : Limits) (c : Command) (rest : List Task) (s : Session) :
    (execute limits (.command c :: rest) s).outcome = (s.exec limits c).resume limits rest :=
  (agreesAt_runWithin limits _ rfl).outcome c rest rfl

theorem execute_exec (limits : Limits) (c : Command) (s : Session) :
    (execute limits [.command c] s).outcome = s.exec limits c := by
  rw [execute_command, Outcome.resume_nil]

/-- Working off a program and what comes after it is running it and going on. -/
theorem execute_commands (limits : Limits) (program : Program) (rest : List Task) (s : Session) :
    (execute limits (program.map .command ++ rest) s).outcome =
      (s.run limits program).resume limits rest := by
  induction program generalizing s with
  | nil => rfl
  | cons c program ih =>
    rw [List.map_cons, List.cons_append, execute_command, Session.run, Session.runAll]
    cases hc : s.exec limits c with
    | failed fault s₁ => exact congrArg (Outcome.failed fault) (s₁.unwind_commands program rest)
    | done s₁ => exact ih s₁

theorem execute_outcome (limits : Limits) (program : Program) (s : Session) :
    (execute limits (program.map .command) s).outcome = s.run limits program := by
  have h := execute_commands limits program [] s
  rwa [List.append_nil, Outcome.resume_nil] at h

end TurtlePlot
