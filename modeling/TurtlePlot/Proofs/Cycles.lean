import TurtlePlot.Proofs.Nesting
import TurtlePlot.Proofs.Renaming

/-!
Names that play each other around a cycle. What a body of the cycle does before it plays the next
name binds nothing and plays nothing, so the names stay bound and each round goes deeper. The run
ends by a fault, and by then no body of the cycle has come back from the name that it plays: the run
is the same whatever the bodies hold after that.
-/

namespace TurtlePlot

/-- Names in a cycle, each with what its body does before it plays the next one. Nothing is bound or
played in there, at any depth. -/
structure Cycle (n : Nat) where
  name : Fin (n + 1) → String
  before : Fin (n + 1) → Program
  names_before (i : Fin (n + 1)) : (before i).names = []

/-- What a run around a cycle works off before anything that waits: a body that was just entered, or
tasks without names up to the name that is played next. -/
inductive Cycle.Front (n : Nat) where
  | body (i : Fin (n + 1))
  | tasks (plain : List Task) (h : ∀ t ∈ plain, t.NamedIn ∅) (next : Fin (n + 1))

namespace Cycle

section Agenda

variable {n : Nat} (c : Cycle n) (after : Fin (n + 1) → Program)

/-- The body that plays the name after `i`, with what comes after that. -/
def body (i : Fin (n + 1)) : Program :=
  c.before i ++ .play (c.name (i + 1)) :: after i

def Bound (bindings : Association Program) : Prop :=
  ∀ i, bindings.lookup (c.name i) = some (c.body after i)

/-- What waits for the bodies under way to come back, the innermost one first. -/
def waiting (stack : List (Fin (n + 1))) : List Task :=
  stack.flatMap fun i => (after i).map .command ++ [.leave]

def agenda (stack : List (Fin (n + 1))) : Front n → List Task
  | .body i => .pass (c.body after i) :: .leave :: waiting after stack
  | .tasks plain _ next => plain ++ .command (.play (c.name next)) :: waiting after stack

end Agenda

end Cycle

/-- The session with names that stand for something else. -/
def Session.rebind (bindings : Association Program) (s : Session) : Session :=
  { s with bindings }

def Deed.mapSession (f : Session → Session) (deed : Deed) : Deed :=
  ⟨deed.move, f deed.before, deed.outcome.mapSession f⟩

/-- The same moves in other sessions. -/
def Execution.mapSession (f : Session → Session) (e : Execution) : Execution :=
  ⟨e.journal.map (Deed.mapSession f), e.outcome.mapSession f⟩

variable {n : Nat} {limits : Limits} {s s' : Session} {m : Move} {t : Task} {fault : Fault}
  {bindings : Association Program}

theorem Move.Fails.bindings_eq (h : Fails limits s m fault s') : s'.bindings = s.bindings := by
  cases h <;> rfl

theorem Move.make_rebind (hm : m.binds = false) (limits : Limits)
    (bindings : Association Program) (s : Session) :
    m.make limits (s.rebind bindings) = (m.make limits s).mapSession (Session.rebind bindings) := by
  refine make_map rfl rfl rfl fun {s} _ => ?_
  cases m with
  | define name body => cases hm
  | remark | pass | leave => rfl
  | act action =>
    have ht : (s.rebind bindings).turtle = s.turtle := rfl
    rw [apply, apply, Session.act, Session.act, ht]
    cases action.perform s.turtle <;> rfl
  | enter =>
    have hd : (s.rebind bindings).depth = s.depth := rfl
    rw [apply, apply, Session.nest, Session.nest, hd]
    split <;> rfl

namespace Task

theorem move_eq (ht : t.NamedIn ∅) (bindings : Association Program) :
    t.move bindings = t.move [] := by
  cases t with
  | pass | leave => rfl
  | command c =>
    cases c with
    | act | loop => rfl
    | define name body => exact (ht name List.mem_cons_self).elim
    | play name => exact (ht name List.mem_cons_self).elim

theorem followers_eq (ht : t.NamedIn ∅) (bindings : Association Program) :
    t.followers bindings = t.followers [] := by
  cases t with
  | pass | leave => rfl
  | command c =>
    cases c with
    | act | loop => rfl
    | define name body => exact (ht name List.mem_cons_self).elim
    | play name => exact (ht name List.mem_cons_self).elim

theorem binds_move (ht : t.NamedIn ∅) (bindings : Association Program) :
    (t.move bindings).binds = false := by
  cases t with
  | pass | leave => rfl
  | command c =>
    cases c with
    | act => rfl
    | loop count body =>
      rw [move]
      split <;> rfl
    | define name body => exact (ht name List.mem_cons_self).elim
    | play name => exact (ht name List.mem_cons_self).elim

end Task

namespace Cycle

variable {after : Fin (n + 1) → Program} {front : Front n} {stack : List (Fin (n + 1))}

theorem agenda_ne_nil (c : Cycle n) (after : Fin (n + 1) → Program) :
    c.agenda after stack front ≠ [] := by
  cases front with
  | body i => exact List.cons_ne_nil _ _
  | tasks plain => exact List.append_ne_nil_of_right_ne_nil _ (List.cons_ne_nil _ _)

theorem count_leave_waiting (after : Fin (n + 1) → Program) (stack : List (Fin (n + 1))) :
    (waiting after stack).count .leave = stack.length := by
  induction stack with
  | nil => rfl
  | cons i stack ih =>
    rw [waiting, List.flatMap_cons, List.count_append, List.count_append,
      Task.count_leave_commands, ← waiting, ih, List.count_singleton_self, List.length_cons]
    omega

/-- One move around a cycle. The move, the bodies that are left later on and where the run goes are
the same whatever comes after the names that are played. -/
theorem exists_move (c : Cycle n) (stack : List (Fin (n + 1))) (front : Front n) :
    ∃ m left stack' front', m.binds = false ∧
      ∀ after bindings, c.Bound after bindings → ∃ t rest,
        c.agenda after stack front = t :: rest ∧ rest.count .leave = left ∧ t.move bindings = m ∧
          t.followers bindings ++ rest = c.agenda after stack' front' := by
  cases front with
  | body i =>
    -- What comes after the play joins what waits.
    have hp : ∀ t ∈ (c.before i).map Task.command, t.NamedIn ∅ :=
      Task.namedIn_commands (by simp [c.names_before])
    refine ⟨.pass, stack.length + 1, i :: stack, .tasks _ hp (i + 1), rfl, fun after _ _ => ?_⟩
    refine ⟨.pass (c.body after i), _, rfl, ?_, rfl, ?_⟩
    · rw [List.count_cons_self, count_leave_waiting]
    · simp [Task.followers, body, agenda, waiting]
  | tasks plain hp next =>
    cases plain with
    | nil =>
      refine ⟨.enter, stack.length, stack, .body next, rfl, fun after _ hb => ?_⟩
      refine ⟨.command (.play (c.name next)), _, rfl, count_leave_waiting after stack, ?_, ?_⟩
      · rw [Task.move, hb next]
      · rw [Task.followers, hb next]
        rfl
    | cons t plain =>
      obtain ⟨ht, hp⟩ := List.forall_mem_cons.1 hp
      have hf : ∀ u ∈ t.followers [], u.NamedIn ∅ :=
        Task.namedIn_followers ht (List.forall_mem_nil _)
      refine ⟨t.move [], plain.count .leave + stack.length, stack,
        .tasks _ (List.forall_mem_append.2 ⟨hf, hp⟩) next, Task.binds_move ht [],
        fun after bindings _ => ⟨t, _, rfl, ?_, Task.move_eq ht bindings, ?_⟩⟩
      · exact (List.count_append ..).trans (congrArg _ (count_leave_waiting after stack))
      · rw [Task.followers_eq ht bindings]
        exact (List.append_assoc ..).symm

/-- The first task of an agenda around a cycle binds nothing and brings the run further around. With
anything else after the names that are played, some task makes the same move and does the same. -/
theorem exists_next (c : Cycle n) {rest : List Task} (ha : t :: rest = c.agenda after stack front)
    (hb : c.Bound after bindings) :
    ∃ stack' front', (t.move bindings).binds = false ∧
      t.followers bindings ++ rest = c.agenda after stack' front' ∧
      ∀ after' bindings', c.Bound after' bindings' → ∃ t' rest',
        c.agenda after' stack front = t' :: rest' ∧ rest'.count .leave = rest.count .leave ∧
          t'.move bindings' = t.move bindings ∧
          t'.followers bindings' ++ rest' = c.agenda after' stack' front' := by
  obtain ⟨m, left, stack', front', hd, hm⟩ := c.exists_move stack front
  obtain ⟨t, rest, hc, rfl, rfl, hf⟩ := hm after bindings hb
  cases ha.trans hc
  exact ⟨stack', front', hd, hf, hm⟩

theorem agenda_of_next (c : Cycle n) {w w' : Work}
    (h : Relation.ReflTransGen (Work.Next limits) w w')
    (ha : w.agenda = c.agenda after stack front) (hb : c.Bound after w.session.bindings) :
    ∃ stack front, w'.agenda = c.agenda after stack front ∧ c.Bound after w'.session.bindings := by
  induction h with
  | refl => exact ⟨stack, front, ha, hb⟩
  | tail _ hnext ih =>
    obtain ⟨stack, front, ha, hb⟩ := ih
    obtain ⟨hmake⟩ := hnext
    obtain ⟨stack', front', hd, hf, -⟩ := c.exists_next ha hb
    exact ⟨stack', front', hf, (Move.changes_of_make hmake).bindings_eq hd ▸ hb⟩

theorem exists_fault (c : Cycle n) (limits : Limits) (tasks : List Task) (s : Session)
    (ha : tasks = c.agenda after stack front) (hb : c.Bound after s.bindings) :
    ∃ fault s₁, (execute limits tasks s).outcome = .failed fault s₁ ∧ s₁.bindings = s.bindings := by
  induction tasks, s using execute_induction limits generalizing stack front with
  | nil s => exact absurd ha.symm (c.agenda_ne_nil after)
  | done hmake ih =>
    obtain ⟨stack', front', hd, hf, -⟩ := c.exists_next ha hb
    have hs := (Move.changes_of_make hmake).bindings_eq hd
    obtain ⟨fault, s₁, he, hs₁⟩ := ih hf (hs ▸ hb)
    rw [execute_of_done hmake]
    exact ⟨fault, s₁, he, hs₁.trans hs⟩
  | failed hmake =>
    rw [execute_of_failed hmake]
    exact ⟨_, _, rfl, (Move.fails_of_make hmake).bindings_eq⟩

/-- Runs around a cycle make the same moves, whatever comes after the names that are played. -/
theorem execute_rebind (c : Cycle n) (limits : Limits) (tasks : List Task) (s : Session)
    (ha : tasks = c.agenda after stack front) (hb : c.Bound after s.bindings)
    {after' : Fin (n + 1) → Program} (hb' : c.Bound after' bindings) :
    execute limits (c.agenda after' stack front) (s.rebind bindings) =
      (execute limits tasks s).mapSession (Session.rebind bindings) := by
  induction tasks, s using execute_induction limits generalizing stack front with
  | nil s => exact absurd ha.symm (c.agenda_ne_nil after)
  | @done t rest s s' hmake ih =>
    obtain ⟨stack', front', hd, hf, hn⟩ := c.exists_next ha hb
    obtain ⟨t', rest', hc, -, hmove, hf'⟩ := hn after' bindings hb'
    have hs := (Move.changes_of_make hmake).bindings_eq hd
    have he := ih hf (hs ▸ hb)
    have hmake' := Move.make_rebind hd limits bindings s
    rw [hmake, ← hmove] at hmake'
    rw [hc, execute_of_done hmake, execute_of_done hmake']
    simp only [Session.rebind, Execution.mapSession] at he ⊢
    rw [hf', he, hmove]
    rfl
  | @failed t rest s fault s' hmake =>
    obtain ⟨stack', front', hd, -, hn⟩ := c.exists_next ha hb
    obtain ⟨t', rest', hc, hleave, hmove, -⟩ := hn after' bindings hb'
    have hmake' := Move.make_rebind hd limits bindings s
    rw [hmake, ← hmove] at hmake'
    rw [hc, execute_of_failed hmake, execute_of_failed hmake']
    simp only [Session.rebind, Execution.mapSession]
    rw [hmove, Session.unwind, Session.unwind, hleave]
    rfl

end Cycle

/-- Names that play each other around a cycle never come back. Playing one of them fails: the limit
on steps or a number strikes, or a depth is refused, which is the first one beyond the limit and the
start. By then nothing was bound, and what comes after the names that are played only waits: with
anything else in its place, the run makes the same moves to the same end. -/
theorem Session.play_cycle {after : Fin (n + 1) → Program} (c : Cycle n)
    (h : c.Bound after s.bindings) (limits : Limits) (first : Fin (n + 1)) :
    let play : Command := .play (c.name first)
    let e := execute limits [.command play] s
    e.outcome = s.exec limits play ∧
      (∃ fault s', s.exec limits play = .failed fault s' ∧ s'.bindings = s.bindings ∧
        ((∃ limit, fault = .stepsExceeded limit) ∨ (∃ number, fault = .number number) ∨
          fault = .depthExceeded (max s.depth limits.maxDepth + 1) limits.maxDepth)) ∧
      (∀ w, Relation.ReflTransGen (Work.Next limits) ⟨[.command play], s⟩ w →
        ∃ stack front, w.agenda = c.agenda after stack front) ∧
      ∀ after' bindings, c.Bound after' bindings →
        execute limits [.command play] (s.rebind bindings) = e.mapSession (rebind bindings) := by
  intro play e
  have he : e.outcome = s.exec limits play := execute_exec limits play s
  have ha (after : Fin (n + 1) → Program) :
      [.command play] = c.agenda after [] (.tasks [] (List.forall_mem_nil _) first) := rfl
  refine ⟨he, ?_, fun w hw => ?_, fun after' bindings hb => ?_⟩
  · obtain ⟨fault, s', ho, hs⟩ := c.exists_fault limits _ s (ha after) h
    have hf := he.symm.trans ho
    have hd := balanced_exec limits play s
    rw [hf] at hd
    refine ⟨fault, s', hf, hs, ?_⟩
    cases fault with
    | stepsExceeded limit => exact .inl ⟨limit, rfl⟩
    | number number => exact .inr (.inl ⟨number, rfl⟩)
    | depthExceeded depth limit =>
      obtain ⟨-, rfl, rfl⟩ := hd
      exact .inr (.inr rfl)
  · obtain ⟨stack, front, hw, -⟩ := c.agenda_of_next hw (ha after) h
    exact ⟨stack, front, hw⟩
  · exact c.execute_rebind limits _ s (ha after) h hb

theorem Session.play_cycle_drawn :
    let draw : Program := [.act .penDown, .loop 2 [.act (.setPosition 3 4)]]
    let again : Program := [.define "b" [], .act .center]
    let s : Session :=
      { bindings := [("a", draw ++ .play "b" :: again), ("c", []), ("b", .play "a" :: again)] }
    let cut : Association Program := [("a", draw ++ [.play "b"]), ("b", [.play "a"])]
    let e := execute ⟨4, 50⟩ [.command (.play "a")] s
    (∃ s', s.exec ⟨4, 50⟩ (.play "a") = .failed (.depthExceeded 5 4) s') ∧
      execute ⟨4, 50⟩ [.command (.play "a")] (s.rebind cut) = e.mapSession (rebind cut) := by
  intro draw again s cut e
  let c : Cycle 1 :=
    ⟨fun i => if i = 0 then "a" else "b", fun i => if i = 0 then draw else [], by decide⟩
  have h : c.Bound (fun _ => again) s.bindings := by
    change ∀ i, _ = _
    decide
  have hcut : c.Bound (fun _ => []) cut := by
    change ∀ i, _ = _
    decide
  obtain ⟨-, ⟨fault, s', hf, -⟩, -, hr⟩ := play_cycle c h ⟨4, 50⟩ 0
  have hs : s.exec ⟨4, 50⟩ (.play "a") = .failed fault s' := hf
  have hd : (s.exec ⟨4, 50⟩ (.play "a")).fault? = some (.depthExceeded 5 4) := by decide +kernel
  rw [hs] at hd
  obtain rfl := Option.some.inj hd
  exact ⟨⟨s', hs⟩, hr _ cut hcut⟩

end TurtlePlot
