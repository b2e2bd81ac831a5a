import TurtlePlot.Proofs.Interruption
import TurtlePlot.Proofs.Limits
import TurtlePlot.Proofs.Strokes

/-!
The depth that commands leave behind, whatever becomes of them. A body that is entered is left
again, also by a fault; only a depth that is refused stays entered. So a session that goes on after
faults is as deep as depths were refused to it, and its greatest depth is the greatest that any body
was entered at or refused.
-/

namespace TurtlePlot

/-- The depth at which a deed entered a body or was refused it. -/
def Deed.reached? (deed : Deed) : Option Nat :=
  match deed.move, deed.outcome with
  | .enter, .done s | .enter, .failed (.depthExceeded ..) s => some s.depth
  | _, _ => none

/-- How the depth of an outcome fits to the depth that its run started from. Only a refused depth is
left entered; it is the first one beyond the limit and the start. -/
def Outcome.Balanced (limits : Limits) (start : Nat) : Outcome → Prop
  | .done s | .failed (.stepsExceeded _) s | .failed (.number _) s => s.depth = start
  | .failed (.depthExceeded depth limit) s =>
    s.depth = start + 1 ∧ depth = max start limits.maxDepth + 1 ∧ limit = limits.maxDepth

/-- What holds of a session with what is left of its run: each body under way is left at some time,
and no body was entered beyond the limit. -/
structure Session.Nested (limits : Limits) (start : Nat) (agenda : List Task) (s : Session) :
    Prop where
  depth : s.depth = start + agenda.count .leave
  depth_le : s.depth ≤ max start limits.maxDepth

variable {limits : Limits} {start : Nat} {t : Task} {rest : List Task} {m : Move} {s s' : Session}
  {fault : Fault}

theorem Session.Nested.of_make (h : s.Nested limits start (t :: rest))
    (hm : (t.move s.bindings).make limits s = .done s') :
    s'.Nested limits start (t.followers s.bindings ++ rest) := by
  have hc := Move.changes_of_make hm
  have hd := h.depth
  have hle := h.depth_le
  obtain ⟨-, heq⟩ := hc.depth_followers (Nat.le.intro (hd.trans (Nat.add_comm ..)).symm)
  refine ⟨by omega, ?_⟩
  by_cases he : t.move s.bindings = .enter
  · rw [he] at hm hc
    have hlt := Move.lt_maxDepth_of_make hm
    cases hc
    exact Nat.le_trans hlt (Nat.le_max_right _ _)
  · by_cases hl : t.move s.bindings = .leave
    · rw [hl] at hc
      cases hc
      exact Nat.le_trans (Nat.sub_le _ _) hle
    · rw [hc.depth_eq he hl]
      exact hle

theorem Session.Nested.balanced_of_make (h : s.Nested limits start (t :: rest))
    (hm : (t.move s.bindings).make limits s = .failed fault s') :
    (Outcome.failed fault (s'.unwind rest)).Balanced limits start := by
  have ht : t ≠ .leave := by
    rintro rfl
    cases hm
  have hd := h.depth
  have hle := h.depth_le
  rw [List.count_cons_of_ne ht] at hd
  have hf := Move.fails_of_make hm
  generalize t.move s.bindings = m at hf
  cases hf with
  | steps | number => exact Nat.sub_eq_of_eq_add hd
  | depth _ hlimit =>
    refine ⟨?_, by omega, rfl⟩
    simp only [unwind, stepped, enter]
    omega

theorem balanced_execute (limits : Limits) (start : Nat) (agenda : List Task) (s : Session)
    (h : s.Nested limits start agenda) :
    (execute limits agenda s).outcome.Balanced limits start := by
  induction agenda, s using execute_induction limits with
  | nil s =>
    rw [execute_nil]
    exact h.depth
  | done hm ih =>
    rw [execute_of_done hm]
    exact ih (h.of_make hm)
  | failed hm =>
    rw [execute_of_failed hm]
    exact h.balanced_of_make hm

/-- A command leaves the depth that it found, but for a depth that is refused. -/
theorem Session.balanced_exec (limits : Limits) (c : Command) (s : Session) :
    (s.exec limits c).Balanced limits s.depth := by
  rw [← execute_exec]
  exact balanced_execute limits s.depth _ s ⟨rfl, Nat.le_max_left _ _⟩

theorem Move.Changes.deepest_eq_max (h : Move.Changes s m s') :
    s'.deepest = (Deed.reached? ⟨m, s, .done s'⟩).elim s.deepest (max s.deepest) := by
  cases h <;> rfl

theorem Move.Fails.deepest_eq_max (h : Move.Fails limits s m fault s') :
    s'.deepest = (Deed.reached? ⟨m, s, .failed fault s'⟩).elim s.deepest (max s.deepest) := by
  cases h with
  | depth | number => rfl
  | steps =>
    cases m <;> rfl

theorem foldl_max_reached (deed : Deed) (journal : List Deed) (deepest : Nat) :
    ((deed :: journal).filterMap Deed.reached?).foldl max deepest =
      (journal.filterMap Deed.reached?).foldl max (deed.reached?.elim deepest (max deepest)) := by
  rw [List.filterMap_cons]
  cases deed.reached? <;> rfl

/-- The greatest depth of a run is the greatest that it started with or reached. -/
theorem deepest_execute (limits : Limits) (agenda : List Task) (s : Session) :
    (s.deepest :: (execute limits agenda s).journal.filterMap Deed.reached?).max? =
      some (execute limits agenda s).outcome.session.deepest := by
  rw [List.max?_cons', Option.some.injEq]
  induction agenda, s using execute_induction limits with
  | nil s =>
    rw [execute_nil]
    rfl
  | done hm ih =>
    rw [execute_of_done hm]
    simp only [foldl_max_reached]
    rw [← (Move.changes_of_make hm).deepest_eq_max]
    exact ih
  | failed hm =>
    rw [execute_of_failed hm]
    simp only [foldl_max_reached]
    rw [← (Move.fails_of_make hm).deepest_eq_max]
    rfl

def Fault.isDepth : Fault → Bool
  | .depthExceeded .. => true
  | .stepsExceeded _ | .number _ => false

theorem Outcome.Balanced.depth_eq {o : Outcome} (h : o.Balanced limits start) :
    o.session.depth = start + o.fault?.toList.countP Fault.isDepth := by
  cases o with
  | done s => exact h
  | failed fault s =>
    cases fault with
    | depthExceeded => exact h.1
    | stepsExceeded | number => exact h

namespace Session

/-- The faults of commands that are run one after the other, in order. -/
def faults : List (Limits × Command) → Session → List Fault
  | [], _ => []
  | (limits, c) :: calls, s =>
    (s.exec limits c).fault?.toList ++ faults calls (s.exec limits c).session

theorem depth_attempt (calls : List (Limits × Command)) (s : Session) :
    (attempt calls s).depth = s.depth + (faults calls s).countP Fault.isDepth := by
  induction calls generalizing s with
  | nil => rfl
  | cons call calls ih =>
    obtain ⟨limits, c⟩ := call
    rw [attempt, ih, (balanced_exec limits c s).depth_eq, faults, List.countP_append, Nat.add_assoc]

/-- Whatever a command does, its outcome is as deep as its session was before it, or one deeper if a
depth was refused, which is then the first one beyond the limit and the start. The greatest depth is
the greatest of the one before and of those at which bodies were entered or refused. So commands on
a fresh session that go on after faults leave it as deep as there were depths refused. -/
theorem depth_of_attempt (limits : Limits) (c : Command) (s : Session) :
    let o := s.exec limits c
    let e := execute limits [.command c] s
    o.Balanced limits s.depth ∧ s.deepest ≤ o.session.deepest ∧ e.outcome = o ∧
      (s.deepest :: e.journal.filterMap Deed.reached?).max? = some o.session.deepest ∧
      ∀ calls, (attempt calls {}).depth = (faults calls {}).countP Fault.isDepth := by
  intro o e
  have he : e.outcome = o := execute_exec limits c s
  have hd : _ = some e.outcome.session.deepest := deepest_execute limits [.command c] s
  rw [he] at hd
  refine ⟨balanced_exec limits c s, ?_, he, hd, fun calls => ?_⟩
  · exact (List.max?_eq_some_iff.1 hd).2 s.deepest List.mem_cons_self
  · rw [depth_attempt]
    exact Nat.zero_add _

end Session

end TurtlePlot
