import TurtlePlot.Compile
import TurtlePlot.Proofs.Adequacy

/-!
What the limits do to a run. They only end it: the moves before the first session that is beyond a
limit are the same under all limits, so a program that finishes under some limits finishes in the
same session under those that its steps and greatest depth stay within, and under all others fails
at the limit that is crossed first. Every run ends with its counters at most one past the limits.
-/

namespace TurtlePlot

variable {limits limits' : Limits} {m : Move} {s s' : Session} {fault : Fault}

def Outcome.fault? : Outcome → Option Fault
  | .done _ => none
  | .failed fault _ => some fault

def Outcome.strokes : Outcome → Except Fault (List Stroke)
  | .done s => .ok s.turtle.strokes
  | .failed fault _ => .error fault

/-- The fault of a session that is beyond a limit. A move takes its step before it enters a body,
so the limit on steps strikes first. -/
def Limits.crossed? (limits : Limits) (s : Session) : Option Fault :=
  if limits.maxSteps < s.steps then some (.stepsExceeded limits.maxSteps)
  else if limits.maxDepth < s.deepest then
    some (.depthExceeded (limits.maxDepth + 1) limits.maxDepth)
  else none

structure Limits.Admits (limits : Limits) (s : Session) : Prop where
  steps : s.steps ≤ limits.maxSteps
  deepest : s.deepest ≤ limits.maxDepth

theorem Limits.crossed?_eq_none_iff : limits.crossed? s = none ↔ limits.Admits s := by
  unfold Limits.crossed?
  split
  case isTrue h => exact ⟨nofun, fun ha => absurd h (Nat.not_lt.2 ha.steps)⟩
  case isFalse h =>
    split
    case isTrue hd => exact ⟨nofun, fun ha => absurd hd (Nat.not_lt.2 ha.deepest)⟩
    case isFalse hd => exact ⟨fun _ => ⟨Nat.not_lt.1 h, Nat.not_lt.1 hd⟩, fun _ => rfl⟩

/-- What holds of the sessions of a run until a limit strikes. -/
structure Session.Within (s : Session) (limits : Limits) : Prop extends limits.Admits s where
  depth : s.depth ≤ s.deepest

theorem Session.within_fresh (limits : Limits) : Session.Within {} limits :=
  ⟨⟨Nat.zero_le _, Nat.zero_le _⟩, Nat.le_refl _⟩

namespace Move.Changes

theorem deepest_eq (h : Changes s m s') (he : m ≠ .enter) : s'.deepest = s.deepest := by
  cases h with
  | enter => exact absurd rfl he
  | act | define | remark | pass | leave => rfl

theorem deepest_le (h : Changes s m s') : s.deepest ≤ s'.deepest := by
  cases h with
  | enter => exact Nat.le_max_left _ _
  | act | define | remark | pass | leave => exact Nat.le_refl _

theorem steps_le (h : Changes s m s') : s.steps ≤ s'.steps := by
  rw [h.steps_eq]
  exact Nat.le_add_right _ _

theorem depth_le_deepest (h : Changes s m s') (hs : s.depth ≤ s.deepest) :
    s'.depth ≤ s'.deepest := by
  cases h with
  | enter => exact Nat.le_max_right _ _
  | leave => exact Nat.le_trans (Nat.sub_le _ _) hs
  | act | define | remark | pass => exact hs

end Move.Changes

/-- The counters of a run at its end: within the limits, or one past the limit that struck. -/
def Outcome.Accounted (limits : Limits) : Outcome → Prop
  | .done s | .failed (.number _) s => limits.Admits s
  | .failed (.stepsExceeded limit) s =>
    limit = limits.maxSteps ∧ s.steps = limits.maxSteps + 1 ∧ s.deepest ≤ limits.maxDepth
  | .failed (.depthExceeded depth limit) s =>
    depth = limits.maxDepth + 1 ∧ limit = limits.maxDepth ∧ s.steps ≤ limits.maxSteps ∧
      s.deepest = limits.maxDepth + 1

namespace Outcome.Accounted

variable {o : Outcome}

theorem steps_le (h : o.Accounted limits) : o.session.steps ≤ limits.maxSteps + 1 := by
  cases o with
  | done s => exact Nat.le_succ_of_le h.steps
  | failed fault s =>
    cases fault with
    | stepsExceeded limit => exact Nat.le_of_eq h.2.1
    | depthExceeded depth limit => exact Nat.le_succ_of_le h.2.2.1
    | number fault => exact Nat.le_succ_of_le h.steps

theorem deepest_le (h : o.Accounted limits) : o.session.deepest ≤ limits.maxDepth + 1 := by
  cases o with
  | done s => exact Nat.le_succ_of_le h.deepest
  | failed fault s =>
    cases fault with
    | stepsExceeded limit => exact Nat.le_succ_of_le h.2.2
    | depthExceeded depth limit => exact Nat.le_of_eq h.2.2.2
    | number fault => exact Nat.le_succ_of_le h.deepest

theorem stepsExceeded_iff (h : o.Accounted limits) (limit : Nat) :
    o.fault? = some (.stepsExceeded limit) ↔
      limit = limits.maxSteps ∧ o.session.steps = limits.maxSteps + 1 := by
  constructor
  · intro hf
    cases o with
    | done s => cases hf
    | failed fault s =>
      cases hf
      exact ⟨h.1, h.2.1⟩
  · rintro ⟨rfl, hs⟩
    have hne {n : Nat} (hn : n ≤ limits.maxSteps) : n ≠ limits.maxSteps + 1 := by omega
    cases o with
    | done s => exact absurd hs (hne h.steps)
    | failed fault s =>
      cases fault with
      | stepsExceeded limit => rw [← h.1]; rfl
      | depthExceeded depth limit => exact absurd hs (hne h.2.2.1)
      | number fault => exact absurd hs (hne h.steps)

theorem depthExceeded_iff (h : o.Accounted limits) (depth limit : Nat) :
    o.fault? = some (.depthExceeded depth limit) ↔
      depth = limits.maxDepth + 1 ∧ limit = limits.maxDepth ∧
        o.session.deepest = limits.maxDepth + 1 := by
  constructor
  · intro hf
    cases o with
    | done s => cases hf
    | failed fault s =>
      cases hf
      exact ⟨h.1, h.2.1, h.2.2.2⟩
  · rintro ⟨rfl, rfl, hd⟩
    have hne {n : Nat} (hn : n ≤ limits.maxDepth) : n ≠ limits.maxDepth + 1 := by omega
    cases o with
    | done s => exact absurd hd (hne h.deepest)
    | failed fault s =>
      cases fault with
      | stepsExceeded limit => exact absurd hd (hne h.2.2)
      | depthExceeded depth limit => rw [← h.1, ← h.2.1]; rfl
      | number fault => exact absurd hd (hne h.deepest)

end Outcome.Accounted

theorem Session.Within.of_make (hs : s.Within limits) (h : m.make limits s = .done s') :
    s'.Within limits := by
  have hc := Move.changes_of_make h
  refine ⟨⟨?_, ?_⟩, hc.depth_le_deepest hs.depth⟩
  · by_cases hm : m.ticks
    · rw [hc.steps_eq, if_pos hm]
      exact (Move.apply_of_make h hm).1
    · rw [hc.steps_eq, if_neg hm]
      exact hs.steps
  · by_cases he : m = .enter
    · subst he
      have hlt : s.depth < limits.maxDepth := Move.lt_maxDepth_of_make h
      cases hc
      exact Nat.max_le.2 ⟨hs.deepest, hlt⟩
    · rw [hc.deepest_eq he]
      exact hs.deepest

theorem Session.Within.depth_eq (hs : s.Within limits) (h : limits.maxDepth ≤ s.depth) :
    s.depth = limits.maxDepth ∧ s.stepped.enter.deepest = limits.maxDepth + 1 := by
  have hdeep := hs.deepest
  have heq := Nat.le_antisymm (Nat.le_trans hs.depth hdeep) h
  refine ⟨heq, ?_⟩
  simp only [Session.stepped, Session.enter, heq]
  omega

theorem Move.accounted_make (hs : s.Within limits) (h : m.make limits s = .failed fault s') :
    (Outcome.failed fault s').Accounted limits := by
  cases fails_of_make h with
  | steps hm hle => exact ⟨rfl, congrArg (· + 1) (Nat.le_antisymm hs.steps hle), hs.deepest⟩
  | depth hlt hle =>
    obtain ⟨hd, hdeep⟩ := hs.depth_eq hle
    exact ⟨congrArg (· + 1) hd, rfl, hlt, hdeep⟩
  | number hlt => exact ⟨hlt, hs.deepest⟩

theorem accounted_execute (limits : Limits) (agenda : List Task) (s : Session)
    (hs : s.Within limits) : (execute limits agenda s).outcome.Accounted limits := by
  induction agenda, s using execute_induction limits with
  | nil s =>
    rw [execute_nil]
    exact hs.toAdmits
  | done hm ih =>
    rw [execute_of_done hm]
    exact ih (hs.of_make hm)
  | @failed t rest s fault s' hm =>
    rw [execute_of_failed hm]
    have ha := Move.accounted_make hs hm
    cases fault with
    | number => exact ⟨ha.steps, ha.deepest⟩
    | stepsExceeded | depthExceeded => exact ha

theorem Session.accounted_run (limits : Limits) (program : Program) :
    (Session.run limits program {}).Accounted limits := by
  rw [← execute_outcome]
  exact accounted_execute limits _ {} (within_fresh limits)

theorem Move.Fails.steps_eq (h : Move.Fails limits s m fault s') :
    m.ticks ∧ s'.steps = s.steps + 1 := by
  cases h with
  | steps hm => exact ⟨hm, rfl⟩
  | depth | number => exact ⟨rfl, rfl⟩

theorem Move.Fails.depth_le (h : Move.Fails limits s m fault s') : s'.depth ≤ s.depth + 1 := by
  cases h with
  | depth => exact Nat.le_refl _
  | steps | number => exact Nat.le_succ _

theorem steps_execute (limits : Limits) (agenda : List Task) (s : Session) :
    (execute limits agenda s).outcome.session.steps =
      s.steps + (execute limits agenda s).journal.countP (·.move.ticks) := by
  induction agenda, s using execute_induction limits with
  | nil s =>
    rw [execute_nil]
    rfl
  | @done t rest s s₁ hm ih =>
    rw [execute_of_done hm]
    simp only [List.countP_cons]
    rw [ih, (Move.changes_of_make hm).steps_eq]
    omega
  | failed hm =>
    rw [execute_of_failed hm]
    obtain ⟨ht, hs⟩ := (Move.fails_of_make hm).steps_eq
    rw [List.countP_singleton, if_pos ht]
    exact hs

theorem depth_execute (limits : Limits) (agenda : List Task) (s : Session)
    (hs : s.Within limits) :
    ∀ deed ∈ (execute limits agenda s).journal,
      deed.outcome.session.depth ≤ limits.maxDepth + 1 := by
  refine forall_deeds_execute (P := fun s => s.Within limits) (fun hs hm => ?_) (fun hs hm => ?_)
    agenda s hs
  · have hs' := hs.of_make hm
    exact ⟨hs', Nat.le_succ_of_le (Nat.le_trans hs'.depth hs'.deepest)⟩
  · have hle := Nat.le_trans hs.depth hs.deepest
    exact Nat.le_trans (Move.fails_of_make hm).depth_le (Nat.succ_le_succ hle)

def Limits.followed (limits : Limits) : Limits :=
  { limits with maxDepth := min limits.maxDepth maxFollowedDepth }

theorem Program.compile_strokes {program : Program}
    (h : ∀ depth limit s, Session.run limits.followed program {} =
      .failed (.depthExceeded depth limit) s → limit = limits.maxDepth) :
    (program.compile limits).strokes = (Session.run limits.followed program {}).strokes := by
  simp only [Program.compile]
  split
  case h_1 hr => exact (congrArg Outcome.strokes hr).symm
  case h_2 depth _ s hr =>
    rw [← h _ _ s hr]
    exact (congrArg Outcome.strokes hr).symm
  case h_3 hr => exact (congrArg Outcome.strokes hr).symm

theorem Program.exists_run {program : Program} {strokes : List Stroke}
    (h : (program.compile limits).strokes = .ok strokes) :
    ∃ s, Session.run limits.followed program {} = .done s ∧ s.turtle.strokes = strokes := by
  simp only [compile] at h
  split at h
  case h_1 s hr => exact ⟨s, hr, Except.ok.inj h⟩
  case h_2 => cases h
  case h_3 => cases h

theorem Program.compile_strokes_of_run {program : Program}
    (h : Session.run limits.followed program {} = .done s) :
    (program.compile limits).strokes = .ok s.turtle.strokes := by
  rw [compile_strokes (by rw [h]; nofun), h]
  rfl

/-- As long as the limit on depth is one that can be followed, compiling a program is running it
from a fresh session. -/
theorem Program.compile_strokes_of_le (program : Program) (h : limits.maxDepth ≤ maxFollowedDepth) :
    (program.compile limits).strokes = (Session.run limits program {}).strokes := by
  have hl : limits.followed = limits := by
    rw [Limits.followed, Nat.min_eq_left h]
  have ha := Session.accounted_run limits program
  rw [Program.compile_strokes, hl]
  intro depth limit s hr
  rw [hl] at hr
  rw [hr] at ha
  exact ha.2.1

/-- Every run ends. It takes at most one step more than its limit, and enters no body more than
one level beyond its limit; it fails for one of the two just when it went that far. -/
theorem Session.run_ends (limits : Limits) (program : Program) :
    let e := execute limits (program.map .command) {}
    let o := Session.run limits program {}
    (WellFounded fun w' w => Work.Next limits w w') ∧ e.outcome = o ∧
    e.journal.countP (·.move.ticks) = o.session.steps ∧
    o.session.steps ≤ limits.maxSteps + 1 ∧
    (∀ deed ∈ e.journal, deed.outcome.session.depth ≤ limits.maxDepth + 1) ∧
    o.session.deepest ≤ limits.maxDepth + 1 ∧
    (∀ s, o = .done s → s.steps ≤ limits.maxSteps ∧ s.deepest ≤ limits.maxDepth) ∧
    (∀ limit, o.fault? = some (.stepsExceeded limit) ↔
      limit = limits.maxSteps ∧ o.session.steps = limits.maxSteps + 1) ∧
    (∀ depth limit, o.fault? = some (.depthExceeded depth limit) ↔
      depth = limits.maxDepth + 1 ∧ limit = limits.maxDepth ∧
        o.session.deepest = limits.maxDepth + 1) ∧
    (limits.maxDepth ≤ maxFollowedDepth → (program.compile limits).strokes = o.strokes) := by
  intro e o
  have he : e.outcome = o := execute_outcome limits program {}
  have hticks : e.outcome.session.steps = 0 + _ := steps_execute limits _ {}
  rw [he, Nat.zero_add] at hticks
  have hdepth := depth_execute limits (program.map .command) {} (Session.within_fresh limits)
  have ha : o.Accounted limits := Session.accounted_run limits program
  refine ⟨Work.wellFounded_next limits, he, hticks.symm, ha.steps_le, hdepth, ha.deepest_le, ?_,
    ha.stepsExceeded_iff, ha.depthExceeded_iff, program.compile_strokes_of_le⟩
  intro s hs
  rw [hs] at ha
  exact ⟨ha.steps, ha.deepest⟩

/-- A change from a session within other limits is made under these as well, or fails there at the
limit that it crosses. -/
theorem Move.Changes.make_or_crossed (h : Move.Changes s m s') (hs : s.Within limits') :
    s'.Within limits' ∧ m.make limits' s = .done s' ∨
    ∃ fault s₁, limits'.crossed? s' = some fault ∧ m.make limits' s = .failed fault s₁ := by
  cases hm : m.make limits' s with
  | done s₁ =>
    obtain rfl := (changes_of_make hm).unique h
    exact .inl ⟨hs.of_make hm, rfl⟩
  | failed fault s₁ =>
    refine .inr ⟨fault, s₁, ?_, rfl⟩
    cases fails_of_make hm with
    | steps ht hle =>
      have hs' : s'.steps = s.steps + 1 := by rw [h.steps_eq, if_pos ht]
      exact if_pos (hs' ▸ Nat.lt_succ_of_le hle)
    | depth hlt hle =>
      obtain ⟨hd, hdeep⟩ := hs.depth_eq hle
      cases h
      have hs' : ¬ limits'.maxSteps < s.stepped.enter.steps := Nat.not_lt.2 hlt
      rw [Limits.crossed?, if_neg hs', hdeep, if_pos (Nat.lt_succ_self _), hd]
    | number _ ha =>
      cases h with
      | act ha' => cases ha.symm.trans ha'

def Execution.history (e : Execution) : List Session :=
  e.journal.map fun deed => deed.outcome.session

theorem fault_execute (limits limits' : Limits) (agenda : List Task) (s : Session) {s' : Session}
    (hs : s.Within limits') (h : (execute limits agenda s).outcome = .done s') :
    (execute limits' agenda s).outcome.fault? =
        (execute limits agenda s).history.findSome? limits'.crossed? ∧
      ∀ t, (execute limits' agenda s).outcome = .done t → t = s' := by
  -- The run under `limits` sets the pace: the other one keeps up with it until it fails.
  induction agenda, s using execute_induction limits with
  | nil s =>
    rw [execute_nil] at h
    cases h
    rw [execute_nil, execute_nil]
    refine ⟨rfl, ?_⟩
    rintro t ⟨⟩
    rfl
  | failed hm =>
    rw [execute_of_failed hm] at h
    cases h
  | @done t rest s s₁ hm ih =>
    rw [execute_of_done hm] at h ⊢
    have hc := Move.changes_of_make hm
    rcases hc.make_or_crossed hs with ⟨ha, hm'⟩ | ⟨fault, s₂, hf, hm'⟩
    · rw [execute_of_done hm']
      have hnone : limits'.crossed? s₁ = none := Limits.crossed?_eq_none_iff.2 ha.toAdmits
      simp only [Execution.history, List.map_cons, List.findSome?_cons, Outcome.session, hnone]
      exact ih ha h
    · rw [execute_of_failed hm']
      simp only [Execution.history, List.map_cons, List.findSome?_cons, Outcome.session, hf]
      exact ⟨rfl, nofun⟩

/-- A finished run ends in the last of its sessions, where the counters are greatest. -/
theorem history_of_done (limits : Limits) (agenda : List Task) (s : Session) {s' : Session}
    (h : (execute limits agenda s).outcome = .done s') :
    s' ∈ s :: (execute limits agenda s).history ∧
      ∀ t ∈ s :: (execute limits agenda s).history,
        t.steps ≤ s'.steps ∧ t.deepest ≤ s'.deepest := by
  induction agenda, s using execute_induction limits with
  | nil s =>
    rw [execute_nil] at h ⊢
    cases h
    refine ⟨List.mem_singleton_self _, fun t ht => ?_⟩
    rw [List.mem_singleton.1 ht]
    exact ⟨Nat.le_refl _, Nat.le_refl _⟩
  | failed hm =>
    rw [execute_of_failed hm] at h
    cases h
  | @done t rest s s₁ hm ih =>
    rw [execute_of_done hm] at h ⊢
    obtain ⟨hmem, hle⟩ := ih h
    refine ⟨List.mem_cons_of_mem _ hmem, fun t ht => ?_⟩
    rcases List.mem_cons.1 ht with rfl | ht
    · have hc := Move.changes_of_make hm
      obtain ⟨hs, hd⟩ := hle s₁ List.mem_cons_self
      exact ⟨Nat.le_trans hc.steps_le hs, Nat.le_trans hc.deepest_le hd⟩
    · exact hle t ht

theorem crossed?_history_eq_none_iff {agenda : List Task} (hs : limits'.Admits s)
    (h : (execute limits agenda s).outcome = .done s') :
    (execute limits agenda s).history.findSome? limits'.crossed? = none ↔ limits'.Admits s' := by
  obtain ⟨hmem, hle⟩ := history_of_done limits agenda s h
  rw [List.findSome?_eq_none_iff]
  constructor
  · intro hn
    rcases List.mem_cons.1 hmem with rfl | hmem
    · exact hs
    · exact Limits.crossed?_eq_none_iff.1 (hn s' hmem)
  · intro ha t ht
    obtain ⟨hsteps, hdeep⟩ := hle t (List.mem_cons_of_mem _ ht)
    exact Limits.crossed?_eq_none_iff.2
      ⟨Nat.le_trans hsteps ha.steps, Nat.le_trans hdeep ha.deepest⟩

theorem crossed?_of_history {agenda : List Task}
    (h : (execute limits agenda s).outcome = .done s')
    (hf : (execute limits agenda s).history.findSome? limits'.crossed? = some fault) :
    limits'.maxSteps < s'.steps ∧ fault = .stepsExceeded limits'.maxSteps ∨
    limits'.maxDepth < s'.deepest ∧
      fault = .depthExceeded (limits'.maxDepth + 1) limits'.maxDepth := by
  obtain ⟨t, ht, hc⟩ := List.exists_of_findSome?_eq_some hf
  obtain ⟨hsteps, hdeep⟩ := (history_of_done limits agenda s h).2 t (List.mem_cons_of_mem _ ht)
  unfold Limits.crossed? at hc
  split at hc
  case isTrue hlt =>
    cases hc
    exact .inl ⟨Nat.lt_of_lt_of_le hlt hsteps, rfl⟩
  case isFalse =>
    split at hc
    case isTrue hlt =>
      cases hc
      exact .inr ⟨Nat.lt_of_lt_of_le hlt hdeep, rfl⟩
    case isFalse => cases hc

theorem Outcome.fault?_eq_none_iff {o : Outcome} : o.fault? = none ↔ ∃ s, o = .done s := by
  cases o with
  | done s => exact ⟨fun _ => ⟨s, rfl⟩, fun _ => rfl⟩
  | failed fault s => exact ⟨nofun, fun ⟨_, h⟩ => by cases h⟩

theorem Outcome.ne_done_of_fault? {o : Outcome} (h : o.fault? = some fault) (s : Session) :
    o ≠ .done s := by
  rintro rfl
  cases h

theorem Session.fault_cases {program : Program} (h : Session.run limits program {} = .done s)
    (limits' : Limits) :
    limits'.Admits s ∧ Session.run limits' program {} = .done s ∨
    limits'.maxSteps < s.steps ∧
      (Session.run limits' program {}).fault? = some (.stepsExceeded limits'.maxSteps) ∨
    limits'.maxDepth < s.deepest ∧
      (Session.run limits' program {}).fault? =
        some (.depthExceeded (limits'.maxDepth + 1) limits'.maxDepth) := by
  have h₀ := Session.within_fresh limits'
  rw [← execute_outcome] at h
  obtain ⟨hf, hdone⟩ := fault_execute limits limits' _ {} h₀ h
  rw [execute_outcome] at hf hdone
  cases hr : (Session.run limits' program {}).fault? with
  | none =>
    rw [hr] at hf
    obtain ⟨t, ht⟩ := Outcome.fault?_eq_none_iff.1 hr
    obtain rfl := hdone t ht
    exact .inl ⟨(crossed?_history_eq_none_iff h₀.toAdmits h).1 hf.symm, ht⟩
  | some fault =>
    rw [hr] at hf
    rcases crossed?_of_history h hf.symm with ⟨hlt, rfl⟩ | ⟨hlt, rfl⟩
    · exact .inr (.inl ⟨hlt, rfl⟩)
    · exact .inr (.inr ⟨hlt, rfl⟩)

theorem Outcome.strokes_of_fault? {o : Outcome} (h : o.fault? = some fault) :
    o.strokes = .error fault := by
  cases o with
  | done s => cases h
  | failed fault' s =>
    cases h
    rfl

theorem Program.compile_strokes_of_done {program : Program}
    (h : Session.run limits program {} = .done s) (hd : s.deepest ≤ maxFollowedDepth)
    (limits' : Limits) :
    (program.compile limits').strokes = (Session.run limits' program {}).strokes := by
  rcases Nat.le_total limits'.maxDepth maxFollowedDepth with hle | hge
  · exact program.compile_strokes_of_le hle
  · have hmax : limits'.followed.maxDepth = maxFollowedDepth := Nat.min_eq_right hge
    have hin : ¬ limits'.followed.maxDepth < s.deepest := by rw [hmax]; exact Nat.not_lt.2 hd
    have hin' : ¬ limits'.maxDepth < s.deepest := Nat.not_lt.2 (Nat.le_trans hd hge)
    rcases Session.fault_cases h limits'.followed with ⟨ha, hf⟩ | ⟨hlt, hf⟩ | ⟨hlt, _⟩
    · rw [Program.compile_strokes (by rw [hf]; nofun), hf]
      rcases Session.fault_cases h limits' with ⟨_, ho⟩ | ⟨hlt, _⟩ | ⟨hlt, _⟩
      · rw [ho]
      · exact absurd ha.steps (Nat.not_le.2 hlt)
      · exact absurd hlt hin'
    · have hdepth : ∀ depth limit s, Session.run limits'.followed program {} =
          .failed (.depthExceeded depth limit) s → limit = limits'.maxDepth := by
        intro depth limit s hr
        rw [hr] at hf
        cases hf
      rw [Program.compile_strokes hdepth, Outcome.strokes_of_fault? hf]
      rcases Session.fault_cases h limits' with ⟨ha, _⟩ | ⟨_, ho⟩ | ⟨hlt, _⟩
      · exact absurd ha.steps (Nat.not_le.2 hlt)
      · exact (Outcome.strokes_of_fault? ho).symm
      · exact absurd hlt hin'
    · exact absurd hlt hin

/-- A finished program under other limits: it finishes in the same session if these admit its steps
and its greatest depth, and otherwise fails at the first session of its history beyond one of
them. -/
theorem Session.limits_cut {limits : Limits} {program : Program} {s : Session}
    (h : Session.run limits program {} = .done s) (limits' : Limits) :
    let o := Session.run limits' program {}
    let history := (execute limits (program.map .command) {}).history
    ((∃ t, o = .done t) ↔ s.deepest ≤ limits'.maxDepth ∧ s.steps ≤ limits'.maxSteps) ∧
    (∀ t, o = .done t → t = s) ∧
    (s.deepest ≤ limits'.maxDepth → limits'.maxSteps < s.steps →
      o.fault? = some (.stepsExceeded limits'.maxSteps)) ∧
    (limits'.maxDepth < s.deepest → s.steps ≤ limits'.maxSteps →
      o.fault? = some (.depthExceeded (limits'.maxDepth + 1) limits'.maxDepth)) ∧
    (limits'.maxDepth < s.deepest → limits'.maxSteps < s.steps →
      o.fault? = some (.stepsExceeded limits'.maxSteps) ∨
      o.fault? = some (.depthExceeded (limits'.maxDepth + 1) limits'.maxDepth)) ∧
    o.fault? = history.findSome? limits'.crossed? ∧
    (s.deepest ≤ maxFollowedDepth → (program.compile limits').strokes = o.strokes) := by
  intro o history
  have h₀ := Session.within_fresh limits'
  have he := h
  rw [← execute_outcome] at he
  have hf := (fault_execute limits limits' _ {} h₀ he).1
  rw [execute_outcome] at hf
  have hc (hd : s.deepest ≤ maxFollowedDepth) := Program.compile_strokes_of_done h hd limits'
  rcases Session.fault_cases h limits' with ⟨ha, ho⟩ | ⟨hlt, ho⟩ | ⟨hlt, ho⟩
  · have hs := Nat.not_lt.2 ha.steps
    have hd := Nat.not_lt.2 ha.deepest
    refine ⟨⟨fun _ => ⟨ha.deepest, ha.steps⟩, fun _ => ⟨s, ho⟩⟩, ?_, fun _ hlt => absurd hlt hs,
      fun hlt => absurd hlt hd, fun hlt => absurd hlt hd, hf, hc⟩
    intro t ht
    exact Outcome.done.inj (ht.symm.trans ho)
  · have hne : ∀ t, o ≠ .done t := Outcome.ne_done_of_fault? ho
    exact ⟨⟨fun ⟨t, ht⟩ => absurd ht (hne t), fun hle => absurd hle.2 (Nat.not_le.2 hlt)⟩,
      fun t ht => absurd ht (hne t), fun _ _ => ho, fun _ hle => absurd hle (Nat.not_le.2 hlt),
      fun _ _ => .inl ho, hf, hc⟩
  · have hne : ∀ t, o ≠ .done t := Outcome.ne_done_of_fault? ho
    exact ⟨⟨fun ⟨t, ht⟩ => absurd ht (hne t), fun hle => absurd hle.1 (Nat.not_le.2 hlt)⟩,
      fun t ht => absurd ht (hne t), fun hle => absurd hle (Nat.not_le.2 hlt), fun _ _ => ho,
      fun _ _ => .inr ho, hf, hc⟩

theorem Session.limits_cut_loops :
    let program : Program := [.loop 2 [.loop 1 [.act .pass]], .loop 0 []]
    let s : Session := { deepest := 2, steps := 10 }
    Session.run ⟨2, 10⟩ program {} = .done s ∧
      (Session.run ⟨1, 10⟩ program {}).fault? = some (.depthExceeded 2 1) ∧
      (Session.run ⟨2, 9⟩ program {}).fault? = some (.stepsExceeded 9) ∧
      ∀ t, Session.run ⟨7, 30⟩ program {} = .done t → t = s := by
  intro program s
  have h : Session.run ⟨2, 10⟩ program {} = .done s := rfl
  obtain ⟨-, -, -, hdepth, -⟩ := Session.limits_cut h ⟨1, 10⟩
  obtain ⟨-, -, hsteps, -⟩ := Session.limits_cut h ⟨2, 9⟩
  obtain ⟨-, hsame, -⟩ := Session.limits_cut h ⟨7, 30⟩
  exact ⟨h, hdepth (by decide) (by decide), hsteps (by decide) (by decide), hsame⟩

end TurtlePlot
