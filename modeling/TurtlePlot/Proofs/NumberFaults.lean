import TurtlePlot.Proofs.Interruption
import TurtlePlot.Proofs.Limits
import TurtlePlot.Proofs.Magnitude

/-!
Which numbers a program cannot be drawn with. A whole number is refused when the double nearest to it
is an infinity, and a step forward when the heading is one. As long as no number is too large for
that, however often turns add up, compiling ends with strokes or at a limit.
-/

namespace TurtlePlot

open Double

theorem nearestFloat_of_lt {n : Int} (h : n.natAbs < halfway) :
    nearestFloat n = .ok (Float.ofInt n) :=
  if_pos ((isFinite_ofInt_iff n).2 h)

theorem nearestFloat_of_le {n : Int} (h : halfway ≤ n.natAbs) :
    nearestFloat n = .error .integerTooLarge :=
  if_neg fun hf => absurd ((isFinite_ofInt_iff n).1 hf) (Nat.not_lt.2 h)

theorem exists_unitVector {heading : Float} (h : heading.isInf = false) :
    ∃ direction, unitVector heading = .ok direction := by
  rw [unitVector, if_neg (Bool.eq_false_iff.1 h)]
  simp only
  split
  · exact ⟨_, rfl⟩
  · split <;> exact ⟨_, rfl⟩

/-- The whole numbers that an action takes doubles for. -/
def Action.operands : Action → List Int
  | .setHeading degrees => [90 + degrees]
  | .setPosition x y => [x, y]
  | .turn degrees => [degrees]
  | .forward distance => [distance]
  | .pass | .center | .resetHeading | .penUp | .penDown => []

/-- Why an action cannot be performed. A step forward looks at the heading first. -/
inductive Action.Refused (t : Turtle) : Action → NumberFault → Prop
  | heading {distance : Int} (h : t.heading.isInf) :
      Refused t (.forward distance) .headingInfinite
  | operand {action : Action} {n : Int} (hn : n ∈ action.operands) (h : halfway ≤ n.natAbs)
      (hf : ∀ distance, action = .forward distance → t.heading.isInf = false) :
      Refused t action .integerTooLarge

namespace Action

variable {action : Action} {t : Turtle} {fault : NumberFault}

theorem perform_of_refused (h : action.Refused t fault) : action.perform t = .error fault := by
  cases h with
  | heading h =>
    have hv : unitVector t.heading = .error .headingInfinite := if_pos h
    rw [perform, hv]
    rfl
  | @operand _ n hn h hf =>
    cases action with
    | pass | center | resetHeading | penUp | penDown => cases hn
    | setHeading | turn =>
      obtain rfl := List.mem_singleton.1 hn
      rw [perform, headingOf, nearestFloat_of_le h]
      rfl
    | setPosition x y =>
      rw [perform]
      rcases Nat.lt_or_ge x.natAbs halfway with hlt | hle
      · obtain rfl | hn := List.mem_cons.1 hn
        · exact absurd h (Nat.not_le.2 hlt)
        · obtain rfl := List.mem_singleton.1 hn
          rw [nearestFloat_of_lt hlt, nearestFloat_of_le h]
          rfl
      · rw [nearestFloat_of_le hle]
        rfl
    | forward distance =>
      obtain rfl := List.mem_singleton.1 hn
      obtain ⟨direction, hv⟩ := exists_unitVector (hf _ rfl)
      rw [perform, hv, nearestFloat_of_le h]
      rfl

theorem exists_perform (h : ∀ fault, ¬ action.Refused t fault) :
    ∃ t', action.perform t = .ok t' := by
  have ho {n : Int} (hn : n ∈ action.operands)
      (hf : ∀ distance, action = .forward distance → t.heading.isInf = false) :
      nearestFloat n = .ok (Float.ofInt n) :=
    nearestFloat_of_lt (Nat.lt_of_not_le fun hle => h _ (.operand hn hle hf))
  cases action with
  | pass | center | resetHeading | penUp | penDown => exact ⟨_, rfl⟩
  | setHeading | turn =>
    rw [perform, headingOf, ho List.mem_cons_self (by simp)]
    exact ⟨_, rfl⟩
  | setPosition x y =>
    rw [perform, ho List.mem_cons_self (by simp),
      ho (List.mem_cons_of_mem _ List.mem_cons_self) (by simp)]
    exact ⟨_, rfl⟩
  | forward distance =>
    have hi : t.heading.isInf = false := Bool.eq_false_iff.2 fun hi => h _ (.heading hi)
    obtain ⟨direction, hv⟩ := exists_unitVector hi
    rw [perform, hv, ho List.mem_cons_self fun _ _ => hi]
    exact ⟨_, rfl⟩

theorem perform_eq_error_iff : action.perform t = .error fault ↔ action.Refused t fault := by
  refine ⟨fun h => ?_, perform_of_refused⟩
  by_cases hr : ∃ fault, action.Refused t fault
  · obtain ⟨fault', hr⟩ := hr
    obtain rfl := Except.error.inj (h.symm.trans (perform_of_refused hr))
    exact hr
  · obtain ⟨t', ht⟩ := exists_perform (not_exists.1 hr)
    cases h.symm.trans ht

end Action

/-- The whole numbers that an action is written with. -/
def Action.numbers : Action → List Int
  | .setHeading degrees => [degrees]
  | .setPosition x y => [x, y]
  | .turn degrees => [degrees]
  | .forward distance => [distance]
  | .pass | .center | .resetHeading | .penUp | .penDown => []

/-- The numbers of all actions in a command are at most as large as a bound. Counts do not matter. -/
inductive Command.Bounded (bound : Nat) : Command → Prop
  | act {action : Action} (h : ∀ n ∈ action.numbers, n.natAbs ≤ bound) : Bounded bound (.act action)
  | loop {count : Int} {body : Program} (h : ∀ c ∈ body, Bounded bound c) :
      Bounded bound (.loop count body)
  | define {name : String} {body : Program} (h : ∀ c ∈ body, Bounded bound c) :
      Bounded bound (.define name body)
  | play (name : String) : Bounded bound (.play name)

/-- Nothing on an agenda has larger numbers than a bound. -/
def Task.Bounded (bound : Nat) : Task → Prop
  | .command c => c.Bounded bound
  | .pass body => ∀ c ∈ body, c.Bounded bound
  | .leave => True

/-- The heading is far from an infinity, and so are the numbers of bodies that names stand for. -/
structure Session.Bounded (bound : Nat) (s : Session) : Prop where
  heading : AtMost 1023 s.turtle.heading
  body : ∀ name body, s.bindings.lookup name = some body → ∀ c ∈ body, c.Bounded bound

@[simp] theorem Turtle.heading_moveTo (p : Point) (t : Turtle) :
    (t.moveTo p).heading = t.heading := by
  unfold moveTo
  split <;> rfl

theorem Turtle.heading_lowerPen (t : Turtle) : t.lowerPen.heading = t.heading := by
  unfold lowerPen
  split <;> rfl

theorem natAbs_lt_halfway {n : Int} {j : Nat} (hn : n.natAbs ≤ 2 ^ j) (hj : j ≤ 1023) :
    n.natAbs < halfway :=
  (isFinite_ofInt_iff n).1 (atMost_ofInt hn hj).isFinite

section Bounded

variable {j : Nat} {action : Action} {t t' : Turtle}

theorem Action.natAbs_operands (hn : ∀ n ∈ action.numbers, n.natAbs ≤ 2 ^ j) :
    ∀ n ∈ action.operands, n.natAbs ≤ 2 ^ (j + 7) := by
  have hp := Nat.two_pow_pos j
  have hle {n : Int} (h : n.natAbs ≤ 2 ^ j + 90) : n.natAbs ≤ 2 ^ (j + 7) := by
    rw [Nat.pow_add]
    omega
  intro n ho
  cases action with
  | pass | center | resetHeading | penUp | penDown => cases ho
  | setHeading degrees =>
    obtain rfl := List.mem_singleton.1 ho
    have hd := hn degrees List.mem_cons_self
    exact hle (by omega)
  | setPosition | turn | forward => exact hle (Nat.le_add_right_of_le (hn n ho))

theorem Action.operands_lt_halfway (hj : j ≤ 967) (hn : ∀ n ∈ action.numbers, n.natAbs ≤ 2 ^ j) :
    ∀ n ∈ action.operands, n.natAbs < halfway :=
  fun n ho => natAbs_lt_halfway (natAbs_operands hn n ho) (by omega)

theorem Action.not_refused (hj : j ≤ 967) (hn : ∀ n ∈ action.numbers, n.natAbs ≤ 2 ^ j)
    (ht : AtMost 1023 t.heading) (fault : NumberFault) : ¬ action.Refused t fault := by
  intro h
  cases h with
  | heading h => exact absurd h (Bool.eq_false_iff.1 ht.isInf_eq_false)
  | operand ho h =>
    exact absurd h (Nat.not_le.2 (operands_lt_halfway hj hn _ ho))

/-- Turns keep a heading within the power of two that bounds it, which exceeds them by far. -/
theorem Action.heading_perform (hj : j ≤ 967) (hn : ∀ n ∈ action.numbers, n.natAbs ≤ 2 ^ j)
    (ht : AtMost 1023 t.heading) (h : action.perform t = .ok t') : AtMost 1023 t'.heading := by
  have ho {n : Int} (ho : n ∈ action.operands) : nearestFloat n = .ok (Float.ofInt n) :=
    nearestFloat_of_lt (operands_lt_halfway hj hn n ho)
  cases action with
  | pass | penUp =>
    cases h
    exact ht
  | penDown =>
    cases h
    rwa [Turtle.heading_lowerPen]
  | center =>
    cases h
    rwa [Turtle.heading_moveTo]
  | resetHeading =>
    cases h
    exact atMost_north.mono (by decide)
  | setHeading degrees =>
    rw [perform, headingOf, ho List.mem_cons_self] at h
    cases h
    have hx := atMost_ofInt (natAbs_operands hn _ List.mem_cons_self) (by omega)
    exact (hx.radians (by omega) (by omega)).mono (by omega)
  | turn degrees =>
    rw [perform, headingOf, ho List.mem_cons_self] at h
    cases h
    have hx := atMost_ofInt (hn degrees List.mem_cons_self) (by omega)
    exact ht.add (hx.radians (by omega) (by omega)) (by omega) (by decide) (by decide)
  | setPosition x y =>
    rw [perform, ho List.mem_cons_self, ho (List.mem_cons_of_mem _ List.mem_cons_self)] at h
    obtain rfl := Except.ok.inj h
    split
    · exact ht
    · rwa [Turtle.heading_moveTo]
  | forward distance =>
    obtain ⟨direction, hv⟩ := exists_unitVector ht.isInf_eq_false
    rw [perform, hv, ho List.mem_cons_self] at h
    obtain rfl := Except.ok.inj h
    rwa [Turtle.heading_moveTo]

end Bounded

section Runs

variable {bound j : Nat} {t : Task} {s s' : Session}

theorem Task.bounded_followers (ht : t.Bounded bound) (hs : s.Bounded bound) :
    ∀ u ∈ t.followers s.bindings, u.Bounded bound := by
  cases t with
  | leave => exact List.forall_mem_nil _
  | pass body => exact List.forall_mem_map.2 ht
  | command c =>
    cases ht with
    | act | define => exact List.forall_mem_nil _
    | @loop count body hb =>
      rw [followers]
      split
      · exact List.forall_mem_nil _
      · refine List.forall_mem_append.2 ⟨fun u hu => ?_, List.forall_mem_singleton.2 trivial⟩
        rw [List.eq_of_mem_replicate hu]
        exact hb
    | play name =>
      rw [followers]
      cases hl : s.bindings.lookup name with
      | none => exact List.forall_mem_nil _
      | some body =>
        exact List.forall_mem_cons.2 ⟨hs.body name body hl, List.forall_mem_singleton.2 trivial⟩

theorem Session.Bounded.of_changes (hj : j ≤ 967) (hs : s.Bounded (2 ^ j)) (ht : t.Bounded (2 ^ j))
    (h : Move.Changes s (t.move s.bindings) s') : s'.Bounded (2 ^ j) := by
  cases t with
  | pass | leave =>
    cases h
    exact ⟨hs.heading, hs.body⟩
  | command c =>
    cases ht with
    | act hn =>
      cases h with
      | act ha => exact ⟨Action.heading_perform hj hn hs.heading ha, hs.body⟩
    | @define name body hb =>
      cases h
      refine ⟨hs.heading, fun key found hl => ?_⟩
      have hl : (Association.put name body s.bindings).lookup key = some found := hl
      rw [Association.lookup_put] at hl
      split at hl
      · obtain rfl := Option.some.inj hl
        exact hb
      · exact hs.body key found hl
    | loop =>
      obtain ⟨htu, hbi, -⟩ := h.of_enter_or_remark (Task.move_loop _ _ _)
      exact ⟨htu ▸ hs.heading, hbi ▸ hs.body⟩
    | play =>
      obtain ⟨htu, hbi, -⟩ := h.of_enter_or_remark (Task.move_play _ _)
      exact ⟨htu ▸ hs.heading, hbi ▸ hs.body⟩

/-- A run without large numbers fails at no number. -/
theorem ne_number_execute (hj : j ≤ 967) (limits : Limits) (agenda : List Task) (s : Session)
    (hs : s.Bounded (2 ^ j)) (ha : ∀ t ∈ agenda, t.Bounded (2 ^ j)) {fault : NumberFault}
    {s' : Session} : (execute limits agenda s).outcome ≠ .failed (.number fault) s' := by
  induction agenda, s using execute_induction limits with
  | nil s =>
    rw [execute_nil]
    exact nofun
  | @done t rest s s₁ hm ih =>
    obtain ⟨ht, hr⟩ := List.forall_mem_cons.1 ha
    rw [execute_of_done hm]
    refine ih (hs.of_changes hj ht (Move.changes_of_make hm)) ?_
    exact List.forall_mem_append.2 ⟨Task.bounded_followers ht hs, hr⟩
  | @failed t rest s fault₁ s₁ hm =>
    obtain ⟨ht, -⟩ := List.forall_mem_cons.1 ha
    rw [execute_of_failed hm]
    rintro ⟨⟩
    have hf := Move.fails_of_make hm
    generalize hmove : t.move s.bindings = m at hf
    cases hf with
    | number _ hp =>
      obtain rfl := Task.eq_act_of_move hmove
      cases ht with
      | act hn => exact Action.not_refused hj hn hs.heading _ (Action.perform_eq_error_iff.1 hp)

end Runs

namespace Program

variable {limits : Limits} {program : Program}

theorem compile_cases (limits : Limits) (program : Program) :
    (∃ strokes, (program.compile limits).strokes = .ok strokes) ∨
    (∃ depth, (program.compile limits).strokes = .error (.depthExceeded depth limits.maxDepth)) ∨
    (program.compile limits).strokes = .error (.stepsExceeded limits.maxSteps) ∨
    ∃ fault s, Session.run limits.followed program {} = .failed (.number fault) s ∧
      (program.compile limits).strokes = .error (.number fault) := by
  have ha := Session.accounted_run limits.followed program
  simp only [Program.compile]
  split
  case h_1 => exact .inl ⟨_, rfl⟩
  case h_2 => exact .inr (.inl ⟨_, rfl⟩)
  case h_3 fault s hne hr =>
    have hr : Session.run limits.followed program {} = .failed fault s := hr
    rw [hr] at ha
    cases fault with
    | depthExceeded depth limit => exact absurd rfl (hne depth limit)
    | stepsExceeded limit => exact .inr (.inr (.inl (by rw [ha.1]; rfl)))
    | number fault => exact .inr (.inr (.inr ⟨fault, s, hr, rfl⟩))

theorem ne_number_compile (hb : ∀ c ∈ program, c.Bounded (2 ^ 967)) {fault : NumberFault} :
    (program.compile limits).strokes ≠ .error (.number fault) := by
  intro hn
  rcases compile_cases limits program with ⟨strokes, h⟩ | ⟨depth, h⟩ | h | ⟨found, s, hr, -⟩
  · cases h.symm.trans hn
  · cases h.symm.trans hn
  · cases h.symm.trans hn
  · rw [← execute_outcome] at hr
    have hs : Session.Bounded (2 ^ 967) {} := ⟨atMost_north.mono (by decide), nofun⟩
    exact ne_number_execute le_rfl _ _ _ hs (List.forall_mem_map.2 hb) hr

/-- Compiling ends with strokes, at a limit, or at an action that is refused for a number, which
comes up after others were performed. It is not refused unless there are large numbers in the
program: numbers of moderate size do not add up to an infinite heading. -/
theorem compile_ends (limits : Limits) (program : Program) :
    let result := (program.compile limits).strokes
    let agenda := program.map Task.command
    let Expected := (∃ strokes, result = .ok strokes) ∨
      (∃ depth, result = .error (.depthExceeded depth limits.maxDepth)) ∨
      result = .error (.stepsExceeded limits.maxSteps)
    (Expected ∨ ∃ (fault : NumberFault) (p : Moment) (scene : Scene) (action : Action),
      result = .error (.number fault) ∧ Unfolds [] agenda p ∧
      p.effects.foldlM Effect.perform ⟨{}, []⟩ = .ok scene ∧
      p.next = .command (.act action) ∧ action.Refused scene.turtle fault) ∧
    ((∀ c ∈ program, c.Bounded (2 ^ 967)) → Expected) := by
  intro result agenda Expected
  have hc : Expected ∨ ∃ fault s, Session.run limits.followed program {} =
      .failed (.number fault) s ∧ result = .error (.number fault) := by
    rcases compile_cases limits program with h | h | h | h
    · exact .inl (.inl h)
    · exact .inl (.inr (.inl h))
    · exact .inl (.inr (.inr h))
    · exact .inr h
  refine ⟨hc.imp_right ?_, fun hb => hc.resolve_right ?_⟩
  · rintro ⟨fault, s, hr, he⟩
    rw [← execute_outcome] at hr
    obtain ⟨p, s₁, s₂, -, hp, hf, -, -⟩ := cameTo_execute _ _ _ hr
    generalize hm : p.next.move s₁.bindings = m at hf
    cases hf with
    | @number action _ _ ha =>
      exact ⟨fault, p, s₁.scene, action, he, hp.unfolds, hp.scene, Task.eq_act_of_move hm,
        Action.perform_eq_error_iff.1 ha⟩
  · rintro ⟨fault, s, hr, -⟩
    rw [← execute_outcome] at hr
    have hs : Session.Bounded (2 ^ 967) {} := ⟨atMost_north.mono (by decide), nofun⟩
    exact ne_number_execute le_rfl _ _ _ hs (List.forall_mem_map.2 hb) hr

theorem compile_ends_turning :
    let program : Program := [.loop (10 ^ 100) [.act (.turn (10 ^ 250)), .act (.forward (-(10 ^ 200)))]]
    (∀ c ∈ program, c.Bounded (2 ^ 967)) ∧
      ∀ fault, (program.compile {}).strokes ≠ .error (.number fault) := by
  intro program
  have hb : ∀ c ∈ program, c.Bounded (2 ^ 967) := by
    refine List.forall_mem_singleton.2 (.loop (List.forall_mem_cons.2 ⟨.act ?_, ?_⟩))
    · exact List.forall_mem_singleton.2 (by decide +kernel)
    · refine List.forall_mem_singleton.2 (.act (List.forall_mem_singleton.2 ?_))
      decide +kernel
  refine ⟨hb, fun fault hn => ?_⟩
  rcases (compile_ends {} program).2 hb with ⟨strokes, h⟩ | ⟨depth, h⟩ | h
  · cases h.symm.trans hn
  · cases h.symm.trans hn
  · cases h.symm.trans hn

/-- Numbers that are too large: a turn that no double can make, and one that is repeated until the
heading is infinite. -/
theorem compile_large_numbers :
    (compile {} [.act (.turn ((10 ^ 200) ^ 2))]).strokes = .error (.number .integerTooLarge) ∧
    (compile {} [.loop 300 [.act (.turn (5 * (10 ^ 150) ^ 2 * 10 ^ 7))], .act (.forward 1)]).strokes =
      .error (.number .headingInfinite) := by
  decide +kernel

end Program

end TurtlePlot
