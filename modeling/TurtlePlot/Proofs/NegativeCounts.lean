import Mathlib.Data.List.Forall2
import TurtlePlot.Proofs.Limits

/-!
Loops with negative counts against loops that count to zero. Neither passes through its body, but a
loop that counts to zero enters it all the same, so only that one is refused where no depth is left.
Two programs that differ in such counts run in step, with one outcome, unless the loop with the
negative count is passed over where the other one is refused.
-/

namespace TurtlePlot

/-- The same command, but some loops with negative counts count to zero. -/
inductive Command.Zeroed : Command → Command → Prop
  | act (action : Action) : Zeroed (.act action) (.act action)
  | loop (count : Int) {p q : Program} (h : List.Forall₂ Zeroed p q) :
      Zeroed (.loop count p) (.loop count q)
  | negative {count : Int} (hc : count < 0) {p q : Program} (h : List.Forall₂ Zeroed p q) :
      Zeroed (.loop count p) (.loop 0 q)
  | define (name : String) {p q : Program} (h : List.Forall₂ Zeroed p q) :
      Zeroed (.define name p) (.define name q)
  | play (name : String) : Zeroed (.play name) (.play name)

abbrev Program.Zeroed (p q : Program) : Prop :=
  List.Forall₂ Command.Zeroed p q

inductive Task.Zeroed : Task → Task → Prop
  | command {c d : Command} (h : c.Zeroed d) : Zeroed (.command c) (.command d)
  | pass {p q : Program} (h : p.Zeroed q) : Zeroed (.pass p) (.pass q)
  | leave : Zeroed .leave .leave

/-- Moves that change sessions in the same way, up to the counts in bodies that are bound. -/
inductive Move.Zeroed : Move → Move → Prop
  | same {m : Move} (h : ∀ name body, m ≠ .define name body) : Zeroed m m
  | define (name : String) {p q : Program} (h : p.Zeroed q) :
      Zeroed (.define name p) (.define name q)

/-- Bodies of the same names, up to the counts of loops in them. -/
def BindingsZeroed : Association Program → Association Program → Prop :=
  List.Forall₂ fun a b => a.1 = b.1 ∧ a.2.Zeroed b.2

/-- Sessions at the same place of runs in step. How deep they have been may differ, and what they
remarked on. -/
structure Session.InStep (s s' : Session) : Prop where
  turtle : s.turtle = s'.turtle
  bindings : BindingsZeroed s.bindings s'.bindings
  depth : s.depth = s'.depth
  steps : s.steps = s'.steps

def Outcome.InStep : Outcome → Outcome → Prop
  | .done s, .done s' => s.InStep s'
  | .failed fault s, .failed fault' s' => fault = fault' ∧ s.InStep s'
  | _, _ => False

/-- Passing over a loop with a negative count where no body may be entered. -/
def Deed.PassesOver (limits : Limits) (deed : Deed) : Prop :=
  (∃ count, deed.move = .remark (.negativeCount count)) ∧ deed.outcome.fault? = none ∧
    limits.maxDepth ≤ deed.before.depth

/-- Runs that end alike. What the first one passes over at the limit, so does the second one. -/
structure Execution.InStep (limits : Limits) (e e' : Execution) : Prop where
  outcome : e.outcome.InStep e'.outcome
  passesOver (deed : Deed) (hd : deed ∈ e.journal) (h : deed.PassesOver limits) :
    ∃ deed' ∈ e'.journal, deed'.PassesOver limits ∧ deed'.before.steps = deed.before.steps

/-- Failing at the depth that is beyond the one of a deed, instead of this deed. -/
def Outcome.RefusedAt (limits : Limits) (deed : Deed) (o : Outcome) : Prop :=
  ∃ s, o = .failed (.depthExceeded (deed.before.depth + 1) limits.maxDepth) s ∧
    s.turtle = deed.before.turtle ∧ s.steps = deed.before.steps + 1

variable {limits : Limits} {s s' : Session} {m m' : Move} {t t' : Task} {p q : Program}
  {name : String}

/-- The same names in the same order, for values that are related. -/
def Association.Rel {α β : Type} (R : α → β → Prop) : Association α → Association β → Prop :=
  List.Forall₂ fun a b => a.1 = b.1 ∧ R a.2 b.2

namespace Association.Rel

variable {α β : Type} {R : α → β → Prop} {a : Association α} {b : Association β}

theorem lookup (h : Rel R a b) (name : String) :
    Option.Rel R (a.lookup name) (b.lookup name) := by
  induction h with
  | nil => exact .none
  | cons hb _ ih =>
    obtain ⟨hn, hv⟩ := hb
    rw [lookup_cons_eq, lookup_cons_eq, hn]
    split
    · exact .some hv
    · exact ih

theorem put (h : Rel R a b) (name : String) {v : α} {w : β} (hv : R v w) :
    Rel R (Association.put name v a) (Association.put name w b) := by
  induction h with
  | nil => exact .cons ⟨rfl, hv⟩ .nil
  | @cons first second rest rest' hb hr ih =>
    obtain ⟨n, old⟩ := first
    obtain ⟨n', old'⟩ := second
    obtain ⟨hn, hold⟩ := hb
    obtain rfl : n = n' := hn
    rw [Association.put, Association.put]
    split
    · exact .cons ⟨rfl, hv⟩ hr
    · exact .cons ⟨rfl, hold⟩ ih

end Association.Rel

theorem Task.Zeroed.commands (h : p.Zeroed q) :
    List.Forall₂ Task.Zeroed (p.map .command) (q.map .command) := by
  rw [List.forall₂_map_left_iff, List.forall₂_map_right_iff]
  exact h.imp fun _ _ => .command

theorem Task.Zeroed.passes (h : p.Zeroed q) (count : Nat) :
    List.Forall₂ Task.Zeroed (List.replicate count (.pass p)) (List.replicate count (.pass q)) := by
  induction count with
  | zero => exact .nil
  | succ count ih => exact .cons (.pass h) ih

/-- Tasks make moves of one kind and bring up tasks of one kind, but for a loop with a negative
count beside one that counts to zero. -/
theorem Task.Zeroed.move_cases (h : t.Zeroed t') {a b : Association Program}
    (hb : BindingsZeroed a b) :
    (t.move a).Zeroed (t'.move b) ∧ List.Forall₂ Task.Zeroed (t.followers a) (t'.followers b) ∨
    (∃ count, t.move a = .remark (.negativeCount count)) ∧ t.followers a = [] ∧
      t'.move b = .enter ∧ t'.followers b = [.leave] := by
  cases h with
  | leave => exact .inl ⟨.same (by rintro _ _ ⟨⟩), .nil⟩
  | pass h => exact .inl ⟨.same (by rintro _ _ ⟨⟩), commands h⟩
  | command h =>
    cases h with
    | act action => exact .inl ⟨.same (by rintro _ _ ⟨⟩), .nil⟩
    | define name h => exact .inl ⟨.define name h, .nil⟩
    | negative hc h => exact .inr ⟨⟨_, if_pos hc⟩, if_pos hc, rfl, rfl⟩
    | loop count h =>
      left
      simp only [move, followers]
      split
      · exact ⟨.same (by rintro _ _ ⟨⟩), .nil⟩
      · exact ⟨.same (by rintro _ _ ⟨⟩), List.rel_append (passes h _) (.cons .leave .nil)⟩
    | play name =>
      left
      have hl := Association.Rel.lookup hb name
      simp only [move, followers]
      generalize a.lookup name = body at hl
      generalize b.lookup name = body' at hl
      cases hl with
      | none => exact ⟨.same (by rintro _ _ ⟨⟩), .nil⟩
      | some h => exact ⟨.same (by rintro _ _ ⟨⟩), .cons (.pass h) (.cons .leave .nil)⟩

namespace Session.InStep

theorem stepped (h : s.InStep s') : s.stepped.InStep s'.stepped :=
  ⟨h.turtle, h.bindings, h.depth, congrArg (· + 1) h.steps⟩

theorem count_leave {agenda agenda' : List Task} (h : List.Forall₂ Task.Zeroed agenda agenda') :
    agenda.count .leave = agenda'.count .leave := by
  induction h with
  | nil => rfl
  | cons ht _ ih =>
    rw [List.count_cons, List.count_cons, ih]
    cases ht <;> rfl

theorem unwind {agenda agenda' : List Task} (h : s.InStep s')
    (ha : List.Forall₂ Task.Zeroed agenda agenda') :
    (s.unwind agenda).InStep (s'.unwind agenda') := by
  refine ⟨h.turtle, h.bindings, ?_, h.steps⟩
  rw [Session.unwind, Session.unwind, count_leave ha, h.depth]

theorem apply (hm : m.Zeroed m') (h : s.InStep s') :
    (m.apply limits s).InStep (m'.apply limits s') := by
  cases hm with
  | define name hp => exact ⟨h.turtle, Association.Rel.put h.bindings name hp, h.depth, h.steps⟩
  | same hne =>
    cases m with
    | define name body => exact absurd rfl (hne name body)
    | remark | pass => exact ⟨h.turtle, h.bindings, h.depth, h.steps⟩
    | leave => exact ⟨h.turtle, h.bindings, congrArg (· - 1) h.depth, h.steps⟩
    | act action =>
      simp only [Move.apply, act, h.turtle]
      cases action.perform s'.turtle with
      | ok turtle => exact ⟨rfl, h.bindings, h.depth, h.steps⟩
      | error fault => exact ⟨rfl, h.turtle, h.bindings, h.depth, h.steps⟩
    | enter =>
      have he : s.enter.InStep s'.enter :=
        ⟨h.turtle, h.bindings, congrArg (· + 1) h.depth, h.steps⟩
      simp only [Move.apply, nest, h.depth]
      split
      · exact he
      · exact ⟨by rw [he.depth], he⟩

theorem make (limits : Limits) (hm : m.Zeroed m') (h : s.InStep s') :
    (m.make limits s).InStep (m'.make limits s') := by
  have ht : m.ticks = m'.ticks := by cases hm <;> rfl
  by_cases hticks : m'.ticks
  · rw [← ht] at hticks
    rcases Nat.lt_or_ge s.steps limits.maxSteps with hlt | hle
    · rw [Move.make_of_lt hticks hlt, Move.make_of_lt (ht ▸ hticks) (h.steps ▸ hlt)]
      exact h.stepped.apply hm
    · rw [Move.make_of_le hticks hle, Move.make_of_le (ht ▸ hticks) (h.steps ▸ hle)]
      exact ⟨rfl, h.stepped⟩
  · rw [Move.make, if_neg (ht ▸ hticks), Move.make, if_neg hticks]
    exact h.apply hm

end Session.InStep

theorem Session.InStep.of_negative {count : Int} {s₁ : Session} (h : s.InStep s')
    (hm : (Move.remark (.negativeCount count)).make limits s = .done s₁) :
    s.depth < limits.maxDepth ∧ Move.enter.make limits s' = .done s'.stepped.enter ∧
      s₁.InStep s'.stepped.enter.leave ∨
    limits.maxDepth ≤ s.depth ∧ Move.enter.make limits s' =
      .failed (.depthExceeded (s.depth + 1) limits.maxDepth) s'.stepped.enter := by
  obtain ⟨hlt, ⟨⟩⟩ := Move.apply_of_make hm rfl
  rw [Move.make_of_lt rfl (h.steps ▸ hlt), Move.apply, nest, h.depth]
  split
  case isTrue hd =>
    have hs := h.stepped
    exact .inl ⟨hd, rfl, hs.turtle, hs.bindings, hs.depth, hs.steps⟩
  case isFalse hd => exact .inr ⟨Nat.le_of_not_lt hd, rfl⟩

theorem Deed.PassesOver.congr {o o' : Outcome} (h : PassesOver limits ⟨m, s, o⟩)
    (hm : m.Zeroed m') (hs : s.InStep s') (ho : o.InStep o') : PassesOver limits ⟨m', s', o'⟩ := by
  obtain ⟨⟨count, hc⟩, hf, hd⟩ := h
  obtain rfl : m = .remark (.negativeCount count) := hc
  refine ⟨⟨count, ?_⟩, ?_, hs.depth ▸ hd⟩
  · cases hm
    rfl
  · cases o with
    | failed fault s => cases hf
    | done s =>
      cases o' with
      | failed => exact ho.elim
      | done => rfl

namespace Execution.InStep

variable {e e' : Execution} {deed deed' : Deed}

theorem cons_left (h : e.InStep limits e') (hd : ¬ deed.PassesOver limits) :
    InStep limits ⟨deed :: e.journal, e.outcome⟩ e' where
  outcome := h.outcome
  passesOver := by
    rintro first (_ | ⟨_, hmem⟩) hp
    · exact absurd hp hd
    · exact h.passesOver first hmem hp

theorem cons_right (h : e.InStep limits e') (deed' : Deed) :
    InStep limits e ⟨deed' :: e'.journal, e'.outcome⟩ where
  outcome := h.outcome
  passesOver := by
    intro first hmem hp
    obtain ⟨first', hmem', hp'⟩ := h.passesOver first hmem hp
    exact ⟨first', List.mem_cons_of_mem _ hmem', hp'⟩

theorem cons (h : e.InStep limits e') (hd : deed.PassesOver limits →
      deed'.PassesOver limits ∧ deed'.before.steps = deed.before.steps) :
    InStep limits ⟨deed :: e.journal, e.outcome⟩ ⟨deed' :: e'.journal, e'.outcome⟩ where
  outcome := h.outcome
  passesOver := by
    rintro first (_ | ⟨_, hmem⟩) hp
    · exact ⟨deed', List.mem_cons_self, hd hp⟩
    · exact (h.cons_right deed').passesOver first hmem hp

theorem of_failed {fault : Fault} {s₁ s₁' : Session} {t t' : Task} {rest rest' : List Task}
    (hm : (t.move s.bindings).make limits s = .failed fault s₁)
    (hm' : (t'.move s'.bindings).make limits s' = .failed fault s₁')
    (hr : List.Forall₂ Task.Zeroed rest rest') (hs : s₁.InStep s₁') :
    (execute limits (t :: rest) s).InStep limits (execute limits (t' :: rest') s') := by
  rw [execute_of_failed hm, execute_of_failed hm']
  refine ⟨⟨rfl, hs.unwind hr⟩, ?_⟩
  rintro deed (_ | ⟨_, hmem⟩) hp
  · cases hp.2.1
  · cases hmem

end Execution.InStep

/-- Agendas that are alike up to such counts are worked off alike, or the second one ends where it
is refused what the first one passes over. -/
theorem execute_zeroed (limits : Limits) {agenda agenda' : List Task} {s s' : Session}
    (ha : List.Forall₂ Task.Zeroed agenda agenda') (hs : s.InStep s') :
    (execute limits agenda s).InStep limits (execute limits agenda' s') ∨
    ∃ deed ∈ (execute limits agenda s).journal, deed.PassesOver limits ∧
      (execute limits agenda' s').outcome.RefusedAt limits deed := by
  induction agenda, s using execute_induction limits generalizing agenda' s' with
  | nil s =>
    cases ha
    rw [execute_nil, execute_nil]
    exact .inl ⟨hs, fun _ hd => absurd hd List.not_mem_nil⟩
  | @done t rest s s₁ hm ih =>
    cases ha with
    | @cons _ t' _ rest' ht hr =>
    rw [execute_of_done hm]
    rcases ht.move_cases hs.bindings with ⟨hmove, hf⟩ | ⟨⟨count, hmove⟩, hf, hmove', hf'⟩
    · have hmake := hs.make limits hmove
      rw [hm] at hmake
      cases hm' : (t'.move s'.bindings).make limits s' with
      | failed =>
        rw [hm'] at hmake
        exact hmake.elim
      | done s₁' =>
        rw [hm'] at hmake
        rw [execute_of_done hm']
        rcases ih (List.rel_append hf hr) hmake with h | ⟨deed, hd, h⟩
        · exact .inl (h.cons fun hp => ⟨hp.congr hmove hs hmake, hs.steps.symm⟩)
        · exact .inr ⟨deed, List.mem_cons_of_mem _ hd, h⟩
    · rw [hf, List.nil_append] at ih ⊢
      rw [hmove] at hm ⊢
      rcases hs.of_negative hm with ⟨hlt, hm', hs₁⟩ | ⟨hd, hm'⟩
      · rw [← hmove'] at hm'
        rw [execute_of_done hm', hf', List.singleton_append, execute_of_done (Move.make_leave ..)]
        rcases ih hr hs₁ with h | ⟨deed, hd, h⟩
        · exact .inl (((h.cons_left fun hp => Nat.not_lt.2 hp.2.2 hlt).cons_right _).cons_right _)
        · exact .inr ⟨deed, List.mem_cons_of_mem _ hd, h⟩
      · rw [← hmove'] at hm'
        rw [execute_of_failed hm']
        exact .inr ⟨_, List.mem_cons_self, ⟨⟨count, rfl⟩, rfl, hd⟩, _, rfl, hs.turtle.symm,
          congrArg (· + 1) hs.steps.symm⟩
  | @failed t rest s fault s₁ hm =>
    cases ha with
    | @cons _ t' _ rest' ht hr =>
    left
    rcases ht.move_cases hs.bindings with ⟨hmove, -⟩ | ⟨⟨count, hmove⟩, -, hmove', -⟩
    · have hmake := hs.make limits hmove
      rw [hm] at hmake
      cases hm' : (t'.move s'.bindings).make limits s' with
      | done =>
        rw [hm'] at hmake
        exact hmake.elim
      | failed fault' s₁' =>
        rw [hm'] at hmake
        obtain ⟨rfl, hs₁⟩ := hmake
        exact .of_failed hm hm' hr hs₁
    · have hf := Move.fails_of_make hm
      rw [hmove] at hf
      cases hf with
      | steps _ hle =>
        refine .of_failed hm ?_ hr hs.stepped
        rw [hmove']
        exact Move.make_of_le rfl (hs.steps ▸ hle)

theorem Outcome.InStep.strokes_eq {o o' : Outcome} (h : o.InStep o') : o'.strokes = o.strokes := by
  cases o with
  | done s =>
    cases o' with
    | done s' => exact congrArg (fun t => Except.ok t.strokes) h.turtle.symm
    | failed => exact h.elim
  | failed fault s =>
    cases o' with
    | done => exact h.elim
    | failed fault' s' => exact congrArg Except.error h.1.symm

theorem depth_before_execute (limits : Limits) (agenda : List Task) :
    ∀ deed ∈ (execute limits agenda {}).journal, deed.before.depth ≤ limits.maxDepth ∧
      deed.before.depth ≤ deed.outcome.session.deepest := by
  refine forall_deeds_execute (P := fun s => s.Within limits) (fun hs hm => ?_)
    (fun {_ s _ s'} hs hm => ?_) agenda {} (Session.within_fresh limits)
  · have hd := (Move.changes_of_make hm).deepest_le
    exact ⟨hs.of_make hm, Nat.le_trans hs.depth hs.deepest, Nat.le_trans hs.depth hd⟩
  · have hd : s.deepest ≤ s'.deepest := by
      cases Move.fails_of_make hm with
      | steps | number => exact Nat.le_refl _
      | depth => exact Nat.le_max_left _ _
    exact ⟨Nat.le_trans hs.depth hs.deepest, Nat.le_trans hs.depth hd⟩

namespace Session

/-- Some negative counts made zero: the runs end alike, unless one of these loops is passed over at
the limit on depth. Then the run with the count zero is refused the depth that is beyond the limit.
A run that finishes without going to the limit has no such loop. -/
theorem run_zeroed (h : p.Zeroed q) (limits : Limits) :
    let e := execute limits (p.map .command) {}
    let e' := execute limits (q.map .command) {}
    let o := Session.run limits p {}
    let o' := Session.run limits q {}
    e.outcome = o ∧ e'.outcome = o' ∧
    (e.InStep limits e' ∧ o'.strokes = o.strokes ∨
      ∃ deed ∈ e.journal, deed.PassesOver limits ∧ deed.before.depth = limits.maxDepth ∧
        o'.RefusedAt limits deed ∧
        o'.strokes = .error (.depthExceeded (limits.maxDepth + 1) limits.maxDepth)) ∧
    (∀ s, o = .done s → s.deepest < limits.maxDepth → o'.strokes = o.strokes) ∧
    (limits.maxDepth ≤ maxFollowedDepth →
      (p.compile limits).strokes = o.strokes ∧ (q.compile limits).strokes = o'.strokes) := by
  intro e e' o o'
  have ho : e.outcome = o := execute_outcome limits p {}
  have ho' : e'.outcome = o' := execute_outcome limits q {}
  have hfresh : Session.InStep {} {} := ⟨rfl, .nil, rfl, rfl⟩
  have hbefore := depth_before_execute limits (p.map .command)
  have hcases : e.InStep limits e' ∧ o'.strokes = o.strokes ∨
      ∃ deed ∈ e.journal, deed.PassesOver limits ∧ deed.before.depth = limits.maxDepth ∧
        o'.RefusedAt limits deed ∧
        o'.strokes = .error (.depthExceeded (limits.maxDepth + 1) limits.maxDepth) := by
    rcases execute_zeroed limits (Task.Zeroed.commands h) hfresh with hs | ⟨deed, hd, hp, hr⟩
    · exact .inl ⟨hs, ho' ▸ ho ▸ hs.outcome.strokes_eq⟩
    · have hdepth := Nat.le_antisymm (hbefore deed hd).1 hp.2.2
      rw [show (execute limits (q.map .command) {}).outcome = o' from ho'] at hr
      obtain ⟨s, hf, -, -⟩ := id hr
      exact .inr ⟨deed, hd, hp, hdepth, hr, by rw [hf, hdepth]; rfl⟩
  refine ⟨ho, ho', hcases, fun s hs hlt => ?_,
    fun hd => ⟨p.compile_strokes_of_le hd, q.compile_strokes_of_le hd⟩⟩
  rcases hcases with ⟨-, hstrokes⟩ | ⟨deed, hd, hp, -⟩
  · exact hstrokes
  · have hmem : deed.outcome.session ∈ e.history := List.mem_map_of_mem hd
    have hle := (history_of_done limits _ {} (ho.trans hs)).2 _ (List.mem_cons_of_mem _ hmem)
    have hdeep := (hbefore deed hd).2
    have hlimit := hp.2.2
    omega

theorem run_zeroed_played :
    let p (count : Int) : Program :=
      [.define "m" [.loop count [.act .center]], .act .penDown, .loop 2 [.play "m"]]
    (p (-2)).Zeroed (p 0) ∧
      (Session.run ⟨3, 20⟩ (p 0) {}).strokes = (Session.run ⟨3, 20⟩ (p (-2)) {}).strokes ∧
      ∃ deed, deed.before.depth = 2 ∧ (Session.run ⟨2, 20⟩ (p 0) {}).RefusedAt ⟨2, 20⟩ deed := by
  intro p
  have h : (p (-2)).Zeroed (p 0) :=
    .cons (.define "m" (.cons (.negative (by decide) (.cons (.act _) .nil)) .nil))
      (.cons (.act _) (.cons (.loop 2 (.cons (.play "m") .nil)) .nil))
  obtain ⟨-, -, -, hroom, -⟩ := run_zeroed h ⟨3, 20⟩
  obtain ⟨-, -, hcases, -⟩ := run_zeroed h ⟨2, 20⟩
  refine ⟨h, hroom _ rfl (by decide), ?_⟩
  rcases hcases with ⟨-, hs⟩ | ⟨deed, -, -, hd, hr, -⟩
  · cases hs
  · exact ⟨deed, hd, hr⟩

/-- A loop with a negative count compiles at the limit on depth where one that counts to zero is
refused. -/
theorem negative_count_not_refused :
    let p (count : Int) : Program := [.loop 1 [.loop count []]]
    (p (-1)).Zeroed (p 0) ∧ ((p (-1)).compile ⟨1, 10⟩).strokes = .ok [] ∧
      ((p 0).compile ⟨1, 10⟩).strokes = .error (.depthExceeded 2 1) := by
  intro p
  exact ⟨.cons (.loop 1 (.cons (.negative (by decide) .nil) .nil)) .nil, rfl, rfl⟩

end Session

end TurtlePlot
