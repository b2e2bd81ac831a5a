import TurtlePlot.Proofs.Blocks
import TurtlePlot.Proofs.NegativeCounts
import TurtlePlot.Proofs.Nesting

/-!
Choices between two blocks. A draft writes one as two commands, of which one is a loop of one pass
through the block that was chosen and the other does nothing. Such a loop can be unwrapped and such
a command left out, at any depth: the program draws the same in fewer steps and nests less deep, so
it finishes wherever the longer one does.
-/

namespace TurtlePlot

/-- A command and what it may be unwrapped to: loops of one pass to what their bodies are unwrapped
to, and the action that does nothing to no command. -/
inductive Command.Unwraps : Command → Program → Prop
  | act (action : Action) : Unwraps (.act action) [.act action]
  | idle : Unwraps (.act .pass) []
  | loop (count : Int) {body : Program} {parts : List Program}
      (h : List.Forall₂ Unwraps body parts) : Unwraps (.loop count body) [.loop count parts.flatten]
  | once {body : Program} {parts : List Program} (h : List.Forall₂ Unwraps body parts) :
      Unwraps (.loop 1 body) parts.flatten
  | define (name : String) {body : Program} {parts : List Program}
      (h : List.Forall₂ Unwraps body parts) :
      Unwraps (.define name body) [.define name parts.flatten]
  | play (name : String) : Unwraps (.play name) [.play name]

def Program.Unwraps (p q : Program) : Prop :=
  ∃ parts, List.Forall₂ Command.Unwraps p parts ∧ parts.flatten = q

/-- A task of a run and those that an unwrapped run has in its place. Where a loop was unwrapped,
its body is passed through and left by no task. -/
inductive Task.Unwraps : Task → List Task → Prop
  | command {c : Command} {q : Program} (h : c.Unwraps q) : Unwraps (.command c) (q.map .command)
  | pass {p q : Program} (h : p.Unwraps q) : Unwraps (.pass p) [.pass q]
  | leave : Unwraps .leave [.leave]
  | opened {p q : Program} (h : p.Unwraps q) : Unwraps (.pass p) (q.map .command)
  | left : Unwraps .leave []

/-- Moves that change sessions in the same way, up to unwrapped bodies that are bound. -/
inductive Move.Unwraps : Move → Move → Prop
  | same {m : Move} (h : m.binds = false) : Unwraps m m
  | define (name : String) {p q : Program} (h : p.Unwraps q) :
      Unwraps (.define name p) (.define name q)

/-- Moves that only count steps and levels. -/
inductive Move.Idle : Move → Prop
  | act : Idle (.act .pass)
  | enter : Idle .enter
  | pass : Idle .pass
  | leave : Idle .leave

/-- Sessions at the same place of a run and of an unwrapped one. -/
structure Session.Unwraps (s s' : Session) : Prop where
  turtle : s'.turtle = s.turtle
  bindings : Association.Rel Program.Unwraps s.bindings s'.bindings
  steps : s'.steps ≤ s.steps

variable {limits : Limits} {s s₁ s' : Session} {m m' : Move} {t : Task} {part : List Task}
  {p p' q q' : Program} {a b : Association Program}

mutual

theorem Command.unwraps_self : (c : Command) → c.Unwraps [c]
  | .act action => .act action
  | .loop count body => by
    obtain ⟨parts, h, hq⟩ := Program.unwraps_self body
    have hl := Command.Unwraps.loop count h
    rwa [hq] at hl
  | .define name body => by
    obtain ⟨parts, h, hq⟩ := Program.unwraps_self body
    have hd := Command.Unwraps.define name h
    rwa [hq] at hd
  | .play name => .play name

theorem Program.unwraps_self : (p : Program) → p.Unwraps p
  | [] => ⟨[], .nil, rfl⟩
  | c :: p => by
    obtain ⟨parts, h, hq⟩ := Program.unwraps_self p
    exact ⟨[c] :: parts, .cons c.unwraps_self h, congrArg (c :: ·) hq⟩

end

namespace Program.Unwraps

theorem append (h : p.Unwraps q) (h' : p'.Unwraps q') : (p ++ p').Unwraps (q ++ q') := by
  obtain ⟨parts, hp, rfl⟩ := h
  obtain ⟨parts', hp', rfl⟩ := h'
  exact ⟨parts ++ parts', List.rel_append hp hp', List.flatten_append⟩

theorem cons {c : Command} (hc : c.Unwraps q) (h : p.Unwraps q') :
    Program.Unwraps (c :: p) (q ++ q') := by
  obtain ⟨parts, hp, rfl⟩ := h
  exact ⟨q :: parts, .cons hc hp, rfl⟩

theorem loop (count : Int) (h : p.Unwraps q) : (Command.loop count p).Unwraps [.loop count q] := by
  obtain ⟨parts, hp, rfl⟩ := h
  exact .loop count hp

theorem once (h : p.Unwraps q) : (Command.loop 1 p).Unwraps q := by
  obtain ⟨parts, hp, rfl⟩ := h
  exact .once hp

theorem define (name : String) (h : p.Unwraps q) :
    (Command.define name p).Unwraps [.define name q] := by
  obtain ⟨parts, hp, rfl⟩ := h
  exact .define name hp

end Program.Unwraps

namespace Move

theorem Idle.scene_eq (hm : m.Idle) (h : Changes s m s') :
    s'.turtle = s.turtle ∧ s'.bindings = s.bindings := by
  cases hm with
  | act =>
    cases h with
    | act ha =>
      cases ha
      exact ⟨rfl, rfl⟩
  | enter | pass | leave =>
    cases h
    exact ⟨rfl, rfl⟩

theorem Changes.make_eq (h : Changes s m s') (hs : m.ticks → s.steps < limits.maxSteps)
    (hd : m = .enter → s.depth < limits.maxDepth) : m.make limits s = .done s' := by
  cases hm : m.make limits s with
  | done s₁ => rw [(changes_of_make hm).unique h]
  | failed fault s₁ =>
    cases fails_of_make hm with
    | steps ht hle => exact absurd (hs ht) (Nat.not_lt.2 hle)
    | depth _ hle => exact absurd (hd rfl) (Nat.not_lt.2 hle)
    | number _ ha =>
      cases h with
      | act ha' => cases ha.symm.trans ha'

theorem Unwraps.exists_changes (hm : m.Unwraps m') (hs : s.Unwraps s') (h : Changes s m s₁) :
    ∃ s₁', Changes s' m' s₁' ∧ s₁.Unwraps s₁' := by
  cases hm with
  | define name hp =>
    cases h
    exact ⟨_, .define name _, hs.turtle, hs.bindings.put name hp, Nat.succ_le_succ hs.steps⟩
  | same hb =>
    cases h with
    | define name body => cases hb
    | act ha =>
      rw [← hs.turtle] at ha
      exact ⟨_, .act ha, rfl, hs.bindings, Nat.succ_le_succ hs.steps⟩
    | remark event => exact ⟨_, .remark event, hs.turtle, hs.bindings, Nat.succ_le_succ hs.steps⟩
    | enter => exact ⟨_, .enter, hs.turtle, hs.bindings, Nat.succ_le_succ hs.steps⟩
    | pass => exact ⟨_, .pass, hs.turtle, hs.bindings, Nat.succ_le_succ hs.steps⟩
    | leave => exact ⟨_, .leave, hs.turtle, hs.bindings, hs.steps⟩

theorem Unwraps.exists_make (hm : m.Unwraps m') (hs : s.Unwraps s') (hd : s'.depth ≤ s.depth)
    (h : m.make limits s = .done s₁) : ∃ s₁', m'.make limits s' = .done s₁' ∧ s₁.Unwraps s₁' := by
  obtain ⟨s₁', hc, hs₁⟩ := hm.exists_changes hs (changes_of_make h)
  refine ⟨s₁', hc.make_eq (fun ht => ?_) (fun he => ?_), hs₁⟩
  · have hticks : m.ticks := by
      cases hm with
      | same => exact ht
      | define => rfl
    exact Nat.lt_of_le_of_lt hs.steps (apply_of_make h hticks).1
  · subst he
    cases hm
    exact Nat.lt_of_le_of_lt hd (lt_maxDepth_of_make h)

end Move

namespace Task

theorem unwraps_commands (h : p.Unwraps q) :
    ∃ parts, List.Forall₂ Unwraps (p.map .command) parts ∧ parts.flatten = q.map .command := by
  obtain ⟨parts, hp, rfl⟩ := h
  refine ⟨parts.map (List.map .command), ?_, List.map_flatten.symm⟩
  rw [List.forall₂_map_left_iff, List.forall₂_map_right_iff]
  exact hp.imp fun _ _ => .command

theorem unwraps_passes (h : p.Unwraps q) (count : Nat) :
    List.Forall₂ Unwraps (List.replicate count (Task.pass p) ++ [Task.leave])
      (List.replicate count [Task.pass q] ++ [[Task.leave]]) := by
  induction count with
  | zero => exact .cons .leave .nil
  | succ count ih => exact .cons (.pass h) ih

theorem unwraps_loop (h : p.Unwraps q) (count : Int) (a b : Association Program) :
    ((command (.loop count p)).move a).Unwraps ((command (.loop count q)).move b) ∧
      ∃ parts, List.Forall₂ Unwraps ((command (.loop count p)).followers a) parts ∧
        parts.flatten = (command (.loop count q)).followers b := by
  simp only [move, followers]
  split
  · exact ⟨.same rfl, [], .nil, rfl⟩
  · refine ⟨.same rfl, _, unwraps_passes h count.toNat, ?_⟩
    rw [List.flatten_append, List.flatten_replicate_singleton]
    rfl

theorem unwraps_play (hb : Association.Rel Program.Unwraps a b) (name : String) :
    ((command (.play name)).move a).Unwraps ((command (.play name)).move b) ∧
      ∃ parts, List.Forall₂ Unwraps ((command (.play name)).followers a) parts ∧
        parts.flatten = (command (.play name)).followers b := by
  have hl := hb.lookup name
  simp only [move, followers]
  generalize a.lookup name = body at hl
  generalize b.lookup name = body' at hl
  cases hl with
  | none => exact ⟨.same rfl, [], .nil, rfl⟩
  | some h => exact ⟨.same rfl, [[.pass _], [.leave]], .cons (.pass h) (.cons .leave .nil), rfl⟩

/-- Of the tasks in its place, one makes the move of a task and brings up what stands for what the
task brings up; or they stand for that already, and the move is idle. -/
theorem Unwraps.exists_followers (h : t.Unwraps part)
    (hb : Association.Rel Program.Unwraps a b) :
    ∃ parts, List.Forall₂ Unwraps (t.followers a) parts ∧
      ((t.move a).Idle ∧ parts.flatten = part ∨
        ∃ t', part = [t'] ∧ (t.move a).Unwraps (t'.move b) ∧ parts.flatten = t'.followers b) := by
  cases h with
  | pass h =>
    obtain ⟨parts, hp, hf⟩ := unwraps_commands h
    exact ⟨parts, hp, .inr ⟨_, rfl, .same rfl, hf⟩⟩
  | opened h =>
    obtain ⟨parts, hp, hf⟩ := unwraps_commands h
    exact ⟨parts, hp, .inl ⟨.pass, hf⟩⟩
  | leave => exact ⟨[], .nil, .inr ⟨_, rfl, .same rfl, rfl⟩⟩
  | left => exact ⟨[], .nil, .inl ⟨.leave, rfl⟩⟩
  | command h =>
    cases h with
    | act action => exact ⟨[], .nil, .inr ⟨_, rfl, .same rfl, rfl⟩⟩
    | idle => exact ⟨[], .nil, .inl ⟨.act, rfl⟩⟩
    | loop count h =>
      obtain ⟨hm, parts, hp, hf⟩ := unwraps_loop ⟨_, h, rfl⟩ count a b
      exact ⟨parts, hp, .inr ⟨_, rfl, hm, hf⟩⟩
    | once h =>
      have hp : List.Forall₂ Unwraps [.pass _, .leave] _ :=
        .cons (.opened ⟨_, h, rfl⟩) (.cons .left .nil)
      exact ⟨_, hp, .inl ⟨.enter, by simp⟩⟩
    | define name h => exact ⟨[], .nil, .inr ⟨_, rfl, .define name ⟨_, h, rfl⟩, rfl⟩⟩
    | play name =>
      obtain ⟨hm, parts, hp, hf⟩ := unwraps_play hb name
      exact ⟨parts, hp, .inr ⟨_, rfl, hm, hf⟩⟩

theorem count_leave_le {agenda : List Task} {parts : List (List Task)}
    (h : List.Forall₂ Unwraps agenda parts) :
    parts.flatten.count .leave ≤ agenda.count .leave := by
  induction h with
  | nil => exact Nat.le_refl _
  | @cons t part agenda parts ht _ ih =>
    have hpart : part.count .leave ≤ [t].count .leave := by
      cases ht with
      | command | opened => simp [count_leave_commands]
      | pass | leave | left => simp
    rw [List.flatten_cons, List.count_append, ← List.singleton_append, List.count_append]
    exact Nat.add_le_add hpart ih

end Task

/-- What finishes when it is not unwrapped finishes when it is, and draws the same. -/
theorem execute_unwraps (limits : Limits) {start : Nat} (agenda : List Task) (s : Session)
    (h : (execute limits agenda s).outcome = .done s₁) {parts : List (List Task)}
    (ha : List.Forall₂ Task.Unwraps agenda parts) (hs : s.Unwraps s')
    (hn : s.Nested limits start agenda) (hn' : s'.Nested limits start parts.flatten) :
    ∃ s₁', (execute limits parts.flatten s').outcome = .done s₁' ∧ s₁.Unwraps s₁' := by
  induction agenda, s using execute_induction limits generalizing parts s' with
  | nil s =>
    cases ha
    rw [execute_nil] at h
    cases h
    exact ⟨s', by rw [List.flatten_nil, execute_nil], hs⟩
  | @done t rest s s₂ hm ih =>
    have hcount := Task.count_leave_le ha
    cases ha with
    | @cons _ part _ parts ht hr =>
    rw [execute_of_done hm] at h
    obtain ⟨parts', hf, ⟨hi, rfl⟩ | ⟨t', rfl, hm', hf'⟩⟩ := ht.exists_followers hs.bindings
    · -- The unwrapped run stays where it is.
      have hc := Move.changes_of_make hm
      obtain ⟨hturtle, hb⟩ := hi.scene_eq hc
      have hs₂ : s₂.Unwraps s' :=
        ⟨hs.turtle.trans hturtle.symm, hb ▸ hs.bindings,
          Nat.le_trans hs.steps (Nat.le.intro hc.steps_eq.symm)⟩
      rw [List.flatten_cons, ← List.flatten_append] at hn' ⊢
      exact ih h (List.rel_append hf hr) hs₂ (hn.of_make hm) hn'
    · -- Both runs make a move. Bodies are left less often, so fewer are under way.
      have hd : s'.depth ≤ s.depth := by
        rw [hn.depth, hn'.depth]
        exact Nat.add_le_add_left hcount start
      obtain ⟨s₂', hmake, hs₂⟩ := hm'.exists_make hs hd hm
      rw [List.flatten_cons, List.singleton_append] at hn' ⊢
      have hn₂ := hn'.of_make hmake
      rw [← hf', ← List.flatten_append] at hn₂
      rw [execute_of_done hmake, ← hf', ← List.flatten_append]
      exact ih h (List.rel_append hf hr) hs₂ (hn.of_make hm) hn₂
  | failed hm =>
    rw [execute_of_failed hm] at h
    cases h

theorem Session.run_unwraps (h : p.Unwraps q) (hr : Session.run limits p {} = .done s) :
    ∃ s', Session.run limits q {} = .done s' ∧ s'.turtle = s.turtle := by
  obtain ⟨parts, hp, hf⟩ := Task.unwraps_commands h
  have hn (p : Program) : Nested limits 0 (p.map .command) {} :=
    ⟨by rw [Task.count_leave_commands], Nat.zero_le _⟩
  have hs : Unwraps {} {} := ⟨rfl, .nil, Nat.le_refl _⟩
  rw [← execute_outcome] at hr
  obtain ⟨s', ho, hs⟩ := execute_unwraps limits _ {} hr hp hs (hn p) (hf ▸ hn q)
  rw [hf, execute_outcome] at ho
  exact ⟨s', ho, hs.turtle⟩

/-- A program around a place in it, which may be in a body of a loop or of a name, at any depth. -/
inductive Context where
  | here (before after : Program)
  | loop (before : Program) (count : Int) (inside : Context) (after : Program)
  | define (before : Program) (name : String) (inside : Context) (after : Program)

/-- The program with some commands at that place. -/
def Context.fill (p : Program) : Context → Program
  | .here before after => before ++ p ++ after
  | .loop before count inside after => before ++ .loop count (inside.fill p) :: after
  | .define before name inside after => before ++ .define name (inside.fill p) :: after

theorem Context.fill_unwraps (h : p.Unwraps q) (context : Context) :
    (context.fill p).Unwraps (context.fill q) := by
  induction context with
  | here before after => exact (before.unwraps_self.append h).append after.unwraps_self
  | loop before count inside after ih =>
    exact before.unwraps_self.append (.cons (ih.loop count) after.unwraps_self)
  | define before name inside after ih =>
    exact before.unwraps_self.append (.cons (ih.define name) after.unwraps_self)

/-- What a draft writes for one block `when` a condition holds and another block `otherwise`. -/
def Program.whenOtherwise (condition : Bool) (first second : Program) : Program :=
  [(Opening.when condition).command first, (Opening.otherwise condition).command second]

namespace Draft

theorem exit_add_enter (opening : Opening) (body : Program) (d : Draft) :
    ((d.enter opening).add body).exit =
      { d with block := d.block.emit (opening.command body) opening.condition? } := by
  have hb : (body.foldl (fun (b : Block) command => b.emit command none) {}).commands = body := by
    refine (congrArg Block.commands (Block.foldl_emit_ofPieces [] body)).trans ?_
    simp [Block.ofPieces, Function.comp_def, Piece.command]
  rw [enter, add, exit, hb]

theorem write_whenOtherwise (condition : Bool) (first second : Program) (d : Draft) :
    d.write [.when condition, .add first, .exit, .otherwise, .add second, .exit] =
      ⟨⟨d.block.commands ++ Program.whenOtherwise condition first second, none⟩, d.around⟩ := by
  let e : Draft :=
    { d with block := d.block.emit ((Opening.when condition).command first) (some condition) }
  calc d.write ([.when condition, .add first, .exit] ++ [.otherwise, .add second, .exit])
    _ = e.write [.otherwise, .add second, .exit] := by
      rw [write_append]
      exact congrArg (write · _) (d.exit_add_enter (.when condition) first)
    _ = { e with block := e.block.emit ((Opening.otherwise condition).command second) none } :=
      e.exit_add_enter (.otherwise condition) second
    _ = _ := by simp [e, Block.emit, Program.whenOtherwise]

end Draft

namespace Program.Unwraps

theorem either (condition : Bool) (first second : Program) :
    (whenOtherwise condition first second).Unwraps [.either condition first second] := by
  cases condition with
  | true => exact .cons (Command.unwraps_self _) (.cons .idle (unwraps_self []))
  | false => exact .cons .idle (unwraps_self _)

theorem chosen (condition : Bool) (first second : Program) :
    (whenOtherwise condition first second).Unwraps (if condition then first else second) := by
  cases condition with
  | true =>
    have h : Program.Unwraps [.loop 1 first, .act .pass] (first ++ ([] ++ [])) :=
      .cons first.unwraps_self.once (.cons .idle (unwraps_self []))
    rwa [List.append_nil, List.append_nil] at h
  | false =>
    have h : Program.Unwraps [.act .pass, .loop 1 second] ([] ++ (second ++ [])) :=
      .cons .idle (.cons second.unwraps_self.once (unwraps_self []))
    rwa [List.append_nil] at h

end Program.Unwraps

/-- A choice draws the same whether a draft writes it with `when` and `otherwise`, it is written as
one loop, or the chosen block stands in its place, wherever this is in a program. If the first
compiles, so do the others, to the same strokes, and all runs end with the same turtle. -/
theorem Program.compile_choice (context : Context) (condition : Bool) (first second : Program)
    {limits : Limits} {strokes : List Stroke}
    (h : ((context.fill (whenOtherwise condition first second)).compile limits).strokes =
      .ok strokes) :
    (∀ d : Draft, d.write [.when condition, .add first, .exit, .otherwise, .add second, .exit] =
      ⟨⟨d.block.commands ++ whenOtherwise condition first second, none⟩, d.around⟩) ∧
    ∃ s, Session.run limits.followed (context.fill (whenOtherwise condition first second)) {} =
        .done s ∧
      ∀ choice ∈ [[.either condition first second], if condition then first else second],
        ((context.fill choice).compile limits).strokes = .ok strokes ∧
        ∃ s', Session.run limits.followed (context.fill choice) {} = .done s' ∧
          s'.turtle = s.turtle := by
  obtain ⟨s, hr, rfl⟩ := exists_run h
  refine ⟨Draft.write_whenOtherwise condition first second, s, hr, fun choice hc => ?_⟩
  have hu : (whenOtherwise condition first second).Unwraps choice := by
    rcases List.mem_pair.1 hc with rfl | rfl
    · exact .either condition first second
    · exact .chosen condition first second
  obtain ⟨s', hr', ht⟩ := Session.run_unwraps (context.fill_unwraps hu) hr
  refine ⟨?_, s', hr', ht⟩
  rw [compile_strokes_of_run hr', ht]

theorem Program.compile_choice_played :
    let first : Program := [.act .center]
    let second : Program := [.act (.setPosition 3 4), .act .penUp]
    let body (choice : Program) : Program := [.loop 2 (.act .penDown :: choice)]
    let program (choice : Program) : Program := [.define "m" (body choice), .play "m"]
    let strokes : List Stroke := [[.origin, ⟨3, 4⟩], [⟨3, 4⟩]]
    ((program (whenOtherwise false first second)).compile ⟨3, 18⟩).strokes = .ok strokes ∧
      ((program [.either false first second]).compile ⟨3, 18⟩).strokes = .ok strokes ∧
      ((program second).compile ⟨3, 18⟩).strokes = .ok strokes := by
  intro first second body program strokes
  let context : Context :=
    .define [] "m" (.loop [] 2 (.here [.act .penDown] []) []) [.play "m"]
  have h : ((context.fill (whenOtherwise false first second)).compile ⟨3, 18⟩).strokes =
      .ok strokes := by decide +kernel
  obtain ⟨-, s, -, hc⟩ := compile_choice context false first second h
  exact ⟨h, (hc _ List.mem_cons_self).1, (hc _ (List.mem_cons_of_mem _ List.mem_cons_self)).1⟩

end TurtlePlot
