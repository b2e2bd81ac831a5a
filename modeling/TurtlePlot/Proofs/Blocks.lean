import Mathlib.Data.List.Induction
import Mathlib.Data.List.Infix
import TurtlePlot.Draft

/-!
What a draft holds after any script of steps. The reference is a stack of blocks, each of which
lists what was written in it and which blocks were closed in it; what was given up leaves nothing.
The draft has the commands of these blocks, and `otherwise` finds a condition exactly when the last
piece of the innermost block is a `when` that was closed.
-/

namespace TurtlePlot

namespace Draft

/-- A step of a script. The innermost block is left by `exit`, or by `abandon` when writing it
failed. -/
inductive Step where
  | add (commands : Program)
  | loop (count : Int)
  | define (name : String)
  | when (condition : Bool)
  | otherwise
  | exit
  | abandon
  | build

def take : Step → Draft → Except DraftError Draft
  | .add commands, d => .ok (d.add commands)
  | .loop count, d => .ok (d.enter (.loop count))
  | .define name, d => .ok (d.enter (.define name))
  | .when condition, d => .ok (d.enter (.when condition))
  | .otherwise, d => d.enterOtherwise
  | .exit, d => .ok d.exit
  | .abandon, d => .ok d.abandon
  | .build, d => d.build.map fun _ => d

/-- A step that is refused changes nothing. -/
def step (d : Draft) (s : Step) : Draft :=
  match d.take s with
  | .ok after => after
  | .error _ => d

/-- The draft after a script. -/
def write (d : Draft) (script : List Step) : Draft :=
  script.foldl step d

end Draft

/-- What a block consists of: commands written as such, and blocks closed in it. -/
inductive Piece where
  | written (command : Command)
  | closed (opening : Opening) (body : Program)

/-- A closed block is one command: what it was opened as, or, for a choice, one pass through what was
chosen and nothing else. -/
def Piece.command : Piece → Command
  | .written command => command
  | .closed (.loop count) body => .loop count body
  | .closed (.define name) body => .define name body
  | .closed (.when condition) body => if condition then .loop 1 body else .act .pass
  | .closed (.otherwise condition) body => if condition then .act .pass else .loop 1 body

def Piece.condition? : Piece → Option Bool
  | .closed (.when condition) _ => some condition
  | _ => none

/-- Which steps open a block after some pieces. -/
inductive Opens (pieces : List Piece) : Draft.Step → Opening → Prop where
  | loop (count : Int) : Opens pieces (.loop count) (.loop count)
  | define (name : String) : Opens pieces (.define name) (.define name)
  | when (condition : Bool) : Opens pieces (.when condition) (.when condition)
  | otherwise {condition : Bool} {before : List Piece} {body : Program}
      (h : pieces = before ++ [.closed (.when condition) body]) :
      Opens pieces .otherwise (.otherwise condition)

/-- What a script that leaves all the blocks that it opens, and no other, makes of the pieces of a
block. -/
inductive Writes : List Piece → List Draft.Step → List Piece → Prop where
  | nil {pieces : List Piece} : Writes pieces [] pieces
  | add {commands : Program} {before after : List Piece} {script : List Draft.Step}
      (h : Writes (before ++ commands.map .written) script after) :
      Writes before (.add commands :: script) after
  | build {before after : List Piece} {script : List Draft.Step} (h : Writes before script after) :
      Writes before (.build :: script) after
  | refused {before after : List Piece} {script : List Draft.Step}
      (hr : ∀ first condition body, before ≠ first ++ [.closed (.when condition) body])
      (h : Writes before script after) :
      Writes before (.otherwise :: script) after
  | closed {before body after : List Piece} {s : Draft.Step} {opening : Opening}
      {inner script : List Draft.Step} (ho : Opens before s opening) (hi : Writes [] inner body)
      (h : Writes (before ++ [.closed opening (body.map Piece.command)]) script after) :
      Writes before (s :: inner ++ .exit :: script) after
  | dropped {before body after : List Piece} {s : Draft.Step} {opening : Opening}
      {inner script : List Draft.Step} (ho : Opens before s opening) (hi : Writes [] inner body)
      (h : Writes before script after) :
      Writes before (s :: inner ++ .abandon :: script) after

/-- The pieces of the innermost block after a script, and of the blocks around it, each with the way
the block inside it was opened. There is no leaving the outermost block. -/
inductive Reaches : List Draft.Step → List Piece → List (Opening × List Piece) → Prop where
  | start : Reaches [] [] []
  | writes {script more : List Draft.Step} {before after : List Piece}
      {around : List (Opening × List Piece)} (h : Reaches script before around)
      (hw : Writes before more after) : Reaches (script ++ more) after around
  | opens {script : List Draft.Step} {pieces : List Piece} {around : List (Opening × List Piece)}
      {s : Draft.Step} {opening : Opening} (h : Reaches script pieces around)
      (ho : Opens pieces s opening) : Reaches (script ++ [s]) [] ((opening, pieces) :: around)
  | stays {script : List Draft.Step} {pieces : List Piece} {s : Draft.Step}
      (h : Reaches script pieces []) (hs : s = .exit ∨ s = .abandon) :
      Reaches (script ++ [s]) pieces []

theorem Writes.append {before middle after : List Piece} {script more : List Draft.Step}
    (h : Writes before script middle) (hm : Writes middle more after) :
    Writes before (script ++ more) after := by
  induction h with
  | nil => exact hm
  | add _ ih => exact .add (ih hm)
  | build _ ih => exact .build (ih hm)
  | refused hr _ ih => exact .refused hr (ih hm)
  | closed ho hi _ _ ih =>
    rw [List.append_assoc]
    exact .closed ho hi (ih hm)
  | dropped ho hi _ _ ih =>
    rw [List.append_assoc]
    exact .dropped ho hi (ih hm)

theorem Reaches.exists_opening {script : List Draft.Step} {pieces outer : List Piece}
    {opening : Opening} {around : List (Opening × List Piece)}
    (h : Reaches script pieces ((opening, outer) :: around)) :
    ∃ first s inner, script = first ++ s :: inner ∧ Reaches first outer around ∧
      Opens outer s opening ∧ Writes [] inner pieces := by
  generalize hb : (opening, outer) :: around = blocks at h
  induction h with
  | start => cases hb
  | @writes script more before after blocks h hw ih =>
    obtain ⟨first, s, inner, rfl, hr, ho, hi⟩ := ih hb
    exact ⟨first, s, inner ++ more, by rw [List.append_assoc, List.cons_append], hr, ho,
      hi.append hw⟩
  | @opens script pieces around s opening h ho ih =>
    cases hb
    exact ⟨script, s, [], rfl, h, ho, .nil⟩
  | stays => cases hb

theorem Reaches.exists_leave {script : List Draft.Step} {pieces : List Piece}
    {around : List (Opening × List Piece)} (h : Reaches script pieces around) {s : Draft.Step}
    (hs : s = .exit ∨ s = .abandon) : ∃ after blocks, Reaches (script ++ [s]) after blocks := by
  cases around with
  | nil => exact ⟨pieces, [], .stays h hs⟩
  | cons outer around =>
    obtain ⟨opening, outer⟩ := outer
    obtain ⟨first, entry, inner, rfl, hr, ho, hi⟩ := h.exists_opening
    rw [List.append_assoc]
    obtain rfl | rfl := hs
    · exact ⟨_, around, .writes hr (.closed ho hi .nil)⟩
    · exact ⟨_, around, .writes hr (.dropped ho hi .nil)⟩

theorem exists_reaches (script : List Draft.Step) :
    ∃ pieces around, Reaches script pieces around := by
  induction script using List.reverseRecOn with
  | nil => exact ⟨[], [], .start⟩
  | append_singleton script s ih =>
    obtain ⟨pieces, around, h⟩ := ih
    cases s with
    | add commands => exact ⟨_, around, .writes h (.add .nil)⟩
    | build => exact ⟨pieces, around, .writes h (.build .nil)⟩
    | loop count => exact ⟨[], _, .opens h (.loop count)⟩
    | define name => exact ⟨[], _, .opens h (.define name)⟩
    | when condition => exact ⟨[], _, .opens h (.when condition)⟩
    | otherwise =>
      by_cases ho : ∃ first condition body, pieces = first ++ [.closed (.when condition) body]
      · obtain ⟨first, condition, body, ho⟩ := ho
        exact ⟨[], _, .opens h (.otherwise ho)⟩
      · exact ⟨pieces, around, .writes h
          (.refused (fun first condition body hp => ho ⟨first, condition, body, hp⟩) .nil)⟩
    | exit => exact h.exists_leave (.inl rfl)
    | abandon => exact h.exists_leave (.inr rfl)

/-- A block that consists of pieces. -/
def Block.ofPieces (pieces : List Piece) : Block where
  commands := pieces.map Piece.command
  lastCondition := pieces.getLast?.bind Piece.condition?

namespace Block

theorem emit_ofPieces (pieces : List Piece) (piece : Piece) :
    (ofPieces pieces).emit piece.command piece.condition? = ofPieces (pieces ++ [piece]) := by
  simp [emit, ofPieces]

theorem emit_closed (b : Block) (opening : Opening) (body : Program) :
    b.emit (opening.command body) opening.condition? =
      b.emit (Piece.closed opening body).command (Piece.closed opening body).condition? := by
  cases opening with
  | loop | define => rfl
  | when condition | otherwise condition => cases condition <;> rfl

theorem foldl_emit_ofPieces (pieces : List Piece) (commands : Program) :
    commands.foldl (fun b command => b.emit command none) (ofPieces pieces) =
      ofPieces (pieces ++ commands.map .written) := by
  induction commands generalizing pieces with
  | nil => simp
  | cons command commands ih =>
    have he : (ofPieces pieces).emit command none = ofPieces (pieces ++ [Piece.written command]) :=
      emit_ofPieces pieces (.written command)
    rw [List.foldl_cons, he, ih, List.append_assoc]
    rfl

end Block

namespace Draft

theorem write_append (d : Draft) (script more : List Step) :
    d.write (script ++ more) = (d.write script).write more :=
  List.foldl_append

theorem lastCondition_ofPieces {pieces : List Piece} {condition : Bool} :
    (Block.ofPieces pieces).lastCondition = some condition ↔
      ∃ before body, pieces = before ++ [Piece.closed (.when condition) body] := by
  rw [Block.ofPieces]
  rcases List.eq_nil_or_concat pieces with rfl | ⟨before, piece, rfl⟩
  · simp
  · rw [List.concat_eq_append, List.getLast?_concat, Option.bind_some]
    refine ⟨fun h => ?_, fun ⟨_, body, h⟩ => ?_⟩
    · cases piece with
      | written command => cases h
      | closed opening body =>
        cases opening with
        | when c =>
          obtain rfl := Option.some.inj h
          exact ⟨before, body, rfl⟩
        | loop | define | otherwise => cases h
    · obtain rfl := List.singleton_inj.1 (List.append_inj' h rfl).2
      rfl

theorem step_of_opens {pieces : List Piece} {s : Step} {opening : Opening}
    (h : Opens pieces s opening) (around : List (Opening × Block)) :
    step ⟨.ofPieces pieces, around⟩ s = ⟨{}, (opening, .ofPieces pieces) :: around⟩ := by
  cases h with
  | loop | define | when => rfl
  | @otherwise condition before body h =>
    have hl := lastCondition_ofPieces.2 ⟨before, body, h⟩
    simp [step, take, enterOtherwise, hl, enter]

theorem write_open {pieces : List Piece} {s : Step} {opening : Opening}
    (h : Opens pieces s opening) (around : List (Opening × Block)) (inner script : List Step) :
    write ⟨.ofPieces pieces, around⟩ (s :: inner ++ script) =
      write (write ⟨.ofPieces [], (opening, .ofPieces pieces) :: around⟩ inner) script := by
  rw [List.cons_append, write, List.foldl_cons, step_of_opens h]
  exact write_append _ inner script

theorem enterOtherwise_eq_error {pieces : List Piece} {around : List (Opening × Block)} :
    enterOtherwise ⟨.ofPieces pieces, around⟩ = .error .noCondition ↔
      ∀ first condition body, pieces ≠ first ++ [Piece.closed (.when condition) body] := by
  refine ⟨fun h first condition body hp => ?_, fun h => ?_⟩
  · rw [enterOtherwise, lastCondition_ofPieces.2 ⟨first, body, hp⟩] at h
    cases h
  · cases hl : (Block.ofPieces pieces).lastCondition with
    | none => rw [enterOtherwise, hl]
    | some condition =>
      obtain ⟨first, body, hp⟩ := lastCondition_ofPieces.1 hl
      exact absurd hp (h first condition body)

theorem step_otherwise_of_error {d : Draft} {e : DraftError} (h : d.enterOtherwise = .error e) :
    d.step .otherwise = d := by
  rw [step, take, h]

theorem write_of_writes {before after : List Piece} {script : List Step}
    (h : Writes before script after) (around : List (Opening × Block)) :
    write ⟨.ofPieces before, around⟩ script = ⟨.ofPieces after, around⟩ := by
  induction h generalizing around with
  | nil => rfl
  | @add commands before after script h ih =>
    have hs : step ⟨.ofPieces before, around⟩ (.add commands) =
        ⟨.ofPieces (before ++ commands.map .written), around⟩ :=
      congrArg (Draft.mk · around) (Block.foldl_emit_ofPieces before commands)
    rw [write, List.foldl_cons, hs]
    exact ih around
  | @build before after script h ih =>
    have hs : step ⟨.ofPieces before, around⟩ .build = ⟨.ofPieces before, around⟩ := by
      cases around <;> rfl
    rw [write, List.foldl_cons, hs]
    exact ih around
  | @refused before after script hr h ih =>
    rw [write, List.foldl_cons, step_otherwise_of_error (enterOtherwise_eq_error.2 hr)]
    exact ih around
  | @closed before body after s opening inner script ho hi h ihi ih =>
    have hx : step ⟨.ofPieces body, (opening, .ofPieces before) :: around⟩ .exit =
        ⟨.ofPieces (before ++ [.closed opening (body.map Piece.command)]), around⟩ :=
      congrArg (Draft.mk · around)
        ((Block.emit_closed _ opening _).trans (Block.emit_ofPieces before _))
    rw [write_open ho, ihi, write, List.foldl_cons, hx]
    exact ih around
  | @dropped before body after s opening inner script ho hi h ihi ih =>
    rw [write_open ho, ihi]
    exact ih around

theorem write_of_reaches {script : List Step} {pieces : List Piece}
    {around : List (Opening × List Piece)} (h : Reaches script pieces around) :
    write {} script = ⟨.ofPieces pieces, around.map (Prod.map id .ofPieces)⟩ := by
  induction h with
  | start => rfl
  | writes h hw ih => rw [write_append, ih, write_of_writes hw]
  | opens h ho ih =>
    rw [write_append, ih]
    exact step_of_opens ho _
  | stays h hs ih =>
    rw [write_append, ih]
    obtain rfl | rfl := hs <;> rfl

/-- A script never leaves the block that is innermost before it. -/
def Inside (d : Draft) (script : List Step) : Prop :=
  ∀ first, first <+: script → d.blockCount ≤ (d.write first).blockCount

instance (d : Draft) (script : List Step) : Decidable (d.Inside script) :=
  decidable_of_iff (∀ first ∈ script.inits, d.blockCount ≤ (d.write first).blockCount)
    (forall_congr' fun first => imp_congr_left (List.mem_inits first script))

/-- A step opens a block, leaves one, or does neither. -/
theorem around_step (d : Draft) (s : Step) :
    (d.step s).around = d.around ∨ (∃ outer, (d.step s).around = outer :: d.around) ∨
      ∃ outer, d.around = outer :: (d.step s).around := by
  obtain ⟨block, around⟩ := d
  cases s with
  | add => exact .inl rfl
  | loop | define | when => exact .inr (.inl ⟨_, rfl⟩)
  | otherwise =>
    cases hl : block.lastCondition with
    | none => simp [step, take, enterOtherwise, hl]
    | some condition => simp [step, take, enterOtherwise, hl, enter]
  | exit | abandon =>
    cases around with
    | nil => exact .inl rfl
    | cons outer around => exact .inr (.inr ⟨outer, rfl⟩)
  | build => cases around <;> exact .inl rfl

theorem exists_opened_append {d : Draft} {opened around : List (Opening × Block)}
    {script : List Step} (hd : d.around = opened ++ around)
    (h : ∀ first, first <+: script → around.length ≤ (d.write first).around.length) :
    ∃ opened, (d.write script).around = opened ++ around := by
  induction script generalizing d opened with
  | nil => exact ⟨opened, hd⟩
  | cons s script ih =>
    have hs : ∃ opened, (d.step s).around = opened ++ around := by
      obtain hs | ⟨outer, hs⟩ | ⟨outer, hs⟩ := around_step d s
      · exact ⟨opened, hs.trans hd⟩
      · exact ⟨outer :: opened, by rw [hs, hd, List.cons_append]⟩
      · rw [hd] at hs
        cases opened with
        | nil =>
          -- The step would leave the first of the blocks around.
          have hl : around.length ≤ (d.step s).around.length := h [s] ⟨script, rfl⟩
          rw [← List.nil_append around, hs, List.length_cons] at hl
          exact absurd hl (Nat.not_succ_le_self _)
        | cons inner opened => exact ⟨opened, (List.cons.inj hs).2.symm⟩
    obtain ⟨opened, hs⟩ := hs
    exact ih hs fun first hf => h (s :: first) (List.cons_prefix_cons.2 ⟨rfl, hf⟩)

theorem Inside.exists_around {d : Draft} {script : List Step} (h : d.Inside script) :
    ∃ opened, (d.write script).around = opened ++ d.around :=
  exists_opened_append (List.nil_append _).symm fun first hf => Nat.le_of_succ_le_succ (h first hf)

/-- A failure that passes through all open blocks up to one of them leaves it as it was when the block
inside it was opened. -/
theorem write_abandon (block outer : Block) (opening : Opening)
    (opened around : List (Opening × Block)) :
    write ⟨block, opened ++ (opening, outer) :: around⟩
      (List.replicate (opened.length + 1) .abandon) = ⟨outer, around⟩ := by
  induction opened generalizing block with
  | nil => rfl
  | cons inner opened ih => exact ih inner.2

section Leaving

variable {d : Draft} {opening : Opening} {inner : List Step}

/-- Leaving a block adds one command to the block around it. -/
theorem exit_of_inside (h : (d.enter opening).Inside inner)
    (hc : ((d.enter opening).write inner).blockCount = d.blockCount + 1) :
    let e := (d.enter opening).write inner
    let piece := Piece.closed opening e.block.commands
    e.exit = ⟨d.block.emit piece.command piece.condition?, d.around⟩ := by
  intro e piece
  obtain ⟨opened, ho⟩ := h.exists_around
  have ho : e.around = opened ++ (opening, d.block) :: d.around := ho
  have hn : opened.length = 0 := by
    have hc : e.around.length + 1 = d.around.length + 1 + 1 := hc
    rw [ho, List.length_append, List.length_cons] at hc
    omega
  rw [List.eq_nil_of_length_eq_zero hn, List.nil_append] at ho
  rw [exit, ho]
  exact congrArg (Draft.mk · d.around) (Block.emit_closed d.block opening _)

theorem write_abandon_of_inside (h : (d.enter opening).Inside inner) :
    let e := (d.enter opening).write inner
    e.write (List.replicate (e.blockCount - d.blockCount) .abandon) = d := by
  intro e
  obtain ⟨opened, ho⟩ := h.exists_around
  have he : e = ⟨e.block, opened ++ (opening, d.block) :: d.around⟩ :=
    congrArg (Draft.mk e.block) ho
  have hc : e.blockCount - d.blockCount = opened.length + 1 := by
    rw [he, blockCount, blockCount, List.length_append, List.length_cons]
    omega
  rw [hc, he]
  exact write_abandon _ _ _ _ _

end Leaving

/-- After every script the draft is the reference stack of blocks. `otherwise` is refused exactly
when the last piece of the innermost block is no `when` that was closed, and `build` exactly when a
block is open. Whatever is written inside a block, leaving it adds one command to the block around
it, and a failure that leaves it restores the draft from before it was opened. -/
theorem write_eq_reference (script : List Step) :
    (∃ pieces around, Reaches script pieces around) ∧
    ∀ pieces around, Reaches script pieces around →
      let d := write {} script
      d = ⟨.ofPieces pieces, around.map (Prod.map id .ofPieces)⟩ ∧
      (d.take .otherwise = .error .noCondition ∧ d.step .otherwise = d ↔
        ∀ first condition body, pieces ≠ first ++ [.closed (.when condition) body]) ∧
      (around = [] → d.build = .ok (pieces.map Piece.command)) ∧
      (around ≠ [] → d.build = .error .openBlock) ∧
      ∀ s opening, Opens pieces s opening → d.step s = d.enter opening ∧
        ∀ inner, (d.enter opening).Inside inner →
          let e := d.write (s :: inner)
          let piece := Piece.closed opening e.block.commands
          (e.blockCount = d.blockCount + 1 → d.write (s :: inner ++ [.exit]) =
            ⟨⟨d.block.commands ++ [piece.command], piece.condition?⟩, d.around⟩) ∧
          d.write (s :: inner ++ List.replicate (e.blockCount - d.blockCount) .abandon) = d := by
  refine ⟨exists_reaches script, fun pieces around h => ?_⟩
  intro d
  have hd : d = ⟨.ofPieces pieces, around.map (Prod.map id .ofPieces)⟩ := write_of_reaches h
  refine ⟨hd, ?_, ?_, ?_, ?_⟩
  · rw [hd]
    exact ⟨fun h => enterOtherwise_eq_error.1 h.1, fun h =>
      have he := enterOtherwise_eq_error.2 h
      ⟨he, step_otherwise_of_error he⟩⟩
  · rintro rfl
    rw [hd]
    rfl
  · intro hn
    rw [hd]
    cases around with
    | nil => exact absurd rfl hn
    | cons => rfl
  · intro s opening ho
    have hs : d.step s = d.enter opening := by
      rw [hd]
      exact step_of_opens ho _
    refine ⟨hs, fun inner hi => ?_⟩
    have he : d.write (s :: inner) = (d.enter opening).write inner := by
      rw [write, List.foldl_cons, hs, write]
    intro e piece
    refine ⟨fun hc => ?_, ?_⟩
    · rw [write_append]
      simp only [e, piece, he] at hc ⊢
      exact exit_of_inside hi hc
    · rw [write_append]
      simp only [e, he]
      exact write_abandon_of_inside hi

theorem write_eq_reference_abandoned :
    let forward (n : Int) : Program := [.act (.forward n)]
    let d := write {} [.loop 2, .when true, .add (forward 1), .exit]
    let inner : List Step := [.add (forward 2), .loop 3, .build, .otherwise]
    d = ⟨⟨[.loop 1 (forward 1)], some true⟩, [(.loop 2, {})]⟩ ∧ d.build = .error .openBlock ∧
      d.write (.otherwise :: inner ++ [.abandon, .abandon]) = d ∧
      d.write [.otherwise, .exit] =
        ⟨⟨[.loop 1 (forward 1), .act .pass], none⟩, [(.loop 2, {})]⟩ := by
  intro forward d inner
  have hw : Writes [] (.when true :: [.add (forward 1)] ++ [.exit])
      [.closed (.when true) (forward 1)] := .closed (.when true) (.add .nil) .nil
  have hr : Reaches [.loop 2, .when true, .add (forward 1), .exit]
      [.closed (.when true) (forward 1)] [(.loop 2, [])] :=
    .writes (.opens .start (.loop 2)) hw
  obtain ⟨hd, -, -, hb, hl⟩ := (write_eq_reference _).2 _ _ hr
  obtain ⟨-, hi⟩ := hl .otherwise (.otherwise true) (.otherwise (List.nil_append _).symm)
  exact ⟨hd, hb (List.cons_ne_nil _ _), (hi inner (by decide)).2, (hi [] (by decide)).1 rfl⟩

end Draft

end TurtlePlot
