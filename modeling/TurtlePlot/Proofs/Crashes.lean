import TurtlePlot.CommandLine.Run
import TurtlePlot.Proofs.Files
import TurtlePlot.Proofs.JsonText
import TurtlePlot.Proofs.NumberFaults

/-!
The runs of the program that end in a crash. A command reads settings and a program and compiles the
program; each of these steps is done, or refused with a message, or it crashes the run. What comes
after them does not crash it, as long as the texts are ordinary.
-/

namespace TurtlePlot

/-- The text of a file of a tree. -/
def FileTree.readText (t : FileTree) (name : String) : Except TextFault String :=
  match t.read name with
  | .ok bytes => (Text.Utf8.decode bytes).mapError .undecodable
  | .error problem => .error (.file ⟨problem, name⟩)

theorem FileTree.run_readText (t : FileTree) (name : String) :
    (FileTree.disk.readText name).run t = (t.readText name, t) := by
  have hr : (FileTree.disk.read name).run t = (t.read name, t) := rfl
  rw [Disk.readText, StateT.run_bind, hr, FileTree.readText]
  cases t.read name with
  | ok bytes => rfl
  | error problem => rfl

theorem FileTree.readText_of_read {t : FileTree} {name text : String}
    (h : t.read name = .ok text.toUTF8) : t.readText name = .ok text := by
  simp only [FileTree.readText, h, Text.Utf8.decode_toUTF8, Except.mapError]

namespace Json

/-- In the escapes of a text a high surrogate and a low one after it stand for a character together,
and no surrogate stands alone. -/
def surrogatesPaired : (lowIsDue : Bool) → List Char → Bool
  | lowIsDue, [] => !lowIsDue
  | lowIsDue, '\\' :: 'u' :: a :: b :: c :: d :: rest =>
    let unit := (hexQuad? a b c d).getD 0
    lowIsDue == (0xdc00 ≤ unit && unit < 0xe000) &&
      surrogatesPaired (0xd800 ≤ unit && unit < 0xdc00) rest
  | lowIsDue, '\\' :: _ :: rest => !lowIsDue && surrogatesPaired false rest
  | lowIsDue, _ :: rest => !lowIsDue && surrogatesPaired false rest

/-- How deep the brackets of a text may nest until the stack of a reader ends. -/
def textDepths : Set ℕ :=
  Set.Icc maxTextDepth 1000

/-- What is read of a text, wherever the stack of the reader ends. -/
def Reads (text : String) (result : Except Stop Json) : Prop :=
  ∀ depth ∈ textDepths, document depth (Text.unifyLineEnds text.toList) = result

/-- Brackets of a text nest too deep, wherever the stack of the reader ends, though which bracket
stops it depends on that. -/
def IsTooDeep (text : String) : Prop :=
  ∀ depth ∈ textDepths, ∃ container,
    document depth (Text.unifyLineEnds text.toList) = .error (.tooDeep container)

/-- A text of which all readers make the same: no escape stands for half a character, no number, as
a string or not, comes near the 4300 digits at which some readers stop, and brackets stay clear of
where a stack may end, or nest beyond it. -/
structure Ordinary (text : String) : Prop where
  paired : surrogatesPaired false text.toList
  digits : ∀ run, run <:+: text.toList → '"' ∉ run →
    run.countP (fun c => c.isDigit || c == '_') ≤ 4200
  nesting : (∃ result, Reads text result) ∨ IsTooDeep text

variable {text : String} {data : Json} {container : Container}

theorem maxTextDepth_mem : maxTextDepth ∈ textDepths :=
  ⟨le_rfl, by decide⟩

theorem Reads.read_eq (h : Reads text (.ok data)) :
    read (String.ofList (Text.unifyLineEnds text.toList)) = .ok data := by
  rw [read_eq_ok, String.toList_ofList]
  exact h _ maxTextDepth_mem

theorem IsTooDeep.read_eq (h : IsTooDeep text) : ∃ container,
    read (String.ofList (Text.unifyLineEnds text.toList)) = .error (.tooDeep container) := by
  obtain ⟨container, hd⟩ := h _ maxTextDepth_mem
  refine ⟨container, ?_⟩
  rw [read_eq_tooDeep, String.toList_ofList]
  exact hd

theorem Ordinary.reads (h : Ordinary text)
    (hr : read (String.ofList (Text.unifyLineEnds text.toList)) = .ok data) :
    Reads text (.ok data) := by
  rw [read_eq_ok, String.toList_ofList] at hr
  rcases h.nesting with ⟨result, hj⟩ | hd
  · obtain rfl := hr.symm.trans (hj _ maxTextDepth_mem)
    exact hj
  · obtain ⟨container, he⟩ := hd _ maxTextDepth_mem
    cases hr.symm.trans he

theorem Ordinary.isTooDeep (h : Ordinary text)
    (hr : read (String.ofList (Text.unifyLineEnds text.toList)) = .error (.tooDeep container)) :
    IsTooDeep text := by
  rw [read_eq_tooDeep, String.toList_ofList] at hr
  rcases h.nesting with ⟨result, hj⟩ | hd
  · obtain rfl := hr.symm.trans (hj _ maxTextDepth_mem)
    exact fun depth hm => ⟨container, hj depth hm⟩
  · exact hd

end Json

theorem Settings.read_eq_notObject {text : String} {data : Json}
    (hj : Json.Reads text (.ok data)) (hd : ∀ fields, data ≠ .obj fields) :
    read text = .error (.notObject data) := by
  rw [read, hj.read_eq]
  cases data with
  | obj fields => exact absurd rfl (hd fields)
  | _ => rfl

/-- How deep bodies may nest until the stack of a run ends. -/
def runDepths : Set ℕ :=
  Set.Icc 250 1000

namespace Program

/-- The number that stops a run of which the stack ends at some depth. -/
def numberFault? (limits : Limits) (program : Program) (depth : ℕ) : Option NumberFault :=
  match Session.run { limits with maxDepth := min limits.maxDepth depth } program {} with
  | .failed (.number fault) _ => some fault
  | _ => none

/-- Which number stops a run, or that none does, wherever the stack of the run ends. -/
def StopsOn (limits : Limits) (program : Program) (fault? : Option NumberFault) : Prop :=
  ∀ depth ∈ runDepths, program.numberFault? limits depth = fault?

theorem StopsOn.compile {limits : Limits} {program : Program} {fault? : Option NumberFault}
    (h : program.StopsOn limits fault?) (fault : NumberFault) :
    (program.compile limits).strokes = .error (.number fault) ↔ fault? = some fault := by
  rw [← h maxFollowedDepth ⟨by decide, by decide⟩]
  simp only [numberFault?, Program.compile]
  cases Session.run { limits with maxDepth := min limits.maxDepth maxFollowedDepth } program {} with
  | done s => simp
  | failed found s =>
    cases found with
    | number found => simp
    | depthExceeded | stepsExceeded => simp

/-- A limit that is reached before the stack ends decides alone. -/
theorem exists_stopsOn {limits : Limits} (program : Program) (h : limits.maxDepth ≤ 250) :
    ∃ fault?, program.StopsOn limits fault? := by
  refine ⟨program.numberFault? limits 250, fun depth hd => ?_⟩
  rw [numberFault?, numberFault?, Nat.min_eq_left (h.trans hd.1), Nat.min_eq_left h]

end Program

namespace CommandLine

variable {α β : Type}

/-- A task on a tree of files ends with a result, whatever was printed before, and leaves a tree. -/
def Task.Ends (task : Task (StateM FileTree) α) (t : FileTree) (result : Except Stop α)
    (t' : FileTree) : Prop :=
  ∀ printed, ∃ printed', (task.run.run printed).run t = ((result, printed'), t')

namespace Task.Ends

variable {t t' t'' : FileTree} {x : Task (StateM FileTree) α} {f : α → Task (StateM FileTree) β}
variable {a : α} {stop : Stop} {result : Except Stop β}

theorem pure : Ends (Pure.pure a) t (.ok a) t :=
  fun printed => ⟨printed, rfl⟩

theorem throw : Ends (MonadExcept.throw stop : Task (StateM FileTree) α) t (.error stop) t :=
  fun printed => ⟨printed, rfl⟩

theorem lift {x : StateM FileTree α} (h : x.run t = (a, t')) :
    Ends (liftM x) t (.ok a) t' := by
  intro printed
  refine ⟨printed, ?_⟩
  have hl : ((liftM x : Task (StateM FileTree) α).run.run printed).run t =
      (((.ok (x.run t).1), printed), (x.run t).2) := rfl
  rw [hl, h]

theorem bind (hx : Ends x t (.ok a) t') (hf : Ends (f a) t' result t'') :
    Ends (x >>= f) t result t'' := by
  intro printed
  obtain ⟨printed', hp⟩ := hx printed
  obtain ⟨printed'', hp'⟩ := hf printed'
  refine ⟨printed'', ?_⟩
  rw [ExceptT.run_bind, StateT.run_bind, StateT.run_bind, hp]
  exact hp'

theorem bind_error (hx : Ends x t (.error stop) t') : Ends (x >>= f) t (.error stop) t' := by
  intro printed
  obtain ⟨printed', hp⟩ := hx printed
  refine ⟨printed', ?_⟩
  rw [ExceptT.run_bind, StateT.run_bind, StateT.run_bind, hp]
  rfl

theorem say (text : String) : Ends (CommandLine.say text) t (.ok ()) t :=
  fun _ => ⟨_, rfl⟩

theorem log (event : Event) : Ends (CommandLine.log event) t (.ok ()) t :=
  fun _ => ⟨_, rfl⟩

end Task.Ends

/-- The settings that a run works with. -/
def HasSettings (t : FileTree) : (config? : Option Location) → Settings → Prop
  | none, settings => settings = {}
  | some location, settings =>
    ∃ text fields, t.readText location.text = .ok text ∧ Json.Reads text (.ok (.obj fields)) ∧
      Settings.ofFields fields = .valid settings

/-- The program that a run draws. -/
def HasProgram (t : FileTree) (location : Location) (program : Program) : Prop :=
  ∃ text data, t.readText location.text = .ok text ∧ Json.Reads text (.ok data) ∧
    Program.ofJson data = .ok program

/-- The crashes of a run with the given arguments: the data of its settings are not an object or too
deeply nested to be read, or a number comes up in compiling that stands for no double. -/
inductive Uncaught (t : FileTree) (i : Invocation) : Crash → Prop
  | notObject {location : Location} {text : String} {data : Json} (hc : i.config? = some location)
      (hr : t.readText location.text = .ok text) (hj : Json.Reads text (.ok data))
      (hd : ∀ fields, data ≠ .obj fields) :
      Uncaught t i (.settings (.notObject data))
  | tooDeep {location : Location} {text : String} (hc : i.config? = some location)
      (hr : t.readText location.text = .ok text) (hd : Json.IsTooDeep text)
      (container : Json.Container) :
      Uncaught t i (.settings (.unreadable (.tooDeep container)))
  | number {settings : Settings} {program : Program} {fault : NumberFault}
      (hs : HasSettings t i.config? settings) (hp : HasProgram t i.argument program)
      (hn : program.StopsOn settings.limits (some fault)) :
      Uncaught t i (.number fault)

/-- A file that holds text, or one that the file system refuses for a reason it has a number for,
as when there is none. -/
def IsLegible (t : FileTree) (location : Location) : Prop :=
  match t.read location.text with
  | .ok bytes => ∃ text : String, bytes = text.toUTF8
  | .error problem => problem.number?.isSome

/-- The commands that read settings and a program and then print, or write to a place that can be
written to. -/
def Covered (t : FileTree) (i : Invocation) : Prop :=
  match i.verb, i.output? with
  | .strokes, _ | .validate, _ | .gcode, none => True
  | .render, some output =>
    ∀ text, ((FileTree.disk.saveText output.text text).run t).1 = .ok ()
  | _, _ => False

/-- A run of which the outcome is not left to the interpreter: its texts are ordinary, and a number
stops it, or none does, wherever the stack ends. -/
structure Portable (t : FileTree) (i : Invocation) : Prop where
  covered : Covered t i
  legible : IsLegible t i.argument
  texts {location : Location} {text : String}
    (hl : location = i.argument ∨ i.config? = some location)
    (hr : t.readText location.text = .ok text) : Json.Ordinary text
  stack {settings : Settings} {program : Program} (hs : HasSettings t i.config? settings)
    (hp : HasProgram t i.argument program) : ∃ fault?, program.StopsOn settings.limits fault?

variable {t : FileTree} {i : Invocation} {config? : Option Location} {location : Location}
  {limits : Limits} {verbose : Bool}

/-- What a run makes of a file of settings. -/
def settingsOf : Except Settings.ReadError Settings → Except Stop Settings
  | .ok settings => .ok settings
  | .error (.notObject data) => .error (.crash (.settings (.notObject data)))
  | .error (.unreadable (.tooDeep container)) =>
    .error (.crash (.settings (.unreadable (.tooDeep container))))
  | .error error => .error (.failure ("Config error: " ++ error.message))

theorem settings_of_text {text : String} (hr : t.readText location.text = .ok text) :
    (settings FileTree.disk (some location)).Ends t (settingsOf (Settings.read text)) t := by
  apply Task.Ends.bind (.lift (FileTree.run_readText t location.text))
  simp only [hr]
  cases Settings.read text with
  | ok settings => exact .pure
  | error error =>
    cases error with
    | notObject data => exact .throw
    | invalid complaints => exact .throw
    | unreadable error =>
      cases error with
      | problem what place => exact .throw
      | tooDeep container => exact .throw

theorem settings_ends {s : Settings} (h : HasSettings t config? s) :
    (settings FileTree.disk config?).Ends t (.ok s) t := by
  cases config? with
  | none =>
    obtain rfl := h
    exact .pure
  | some location =>
    obtain ⟨text, fields, hr, hj, hs⟩ := h
    have he := settings_of_text hr
    rw [Settings.read, hj.read_eq] at he
    simp only [hs] at he
    exact he

/-- Settings are found, refused with a message, or they crash the run. -/
theorem settings_cases (h : Portable t i) :
    (∃ s, HasSettings t i.config? s) ∨
    (∃ message, (settings FileTree.disk i.config?).Ends t (.error (.failure message)) t) ∨
    ∃ crash, Uncaught t i crash ∧
      (settings FileTree.disk i.config?).Ends t (.error (.crash crash)) t := by
  cases hc : i.config? with
  | none => exact .inl ⟨{}, rfl⟩
  | some location =>
    cases hr : t.readText location.text with
    | error fault =>
      refine .inr (.inl ⟨"Config error: " ++ fault.message, ?_⟩)
      apply Task.Ends.bind (.lift (FileTree.run_readText t location.text))
      simp only [hr]
      exact .throw
    | ok text =>
      have he := settings_of_text hr
      have ho := h.texts (.inr hc) hr
      rw [Settings.read] at he
      cases hj : Json.read (String.ofList (Text.unifyLineEnds text.toList)) with
      | error error =>
        rw [hj] at he
        cases error with
        | problem what place => exact .inr (.inl ⟨_, he⟩)
        | tooDeep container =>
          exact .inr (.inr ⟨_, .tooDeep hc hr (ho.isTooDeep hj) container, he⟩)
      | ok data =>
        rw [hj] at he
        cases data with
        | obj fields =>
          cases hf : Settings.ofFields fields with
          | valid s => exact .inl ⟨s, text, fields, hr, ho.reads hj, hf⟩
          | invalid complaints =>
            simp only [hf] at he
            exact .inr (.inl ⟨_, he⟩)
        | _ => exact .inr (.inr ⟨_, .notObject hc hr (ho.reads hj) nofun, he⟩)

theorem run_load (t : FileTree) (name : String) :
    (Program.load FileTree.disk name).run t =
      ((match t.readText name with
        | .ok text => (Program.read name text).mapError .program
        | .error fault => .error (.text fault)), t) := by
  rw [Program.load, StateT.run_bind, FileTree.run_readText]
  cases t.readText name with
  | ok text => rfl
  | error fault => rfl

theorem program_ends {p : Program} (h : HasProgram t location p) :
    (program FileTree.disk location).Ends t (.ok p) t := by
  obtain ⟨text, data, hr, hj, hp⟩ := h
  have hp : Program.read location.text text = .ok p := by
    rw [Program.read, hj.read_eq]
    exact hp
  apply Task.Ends.bind (.lift (run_load t location.text))
  simp only [hr, hp]
  exact .pure

theorem IsLegible.of_text {text : String} (h : t.read location.text = .ok text.toUTF8) :
    IsLegible t location := by
  rw [IsLegible, h]
  exact ⟨text, rfl⟩

theorem IsLegible.readText (h : IsLegible t location) :
    (∃ text, t.readText location.text = .ok text) ∨
    ∃ problem, t.readText location.text = .error (.file ⟨problem, location.text⟩) ∧
      problem.number?.isSome := by
  rw [IsLegible] at h
  cases hr : t.read location.text with
  | ok bytes =>
    rw [hr] at h
    obtain ⟨text, rfl⟩ := h
    exact .inl ⟨text, FileTree.readText_of_read hr⟩
  | error problem =>
    rw [hr] at h
    exact .inr ⟨problem, by rw [FileTree.readText, hr], h⟩

theorem program_cases (h : Portable t i) :
    (∃ p, HasProgram t i.argument p) ∨
    ∃ message, (program FileTree.disk i.argument).Ends t (.error (.failure message)) t := by
  have hl := Task.Ends.lift (run_load t i.argument.text)
  rcases h.legible.readText with ⟨text, hr⟩ | ⟨problem, hr, hn⟩
  · cases hp : Program.read i.argument.text text with
    | ok p =>
      rw [Program.read] at hp
      split at hp
      case h_1 data hj => exact .inl ⟨p, text, data, hr, (h.texts (.inl rfl) hr).reads hj, hp⟩
      case h_2 => cases hp
    | error error =>
      refine .inr ⟨error.message, .bind hl ?_⟩
      simp only [hr, hp]
      exact .throw
  · refine .inr ⟨"File error: " ++ FileFault.message ⟨problem, i.argument.text⟩, .bind hl ?_⟩
    simp only [hr, hn, if_true]
    exact .throw

theorem logged (events : List Event) : Task.Ends (events.forM log) t (.ok ()) t := by
  induction events with
  | nil => exact .pure
  | cons event events ih => exact .bind (.log event) ih

/-- What a run makes of a program that it has read. -/
def drawingOf (program : Program) (limits : Limits) : Except Stop (Program × List Stroke) :=
  match (program.compile limits).strokes with
  | .ok strokes => .ok (program, strokes)
  | .error (.number fault) => .error (.crash (.number fault))
  | .error fault => .error (.failure fault.message)

theorem drawing_ends {p : Program} (h : HasProgram t location p) (verbose : Bool)
    (limits : Limits) :
    (drawing FileTree.disk verbose location limits).Ends t (drawingOf p limits) t := by
  have hd : (match (p.compile limits).strokes with
      | .ok strokes => Pure.pure (p, strokes)
      | .error (.number fault) => MonadExcept.throw (.crash (.number fault))
      | .error fault => MonadExcept.throw (.failure fault.message) :
        Task (StateM FileTree) (Program × List Stroke)).Ends t (drawingOf p limits) t := by
    rw [drawingOf]
    split
    · exact .pure
    · exact .throw
    · exact .throw
  apply Task.Ends.bind (program_ends h)
  cases verbose with
  | false => exact hd
  | true => exact .bind (logged _) hd

theorem perform_eq (hv : Covered t i) :
    ∃ rest : Settings → Program × List Stroke → Task (StateM FileTree) Unit,
      perform FileTree.disk i = (do
        let settings ← settings FileTree.disk i.config?
        let drawing ← drawing FileTree.disk i.verbose i.argument settings.limits
        rest settings drawing) ∧
      ∀ settings drawing, ∃ t', (rest settings drawing).Ends t (.ok ()) t' := by
  obtain ⟨verbose, verb, argument, output?, config?, flipY?, anchor?⟩ := i
  cases verb with
  | strokes =>
    refine ⟨_, rfl, fun settings drawing => ⟨t, ?_⟩⟩
    exact .say _
  | validate =>
    refine ⟨_, rfl, fun settings drawing => ⟨t, ?_⟩⟩
    exact .bind (.say _) (.bind (.say _) (.bind (.say _) (.bind (.say _) (.say _))))
  | gcode =>
    cases output? with
    | none =>
      refine ⟨_, rfl, fun settings drawing => ⟨t, ?_⟩⟩
      exact .say _
    | some output => exact hv.elim
  | render =>
    cases output? with
    | none => exact hv.elim
    | some output =>
      refine ⟨_, rfl, fun settings drawing => ?_⟩
      have hs (text : String) :
          ∃ t', (FileTree.disk.saveText output.text text).run t = (.ok (), t') :=
        ⟨_, Prod.ext (hv text) rfl⟩
      obtain ⟨t', hs⟩ := hs _
      exact ⟨t', .bind (.lift hs) (.say _)⟩
  | initConfig => exact hv.elim

theorem perform_ends (hv : Covered t i) {s : Settings} (hs : HasSettings t i.config? s)
    {p : Program} (hp : HasProgram t i.argument p) :
    ∃ t', (perform FileTree.disk i).Ends t ((drawingOf p s.limits).map fun _ => ()) t' := by
  obtain ⟨rest, he, hr⟩ := perform_eq hv
  have hd := drawing_ends hp i.verbose s.limits
  rw [he]
  cases hf : drawingOf p s.limits with
  | error stop =>
    rw [hf] at hd
    exact ⟨t, .bind (settings_ends hs) (.bind_error hd)⟩
  | ok d =>
    obtain ⟨t', hr⟩ := hr s d
    rw [hf] at hd
    exact ⟨t', .bind (settings_ends hs) (.bind hd hr)⟩

theorem perform_of_uncaught (hv : Covered t i) {crash : Crash} (hu : Uncaught t i crash) :
    ∃ crash' t', (perform FileTree.disk i).Ends t (.error (.crash crash')) t' := by
  obtain ⟨rest, he, -⟩ := perform_eq hv
  cases hu with
  | notObject hc hr hj hd =>
    have hs := settings_of_text hr
    rw [Settings.read_eq_notObject hj hd] at hs
    rw [he, hc]
    exact ⟨_, t, .bind_error hs⟩
  | tooDeep hc hr hd =>
    obtain ⟨container, hj⟩ := hd.read_eq
    have hs := settings_of_text hr
    rw [Settings.read, hj] at hs
    rw [he, hc]
    exact ⟨_, t, .bind_error hs⟩
  | number hs hp hn =>
    obtain ⟨t', hd⟩ := perform_ends hv hs hp
    rw [drawingOf, (hn.compile _).2 rfl] at hd
    exact ⟨_, t', hd⟩

/-- A command is done, it fails with a message, or it crashes. -/
theorem perform_cases (h : Portable t i) :
    ∃ t', (perform FileTree.disk i).Ends t (.ok ()) t' ∨
      (∃ message, (perform FileTree.disk i).Ends t (.error (.failure message)) t') ∨
      ∃ crash, Uncaught t i crash ∧
        (perform FileTree.disk i).Ends t (.error (.crash crash)) t' := by
  obtain ⟨rest, he, -⟩ := perform_eq h.covered
  rcases settings_cases h with ⟨s, hs⟩ | ⟨message, hm⟩ | ⟨crash, hu, hm⟩
  · rcases program_cases h with ⟨p, hp⟩ | ⟨message, hm⟩
    · obtain ⟨t', hd⟩ := perform_ends h.covered hs hp
      rw [drawingOf] at hd
      split at hd
      case h_1 => exact ⟨t', .inl hd⟩
      case h_2 fault hn =>
        obtain ⟨fault?, hf⟩ := h.stack hs hp
        obtain rfl := (hf.compile fault).1 hn
        exact ⟨t', .inr (.inr ⟨_, .number hs hp hf, hd⟩)⟩
      case h_3 => exact ⟨t', .inr (.inl ⟨_, hd⟩)⟩
    · rw [he]
      exact ⟨t, .inr (.inl ⟨message, .bind (settings_ends hs) (.bind_error (.bind_error hm))⟩)⟩
  · rw [he]
    exact ⟨t, .inr (.inl ⟨message, .bind_error hm⟩)⟩
  · rw [he]
    exact ⟨t, .inr (.inr ⟨crash, hu, .bind_error hm⟩)⟩

theorem Task.Ends.report {task : Task (StateM FileTree) Unit} {result : Except Stop Unit}
    {t' : FileTree} : task.Ends t result t' →
    ∃ printed : Printed, (task.report.run t).1 = match result with
      | .ok () => ⟨0, printed.stdout, printed.stderr, none⟩
      | .error (.failure message) =>
        ⟨1, printed.stdout, printed.stderr ++ line ("Error: " ++ message), none⟩
      | .error (.crash crash) => ⟨1, printed.stdout, printed.stderr, some crash⟩ := by
  intro h
  obtain ⟨printed, hp⟩ := h {}
  refine ⟨printed, ?_⟩
  rw [Task.report, StateT.run_bind, hp]
  rfl

theorem run_of_request {texts : List String} (hq : request texts = .ok (.act i)) :
    run FileTree.disk texts = (perform FileTree.disk i).report := by
  cases texts with
  | nil => cases hq
  | cons text texts =>
    rw [run, hq]
    rfl

theorem run_of_uncaught {texts : List String} (hq : request texts = .ok (.act i))
    (hv : Covered t i) {crash : Crash} (hu : Uncaught t i crash) :
    ∃ crash', ((run FileTree.disk texts).run t).1.crash? = some crash' := by
  obtain ⟨crash', t', he⟩ := perform_of_uncaught hv hu
  obtain ⟨printed, hp⟩ := he.report
  exact ⟨crash', by rw [run_of_request hq, hp]⟩

theorem run_cases {texts : List String} (hq : request texts = .ok (.act i)) (h : Portable t i) :
    let report := ((run FileTree.disk texts).run t).1
    (report.crash? = none ∧ (report.exit = 0 ∨ report.exit = 1 ∧
      ∃ printed message, report.stderr = printed ++ line ("Error: " ++ message))) ∨
    ∃ crash, report.crash? = some crash ∧ Uncaught t i crash := by
  intro report
  have hr : report = ((perform FileTree.disk i).report.run t).1 := by
    simp only [report, run_of_request hq]
  obtain ⟨t', he | ⟨message, he⟩ | ⟨crash, hu, he⟩⟩ := perform_cases h
  · obtain ⟨printed, hp⟩ := he.report
    rw [hr, hp]
    exact .inl ⟨rfl, .inl rfl⟩
  · obtain ⟨printed, hp⟩ := he.report
    rw [hr, hp]
    exact .inl ⟨rfl, .inr ⟨rfl, printed.stderr, message, rfl⟩⟩
  · obtain ⟨printed, hp⟩ := he.report
    rw [hr, hp]
    exact .inr ⟨crash, rfl, hu⟩

/-- A portable run ends with exit code 0 or with a message and exit code 1, unless its settings are
no object or too deeply nested, or compiling comes upon a number that stands for no double. The
latter takes a program with large numbers. -/
theorem run_crashes {texts : List String} (hq : request texts = .ok (.act i)) (h : Portable t i) :
    let report := ((run FileTree.disk texts).run t).1
    (∀ crash, report.crash? = some crash → Uncaught t i crash) ∧
    ((∃ crash, Uncaught t i crash) → ∃ crash, report.crash? = some crash) ∧
    (report.crash? = none → report.exit = 0 ∨ report.exit = 1 ∧
      ∃ printed message, report.stderr = printed ++ line ("Error: " ++ message)) ∧
    ((∀ program, HasProgram t i.argument program → ∀ c ∈ program, c.Bounded (2 ^ 967)) →
      ∀ fault, report.crash? ≠ some (.number fault)) := by
  intro report
  have hu (crash : Crash) (hs : report.crash? = some crash) : Uncaught t i crash := by
    rcases run_cases hq h with ⟨hn, -⟩ | ⟨found, hf, hu⟩
    · cases hs.symm.trans hn
    · cases hs.symm.trans hf
      exact hu
  refine ⟨hu, fun ⟨_, hc⟩ => run_of_uncaught hq h.covered hc, fun hn => ?_, fun hb fault hs => ?_⟩
  · rcases run_cases hq h with ⟨-, he⟩ | ⟨crash, hf, -⟩
    · exact he
    · cases hn.symm.trans hf
  · cases hu _ hs with
    | number _ hp hn => exact Program.ne_number_compile (hb _ hp) ((hn.compile fault).2 rfl)

/-- A tree with a file of a program and one of settings. -/
def sampleTree (program settings : String) : FileTree :=
  { entries := [(["p.json"], .file program.toUTF8), (["c.json"], .file settings.toUTF8)] }

theorem reads_brackets : Json.Reads "[]" (.ok (.arr [])) := by
  rintro depth ⟨hd, -⟩
  obtain ⟨depth, rfl⟩ := Nat.exists_eq_add_of_lt hd
  rfl

theorem ordinary_brackets : Json.Ordinary "[]" where
  paired := rfl
  digits run hr _ := (List.countP_le_length.trans hr.length_le).trans (by decide)
  nesting := .inl ⟨_, reads_brackets⟩

theorem portable_brackets (hv : Covered t i) (hp : t.read i.argument.text = .ok "[]".toUTF8)
    (hc : ∀ location ∈ i.config?, t.read location.text = .ok "[]".toUTF8) : Portable t i where
  covered := hv
  legible := .of_text hp
  texts := by
    rintro location text (rfl | hl) hr
    · cases (FileTree.readText_of_read hp).symm.trans hr
      exact ordinary_brackets
    · cases (FileTree.readText_of_read (hc location hl)).symm.trans hr
      exact ordinary_brackets
  stack := by
    intro settings program hs _
    cases hl : i.config? with
    | none =>
      rw [hl] at hs
      obtain rfl := hs
      exact program.exists_stopsOn (by decide)
    | some location =>
      rw [hl] at hs
      obtain ⟨text, fields, hr, hj, -⟩ := hs
      cases (FileTree.readText_of_read (hc location hl)).symm.trans hr
      cases (reads_brackets _ Json.maxTextDepth_mem).symm.trans (hj _ Json.maxTextDepth_mem)

theorem run_crashes_array :
    let t := sampleTree "[]" "[]"
    let texts := ["render", "p.json", "-o", "out.svg", "-c", "c.json"]
    let texts' := ["strokes", "p.json"]
    ∃ i i', request texts = .ok (.act i) ∧ Portable t i ∧
      request texts' = .ok (.act i') ∧ Portable t i' ∧
      (∃ crash, ((run FileTree.disk texts).run t).1.crash? = some crash) ∧
      ((run FileTree.disk texts').run t).1.crash? = none := by
  intro t texts texts'
  let i : Invocation := ⟨false, .render, ⟨"", ["p.json"]⟩, some ⟨"", ["out.svg"]⟩,
    some ⟨"", ["c.json"]⟩, none, none⟩
  let i' : Invocation := ⟨false, .strokes, ⟨"", ["p.json"]⟩, none, none, none, none⟩
  have hq : request texts = .ok (.act i) := by decide +kernel
  have hq' : request texts' = .ok (.act i') := by decide +kernel
  have hf : t.read "p.json" = .ok "[]".toUTF8 := by decide +kernel
  have hr : t.read "c.json" = .ok "[]".toUTF8 := by decide +kernel
  have h : Portable t i := portable_brackets (fun text => rfl) hf fun location hl => by
    cases hl
    exact hr
  have h' : Portable t i' := portable_brackets trivial hf nofun
  have hu : Uncaught t i (.settings (.notObject (.arr []))) :=
    .notObject rfl (FileTree.readText_of_read hr) reads_brackets nofun
  have hb (program : Program) (hp : HasProgram t i'.argument program) :
      ∀ c ∈ program, c.Bounded (2 ^ 967) := by
    obtain ⟨text, data, hr, hj, hd⟩ := hp
    cases (FileTree.readText_of_read hf).symm.trans hr
    cases (reads_brackets _ Json.maxTextDepth_mem).symm.trans (hj _ Json.maxTextDepth_mem)
    cases hd
    exact nofun
  obtain ⟨hc, -, -, hn⟩ := run_crashes hq' h'
  refine ⟨i, i', hq, h, hq', h', (run_crashes hq h).2.1 ⟨_, hu⟩, ?_⟩
  refine Option.eq_none_iff_forall_ne_some.2 fun crash hs => ?_
  cases hc crash hs with
  | notObject hc | tooDeep hc => cases hc
  | number => exact hn hb _ hs

/-- There is no message for settings that are an array. -/
theorem array_crashes :
    ((run FileTree.disk ["strokes", "p.json", "-c", "c.json"]).run
      (sampleTree "[]" "[]")).1.crash?.map Crash.message =
        some "turtlebuilder.config.Config() argument after ** must be a mapping, not list" := by
  decide +kernel

end CommandLine

end TurtlePlot
