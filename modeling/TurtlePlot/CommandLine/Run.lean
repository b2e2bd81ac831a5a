import TurtlePlot.CommandLine.Help
import TurtlePlot.CommandLine.Invocation
import TurtlePlot.CommandLine.Report
import TurtlePlot.Gcode
import TurtlePlot.Program.File
import TurtlePlot.Settings.Encode
import TurtlePlot.Svg

namespace TurtlePlot.CommandLine

variable {m : Type → Type} [Monad m] (disk : Disk m)

def settings (config? : Option Location) : Task m Settings := do
  let some location := config? | return {}
  match ← disk.readText location.text with
  | .error fault => failed fault.message
  | .ok text =>
    match Settings.read text with
    | .ok settings => return settings
    | .error (.notObject data) => throw (.crash (.settings (.notObject data)))
    | .error (.unreadable (.tooDeep container)) =>
      throw (.crash (.settings (.unreadable (.tooDeep container))))
    | .error error => failed error.message
where
  failed {α : Type} (message : String) : Task m α :=
    throw (.failure ("Config error: " ++ message))

def program (location : Location) : Task m Program := do
  match ← (Program.load disk location.text : m _) with
  | .ok program => return program
  | .error (.program error) => throw (.failure error.message)
  | .error (.text (.file fault)) =>
    -- Only what the file system refuses is told.
    if fault.problem.number?.isSome then throw (.failure ("File error: " ++ fault.message))
    else throw (.crash (.text (.file fault)))
  | .error (.text fault) => throw (.crash (.text fault))

/-- The program of a file with its strokes; `verbose` tells what goes on. -/
def drawing (verbose : Bool) (location : Location) (limits : Limits) :
    Task m (Program × List Stroke) := do
  let program ← program disk location
  let compilation := program.compile limits
  if verbose then compilation.events.forM log
  match compilation.strokes with
  | .ok strokes => return (program, strokes)
  | .error (.number fault) => throw (.crash (.number fault))
  | .error fault => throw (.failure fault.message)

def canvasPath (canvas : Canvas) (strokes : List Stroke) : Path :=
  .ofStrokes strokes (canvas.anchor.origin canvas.width canvas.height) canvas.flipY

/-- Tells that a file is written. -/
def saved (location : Location) : Except FileFault Unit → Task m Unit
  | .ok () => say ("Saved: " ++ location.text)
  | .error fault => throw (.crash (.text (.file fault)))

def render (i : Invocation) (output : Location) : Task m Unit := do
  let settings ← settings disk i.config?
  let canvas := { settings.canvas with
    flipY := i.flipY?.getD settings.canvas.flipY
    anchor := i.anchor?.getD settings.canvas.anchor }
  let (_, strokes) ← drawing disk i.verbose i.argument settings.limits
  let path := canvasPath canvas strokes
  let document := Svg.document path canvas settings.style i.argument.stem
  saved output (← disk.saveText output.text document)

def gcode (i : Invocation) : Task m Unit := do
  let settings ← settings disk i.config?
  let (_, strokes) ← drawing disk i.verbose i.argument settings.limits
  let code := Gcode.code (.ofStrokes strokes) settings.pen ("Source: " ++ i.argument.name)
  match i.output? with
  | some output => saved output (← disk.writeText output.text code)
  | none => say code

def strokes (i : Invocation) : Task m Unit := do
  let settings ← settings disk i.config?
  let (_, strokes) ← drawing disk i.verbose i.argument settings.limits
  let data := strokes.map fun stroke => Json.arr (stroke.map fun p => .arr [.float p.x, .float p.y])
  say ((Json.arr data).write .inline)

def boxText (b : Box) : String :=
  let number x := String.ofList (Decimal.reportText x)
  s!"bounds: ({number b.minX}, {number b.minY}) - ({number b.maxX}, {number b.maxY})"

def validate (i : Invocation) : Task m Unit := do
  let settings ← settings disk i.config?
  let (program, strokes) ← drawing disk i.verbose i.argument settings.limits
  let path := canvasPath settings.canvas strokes
  say s!"commands: {program.length}"
  say s!"strokes: {strokes.length} ({(visible strokes).length} visible)"
  say (if path.isClosed then "closed: True" else "closed: False")
  say (match path.bounds? with
    | some box => boxText box
    | none => "No drawable geometry")
  say "OK"

def initConfig (i : Invocation) : Task m Unit := do
  saved i.argument (← disk.writeText i.argument.text (Settings.write {}))

def perform (i : Invocation) : Task m Unit :=
  match i.verb, i.output? with
  | .render, some output => render disk i output
  | .render, none => throw (.failure UsageError.missingOutput.message)
  | .gcode, _ => gcode disk i
  | .strokes, _ => strokes disk i
  | .validate, _ => validate disk i
  | .initConfig, _ => initConfig disk i

/-- Runs the program with the given arguments. Without any it gives help. -/
def run (texts : List String) : m Report :=
  if texts.isEmpty then return { exit := 2, stderr := line (help none) }
  else
    match request texts with
    | .ok (.act i) => (perform disk i).report
    | .ok (.help verb?) => return { stdout := line (help verb?) }
    | .error misuse => return { exit := 2, stderr := line misuse.message }

end TurtlePlot.CommandLine
