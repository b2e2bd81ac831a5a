import TurtlePlot.Compile
import TurtlePlot.Files.Disk
import TurtlePlot.Settings.Message
import TurtlePlot.Text.Plain

namespace TurtlePlot.CommandLine

/-- A fault that the program has no message for. -/
inductive Crash where
  | number (fault : NumberFault)
  | settings (error : Settings.ReadError)
  | text (fault : TextFault)

def Crash.message : Crash → String
  | .number fault => fault.message
  | .settings error => error.message
  | .text fault => fault.message

/-- Why a run stops early: with a message of its own, or by a crash. -/
inductive Stop where
  | failure (message : String)
  | crash (crash : Crash)

/-- The result of a run: its exit code, what it printed, and the crash that ended it. -/
structure Report where
  exit : Nat := 0
  stdout : String := ""
  stderr : String := ""
  crash? : Option Crash := none

structure Printed where
  stdout : String := ""
  stderr : String := ""

/-- A part of a run, which prints, uses files and may stop the run. -/
abbrev Task (m : Type → Type) := ExceptT Stop (StateT Printed m)

variable {m : Type → Type} [Monad m]

def line (text : String) : String :=
  Text.plain text ++ "\n"

def say (text : String) : Task m Unit :=
  modify fun p => { p with stdout := p.stdout ++ line text }

def log (event : Event) : Task m Unit :=
  modify fun p => { p with stderr := p.stderr ++ "turtlebuilder.turtle: " ++ event.message ++ "\n" }

def Task.report (task : Task m Unit) : m Report := do
  let (result, printed) ← (task.run).run {}
  return match result with
    | .ok () => ⟨0, printed.stdout, printed.stderr, none⟩
    | .error (.failure message) =>
      ⟨1, printed.stdout, printed.stderr ++ line ("Error: " ++ message), none⟩
    | .error (.crash crash) => ⟨1, printed.stdout, printed.stderr, some crash⟩

end TurtlePlot.CommandLine
