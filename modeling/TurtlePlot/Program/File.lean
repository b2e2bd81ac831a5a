import TurtlePlot.Files.Disk
import TurtlePlot.Json.Printer
import TurtlePlot.Program.Decode
import TurtlePlot.Program.Encode

namespace TurtlePlot

inductive LoadError where
  | text (fault : TextFault)
  | program (error : ProgramError)

def LoadError.message : LoadError → String
  | .text fault => fault.message
  | .program error => error.message

namespace Program

/-- The program that the text of `file` holds; its name is for messages only. -/
def read (file text : String) : Except ProgramError Program :=
  match Json.read (String.ofList (Text.unifyLineEnds text.toList)) with
  | .ok data => ofJson data
  | .error error => .error (.unreadable file error)

/-- The text of a program's file. -/
def write (program : Program) : String :=
  program.toJson.write (.lines 2) ++ "\n"

variable {m : Type → Type} [Monad m]

def load (disk : Disk m) (name : String) : m (Except LoadError Program) := do
  match ← disk.readText name with
  | .ok text => return (read name text).mapError .program
  | .error fault => return .error (.text fault)

/-- Writes the program to a file, after making the directories around it. -/
def save (disk : Disk m) (name : String) (program : Program) : m (Except FileFault Unit) :=
  disk.saveText name program.write

end Program

end TurtlePlot
