import TurtlePlot.CommandLine.Run

namespace TurtlePlot

def FileProblem.ofError : IO.Error → FileProblem
  | .noFileOrDirectory .. | .noSuchThing .. => .notFound
  | .alreadyExists .. => .alreadyExists
  | .inappropriateType _ number details | .invalidArgument _ number details
  | .permissionDenied _ number details | .resourceExhausted _ number details =>
    ofNumber number.toNat details
  | error => .other 5 error.toString
where
  ofNumber (number : Nat) (details : String) : FileProblem :=
    if number = 20 then .notDirectory
    else if number = 21 then .isDirectory
    else if number = 36 then .nameTooLong
    else .other number details

def attempt {α : Type} (act : IO α) : IO (Except FileProblem α) := do
  match ← act.toBaseIO with
  | .ok value => return .ok value
  | .error error => return .error (.ofError error)

/-- The files of the machine. -/
def machineDisk : Disk IO where
  read name := attempt (IO.FS.readBinFile name)
  write name content := attempt (IO.FS.writeBinFile name content)
  makeDirectory name := attempt (IO.FS.createDir name)
  isDirectory name := do
    match ← (IO.FS.realPath name).toBaseIO with
    | .ok path => path.isDir
    | .error _ => return false

end TurtlePlot

open TurtlePlot in
def main (arguments : List String) : IO UInt32 := do
  let report ← CommandLine.run machineDisk arguments
  IO.print report.stdout
  IO.eprint report.stderr
  if let some crash := report.crash? then IO.eprintln crash.message
  return report.exit.toUInt32
