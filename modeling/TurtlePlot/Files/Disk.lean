import TurtlePlot.Files.Location
import TurtlePlot.Text.Quoted
import TurtlePlot.Text.Utf8

namespace TurtlePlot

inductive FileProblem where
  | notFound
  | alreadyExists
  | notDirectory
  | isDirectory
  | nameTooLong
  /-- A name with a null character, which no file system is asked for. -/
  | nullCharacter
  | other (number : Nat) (text : String)
deriving DecidableEq, Repr

namespace FileProblem

/-- The number that the file system has for the problem. -/
def number? : FileProblem → Option Nat
  | .notFound => some 2
  | .alreadyExists => some 17
  | .notDirectory => some 20
  | .isDirectory => some 21
  | .nameTooLong => some 36
  | .nullCharacter => none
  | .other number _ => some number

def text : FileProblem → String
  | .notFound => "No such file or directory"
  | .alreadyExists => "File exists"
  | .notDirectory => "Not a directory"
  | .isDirectory => "Is a directory"
  | .nameTooLong => "File name too long"
  | .nullCharacter => "embedded null byte"
  | .other _ text => text

end FileProblem

structure FileFault where
  problem : FileProblem
  name : String
deriving DecidableEq, Repr

def FileFault.message (f : FileFault) : String :=
  match f.problem.number? with
  | some number => s!"[Errno {number}] {f.problem.text}: {Text.quoted f.name}"
  | none => f.problem.text

inductive TextFault where
  | file (fault : FileFault)
  | undecodable (fault : Text.Utf8.Fault)
deriving DecidableEq, Repr

def TextFault.message : TextFault → String
  | .file fault => fault.message
  | .undecodable fault => fault.message

/-- The operations on files by their names, with effects in `m`. -/
structure Disk (m : Type → Type) where
  read : String → m (Except FileProblem ByteArray)
  write : String → ByteArray → m (Except FileProblem Unit)
  makeDirectory : String → m (Except FileProblem Unit)
  isDirectory : String → m Bool

namespace Disk

variable {m : Type → Type} [Monad m]

def readText (disk : Disk m) (name : String) : m (Except TextFault String) := do
  match ← disk.read name with
  | .ok bytes => return (Text.Utf8.decode bytes).mapError .undecodable
  | .error problem => return .error (.file ⟨problem, name⟩)

/-- Writes a text to a file, in a directory that is there. -/
def writeText (disk : Disk m) (name text : String) : m (Except FileFault Unit) :=
  return (← disk.write name text.toUTF8).mapError (⟨·, name⟩)

/-- Makes the directory of `root` and `parts`, which are in reverse, and those around it where they
are missing; one that is there already will do. -/
def makeAll (disk : Disk m) (root : String) : (parts : List String) → m (Except FileFault Unit)
  | [] => make (Location.text ⟨root, []⟩)
  | part :: around => do
    let name := Location.text ⟨root, (part :: around).reverse⟩
    match ← disk.makeDirectory name with
    | .error .notFound =>
      match ← disk.makeAll root around with
      | .ok () => make name
      | .error fault => return .error fault
    | .error problem => settle name problem
    | .ok () => return .ok ()
where
  make (name : String) : m (Except FileFault Unit) := do
    match ← disk.makeDirectory name with
    | .error problem => settle name problem
    | .ok () => return .ok ()
  /-- A directory in the way is no problem. -/
  settle (name : String) (problem : FileProblem) : m (Except FileFault Unit) := do
    if problem = .notFound then return .error ⟨problem, name⟩
    else if ← disk.isDirectory name then return .ok ()
    else return .error ⟨problem, name⟩

/-- Makes a directory and those around it where they are missing. -/
def makeDirectories (disk : Disk m) (location : Location) : m (Except FileFault Unit) :=
  disk.makeAll location.root location.parts.reverse

/-- Writes a text to a file, after making the directories around it. -/
def saveText (disk : Disk m) (name text : String) : m (Except FileFault Unit) := do
  match ← disk.makeDirectories (Location.ofText name).parent with
  | .ok () => disk.writeText name text
  | .error fault => return .error fault

end Disk

end TurtlePlot
