import TurtlePlot.Files.Disk

namespace TurtlePlot

inductive Entry where
  | file (content : ByteArray)
  | directory

/-- A tree of files. The root needs no entry. Names not starting at the root start at `home`. -/
structure FileTree where
  home : List String := []
  entries : List (List String × Entry) := []

namespace FileTree

def maxName : Nat := 4095

def maxPart : Nat := 255

def entry? (t : FileTree) : List String → Option Entry
  | [] => some .directory
  | way => t.entries.lookup way

def put (way : List String) (entry : Entry) (t : FileTree) : FileTree :=
  { t with entries := (way, entry) :: t.entries.filter (·.1 ≠ way) }

/-- Follows a part of a name from a way, which must lead to a directory. -/
def step (t : FileTree) (way : List String) (part : String) : Except FileProblem (List String) :=
  match t.entry? way with
  | some .directory =>
    if part = "." then .ok way
    else if part = ".." then .ok way.dropLast
    else if part.utf8ByteSize ≤ maxPart then .ok (way ++ [part])
    else .error .nameTooLong
  | some (.file _) => .error .notDirectory
  | none => .error .notFound

def parts (name : String) : List String :=
  ((Text.pieces '/' name.toList).map String.ofList).filter (· ≠ "")

/-- Whether a name can only be that of a directory. -/
def endsWithSlash (name : String) : Bool :=
  name.toList.getLast? == some '/'

/-- The way that parts lead from where a name starts. -/
def follow (t : FileTree) (name : String) (parts : List String) :
    Except FileProblem (List String) :=
  let chars := name.toList
  if '\x00' ∈ chars then .error .nullCharacter
  else if chars = [] then .error .notFound
  else if maxName < name.utf8ByteSize then .error .nameTooLong
  else parts.foldlM t.step (if chars.head? = some '/' then [] else t.home)

def wayTo (t : FileTree) (name : String) : Except FileProblem (List String) :=
  t.follow name (parts name)

def read (name : String) (t : FileTree) : Except FileProblem ByteArray := do
  match t.entry? (← t.wayTo name) with
  | some (.file content) => if endsWithSlash name then .error .notDirectory else .ok content
  | some .directory => .error .isDirectory
  | none => .error .notFound

/-- Writes a file. A name that ends with a slash is refused once the way to it is known. -/
def write (name : String) (content : ByteArray) (t : FileTree) : Except FileProblem FileTree := do
  if endsWithSlash name then
    let _ ← t.follow name ((parts name).dropLast ++ ["."])
    .error .isDirectory
  else
    let way ← t.wayTo name
    match t.entry? way with
    | some .directory => .error .isDirectory
    | _ => .ok (t.put way (.file content))

def makeDirectory (name : String) (t : FileTree) : Except FileProblem FileTree := do
  let way ← t.wayTo name
  match t.entry? way with
  | some _ => .error .alreadyExists
  | none => .ok (t.put way .directory)

def isDirectory (name : String) (t : FileTree) : Bool :=
  match t.wayTo name with
  | .ok way =>
    match t.entry? way with
    | some .directory => true
    | _ => false
  | .error _ => false

/-- Replaces the tree unless there is a problem. -/
def change (f : FileTree → Except FileProblem FileTree) :
    StateM FileTree (Except FileProblem Unit) :=
  fun t =>
    match f t with
    | .ok t => (.ok (), t)
    | .error problem => (.error problem, t)

def disk : Disk (StateM FileTree) where
  read name := return (← get).read name
  write name content := change (write name content)
  makeDirectory name := change (makeDirectory name)
  isDirectory name := return (← get).isDirectory name

end FileTree

end TurtlePlot
