import TurtlePlot.Command
import TurtlePlot.Program.Error

namespace TurtlePlot

def Action.named? : String → Option Action
  | "pass" => some .pass
  | "center" => some .center
  | "reset_heading" => some .resetHeading
  | "pen_up" => some .penUp
  | "pen_down" => some .penDown
  | _ => none

namespace Program

def integerAt (place : Place) : Json → Except ProgramError Int
  | .int n => .ok n
  | _ => .error (.breach place .notInteger)

def stringAt (place : Place) : Json → Except ProgramError String
  | .str s => .ok s
  | _ => .error (.breach place .notString)

def fieldsAt (place : Place) : Json → Except ProgramError (List (String × Json))
  | .obj fields => .ok fields
  | _ => .error (.breach place .notObject)

def pairAt (place : Place) : Json → Except ProgramError (Int × Int)
  | .arr [x, y] => do
    let x ← integerAt (.item 0 :: place) x
    let y ← integerAt (.item 1 :: place) y
    return (x, y)
  | .arr _ => .error (.breach place .notPair)
  | _ => .error (.breach place .notArray)

/-- The body of a loop or definition, read by `block`; a missing one is empty. -/
def bodyAt (block : Place → Json → Except ProgramError Program) (place : Place)
    (fields : List (String × Json)) : Except ProgramError Program :=
  block (.field "body" :: place) ((Json.field? "body" fields).getD (.arr []))

/-- The command of a name with an argument. `place` is that of the command; `block` reads bodies. -/
def commandNamed (block : Place → Json → Except ProgramError Program) (place : Place)
    (name : String) (argument : Json) : Except ProgramError Command :=
  let inside := .field name :: place
  match name with
  | "set_heading" => do return .act (.setHeading (← integerAt inside argument))
  | "set_position" => do
    let (x, y) ← pairAt inside argument
    return .act (.setPosition x y)
  | "turn" | "left" => do return .act (.turn (← integerAt inside argument))
  | "right" => do return .act (.turn (-(← integerAt inside argument)))
  | "forward" => do return .act (.forward (← integerAt inside argument))
  | "loop" => do
    let fields ← fieldsAt inside argument
    let count ← integerAt (.field "count" :: inside) ((Json.field? "count" fields).getD .null)
    return .loop count (← bodyAt block inside fields)
  | "set_macro" => do
    let fields ← fieldsAt inside argument
    let name ← stringAt (.field "name" :: inside) ((Json.field? "name" fields).getD .null)
    return .define name (← bodyAt block inside fields)
  | "play_macro" => do return .play (← stringAt inside argument)
  | _ =>
    match Action.named? name, argument with
    | some action, .null => .ok (.act action)
    | some _, _ => .error (.breach inside .argument)
    | none, _ => .error (.breach place (.unknownCommand name))

def commandAt (block : Place → Json → Except ProgramError Program) (place : Place) :
    Json → Except ProgramError Command
  | .str name =>
    match Action.named? name with
    | some action => .ok (.act action)
    | none => .error (.breach place (.unknownCommand name))
  | .obj [(name, argument)] => commandNamed block place name argument
  | .obj _ => .error (.breach place .notOneKey)
  | _ => .error (.breach place .notObject)

/-- The commands of the items from `index` on. -/
def commandsFrom (command : Place → Json → Except ProgramError Command) (place : Place) :
    (index : Nat) → List Json → Except ProgramError Program
  | _, [] => .ok []
  | index, item :: items => do
    let first ← command (.item index :: place) item
    let rest ← commandsFrom command place (index + 1) items
    return first :: rest

/-- The program at a place, with blocks nested at most `depth` deep. -/
def blockAt : (depth : Nat) → Place → Json → Except ProgramError Program
  | 0, _, _ => .error .tooDeep
  | depth + 1, place, .arr items => commandsFrom (commandAt (blockAt depth)) place 0 items
  | _ + 1, place, _ => .error (.breach place .notArray)

def maxBlockDepth : Nat := 500

/-- The program that data writes, or the first breach in reading order. -/
def ofJson (data : Json) : Except ProgramError Program :=
  blockAt maxBlockDepth [] data

end Program

end TurtlePlot
