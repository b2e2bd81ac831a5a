import TurtlePlot.Command

namespace TurtlePlot

namespace Command

def left (angle : Int) : Command := .act (.turn angle)

def right (angle : Int) : Command := .act (.turn (-angle))

/-- One pass through a body if there is one, else nothing. -/
def optional : Option Program → Command
  | some body => .loop 1 body
  | none => .act .pass

def either (condition : Bool) (first second : Program) : Command :=
  .loop 1 (if condition then first else second)

end Command

/-- How a block was opened, which says what closing it adds. -/
inductive Opening where
  | loop (count : Int)
  | define (name : String)
  | when (condition : Bool)
  | otherwise (condition : Bool)
deriving DecidableEq, Repr

def Opening.command : Opening → Program → Command
  | .loop count, body => .loop count body
  | .define name, body => .define name body
  | .when condition, body => .optional (if condition then some body else none)
  | .otherwise condition, body => .optional (if condition then none else some body)

def Opening.condition? : Opening → Option Bool
  | .when condition => some condition
  | _ => none

/-- The commands of a block so far, and the condition of the block that closed just before. -/
structure Block where
  commands : Program := []
  lastCondition : Option Bool := none
deriving DecidableEq

/-- A program being written: the innermost block, and the blocks around it from the inside out, each
with the way the block inside it was opened. -/
structure Draft where
  block : Block := {}
  around : List (Opening × Block) := []
deriving DecidableEq

inductive DraftError where
  | noCondition
  | openBlock
deriving DecidableEq, Repr

def DraftError.message : DraftError → String
  | .noCondition => "otherwise() must directly follow a when() block"
  | .openBlock => "build() called inside an open block"

/-- Adds a command, which leaves `condition?` to refer to. -/
def Block.emit (command : Command) (condition? : Option Bool) (b : Block) : Block :=
  ⟨b.commands ++ [command], condition?⟩

namespace Draft

/-- The count of open blocks, the outermost one included. -/
def blockCount (d : Draft) : Nat :=
  d.around.length + 1

def add (commands : Program) (d : Draft) : Draft :=
  { d with block := commands.foldl (fun b command => b.emit command none) d.block }

def enter (opening : Opening) (d : Draft) : Draft :=
  ⟨{}, (opening, d.block) :: d.around⟩

def enterOtherwise (d : Draft) : Except DraftError Draft :=
  match d.block.lastCondition with
  | some condition => .ok (d.enter (.otherwise condition))
  | none => .error .noCondition

/-- Closes the innermost block; the outermost one stays open. -/
def exit (d : Draft) : Draft :=
  match d.around with
  | (opening, outer) :: around =>
    ⟨outer.emit (opening.command d.block.commands) opening.condition?, around⟩
  | [] => d

/-- Gives up the innermost block and what is in it; the outermost one stays open. -/
def abandon (d : Draft) : Draft :=
  match d.around with
  | (_, outer) :: around => ⟨outer, around⟩
  | [] => d

def build (d : Draft) : Except DraftError Program :=
  if d.around.isEmpty then .ok d.block.commands else .error .openBlock

end Draft

end TurtlePlot
