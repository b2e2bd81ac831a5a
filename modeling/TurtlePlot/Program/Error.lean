import TurtlePlot.Json.Reader
import TurtlePlot.Text.Quoted

namespace TurtlePlot

/-- One step into data: to an item of an array or to a field of an object. -/
inductive Step where
  | item (index : Nat)
  | field (name : String)
deriving DecidableEq, Repr

/-- The way from the whole program to a place in it, the last step first. -/
abbrev Place := List Step

def Step.text : Step → String
  | .item index => s!"[{index}]"
  | .field name => "." ++ name

/-- A place as messages name it, such as `program[0].loop.body[2]`. -/
def Place.text (place : Place) : String :=
  "program" ++ String.join (place.reverse.map Step.text)

inductive Breach where
  | notArray
  | notObject
  | notInteger
  | notString
  | notOneKey
  | notPair
  | argument
  | unknownCommand (name : String)
deriving DecidableEq, Repr

def Breach.text : Breach → String
  | .notArray => " must be an array"
  | .notObject => " must be an object"
  | .notInteger => " must be an integer"
  | .notString => " must be a string"
  | .notOneKey => " must have exactly one key"
  | .notPair => " must be [x, y]"
  | .argument => " takes no argument"
  | .unknownCommand name => ": unknown command " ++ Text.quoted name

/-- Why there is no program: wrong data, blocks nested too deep, or a file whose text is no data. -/
inductive ProgramError where
  | breach (place : Place) (breach : Breach)
  | tooDeep
  | unreadable (file : String) (error : Json.ReadError)
deriving DecidableEq, Repr

def ProgramError.message : ProgramError → String
  | .breach place rule => place.text ++ rule.text
  | .tooDeep => "program nested too deeply"
  | .unreadable file (.tooDeep _) => file ++ ": program nested too deeply"
  | .unreadable file error => "Invalid JSON in " ++ file ++ ": " ++ error.message

end TurtlePlot
