import TurtlePlot.CommandLine.Verb
import TurtlePlot.Text.Quoted

namespace TurtlePlot.CommandLine

/-- Why arguments are refused. An unknown name comes with the known ones that are similar. -/
inductive UsageError where
  | noSuchOption (name : String) (similar : List String)
  | needsValue (name : String)
  | takesNoValue (name : String)
  | missingArgument (name : String)
  | missingOutput
  | notAnAnchor (text : String)
  | extraArguments (texts : List String)
  | noSuchCommand (name : String) (similar : List String)
  | missingCommand
deriving DecidableEq, Repr

def suggestion : List String → String
  | [] => ""
  | [name] => s!" Did you mean {Text.quoted name}?"
  | names =>
    let list := ", ".intercalate (names.map Text.quoted)
    s!" (Did you mean one of: {list}?)"

def UsageError.message : UsageError → String
  | .noSuchOption name similar => s!"No such option {Text.quoted name}.{suggestion similar}"
  | .needsValue name => s!"Option {Text.quoted name} requires an argument."
  | .takesNoValue name => s!"Option {Text.quoted name} does not take a value."
  | .missingArgument name => s!"Missing argument {Text.quoted name}."
  | .missingOutput => "Missing option '--output' / '-o'."
  | .notAnAnchor text =>
    s!"Invalid value for '--anchor': {Text.quoted text} is not one of 'top_left', 'center'."
  | .extraArguments [text] => s!"Got unexpected extra argument ({text})"
  | .extraArguments texts =>
    let joined := " ".intercalate texts
    s!"Got unexpected extra arguments ({joined})"
  | .noSuchCommand name similar => s!"No such command {Text.quoted name}.{suggestion similar}"
  | .missingCommand => "Missing command."

/-- A refusal, with the command whose arguments are refused. -/
structure Misuse where
  verb? : Option Verb
  error : UsageError
deriving DecidableEq, Repr

/-- The refusal as it is told. A missing or needless value is told without the usage. -/
def Misuse.message (m : Misuse) : String :=
  let error := "Error: " ++ m.error.message
  match m.error with
  | .needsValue _ | .takesNoValue _ => error
  | _ => s!"{usageLine m.verb?}\nTry '{programName m.verb?} --help' for help.\n\n{error}"

end TurtlePlot.CommandLine
