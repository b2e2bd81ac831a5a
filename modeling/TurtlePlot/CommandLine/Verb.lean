namespace TurtlePlot.CommandLine

inductive Verb where
  | render
  | gcode
  | strokes
  | validate
  | initConfig
deriving DecidableEq, Repr

namespace Verb

def all : List Verb := [.render, .gcode, .strokes, .validate, .initConfig]

def name : Verb → String
  | .render => "render"
  | .gcode => "gcode"
  | .strokes => "strokes"
  | .validate => "validate"
  | .initConfig => "init-config"

def named? (name : String) : Option Verb :=
  all.find? (·.name = name)

def summary : Verb → String
  | .render => "Render a JSON turtle program to SVG."
  | .gcode => "Convert a JSON turtle program to plotter gcode."
  | .strokes => "Print compiled strokes as JSON."
  | .validate => "Check that a program loads and compiles."
  | .initConfig => "Write the default configuration."

def argument : Verb → String
  | .initConfig => "OUTPUT"
  | _ => "PROGRAM"

end Verb

inductive Target where
  | help
  | verbose
  | output
  | config
  | flipY
  | anchor
deriving DecidableEq, Repr

/-- Whether an option takes a value, or which way it turns a flag. -/
inductive OptionKind where
  | value
  | flag (on : Bool)
deriving DecidableEq, Repr

structure Spelling where
  text : String
  target : Target
  kind : OptionKind
deriving DecidableEq, Repr

/-- The option of every command, and of the program before any. -/
def helpOption : Spelling :=
  ⟨"--help", .help, .flag true⟩

def commonOptions : List Spelling :=
  [⟨"--verbose", .verbose, .flag true⟩, ⟨"-v", .verbose, .flag true⟩, helpOption]

def Verb.options : Verb → List Spelling
  | .render => outputOptions ++ configOptions
      ++ [⟨"--flip-y", .flipY, .flag true⟩, ⟨"--no-flip-y", .flipY, .flag false⟩,
        ⟨"--anchor", .anchor, .value⟩, helpOption]
  | .gcode => outputOptions ++ configOptions ++ [helpOption]
  | .strokes => configOptions ++ [helpOption]
  | .validate => configOptions ++ [helpOption]
  | .initConfig => [helpOption]
where
  outputOptions := [⟨"--output", .output, .value⟩, ⟨"-o", .output, .value⟩]
  configOptions := [⟨"--config", .config, .value⟩, ⟨"-c", .config, .value⟩]

/-- The name of the program in messages, with that of the command. -/
def programName : Option Verb → String
  | none => "main"
  | some verb => "main " ++ verb.name

/-- The line that shows how arguments are given. -/
def usageLine (verb? : Option Verb) : String :=
  let name := programName verb?
  match verb? with
  | none => s!"Usage: {name} [OPTIONS] COMMAND [ARGS]..."
  | some verb => s!"Usage: {name} [OPTIONS] {verb.argument}"

end TurtlePlot.CommandLine
