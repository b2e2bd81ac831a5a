import TurtlePlot.CommandLine.Usage
import TurtlePlot.Files.Location
import TurtlePlot.Settings.Basic
import TurtlePlot.Text.Similar

namespace TurtlePlot.CommandLine

/-- What an option was given: a value or the turn of a flag. -/
inductive Given where
  | value (text : String)
  | flag (on : Bool)
deriving DecidableEq, Repr

/-- What one word gives, and the option that still needs the next word as its value. -/
structure Word where
  given : List (Target × Given) := []
  open? : Option Spelling := none

/-- A word of one-letter options behind a dash; what follows an option with a value is its value. -/
def letters (spellings : List Spelling) : List Char → Except UsageError Word
  | [] => .ok {}
  | c :: rest =>
    let text := String.ofList ['-', c]
    match spellings.find? (·.text = text) with
    | none => .error (.noSuchOption text [])
    | some spelling =>
      match spelling.kind with
      | .flag on => do
        let word ← letters spellings rest
        return { word with given := (spelling.target, .flag on) :: word.given }
      | .value =>
        if rest = [] then .ok { open? := some spelling }
        else .ok { given := [(spelling.target, .value (String.ofList rest))] }

def longNames (spellings : List Spelling) : List String :=
  (spellings.map Spelling.text).filter fun name => "--".toList.isPrefixOf name.toList

/-- A word that starts with a dash. A long option may have its value behind an equals sign. -/
def word (spellings : List Spelling) (text : String) : Except UsageError Word :=
  let chars := text.toList
  let name := String.ofList (chars.takeWhile (· != '='))
  let attached? := (chars.dropWhile (· != '=')).tail?.map String.ofList
  if "--".toList.isPrefixOf chars then
    match spellings.find? (·.text = name) with
    | none => .error (.noSuchOption name (Text.similar name (longNames spellings)))
    | some spelling =>
      match spelling.kind, attached? with
      | .flag _, some _ => .error (.takesNoValue name)
      | .flag on, none => .ok { given := [(spelling.target, .flag on)] }
      | .value, some value => .ok { given := [(spelling.target, .value value)] }
      | .value, none => .ok { open? := some spelling }
  else letters spellings chars.tail

structure Scan where
  given : List (Target × Given) := []
  words : List String := []

/-- Tells options from other words. Two dashes end the options; so does the first other word
unless options may follow it. -/
def scan (spellings : List Spelling) (mixed : Bool) : List String → Except UsageError Scan
  | [] => .ok {}
  | text :: rest =>
    if text = "--" then .ok { words := rest }
    else if text.toList.head? = some '-' ∧ text ≠ "-" then do
      let word ← word spellings text
      match word.open?, rest with
      | none, rest =>
        let s ← scan spellings mixed rest
        return { s with given := word.given ++ s.given }
      | some spelling, [] => .error (.needsValue spelling.text)
      | some spelling, value :: rest =>
        let s ← scan spellings mixed rest
        return { s with given := word.given ++ (spelling.target, .value value) :: s.given }
    else if mixed then do
      let s ← scan spellings mixed rest
      return { s with words := text :: s.words }
    else .ok { words := text :: rest }

namespace Scan

def value? (target : Target) (s : Scan) : Option String :=
  s.given.reverse.findSome? fun
    | (t, .value text) => if t = target then some text else none
    | _ => none

def flag? (target : Target) (s : Scan) : Option Bool :=
  s.given.reverse.findSome? fun
    | (t, .flag on) => if t = target then some on else none
    | _ => none

end Scan

structure Invocation where
  verbose : Bool
  verb : Verb
  argument : Location
  output? : Option Location
  config? : Option Location
  flipY? : Option Bool
  anchor? : Option Anchor
deriving DecidableEq, Repr

/-- What the arguments ask for: help, or to run a command. -/
inductive Request where
  | help (verb? : Option Verb)
  | act (invocation : Invocation)
deriving DecidableEq, Repr

/-- The request to a command. Help comes before all else; then values are checked, then the
argument, then whether an option is missing, and at last whether there are words too many. -/
def Verb.request (verb : Verb) (verbose : Bool) (texts : List String) :
    Except UsageError Request := do
  let s ← scan verb.options true texts
  if (s.flag? .help).isSome then return .help (some verb)
  let anchor? ←
    match s.value? .anchor with
    | none => .ok none
    | some text =>
      match Anchor.named? text with
      | some anchor => .ok (some anchor)
      | none => .error (.notAnAnchor text)
  let argument :: extra := s.words | .error (.missingArgument verb.argument)
  let output? := s.value? .output
  if verb = .render ∧ output? = none then .error .missingOutput
  if extra ≠ [] then .error (.extraArguments extra)
  return .act {
    verbose, verb, anchor?
    argument := .ofText argument
    output? := output?.map .ofText
    config? := (s.value? .config).map .ofText
    flipY? := s.flag? .flipY }

/-- The request that the arguments of the program stand for. -/
def request (texts : List String) : Except Misuse Request := do
  let s ← (scan commonOptions false texts).mapError (⟨none, ·⟩)
  if (s.flag? .help).isSome then return .help none
  let name :: rest := s.words | .error ⟨none, .missingCommand⟩
  match Verb.named? name with
  | some verb =>
    (verb.request ((s.flag? .verbose).getD false) rest).mapError (⟨some verb, ·⟩)
  | none =>
    -- A name like an option is first taken for one.
    let s ← (scan commonOptions false (name :: rest)).mapError (⟨none, ·⟩)
    if name.toList.head? = some '-' ∧ (s.flag? .help).isSome then return .help none
    .error ⟨none, .noSuchCommand name (Text.similar name (Verb.all.map Verb.name))⟩

end TurtlePlot.CommandLine
