import TurtlePlot.Json.Reader
import TurtlePlot.Settings.Coerce

namespace TurtlePlot

namespace Settings

/-- A value that a setting cannot take, with the way to it. -/
structure Complaint where
  location : List String
  requirement : Requirement
  input : Json

/-- A checked value, or all complaints about it. -/
inductive Checked (α : Type) where
  | valid (value : α)
  | invalid (complaints : List Complaint)

instance : Applicative Checked where
  pure := .valid
  seq f x :=
    match f, x () with
    | .valid f, .valid x => .valid (f x)
    | .valid _, .invalid complaints => .invalid complaints
    | .invalid complaints, .valid _ => .invalid complaints
    | .invalid complaints, .invalid more => .invalid (complaints ++ more)

/-- A field, which keeps its default if it is left out. -/
def field {α : Type} (fields : List (String × Json)) (name : String) (default : α)
    (coerce : Json → Except Requirement α) : Checked α :=
  match Json.field? name fields with
  | none => .valid default
  | some input =>
    match coerce input with
    | .ok value => .valid value
    | .error requirement => .invalid [⟨[name], requirement, input⟩]

/-- A field that is an object with fields of its own. -/
def group {α : Type} (fields : List (String × Json)) (name model : String) (default : α)
    (check : List (String × Json) → Checked α) : Checked α :=
  match Json.field? name fields with
  | none => .valid default
  | some (.obj inner) =>
    match check inner with
    | .valid value => .valid value
    | .invalid complaints =>
      .invalid (complaints.map fun c => { c with location := name :: c.location })
  | some input => .invalid [⟨[name], .group model, input⟩]

end Settings

open Settings

def Limits.ofFields (fields : List (String × Json)) : Checked Limits :=
  let d : Limits := {}
  Limits.mk <$> field fields "max_depth" d.maxDepth toPositiveNat
    <*> field fields "max_steps" d.maxSteps toPositiveNat

def Canvas.ofFields (fields : List (String × Json)) : Checked Canvas :=
  let d : Canvas := {}
  Canvas.mk <$> field fields "width" d.width toPositiveFloat
    <*> field fields "height" d.height toPositiveFloat
    <*> field fields "anchor" d.anchor toAnchor
    <*> field fields "flip_y" d.flipY toBool
    <*> field fields "margin" d.margin toNonnegativeFloat

def Style.ofFields (fields : List (String × Json)) : Checked Style :=
  let d : Style := {}
  Style.mk <$> field fields "stroke" d.stroke toText
    <*> field fields "stroke_width" d.strokeWidth toNonnegativeFloat
    <*> field fields "fill" d.fill toText
    <*> field fields "precision" d.precision toPrecision

def PenSettings.ofFields (fields : List (String × Json)) : Checked PenSettings :=
  let d : PenSettings := {}
  PenSettings.mk <$> field fields "up_angle" d.upAngle toInt
    <*> field fields "down_angle" d.downAngle toInt
    <*> field fields "travel_speed" d.travelSpeed toInt
    <*> field fields "draw_speed" d.drawSpeed toInt

namespace Settings

/-- Settings from fields, of which others than these count for nothing. All complaints are reported,
in the order of the settings. -/
def ofFields (fields : List (String × Json)) : Checked Settings :=
  Settings.mk <$> group fields "compiler" "CompilerConfig" {} Limits.ofFields
    <*> group fields "canvas" "CanvasConfig" {} Canvas.ofFields
    <*> group fields "style" "StyleConfig" {} Style.ofFields
    <*> group fields "pen" "PenConfig" {} PenSettings.ofFields

/-- Why a text holds no settings: it is no data, the data is no object, or values are refused. -/
inductive ReadError where
  | unreadable (error : Json.ReadError)
  | notObject (data : Json)
  | invalid (complaints : List Complaint)

def read (text : String) : Except ReadError Settings :=
  match Json.read (String.ofList (Text.unifyLineEnds text.toList)) with
  | .error error => .error (.unreadable error)
  | .ok (.obj fields) =>
    match ofFields fields with
    | .valid settings => .ok settings
    | .invalid complaints => .error (.invalid complaints)
  | .ok data => .error (.notObject data)

end Settings

end TurtlePlot
