import TurtlePlot.Json.Shown
import TurtlePlot.Settings.Decode
import TurtlePlot.Text.Utf8

namespace TurtlePlot.Settings

/-- The longest start of a text that fits into `room` bytes. -/
def takeBytes (room : Nat) : List Char → List Char
  | [] => []
  | c :: rest => if c.utf8Size ≤ room then c :: takeBytes (room - c.utf8Size) rest else []

/-- A text of more than 50 bytes is shown by its first 25 and last 24, less what is left of
characters cut by that. -/
def shortened (text : String) : String :=
  if text.utf8ByteSize ≤ 50 then text
  else
    let chars := text.toList
    let ending := (takeBytes 24 chars.reverse).reverse
    String.ofList (takeBytes 25 chars ++ "...".toList ++ ending)

def Complaint.message (c : Complaint) : String :=
  ".".intercalate c.location ++ "\n  " ++ c.requirement.message ++ " [type=" ++ c.requirement.code
    ++ ", input_value=" ++ shortened c.input.shown ++ ", input_type=" ++ c.input.kind ++ "]"

def ReadError.message : ReadError → String
  | .unreadable error => error.message
  | .notObject data =>
    "turtlebuilder.config.Config() argument after ** must be a mapping, not " ++ data.kind
  | .invalid complaints =>
    let count := complaints.length
    let errors := if count = 1 then " validation error" else " validation errors"
    toString count ++ errors ++ " for Config\n"
      ++ "\n".intercalate (complaints.map Complaint.message)

end TurtlePlot.Settings
