import TurtlePlot.Json.Printer
import TurtlePlot.Text.Quoted

namespace TurtlePlot.Json

/-- The kind of a value, as messages name it. -/
def kind : Json → String
  | .null => "NoneType"
  | .bool _ => "bool"
  | .int _ => "int"
  | .float _ => "float"
  | .str _ => "str"
  | .arr _ => "list"
  | .obj _ => "dict"

mutual

def shown : Json → String
  | .null => "None"
  | .bool true => "True"
  | .bool false => "False"
  | .int n => String.ofList (intText n)
  | .float x => String.ofList (Decimal.shortestText x)
  | .str s => Text.quoted s
  | .arr [] => "[]"
  | .arr (item :: items) => "[" ++ shown item ++ shownItems items ++ "]"
  | .obj [] => "\x7b\x7d"
  | .obj ((key, item) :: fields) =>
    "\x7b" ++ Text.quoted key ++ ": " ++ shown item ++ shownFields fields ++ "\x7d"

def shownItems : List Json → String
  | [] => ""
  | item :: items => ", " ++ shown item ++ shownItems items

def shownFields : List (String × Json) → String
  | [] => ""
  | (key, item) :: fields => ", " ++ Text.quoted key ++ ": " ++ shown item ++ shownFields fields

end

end TurtlePlot.Json
