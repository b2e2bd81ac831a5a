import TurtlePlot.Decimal.Fixed
import TurtlePlot.Path
import TurtlePlot.Settings.Basic

namespace TurtlePlot.Svg

/-- A number with at most `places` decimals. -/
def number (places : Nat) (x : Float) : String :=
  String.ofList (Decimal.rounded places x)

/-- A number with a count of decimals that may be refused. -/
def numberWith (x : Float) (precision : Int) : Except Decimal.PlacesFault String :=
  (Decimal.placesOf precision).map fun places => number places x

def entity : Char → List Char
  | '&' => "&amp;".toList
  | '<' => "&lt;".toList
  | '>' => "&gt;".toList
  | '"' => "&quot;".toList
  | c => [c]

def escape (text : String) : String :=
  String.ofList (text.toList.flatMap entity)

def coordinates (places : Nat) (p : Point) : String :=
  number places p.x ++ "," ++ number places p.y

def pathWord (places : Nat) : PathOp → String
  | .moveTo p => "M" ++ coordinates places p
  | .lineTo p => "L" ++ coordinates places p
  | .close => "Z"

def pathData (path : Path) (places : Nat := 3) : String :=
  " ".intercalate (path.map (pathWord places))

/-- The path data with a count of decimals that may be refused, unless there is no coordinate. -/
def pathDataWith (path : Path) (precision : Int) : Except Decimal.PlacesFault String :=
  if path.points.isEmpty then .ok (pathData path)
  else (Decimal.placesOf precision).map fun places => pathData path places

/-- The opening tag of the document, which shows the canvas and its margin. -/
def openTag (canvas : Canvas) (places : Nat) : String :=
  let m := canvas.margin
  let box := [-m, -m, canvas.width + 2 * m, canvas.height + 2 * m].map (number places)
  "<svg xmlns=\"http://www.w3.org/2000/svg\" version=\"1.1\" viewBox=\"" ++ " ".intercalate box
    ++ "\" width=\"" ++ number places canvas.width ++ "\" height=\"" ++ number places canvas.height
    ++ "\">"

def titleTag (title : String) : String :=
  "  <title>" ++ escape title ++ "</title>"

def pathTag (path : Path) (style : Style) : String :=
  "  <path d=\"" ++ pathData path style.precision ++ "\" stroke=\"" ++ escape style.stroke
    ++ "\" stroke-width=\"" ++ number style.precision style.strokeWidth
    ++ "\" fill=\"" ++ escape style.fill
    ++ "\" stroke-linecap=\"round\" stroke-linejoin=\"round\" />"

/-- The document of a path; an empty title or path leaves no element. -/
def document (path : Path) (canvas : Canvas := {}) (style : Style := {}) (title : String := "") :
    String :=
  let lines := ["<?xml version=\"1.0\" encoding=\"UTF-8\"?>", openTag canvas style.precision]
    ++ (if title.isEmpty then [] else [titleTag title])
    ++ (if path.isEmpty then [] else [pathTag path style])
    ++ ["</svg>"]
  "\n".intercalate lines ++ "\n"

end TurtlePlot.Svg
