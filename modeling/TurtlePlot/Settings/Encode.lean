import TurtlePlot.Json.Printer
import TurtlePlot.Settings.Basic

namespace TurtlePlot

def Limits.toJson (l : Limits) : Json :=
  .obj [("max_depth", .int l.maxDepth), ("max_steps", .int l.maxSteps)]

def Canvas.toJson (c : Canvas) : Json :=
  .obj [("width", .float c.width), ("height", .float c.height), ("anchor", .str c.anchor.name),
    ("flip_y", .bool c.flipY), ("margin", .float c.margin)]

def Style.toJson (s : Style) : Json :=
  .obj [("stroke", .str s.stroke), ("stroke_width", .float s.strokeWidth), ("fill", .str s.fill),
    ("precision", .int s.precision)]

def PenSettings.toJson (p : PenSettings) : Json :=
  .obj [("up_angle", .int p.upAngle), ("down_angle", .int p.downAngle),
    ("travel_speed", .int p.travelSpeed), ("draw_speed", .int p.drawSpeed)]

namespace Settings

def toJson (s : Settings) : Json :=
  .obj [("compiler", s.limits.toJson), ("canvas", s.canvas.toJson), ("style", s.style.toJson),
    ("pen", s.pen.toJson)]

def write (s : Settings) : String :=
  s.toJson.write (.lines 4)

end Settings

end TurtlePlot
