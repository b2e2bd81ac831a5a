import TurtlePlot.Command
import TurtlePlot.Json.Basic

namespace TurtlePlot

def Action.toJson : Action → Json
  | .pass => .str "pass"
  | .center => .str "center"
  | .resetHeading => .str "reset_heading"
  | .penUp => .str "pen_up"
  | .penDown => .str "pen_down"
  | .setHeading degrees => .obj [("set_heading", .int degrees)]
  | .setPosition x y => .obj [("set_position", .arr [.int x, .int y])]
  | .turn degrees => .obj [("turn", .int degrees)]
  | .forward distance => .obj [("forward", .int distance)]

mutual

def Command.toJson : Command → Json
  | .act action => action.toJson
  | .loop count body =>
    .obj [("loop", .obj [("count", .int count), ("body", .arr (Program.items body))])]
  | .define name body =>
    .obj [("set_macro", .obj [("name", .str name), ("body", .arr (Program.items body))])]
  | .play name => .obj [("play_macro", .str name)]

def Program.items : Program → List Json
  | [] => []
  | command :: rest => command.toJson :: Program.items rest

end

def Program.toJson (program : Program) : Json :=
  .arr (Program.items program)

end TurtlePlot
