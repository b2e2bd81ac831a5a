import TurtlePlot.Session

namespace TurtlePlot

/-- How deep bodies are followed, whatever the limit. -/
def maxFollowedDepth : Nat := 500

/-- The strokes of a program or the fault of its run, and the events on the way. -/
structure Compilation where
  strokes : Except Fault (List Stroke)
  events : List Event

/-- Runs a program from a fresh session. Nesting past `maxFollowedDepth` exceeds any limit. -/
def Program.compile (limits : Limits) (program : Program) : Compilation :=
  let followed := { limits with maxDepth := min limits.maxDepth maxFollowedDepth }
  match Session.run followed program {} with
  | .done s =>
    let strokes := s.turtle.strokes
    ⟨.ok strokes, (s.note (.compiled s.steps strokes.length)).events.reverse⟩
  | .failed (.depthExceeded depth _) s =>
    ⟨.error (.depthExceeded depth limits.maxDepth), s.events.reverse⟩
  | .failed fault s => ⟨.error fault, s.events.reverse⟩

end TurtlePlot
