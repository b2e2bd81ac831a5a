import TurtlePlot.Association
import TurtlePlot.Text.Quoted
import TurtlePlot.Turtle

namespace TurtlePlot

/-- How deep bodies may nest and how many steps a run may take. -/
structure Limits where
  maxDepth : Nat := 200
  maxSteps : Nat := 5000000
deriving DecidableEq, Repr

inductive Fault where
  | depthExceeded (depth limit : Nat)
  | stepsExceeded (limit : Nat)
  | number (fault : NumberFault)
deriving DecidableEq, Repr

def Fault.message : Fault → String
  | .depthExceeded depth limit => s!"nesting depth {depth} exceeds limit of {limit}"
  | .stepsExceeded limit => s!"program executes more than {limit} commands"
  | .number fault => fault.message

/-- What a run remarks on without stopping. -/
inductive Event where
  | negativeCount (count : Int)
  | unknownName (name : String)
  | compiled (steps strokes : Nat)
deriving DecidableEq, Repr

def Event.message : Event → String
  | .negativeCount count => s!"loop count {count} treated as zero iterations"
  | .unknownName name => "ignoring unknown macro " ++ Text.quoted name
  | .compiled steps strokes => s!"compiled {steps} commands into {strokes} strokes"

/-- The state of a run: the turtle, the bodies bound to names, the current and the greatest depth,
the steps taken, and the events, latest first. -/
structure Session where
  turtle : Turtle := {}
  bindings : Association Program := []
  depth : Nat := 0
  deepest : Nat := 0
  steps : Nat := 0
  events : List Event := []
deriving DecidableEq, Repr

inductive Outcome where
  | done (session : Session)
  | failed (fault : Fault) (session : Session)
deriving DecidableEq, Repr

namespace Outcome

def session : Outcome → Session
  | .done s => s
  | .failed _ s => s

/-- Goes on with a run unless it has failed. -/
@[inline] def andThen (o : Outcome) (next : Session → Outcome) : Outcome :=
  match o with
  | .done s => next s
  | .failed fault s => .failed fault s

@[simp] theorem done_andThen (s : Session) (next : Session → Outcome) :
    (done s).andThen next = next s :=
  rfl

@[simp] theorem failed_andThen (fault : Fault) (s : Session) (next : Session → Outcome) :
    (failed fault s).andThen next = failed fault s :=
  rfl

theorem andThen_eq_done {o : Outcome} {next : Session → Outcome} {s' : Session}
    (h : o.andThen next = .done s') : ∃ s, o = .done s ∧ next s = .done s' := by
  cases o with
  | done s => exact ⟨s, rfl, h⟩
  | failed fault s => cases h

/-- Changes the session, failed or not. -/
def mapSession (f : Session → Session) : Outcome → Outcome
  | .done s => .done (f s)
  | .failed fault s => .failed fault (f s)

theorem mapSession_eq_done {f : Session → Session} {o : Outcome} {s' : Session}
    (h : o.mapSession f = .done s') : ∃ s, o = .done s ∧ f s = s' := by
  cases o with
  | done s => exact ⟨s, rfl, done.inj h⟩
  | failed fault s => cases h

end Outcome

namespace Session

def note (event : Event) (s : Session) : Session :=
  { s with events := event :: s.events }

def define (name : String) (body : Program) (s : Session) : Session :=
  { s with bindings := Association.put name body s.bindings }

def body? (name : String) (s : Session) : Option Program :=
  s.bindings.lookup name

def tick (limits : Limits) (s : Session) : Outcome :=
  let s := { s with steps := s.steps + 1 }
  if limits.maxSteps < s.steps then .failed (.stepsExceeded limits.maxSteps) s else .done s

def enter (s : Session) : Session :=
  { s with depth := s.depth + 1, deepest := max s.deepest (s.depth + 1) }

def leave (s : Session) : Session :=
  { s with depth := s.depth - 1 }

def act (action : Action) (s : Session) : Outcome :=
  match action.perform s.turtle with
  | .ok turtle => .done { s with turtle }
  | .error fault => .failed (.number fault) s

def runAll (run : Command → Session → Outcome) : Program → Session → Outcome
  | [], s => .done s
  | command :: rest, s => (run command s).andThen (runAll run rest)

/-- Passes through a body a number of times, each pass a step. -/
def passes (limits : Limits) (run : Command → Session → Outcome) (body : Program) :
    (count : Nat) → Session → Outcome
  | 0, s => .done s
  | count + 1, s =>
    ((s.tick limits).andThen (runAll run body)).andThen (passes limits run body count)

/-- Passes through a body one level deeper, where commands are run by `run?`; without it the depth
is refused, and stays entered. -/
def descend (limits : Limits) (run? : Option (Command → Session → Outcome)) (body : Program)
    (count : Nat) (s : Session) : Outcome :=
  let s := s.enter
  match run? with
  | none => .failed (.depthExceeded s.depth limits.maxDepth) s
  | some run => (passes limits run body count s).mapSession leave

/-- Runs a command, with `run?` for the commands of bodies. -/
def command (limits : Limits) (run? : Option (Command → Session → Outcome)) (c : Command)
    (s : Session) : Outcome :=
  (s.tick limits).andThen fun s =>
    match c with
    | .act action => s.act action
    | .loop count body =>
      if count < 0 then .done (s.note (.negativeCount count))
      else s.descend limits run? body count.toNat
    | .define name body => .done (s.define name body)
    | .play name =>
      match s.body? name with
      | some body => s.descend limits run? body 1
      | none => .done (s.note (.unknownName name))

/-- Runs a command with `room` more levels to enter. -/
def runWithin (limits : Limits) : (room : Nat) → Command → Session → Outcome
  | 0, c, s => s.command limits none c
  | room + 1, c, s => s.command limits (some (runWithin limits room)) c

def exec (limits : Limits) (c : Command) (s : Session) : Outcome :=
  runWithin limits (limits.maxDepth - s.depth) c s

/-- Runs a program. The levels that are left bound the recursion, so programs that play themselves
end as well; a run that fails keeps the session as it was when the limit or number struck. -/
def run (limits : Limits) (program : Program) (s : Session) : Outcome :=
  runAll (exec limits) program s

end Session

end TurtlePlot
