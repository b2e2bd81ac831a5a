namespace TurtlePlot

/-- A command without commands inside, which acts on the turtle alone. Angles are whole degrees. -/
inductive Action where
  | pass
  | center
  | resetHeading
  /-- Face `degrees` counter-clockwise from north. -/
  | setHeading (degrees : Int)
  | setPosition (x y : Int)
  | penUp
  | penDown
  /-- Turn left; a negative angle turns right. -/
  | turn (degrees : Int)
  | forward (distance : Int)
deriving DecidableEq, Repr

/-- A command: an action, a repeated body, a body bound to a name, or the playing of a name. -/
inductive Command where
  | act (action : Action)
  | loop (count : Int) (body : List Command)
  | define (name : String) (body : List Command)
  | play (name : String)
deriving Repr

instance : Inhabited Command := ⟨.act .pass⟩

abbrev Program := List Command

mutual

def Command.decEq : (a b : Command) → Decidable (a = b)
  | .act a, .act b => decidable_of_iff (a = b) (by simp)
  | .loop m p, .loop n q =>
    have := Program.decEq p q
    decidable_of_iff (m = n ∧ p = q) (by simp)
  | .define a p, .define b q =>
    have := Program.decEq p q
    decidable_of_iff (a = b ∧ p = q) (by simp)
  | .play a, .play b => decidable_of_iff (a = b) (by simp)
  | .act _, .loop .. | .act _, .define .. | .act _, .play _
  | .loop .., .act _ | .loop .., .define .. | .loop .., .play _
  | .define .., .act _ | .define .., .loop .. | .define .., .play _
  | .play _, .act _ | .play _, .loop .. | .play _, .define .. => .isFalse nofun

def Program.decEq : (p q : Program) → Decidable (p = q)
  | [], [] => .isTrue rfl
  | a :: p, b :: q =>
    have := Command.decEq a b
    have := Program.decEq p q
    decidable_of_iff (a = b ∧ p = q) (by simp)
  | [], _ :: _ | _ :: _, [] => .isFalse nofun

end

instance : DecidableEq Command := Command.decEq

end TurtlePlot
