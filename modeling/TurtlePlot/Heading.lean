import TurtlePlot.Point

namespace TurtlePlot

/-- Why a number in a program cannot be drawn with. -/
inductive NumberFault where
  | integerTooLarge
  | headingInfinite
deriving DecidableEq, Repr

def NumberFault.message : NumberFault → String
  | .integerTooLarge => "int too large to convert to float"
  | .headingInfinite => "math domain error"

/-- The double nearest to an integer, unless that is an infinity. -/
def nearestFloat (n : Int) : Except NumberFault Float :=
  let x := Float.ofInt n
  if x.isFinite then .ok x else .error .integerTooLarge

def pi : Float := 3.141592653589793

def radians (degrees : Float) : Float :=
  degrees * pi / 180

/-- The heading, in radians, of a whole number of degrees. -/
def headingOf (degrees : Int) : Except NumberFault Float :=
  (nearestFloat degrees).map radians

def north : Float := radians 90

/-- The unit vector of a heading. When one component is exactly 1 or -1 the other one is made 0, so
that the four main directions leave no residue. -/
def unitVector (heading : Float) : Except NumberFault Point :=
  if heading.isInf then .error .headingInfinite
  else
    let x := heading.cos
    let y := heading.sin
    if x.abs == 1 then .ok ⟨x, 0⟩
    else if y.abs == 1 then .ok ⟨0, y⟩
    else .ok ⟨x, y⟩

end TurtlePlot
