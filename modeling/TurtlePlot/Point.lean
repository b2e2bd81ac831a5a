namespace TurtlePlot

structure Point where
  x : Float
  y : Float
deriving DecidableEq, Repr

namespace Point

def origin : Point := ⟨0, 0⟩

instance : Inhabited Point := ⟨origin⟩

instance : Add Point where
  add p q := ⟨p.x + q.x, p.y + q.y⟩

def reflected (p : Point) : Point :=
  ⟨p.x, -p.y⟩

/-- Equality of coordinates as numbers: zeros of either sign coincide, and nothing does with NaN. -/
def coincides (p q : Point) : Bool :=
  p.x == q.x && p.y == q.y

/-- The point in a space with the given origin, whose y axis may point down. -/
def translate (p origin : Point) (flipY : Bool) : Point :=
  origin + if flipY then p.reflected else p

end Point

/-- Points joined in order by straight segments. -/
abbrev Stroke := List Point

end TurtlePlot
