namespace TurtlePlot.Text

def commonStart : List Char → List Char → Nat
  | a :: s, b :: t => if a = b then commonStart s t + 1 else 0
  | _, _ => 0

/-- A run of characters that stands in two texts, by its place in each. -/
structure SharedRun where
  first : Nat := 0
  second : Nat := 0
  length : Nat := 0
deriving DecidableEq, Repr

/-- The best run and those that start with `s`, which stands at `i`, and somewhere in the second
text from `j` on. -/
def bestAgainst (s : List Char) (i : Nat) : (j : Nat) → List Char → SharedRun → SharedRun
  | _, [], best => best
  | j, b :: t, best =>
    let length := commonStart s (b :: t)
    bestAgainst s i (j + 1) t (if best.length < length then ⟨i, j, length⟩ else best)

/-- The best run and those that start in the first text from `i` on. -/
def bestFrom (t : List Char) : (i : Nat) → List Char → SharedRun → SharedRun
  | _, [], best => best
  | i, a :: s, best => bestFrom t (i + 1) s (bestAgainst (a :: s) i 0 t best)

/-- The longest shared run; of several the one that comes first, in the first text before all. -/
def longestRun (s t : List Char) : SharedRun :=
  bestFrom t 0 s {}

/-- The count of characters in shared runs; `room` bounds the count of runs. -/
def sharedWithin : (room : Nat) → List Char → List Char → Nat
  | 0, _, _ => 0
  | room + 1, s, t =>
    let run := longestRun s t
    if run.length = 0 then 0
    else
      sharedWithin room (s.take run.first) (t.take run.second) + run.length
        + sharedWithin room (s.drop (run.first + run.length)) (t.drop (run.second + run.length))

def shared (s t : List Char) : Nat :=
  sharedWithin s.length s t

/-- A name with the count of characters that it shares with a word, and that of both together. -/
structure Likeness where
  name : String
  shared : Nat
  total : Nat
deriving DecidableEq, Repr

namespace Likeness

def of (word name : String) : Likeness :=
  ⟨name, Text.shared name.toList word.toList, name.length + word.length⟩

/-- Whether the shared characters make up three fifths of both texts. -/
def isClose (l : Likeness) : Bool :=
  3 * l.total ≤ 10 * l.shared

/-- Whether one name comes before another: by the part that is shared, and then by the alphabet,
both from the greater to the less. -/
def before (l m : Likeness) : Bool :=
  let part := l.shared * m.total
  let other := m.shared * l.total
  if part = other then decide (m.name ≤ l.name) else decide (other < part)

end Likeness

/-- The names that are similar to a word, the best three at most, in alphabetical order. -/
def similar (word : String) (names : List String) : List String :=
  let close := (names.map (Likeness.of word)).filter Likeness.isClose
  ((close.mergeSort Likeness.before).take 3).map Likeness.name
    |>.mergeSort fun a b => decide (a ≤ b)

end TurtlePlot.Text
