namespace TurtlePlot.Text

/-- The length of the control sequence that a text starts with, and 0 for other texts: an escape and
a bracket, then parameters, intermediate characters, and one that ends it. -/
def controlLength : List Char → Nat
  | '\x1b' :: '[' :: rest =>
    let (parameters, rest) := rest.span fun c => '0' ≤ c ∧ c ≤ '?'
    let (intermediates, rest) := rest.span fun c => ' ' ≤ c ∧ c ≤ '/'
    match rest with
    | [] => 0
    | c :: _ => if '@' ≤ c ∧ c ≤ '~' then parameters.length + intermediates.length + 3 else 0
  | _ => 0

/-- The text after its first `skip` characters, without control sequences. -/
def plainAfter : (skip : Nat) → List Char → List Char
  | _, [] => []
  | skip + 1, _ :: rest => plainAfter skip rest
  | 0, c :: rest =>
    match controlLength (c :: rest) with
    | 0 => c :: plainAfter 0 rest
    | skip + 1 => plainAfter skip rest

def plain (text : String) : String :=
  String.ofList (plainAfter 0 text.toList)

end TurtlePlot.Text
