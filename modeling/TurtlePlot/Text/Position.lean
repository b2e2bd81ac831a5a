namespace TurtlePlot.Text

/-- A place between characters: the count of characters before it, and its line and column, which
count from 1. -/
structure Position where
  offset : Nat
  line : Nat
  column : Nat
deriving DecidableEq, Repr

/-- The place at which `rest` is left of `text`. -/
def Position.before (text rest : List Char) : Position :=
  let offset := text.length - rest.length
  let read := text.take offset
  { offset
    line := read.count '\n' + 1
    column := (read.reverse.takeWhile (· != '\n')).length + 1 }

/-- Every line end, `\r\n` and a lone `\r` included, becomes `\n`. -/
def unifyLineEnds : List Char → List Char
  | [] => []
  | '\r' :: '\n' :: rest => '\n' :: unifyLineEnds rest
  | '\r' :: rest => '\n' :: unifyLineEnds rest
  | c :: rest => c :: unifyLineEnds rest

theorem unifyLineEnds_of_not_mem {text : List Char} (h : '\r' ∉ text) :
    unifyLineEnds text = text := by
  fun_induction unifyLineEnds text with
  | case1 => rfl
  | case2 rest ih => exact absurd List.mem_cons_self h
  | case3 rest _ ih => exact absurd List.mem_cons_self h
  | case4 c rest _ _ ih => rw [ih fun hr => h (List.mem_cons_of_mem c hr)]

end TurtlePlot.Text
