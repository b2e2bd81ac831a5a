namespace TurtlePlot.Text

/-- The pieces of a text between the places where `separator` stands; there is always one. -/
def pieces (separator : Char) : List Char → List (List Char)
  | [] => [[]]
  | c :: rest =>
    if c = separator then [] :: pieces separator rest
    else
      match pieces separator rest with
      | piece :: more => (c :: piece) :: more
      | [] => [[c]]

theorem pieces_of_not_mem {separator : Char} {text : List Char} (h : separator ∉ text) :
    pieces separator text = [text] := by
  induction text with
  | nil => rfl
  | cons c rest ih =>
    rw [List.mem_cons, not_or] at h
    rw [pieces, if_neg fun hc => h.1 hc.symm, ih h.2]

theorem pieces_append_cons {separator : Char} {piece : List Char} (h : separator ∉ piece)
    (rest : List Char) :
    pieces separator (piece ++ separator :: rest) = piece :: pieces separator rest := by
  induction piece with
  | nil => rw [List.nil_append, pieces, if_pos rfl]
  | cons c piece ih =>
    rw [List.mem_cons, not_or] at h
    rw [List.cons_append, pieces, if_neg fun hc => h.1 hc.symm, ih h.2]

/-- Texts without the separator are the pieces of what they are joined to. -/
theorem pieces_intercalate {separator : Char} {first : List Char} {more : List (List Char)}
    (h : ∀ piece ∈ first :: more, separator ∉ piece) :
    pieces separator ([separator].intercalate (first :: more)) = first :: more := by
  induction more generalizing first with
  | nil =>
    rw [List.intercalate_singleton]
    exact pieces_of_not_mem (h first List.mem_cons_self)
  | cons second more ih =>
    obtain ⟨hf, hm⟩ := List.forall_mem_cons.1 h
    rw [List.intercalate_cons_cons, List.append_assoc, List.singleton_append,
      pieces_append_cons hf, ih hm]

theorem pieces_flatMap {separator : Char} {first : List Char} {more : List (List Char)}
    (hf : separator ∉ first) (hm : ∀ piece ∈ more, separator ∉ piece) :
    pieces separator (first ++ more.flatMap fun piece => separator :: piece) =
      first :: more := by
  induction more generalizing first with
  | nil =>
    rw [List.flatMap_nil, List.append_nil]
    exact pieces_of_not_mem hf
  | cons second more ih =>
    obtain ⟨hs, hr⟩ := List.forall_mem_cons.1 hm
    rw [List.flatMap_cons, List.cons_append, pieces_append_cons hf, ih hs hr]

end TurtlePlot.Text
