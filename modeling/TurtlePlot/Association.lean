namespace TurtlePlot

/-- Values by name, in the order in which the names were first put in. -/
abbrev Association (α : Type) := List (String × α)

namespace Association

variable {α : Type}

/-- The association with `name` standing for `value`. A name that is put in again keeps its
place. -/
def put (name : String) (value : α) : Association α → Association α
  | [] => [(name, value)]
  | (n, v) :: rest => if n = name then (n, value) :: rest else (n, v) :: put name value rest

theorem lookup_cons_eq (name key : String) (value : α) (rest : Association α) :
    List.lookup name ((key, value) :: rest) =
      if name = key then some value else rest.lookup name := by
  rw [List.lookup_cons]
  by_cases h : name = key
  · simp [h]
  · simp [h, beq_false_of_ne h]

/-- Putting a value in changes what its name stands for and nothing else. -/
theorem lookup_put (name key : String) (value : α) (a : Association α) :
    (put key value a).lookup name = if name = key then some value else a.lookup name := by
  induction a with
  | nil => rw [put, lookup_cons_eq]
  | cons first rest ih =>
    obtain ⟨n, v⟩ := first
    by_cases hn : n = key
    · rw [put, if_pos hn, lookup_cons_eq, lookup_cons_eq, hn]
      split <;> rfl
    · rw [put, if_neg hn, lookup_cons_eq, lookup_cons_eq, ih]
      by_cases h : name = n
      · rw [if_pos h, if_pos h, if_neg (h ▸ hn)]
      · rw [if_neg h, if_neg h]

theorem put_of_not_mem {name : String} {a : Association α} (h : name ∉ a.map Prod.fst)
    (value : α) : put name value a = a ++ [(name, value)] := by
  induction a with
  | nil => rfl
  | cons first rest ih =>
    obtain ⟨n, v⟩ := first
    rw [List.map_cons, List.mem_cons, not_or] at h
    rw [put, if_neg fun hn => h.1 hn.symm, ih h.2, List.cons_append]

end Association

end TurtlePlot
