import TurtlePlot.Program.File
import TurtlePlot.Proofs.Canonical
import TurtlePlot.Proofs.Files
import TurtlePlot.Proofs.JsonText

/-!
Programs in files. A program is loaded from the file that it was saved to, exactly if its blocks do
not nest too deep: each of them takes up to three levels of brackets.
-/

namespace TurtlePlot

open Json

theorem Json.legible_field {depth : Nat} {j : Json} (name : String) (h : Legible depth j) :
    Legible (depth + 1) (.obj [(name, j)]) :=
  .obj (List.nodup_singleton name) (List.forall_mem_singleton.2 h)

theorem Action.legible_toJson (action : Action) (depth : Nat) :
    Legible (depth + 2) action.toJson := by
  cases action with
  | pass | center | resetHeading | penUp | penDown => exact .str _ _
  | setHeading degrees | turn degrees | forward degrees => exact legible_field _ (.int _ _)
  | setPosition x y =>
    refine legible_field _ (.arr ?_)
    exact List.forall_mem_cons.2 ⟨.int _ _, List.forall_mem_singleton.2 (.int _ _)⟩

namespace Program

variable {p : Program} {depth : Nat}

theorem legible_compound (name : String) {key : String} {j : Json} {items : List Json}
    (hk : key ≠ "body") (hj : Legible (depth + 1) j) (hi : ∀ item ∈ items, Legible depth item) :
    Legible (depth + 3) (.obj [(name, .obj [(key, j), ("body", .arr items)])]) := by
  have hn : ([(key, j), ("body", .arr items)].map Prod.fst).Nodup := by simpa using hk
  refine legible_field name (.obj hn ?_)
  exact List.forall_mem_cons.2 ⟨hj, List.forall_mem_singleton.2 (.arr hi)⟩

theorem legible_items (p : Program) (h : 3 * p.depth ≤ depth + 1) :
    ∀ item ∈ items p, Legible depth item := by
  induction p using Program.induction generalizing depth with
  | nil => exact nofun
  | act action rest ih =>
    simp only [Program.depth, Command.depth] at h
    obtain ⟨inner, rfl⟩ := Nat.exists_eq_add_of_le' (show 2 ≤ depth by omega)
    exact List.forall_mem_cons.2 ⟨action.legible_toJson inner, ih (by omega)⟩
  | play name rest ih =>
    simp only [Program.depth, Command.depth] at h
    obtain ⟨inner, rfl⟩ := Nat.exists_eq_add_of_le' (show 1 ≤ depth by omega)
    exact List.forall_mem_cons.2 ⟨legible_field "play_macro" (.str inner name), ih (by omega)⟩
  | loop count body rest ihb ih =>
    have hb := body.depth_pos
    simp only [Program.depth, Command.depth] at h
    obtain ⟨inner, rfl⟩ := Nat.exists_eq_add_of_le' (show 3 ≤ depth by omega)
    have hi := ihb (show 3 * body.depth ≤ inner + 1 by omega)
    have hc := legible_compound "loop" (by decide : "count" ≠ "body") (.int _ count) hi
    exact List.forall_mem_cons.2 ⟨hc, ih (by omega)⟩
  | define name body rest ihb ih =>
    have hb := body.depth_pos
    simp only [Program.depth, Command.depth] at h
    obtain ⟨inner, rfl⟩ := Nat.exists_eq_add_of_le' (show 3 ≤ depth by omega)
    have hi := ihb (show 3 * body.depth ≤ inner + 1 by omega)
    have hc := legible_compound "set_macro" (by decide : "name" ≠ "body") (.str _ name) hi
    exact List.forall_mem_cons.2 ⟨hc, ih (by omega)⟩

theorem legible_toJson (h : 3 * p.depth ≤ depth) : Legible depth p.toJson := by
  have hp := p.depth_pos
  obtain ⟨inner, rfl⟩ := Nat.exists_eq_add_of_le' (show 1 ≤ depth by omega)
  exact .arr (p.legible_items h)

theorem legible_of_compound {name key : String} {j : Json} {items : List Json}
    (h : Legible depth (.obj [(name, .obj [(key, j), ("body", .arr items)])])) :
    ∃ inner, depth = inner + 3 ∧ ∀ item ∈ items, Legible inner item := by
  cases h with
  | obj _ h =>
    cases h _ List.mem_cons_self with
    | obj _ h =>
      cases h ("body", .arr items) (List.mem_cons_of_mem _ List.mem_cons_self) with
      | arr h => exact ⟨_, rfl, h⟩

theorem depth_le_of_legible (p : Program) (h : ∀ item ∈ items p, Legible depth item) :
    3 * p.depth ≤ depth + 3 := by
  induction p using Program.induction generalizing depth with
  | nil => exact Nat.le_add_left 3 depth
  | act action rest ih | play name rest ih =>
    have hr := ih (List.forall_mem_cons.1 h).2
    simp only [Program.depth, Command.depth]
    omega
  | loop count body rest ihb ih | define name body rest ihb ih =>
    obtain ⟨hc, hr⟩ := List.forall_mem_cons.1 h
    obtain ⟨inner, rfl, hi⟩ := legible_of_compound hc
    have hb := ihb hi
    have hr := ih hr
    simp only [Program.depth, Command.depth]
    omega

theorem depth_le_of_legible_toJson (h : Legible depth p.toJson) : 3 * p.depth ≤ depth + 2 := by
  cases h with
  | arr h => exact p.depth_le_of_legible h

/-- The text of a program is read as the program, exactly if its blocks do not nest too deep. -/
theorem read_write {file : String} : read file p.write = .ok p ↔ 3 * p.depth ≤ maxTextDepth := by
  have hl : Legible (3 * p.depth) p.toJson := legible_toJson (Nat.le_refl _)
  have hw : p.write.toList = text (.lines 2) 0 p.toJson ++ ['\n'] := by
    rw [write, Json.write, String.toList_append, String.toList_ofList]
    rfl
  have hu : Text.unifyLineEnds p.write.toList = p.write.toList := by
    refine Text.unifyLineEnds_of_not_mem fun hr => ?_
    rw [hw] at hr
    exact absurd (hl.plainText_line _ _ _ hr) (by decide)
  have hd (data : Json) : Json.read p.write = .ok data ↔
      document maxTextDepth (text (.lines 2) 0 p.toJson ++ ['\n']) = .ok data := by
    rw [read_eq_ok, hw]
  unfold read
  rw [hu, String.ofList_toList]
  constructor
  · intro h
    cases hr : Json.read p.write with
    | error error =>
      rw [hr] at h
      cases h
    | ok data =>
      have hm := depth_le_of_legible_toJson (hl.of_document ((hd data).1 hr))
      unfold maxTextDepth at hm ⊢
      omega
  · intro h
    have hb : p.depth ≤ maxBlockDepth := by
      unfold maxTextDepth at h
      unfold maxBlockDepth
      omega
    rw [(hd p.toJson).2 ((legible_toJson h).document _ _)]
    exact ofJson_toJson.2 hb

/-- A program is read from its own text, and loaded from the file that it was saved to, exactly if
its blocks do not nest too deep: each takes up to three levels of brackets. -/
theorem load_save (p : Program) :
    (∀ file, read file p.write = .ok p ↔ 3 * p.depth ≤ maxTextDepth) ∧
      ∀ name t t', (save FileTree.disk name p).run t = (.ok (), t') →
        ((load FileTree.disk name).run t' = (.ok p, t') ↔ 3 * p.depth ≤ maxTextDepth) := by
  refine ⟨fun file => read_write, fun name t t' h => ?_⟩
  have hr := FileTree.readText_of_saveText h
  have hl : (load FileTree.disk name).run t' = ((read name p.write).mapError .program, t') := by
    rw [load, StateT.run_bind, hr]
    rfl
  have hw : read name p.write = .ok p ↔ 3 * p.depth ≤ maxTextDepth := read_write
  rw [hl, ← hw]
  cases read name p.write with
  | ok q =>
    constructor
    · intro he
      cases he
      rfl
    · intro he
      cases he
      rfl
  | error e => exact iff_of_false nofun nofun

theorem load_save_escaped :
    let p : Program := [.loop (-2) [.define "'\"\\\r\n\x01😀" [.act (.setPosition (-3) 40)]],
      .play "\r"]
    3 * p.depth ≤ maxTextDepth ∧ read "a/p.json" p.write = .ok p ∧
      ∃ t', (save FileTree.disk "a/p.json" p).run {} = (.ok (), t') ∧
        (load FileTree.disk "a/p.json").run t' = (.ok p, t') := by
  intro p
  have hd : 3 * p.depth ≤ maxTextDepth := by decide
  have hs : ∃ t', (save FileTree.disk "a/p.json" p).run {} = (.ok (), t') := ⟨_, rfl⟩
  obtain ⟨t', ht⟩ := hs
  exact ⟨hd, ((load_save p).1 _).2 hd, t', ht, ((load_save p).2 _ _ _ ht).2 hd⟩

end Program

end TurtlePlot
