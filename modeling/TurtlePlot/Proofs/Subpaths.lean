import TurtlePlot.Proofs.ExactDouble
import TurtlePlot.Proofs.Ink

/-!
Paths and the strokes that they come from. Each visible stroke is one part of the path, and cutting
the path at its moves gives these strokes back. Strokes that leave no mark change nothing, wherever
they stand, and where a path is placed does not decide whether it is closed.
-/

namespace TurtlePlot

namespace Path

theorem splitAtMoves_lines (points : List Point) (rest : Path) :
    splitAtMoves (points.map .lineTo ++ rest) =
      (points ++ rest.splitAtMoves.1, rest.splitAtMoves.2) := by
  induction points with
  | nil => rfl
  | cons p points ih =>
    rw [List.map_cons, List.cons_append, splitAtMoves, ih]
    rfl

/-- Cutting the parts of strokes at their moves gives the strokes back. -/
theorem splitAtMoves_strokes {strokes : List Stroke} {rest : Path} (h : [] ∉ strokes)
    (hr : rest.splitAtMoves = ([], [])) :
    splitAtMoves (strokes.flatMap ofStroke ++ rest) = ([], strokes) := by
  induction strokes with
  | nil => exact hr
  | cons stroke strokes ih =>
    rw [List.mem_cons, not_or] at h
    cases stroke with
    | nil => exact absurd rfl h.1
    | cons start points =>
      rw [List.flatMap_cons, List.append_assoc, ofStroke, List.cons_append, splitAtMoves,
        splitAtMoves_lines, ih h.2, List.append_nil]

theorem subpaths?_ofStrokes (strokes : List Stroke) (origin : Point) (flipY : Bool) :
    (ofStrokes strokes origin flipY).subpaths? = some (shown strokes origin flipY) := by
  have hr : splitAtMoves (if isOutline? (visible strokes) = some true then [.close] else []) =
      ([], []) := by
    split <;> rfl
  rw [subpaths?, ofStrokes_eq, splitAtMoves_strokes (nil_not_mem_shown strokes origin flipY) hr]

theorem points_ofStroke (stroke : Stroke) : (ofStroke stroke).points = stroke := by
  cases stroke with
  | nil => rfl
  | cons start rest =>
    have hr : points (rest.map .lineTo) = rest := by
      rw [points, List.filterMap_map]
      exact List.filterMap_some
    exact congrArg (start :: ·) hr

theorem points_ofStrokes (strokes : List Stroke) (origin : Point) (flipY : Bool) :
    (ofStrokes strokes origin flipY).points = (shown strokes origin flipY).flatten := by
  have hc : points (if isOutline? (visible strokes) = some true then [.close] else []) = [] := by
    split <;> rfl
  rw [ofStrokes_eq, points_append, hc, List.append_nil]
  induction shown strokes origin flipY with
  | nil => rfl
  | cons stroke more ih =>
    rw [List.flatMap_cons, points_append, points_ofStroke, ih, List.flatten_cons]

end Path

theorem Point.coincides_reflected (p q : Point) :
    p.reflected.coincides q.reflected = p.coincides q :=
  congrArg (p.x == q.x && ·) (Double.neg_beq_neg p.y q.y)

theorem visible_map (f : Point → Point) (strokes : List Stroke) :
    visible (strokes.map (·.map f)) = (visible strokes).map (·.map f) := by
  simp [visible, List.filter_map, Function.comp_def]

theorem isOutline?_map {f : Point → Point} (hf : ∀ p q, (f p).coincides (f q) = p.coincides q)
    (strokes : List Stroke) : isOutline? (strokes.map (·.map f)) = isOutline? strokes := by
  match strokes with
  | [] | [[]] | [[_]] => rfl
  | [start :: next :: rest] => simp [isOutline?, List.getLast?_cons, hf]
  | first :: second :: more => simp [isOutline?, List.getLast?_cons, Option.bind_map, hf]

theorem exists_isOutline? {strokes : List Stroke} (h : [] ∉ strokes) :
    ∃ closes, isOutline? strokes = some closes := by
  match strokes with
  | [] => exact ⟨false, rfl⟩
  | [[]] => exact absurd List.mem_cons_self h
  | [[_]] => exact ⟨true, rfl⟩
  | [start :: next :: rest] => exact ⟨_, rfl⟩
  | first :: second :: more =>
    cases first with
    | nil => exact absurd List.mem_cons_self h
    | cons start points =>
      cases hl : (second :: more).getLast (List.cons_ne_nil _ _) with
      | nil => exact absurd (List.mem_cons_of_mem _ (hl ▸ List.getLast_mem _)) h
      | cons last points' =>
        refine ⟨start.coincides last, ?_⟩
        rw [isOutline?, List.getLast?_eq_some_getLast (List.cons_ne_nil _ _), hl]
        · rfl
        all_goals simp

namespace Path

theorem isOutline?_visible (strokes : List Stroke) (origin : Point) (flipY : Bool) :
    isOutline? (visible strokes) = some (ofStrokes strokes origin flipY).isClosed := by
  have hn : [] ∉ visible strokes := fun h => absurd (mem_visible.1 h).2 (by decide)
  obtain ⟨closes, hc⟩ := exists_isOutline? hn
  rw [hc, Option.some.injEq, Bool.eq_iff_iff, isClosed_ofStrokes, hc, Option.some.injEq]

theorem ofStrokes_congr {strokes others : List Stroke} (h : visible strokes = visible others)
    (origin : Point) (flipY : Bool) :
    ofStrokes strokes origin flipY = ofStrokes others origin flipY := by
  rw [ofStrokes, h, ofStrokes]

/-- Pointing the y axis down is mirroring the strokes. -/
theorem ofStrokes_reflected (strokes : List Stroke) (origin : Point) :
    ofStrokes (strokes.map (·.map Point.reflected)) origin false =
      ofStrokes strokes origin true := by
  have hs : shown (strokes.map (·.map Point.reflected)) origin false =
      shown strokes origin true := by
    rw [shown, visible_map, List.map_map, shown]
    exact List.map_congr_left fun stroke _ => List.map_map
  rw [ofStrokes_eq, ofStrokes_eq, hs, visible_map, isOutline?_map Point.coincides_reflected]

/-- The path of strokes has one part for each stroke of two points or more, in order and in place: a
move to its start and lines to its other points. Nothing else is in it but one closing at its end,
if the strokes form an outline, which is decided for all strokes. Shorter strokes change nothing
wherever they stand, the place of the path does not change whether it is closed, and pointing the y
axis down is mirroring the strokes. -/
theorem parts_ofStrokes (strokes : List Stroke) (origin : Point) (flipY : Bool) :
    let path := ofStrokes strokes origin flipY
    let drawn := (strokes.filter (2 ≤ ·.length)).map (·.map (·.translate origin flipY))
    isOutline? (visible strokes) = some path.isClosed ∧
    path.subpaths? = some drawn ∧ path.points = drawn.flatten ∧
    (∃ parts : List Path,
      path = parts.flatten ++ (if path.isClosed then [.close] else []) ∧
      List.Forall₂ (fun stroke part => ∃ start rest, rest ≠ [] ∧ stroke = start :: rest ∧
        part = .moveTo start :: rest.map .lineTo) drawn parts) ∧
    (∀ before faint after, (∀ stroke ∈ faint, stroke.length < 2) →
      ofStrokes (before ++ faint ++ after) origin flipY =
        ofStrokes (before ++ after) origin flipY) ∧
    (∀ origin' flipY', (ofStrokes strokes origin' flipY').isClosed = path.isClosed) ∧
    ofStrokes strokes origin true =
      ofStrokes (strokes.map (·.map Point.reflected)) origin false := by
  intro path drawn
  have hv := isOutline?_visible strokes origin flipY
  refine ⟨hv, subpaths?_ofStrokes strokes origin flipY, points_ofStrokes strokes origin flipY,
    ⟨drawn.map ofStroke, ?_, ?_⟩, ?_, ?_, (ofStrokes_reflected strokes origin).symm⟩
  · have hp : path = drawn.flatMap ofStroke ++ _ := ofStrokes_eq strokes origin flipY
    rw [hv, List.flatMap_def] at hp
    simp only [Option.some.injEq] at hp
    exact hp
  · rw [List.forall₂_map_right_iff, List.forall₂_same]
    intro stroke hs
    obtain ⟨original, ho, rfl⟩ := List.mem_map.1 hs
    obtain ⟨start, inner, finish, rfl⟩ := exists_ends (mem_visible.1 ho).2
    exact ⟨_, _, by simp, rfl, rfl⟩
  · intro before faint after hf
    have hn : faint.filter (2 ≤ ·.length) = [] := by simpa using hf
    exact ofStrokes_congr (by simp [visible, hn]) origin flipY
  · intro origin' flipY'
    exact Option.some.inj ((isOutline?_visible strokes origin' flipY').symm.trans hv)

theorem parts_ofStrokes_faint :
    let strokes : List Stroke := [[⟨0, 0⟩, ⟨1, 2⟩], [⟨-0, 0⟩, ⟨3, 1⟩]]
    let faint : List Stroke := [[⟨9, 9⟩], []]
    let path : Path := [.moveTo ⟨5, 5⟩, .lineTo ⟨6, 3⟩, .moveTo ⟨5, 5⟩, .lineTo ⟨8, 4⟩, .close]
    (∀ stroke ∈ faint, stroke.length < 2) ∧ ofStrokes ([] :: strokes ++ faint) ⟨5, 5⟩ true = path ∧
      path.subpaths? = some [[⟨5, 5⟩, ⟨6, 3⟩], [⟨5, 5⟩, ⟨8, 4⟩]] := by
  intro strokes faint path
  have hf : ∀ stroke ∈ faint, stroke.length < 2 := by decide
  obtain ⟨-, hs, -, -, hn, -⟩ := parts_ofStrokes ([] :: strokes) ⟨5, 5⟩ true
  have hp : ofStrokes ([] :: strokes) ⟨5, 5⟩ true = path := by decide +kernel
  have hp' : ofStrokes ([] :: strokes ++ faint) ⟨5, 5⟩ true = path := by
    have ha := hn ([] :: strokes) faint [] hf
    rw [List.append_nil, List.append_nil] at ha
    exact ha.trans hp
  refine ⟨hf, hp', ?_⟩
  rw [← hp, hs]
  decide +kernel

end Path

end TurtlePlot
