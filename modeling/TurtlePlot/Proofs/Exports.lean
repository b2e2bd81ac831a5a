import TurtlePlot.CommandLine.Run
import TurtlePlot.Proofs.Ink
import TurtlePlot.Proofs.Limits
import TurtlePlot.Proofs.Magnitude
import TurtlePlot.Proofs.Markup
import TurtlePlot.Proofs.Plotting
import TurtlePlot.Proofs.Strokes
import TurtlePlot.Proofs.Subpaths

/-!
The numbers of exports. Each is written for one double and is in plain notation exactly if that
double is finite; nothing on the way from settings and program to an export asks for that. Points of
strokes are finite unless the turtle walked forward out of the range of doubles.
-/

namespace TurtlePlot

def Point.IsFinite (p : Point) : Prop :=
  p.x.isFinite ∧ p.y.isFinite

instance : DecidablePred Point.IsFinite :=
  fun p => inferInstanceAs (Decidable (p.x.isFinite ∧ p.y.isFinite))

/-- Texts are plain numbers, or at least names of doubles that are none. -/
def Decimal.Written (text : List Char) : Prop :=
  Plain text ∨ text ∈ names

namespace Decimal

variable (places : Nat) (x : Float)

theorem written_fixed : Written (fixed places x) := by
  by_cases hx : x.isFinite
  · exact .inl (plain_fixed places hx)
  · exact .inr (fixed_mem_names places hx)

theorem written_rounded : Written (rounded places x) := by
  by_cases hx : x.isFinite
  · exact .inl (plain_rounded places hx)
  · exact .inr (rounded_mem_names places hx)

end Decimal

namespace Svg

/-- The coordinates in one word of path data. -/
def wordTexts : List Char → List (List Char)
  | 'M' :: p | 'L' :: p => Text.pieces ',' p
  | _ => []

/-- The coordinates in path data, as they are written. -/
def coordinateTexts (data : String) : List (List Char) :=
  (Text.pieces ' ' data.toList).flatMap wordTexts

/-- The numbers in the second tag of a document that show the canvas. -/
def canvasTexts (document : String) : List (List Char) :=
  match scan? document.toList with
  | some (_ :: canvas :: _) =>
    ["viewBox", "width", "height"].flatMap fun name =>
      Text.pieces ' ' ((canvas.attributes.lookup name).getD "").toList
  | _ => []

variable (path : Path) (canvas : Canvas) (style : Style) (title : String) (places : Nat)

theorem comma_not_mem_rounded (x : Float) : ',' ∉ Decimal.rounded places x := by
  have hd (c : Char) (hc : c.isDigit) : (c != ',') = true := by
    rw [bne_iff_ne]
    rintro rfl
    cases hc
  exact not_mem_of_all (Decimal.all_rounded places hd rfl rfl rfl x) rfl

theorem pieces_words {words : List String} (hw : words ≠ [])
    (hb : ∀ word ∈ words, ' ' ∉ word.toList) :
    Text.pieces ' ' (" ".intercalate words).toList = words.map String.toList := by
  obtain ⟨first, more, rfl⟩ := List.exists_cons_of_ne_nil hw
  rw [String.toList_intercalate, List.map_cons]
  apply Text.pieces_intercalate
  rw [← List.map_cons]
  intro piece hp
  obtain ⟨word, hm, rfl⟩ := List.mem_map.1 hp
  exact hb word hm

theorem toList_coordinates (p : Point) : (coordinates places p).toList =
    Decimal.rounded places p.x ++ ',' :: Decimal.rounded places p.y := by
  simp only [coordinates, number, String.toList_append, String.toList_ofList, List.append_assoc]
  rfl

theorem wordTexts_pathWord (op : PathOp) : wordTexts (pathWord places op).toList =
    op.point?.toList.flatMap fun p =>
      [Decimal.rounded places p.x, Decimal.rounded places p.y] := by
  have hp (p : Point) : Text.pieces ',' (coordinates places p).toList =
      [Decimal.rounded places p.x, Decimal.rounded places p.y] := by
    rw [toList_coordinates, Text.pieces_append_cons (comma_not_mem_rounded places p.x),
      Text.pieces_of_not_mem (comma_not_mem_rounded places p.y)]
  cases op with
  | moveTo p | lineTo p =>
    rw [pathWord, String.toList_append]
    exact (hp p).trans (List.append_nil _).symm
  | close => exact (by rfl : wordTexts "Z".toList = [])

theorem pieces_pathData {path : Path} (h : path ≠ []) :
    Text.pieces ' ' (pathData path places).toList =
      path.map fun op => (pathWord places op).toList := by
  have hb : ∀ word ∈ path.map (pathWord places), ' ' ∉ word.toList := by
    intro word hw
    obtain ⟨op, -, rfl⟩ := List.mem_map.1 hw
    exact blank_not_mem_pathWord places op
  have hw : path.map (pathWord places) ≠ [] := mt List.map_eq_nil_iff.1 h
  rw [pathData, pieces_words hw hb, List.map_map]
  rfl

theorem coordinateTexts_pathData : coordinateTexts (pathData path places) =
    path.points.flatMap fun p => [Decimal.rounded places p.x, Decimal.rounded places p.y] := by
  cases path with
  | nil => rfl
  | cons op path =>
    rw [coordinateTexts, pieces_pathData places (List.cons_ne_nil op path), List.flatMap_map,
      Path.points, List.filterMap_eq_flatMap_toList, List.flatMap_assoc]
    apply List.flatMap_congr
    intro op _
    exact wordTexts_pathWord places op

theorem pieces_number (x : Float) :
    Text.pieces ' ' (number places x).toList = [Decimal.rounded places x] := by
  rw [number, String.toList_ofList]
  exact Text.pieces_of_not_mem (Decimal.blank_not_mem_rounded places x)

theorem pieces_viewBox : Text.pieces ' ' (viewBox canvas places).toList =
    [-canvas.margin, -canvas.margin, canvas.width + 2 * canvas.margin,
      canvas.height + 2 * canvas.margin].map (Decimal.rounded places) := by
  rw [viewBox, pieces_words]
  · simp only [List.map_cons, List.map_nil, number, String.toList_ofList]
  · exact List.cons_ne_nil _ _
  · intro word hw
    obtain ⟨x, -, rfl⟩ := List.mem_map.1 hw
    rw [number, String.toList_ofList]
    exact Decimal.blank_not_mem_rounded places x

theorem canvasTexts_document : canvasTexts (document path canvas style title) =
    [-canvas.margin, -canvas.margin, canvas.width + 2 * canvas.margin,
      canvas.height + 2 * canvas.margin, canvas.width, canvas.height].map
        (Decimal.rounded style.precision) := by
  have hs : scan? (document path canvas style title).toList =
      some (tags path canvas style title) := by
    rw [document_eq]
    exact scan?_written (tidy_tags path canvas style title)
  rw [canvasTexts, hs]
  simp [tags, canvasAttributes, List.lookup, pieces_number, pieces_viewBox]

theorem plain_pathData : (∀ text ∈ coordinateTexts (pathData path places), Decimal.Plain text) ↔
    ∀ p ∈ path.points, p.IsFinite := by
  rw [coordinateTexts_pathData, List.forall_mem_flatMap]
  apply forall₂_congr
  intro p _
  rw [List.forall_mem_cons, List.forall_mem_singleton, Decimal.plain_rounded_iff,
    Decimal.plain_rounded_iff]
  rfl

theorem plain_document : (∀ text ∈ canvasTexts (document path canvas style title),
    Decimal.Plain text) ↔ (canvas.width + 2 * canvas.margin).isFinite ∧
      (canvas.height + 2 * canvas.margin).isFinite := by
  rw [canvasTexts_document, List.forall_mem_map]
  simp only [Decimal.plain_rounded_iff, List.forall_mem_cons, Double.isFinite_neg]
  constructor
  · rintro ⟨-, -, hw, hh, -⟩
    exact ⟨hw, hh⟩
  · rintro ⟨hw, hh⟩
    obtain ⟨hwidth, hd⟩ := Double.isFinite_of_add hw
    have hm := (Double.isFinite_of_mul hd).2
    exact ⟨hm, hm, hw, hh, hwidth, (Double.isFinite_of_add hh).1, nofun⟩

theorem written_pathData :
    ∀ text ∈ coordinateTexts (pathData path places), Decimal.Written text := by
  rw [coordinateTexts_pathData, List.forall_mem_flatMap]
  intro p _
  rw [List.forall_mem_cons, List.forall_mem_singleton]
  exact ⟨Decimal.written_rounded places p.x, Decimal.written_rounded places p.y⟩

theorem written_document :
    ∀ text ∈ canvasTexts (document path canvas style title), Decimal.Written text := by
  rw [canvasTexts_document, List.forall_mem_map]
  intro x _
  exact Decimal.written_rounded style.precision x

end Svg

namespace Gcode

def Motion.texts : Motion → List (List Char)
  | .travel x y => [x, y]
  | .draw x y => [x, y]

/-- The coordinates in code, as they are written: the X and Y words of its motions. -/
def coordinateTexts (code : String) : List (List Char) :=
  ((code.toList.splitOnP (· == '\n')).filterMap Motion.ofLine?).flatMap Motion.texts

variable {pen : PenSettings} {start? : Option Point} {path : Path}

theorem plain_body (hs : ∀ start ∈ start?, start.IsFinite) :
    (∀ m ∈ (body pen start? path).filterMap Line.motion?, ∀ text ∈ m.texts, Decimal.Plain text) ↔
      ∀ p ∈ path.points, p.IsFinite := by
  have ht (p : Point) : (∀ text ∈ (Motion.travelTo p).texts, Decimal.Plain text) ↔ p.IsFinite := by
    rw [Motion.travelTo, Motion.texts, List.forall_mem_cons, List.forall_mem_singleton,
      Decimal.plain_fixed_iff, Decimal.plain_fixed_iff]
    rfl
  have hd (p : Point) : (∀ text ∈ (Motion.drawTo p).texts, Decimal.Plain text) ↔ p.IsFinite := ht p
  have hl : (lift pen).filterMap Line.motion? = [] := rfl
  induction path generalizing start? with
  | nil => cases start? <;> simp [body, hl, Path.points]
  | cons op path ih =>
    cases op with
    | moveTo p =>
      have hb : (body pen start? (.moveTo p :: path)).filterMap Line.motion? =
          .travelTo p :: (body pen (some p) path).filterMap Line.motion? := by
        cases start? with
        | none => rfl
        | some start => rfl
      have hp : Path.points (.moveTo p :: path) = p :: Path.points path := rfl
      rw [hb, hp, List.forall_mem_cons, List.forall_mem_cons, ht]
      apply and_congr_right
      intro hf
      apply ih
      intro start hm
      obtain rfl := Option.some.inj hm
      exact hf
    | lineTo p =>
      have hb : (body pen start? (.lineTo p :: path)).filterMap Line.motion? =
          .drawTo p :: (body pen start? path).filterMap Line.motion? := by
        cases start? with
        | none => rfl
        | some start => rfl
      have hp : Path.points (.lineTo p :: path) = p :: Path.points path := rfl
      rw [hb, hp, List.forall_mem_cons, List.forall_mem_cons]
      exact and_congr (hd p) (ih hs)
    | close =>
      have hp : Path.points (.close :: path) = Path.points path := rfl
      rw [hp]
      cases start? with
      | none => exact ih hs
      | some start =>
        have hb : (body pen (some start) (.close :: path)).filterMap Line.motion? =
            .drawTo start :: (body pen (some start) path).filterMap Line.motion? := rfl
        rw [hb, List.forall_mem_cons]
        exact (and_iff_right ((hd start).2 (hs start rfl))).trans (ih hs)

theorem coordinateTexts_lines {comment : String} (hc : '\n' ∉ comment.toList) :
    coordinateTexts (code path pen comment) =
      ((lines pen path comment).filterMap Line.motion?).flatMap Motion.texts := by
  have hp (c : Char) (hl : ' ' ≤ c) (_ : c ≤ '~') : (c == '\n') = false := by
    rw [beq_eq_false_iff_ne]
    rintro rfl
    exact absurd hl (by decide)
  have hc (c : Char) (hm : c ∈ comment.toList) : (c == '\n') = false := by
    rw [beq_eq_false_iff_ne]
    rintro rfl
    exact hc hm
  have hm : (fun line : Line => Motion.ofLine? line.text.toList) = Line.motion? :=
    funext ofLine?_text
  rw [coordinateTexts, splitOnP_code rfl hp hc, texts, List.filterMap_map, Function.comp_def, hm]

theorem coordinateTexts_code {comment : String} (hc : '\n' ∉ comment.toList) :
    coordinateTexts (code path pen comment) =
      ((body pen none path).filterMap Line.motion?).flatMap Motion.texts ++ [['0'], ['0']] := by
  have hh : (header pen comment).filterMap Line.motion? = [] := by
    unfold header
    split <;> rfl
  rw [coordinateTexts_lines hc, lines, List.filterMap_append, List.filterMap_append, hh,
    List.flatMap_append]
  rfl

theorem plain_code {comment : String} (hc : '\n' ∉ comment.toList) :
    (∀ text ∈ coordinateTexts (code path pen comment), Decimal.Plain text) ↔
      ∀ p ∈ path.points, p.IsFinite := by
  have hz : Decimal.Plain ['0'] :=
    .whole false ⟨List.cons_ne_nil _ _, List.forall_mem_singleton.2 rfl⟩
  have hb : (∀ m ∈ (body pen none path).filterMap Line.motion?, ∀ text ∈ m.texts,
      Decimal.Plain text) ↔ ∀ p ∈ path.points, p.IsFinite := plain_body nofun
  rw [coordinateTexts_code hc, List.forall_mem_append, List.forall_mem_flatMap, hb]
  apply and_iff_left
  rw [List.forall_mem_cons, List.forall_mem_singleton]
  exact ⟨hz, hz⟩

theorem written_of_motion? {line : Line} {m : Motion} (h : line.motion? = some m) :
    ∀ text ∈ m.texts, Decimal.Written text := by
  have hz : Decimal.Written ['0'] :=
    .inl (.whole false ⟨List.cons_ne_nil _ _, List.forall_mem_singleton.2 rfl⟩)
  cases line with
  | travel p speed | draw p speed =>
    obtain rfl := Option.some.inj h
    exact List.forall_mem_cons.2 ⟨Decimal.written_fixed 2 p.x,
      List.forall_mem_singleton.2 (Decimal.written_fixed 2 p.y)⟩
  | returnHome speed =>
    obtain rfl := Option.some.inj h
    exact List.forall_mem_cons.2 ⟨hz, List.forall_mem_singleton.2 hz⟩
  | comment | blank | millimetres | absolute | home | penUp | penDown | motorsOff => cases h

theorem written_code {comment : String} (hc : '\n' ∉ comment.toList) :
    ∀ text ∈ coordinateTexts (code path pen comment), Decimal.Written text := by
  rw [coordinateTexts_lines hc, List.forall_mem_flatMap]
  intro m hm
  obtain ⟨line, -, hl⟩ := List.mem_filterMap.1 hm
  exact written_of_motion? hl

end Gcode

namespace Turtle

/-- The turtle stands at a finite point, and all points that it drew are finite. -/
structure InRange (t : Turtle) : Prop where
  position : t.position.IsFinite
  trail : ∀ stroke ∈ t.trail, ∀ p ∈ stroke, p.IsFinite

theorem InRange.moveTo {t : Turtle} (h : t.InRange) {p : Point} (hp : p.IsFinite) :
    (t.moveTo p).InRange := by
  constructor
  · rw [position_moveTo]
    exact hp
  · unfold Turtle.moveTo
    split
    case h_1 stroke older hd ht =>
      have hs := h.trail
      rw [ht, List.forall_mem_cons] at hs
      simp only [List.forall_mem_cons]
      exact ⟨⟨hp, hs.1⟩, hs.2⟩
    case h_2 => exact h.trail

theorem InRange.lowerPen {t : Turtle} (h : t.InRange) : t.lowerPen.InRange := by
  unfold Turtle.lowerPen
  split
  · exact h
  · constructor
    · exact h.position
    · simp only [List.forall_mem_cons]
      exact ⟨⟨h.position, nofun⟩, h.trail⟩

end Turtle

theorem nearestFloat_eq_ok {n : Int} {x : Float} (h : nearestFloat n = .ok x) : x.isFinite := by
  simp only [nearestFloat] at h
  split at h
  case isTrue hf =>
    obtain rfl := Except.ok.inj h
    exact hf
  case isFalse => cases h

section Run

variable {action : Action} {t t' : Turtle} {limits : Limits} {m : Move} {s s' : Session}

theorem Turtle.position_of_map {angle : Except NumberFault Float} {turned : Float → Float}
    (h : angle.map (fun a => t.face (turned a)) = .ok t') : t'.position = t.position := by
  cases angle with
  | error => cases h
  | ok a =>
    obtain rfl := Except.ok.inj h
    rfl

theorem Action.position_perform (h : action.perform t = .ok t') (ht : t.position.IsFinite)
    (hf : ∀ distance, action ≠ .forward distance) : t'.position.IsFinite := by
  cases action with
  | forward distance => exact absurd rfl (hf distance)
  | pass | penUp | resetHeading =>
    obtain rfl := Except.ok.inj h
    exact ht
  | penDown =>
    obtain rfl := Except.ok.inj h
    rw [Turtle.lowerPen]
    split
    · exact ht
    · exact ht
  | center =>
    obtain rfl := Except.ok.inj h
    rw [Turtle.position_moveTo]
    exact ⟨rfl, rfl⟩
  | setHeading degrees =>
    rw [Turtle.position_of_map h]
    exact ht
  | turn degrees =>
    rw [Turtle.position_of_map h]
    exact ht
  | setPosition x y =>
    rw [perform] at h
    cases hx : nearestFloat x with
    | error fault => rw [hx] at h; cases h
    | ok v =>
      cases hy : nearestFloat y with
      | error fault => rw [hx, hy] at h; cases h
      | ok w =>
        rw [hx, hy] at h
        obtain rfl := Except.ok.inj h
        split
        · exact ht
        · rw [Turtle.position_moveTo]
          exact ⟨nearestFloat_eq_ok hx, nearestFloat_eq_ok hy⟩

theorem Turtle.InRange.perform (h : action.perform t = .ok t') (ht : t.InRange)
    (hp : t'.position.IsFinite) : t'.InRange := by
  rcases Action.perform_cases h with ⟨-, rfl⟩ | ⟨-, rfl | rfl | ⟨heading, rfl⟩ | ⟨p, rfl⟩⟩
  · exact ht.lowerPen
  · exact ht
  · exact ⟨ht.position, ht.trail⟩
  · exact ⟨ht.position, ht.trail⟩
  · rw [Turtle.position_moveTo] at hp
    exact ht.moveTo hp

/-- Whether a deed walked forward from a finite point to one that is not. -/
def Deed.Strays (deed : Deed) : Prop :=
  (∃ distance, deed.move = .act (.forward distance)) ∧ deed.before.turtle.position.IsFinite ∧
    ¬ deed.outcome.session.turtle.position.IsFinite

theorem Move.Changes.inRange (h : Move.Changes s m s') (hs : s.turtle.InRange)
    (hd : ¬ Deed.Strays ⟨m, s, .done s'⟩) : s'.turtle.InRange := by
  cases h with
  | define | remark | enter | pass | leave => exact hs
  | @act action turtle ha =>
    apply hs.perform ha
    by_cases hf : ∃ distance, action = .forward distance
    · obtain ⟨distance, rfl⟩ := hf
      by_contra hp
      exact hd ⟨⟨distance, rfl⟩, hs.position, hp⟩
    · apply Action.position_perform ha hs.position
      intro distance he
      exact hf ⟨distance, he⟩

/-- A run whose deeds all stay in the range of doubles ends there. -/
theorem inRange_execute (limits : Limits) (agenda : List Task) (s : Session)
    (hs : s.turtle.InRange) (hd : ∀ deed ∈ (execute limits agenda s).journal, ¬ deed.Strays) :
    (execute limits agenda s).outcome.session.turtle.InRange := by
  induction agenda, s using execute_induction limits with
  | nil s =>
    rw [execute_nil]
    exact hs
  | done hm ih =>
    rw [execute_of_done hm, List.forall_mem_cons] at hd
    rw [execute_of_done hm]
    exact ih ((Move.changes_of_make hm).inRange hs hd.1) hd.2
  | @failed t rest s fault s' hm =>
    have ht : (s'.unwind rest).turtle = s.turtle := (Move.fails_of_make hm).turtle_eq
    rw [execute_of_failed hm]
    simp only [Outcome.session, ht]
    exact hs

end Run

theorem Path.forall_points_ofStrokes {P : Point → Prop} {strokes : List Stroke} {origin : Point}
    {flipY : Bool} : (∀ p ∈ (ofStrokes strokes origin flipY).points, P p) ↔
      ∀ stroke ∈ visible strokes, ∀ p ∈ stroke, P (p.translate origin flipY) := by
  rw [points_ofStrokes, shown, ← List.flatMap_def, List.forall_mem_flatMap]
  apply forall₂_congr
  intro stroke _
  exact List.forall_mem_map

/-- The points of a compiled program are finite, unless the turtle strayed on the way. -/
theorem Program.isFinite_of_compile {program : Program} {limits : Limits} {strokes : List Stroke}
    (h : (program.compile limits).strokes = .ok strokes)
    (hd : ∀ deed ∈ (execute limits.followed (program.map .command) {}).journal, ¬ deed.Strays) :
    ∀ stroke ∈ strokes, ∀ p ∈ stroke, p.IsFinite := by
  obtain ⟨s, hr, rfl⟩ := exists_run h
  have hs : Turtle.InRange {} := ⟨⟨rfl, rfl⟩, nofun⟩
  have ht := inRange_execute limits.followed (program.map .command) {} hs hd
  rw [execute_outcome, hr] at ht
  intro stroke hm p hp
  obtain ⟨drawn, hdr, rfl⟩ := List.mem_map.1 (List.mem_reverse.1 hm)
  exact ht.trail drawn hdr p (List.mem_reverse.1 hp)

/-- Each number of an export is plain exactly if the double that it is written for is finite, and
otherwise a name. Coordinates in documents are those of the points of visible strokes in the space of
the canvas, and in code those of the points as they were drawn, which are finite unless the turtle
strayed. -/
theorem Program.exports_plain {program : Program} {limits : Limits} {strokes : List Stroke}
    {comment : String} (h : (program.compile limits).strokes = .ok strokes)
    (hc : '\n' ∉ comment.toList) (canvas : Canvas) (style : Style) (title : String)
    (pen : PenSettings) :
    let path := CommandLine.canvasPath canvas strokes
    let origin := canvas.anchor.origin canvas.width canvas.height
    let coordinates := Svg.coordinateTexts (Svg.pathData path style.precision)
    let sizes := Svg.canvasTexts (Svg.document path canvas style title)
    let words := Gcode.coordinateTexts (Gcode.code (.ofStrokes strokes) pen comment)
    ((∀ text ∈ coordinates, Decimal.Plain text) ↔
      ∀ stroke ∈ visible strokes, ∀ p ∈ stroke, (p.translate origin canvas.flipY).IsFinite) ∧
    ((∀ text ∈ sizes, Decimal.Plain text) ↔
      (canvas.width + 2 * canvas.margin).isFinite ∧ (canvas.height + 2 * canvas.margin).isFinite) ∧
    ((∀ text ∈ words, Decimal.Plain text) ↔
      ∀ stroke ∈ visible strokes, ∀ p ∈ stroke, p.IsFinite) ∧
    (∀ text ∈ coordinates ++ sizes ++ words, Decimal.Written text) ∧
    ((∀ deed ∈ (execute limits.followed (program.map .command) {}).journal, ¬ deed.Strays) →
      ∀ stroke ∈ strokes, ∀ p ∈ stroke, p.IsFinite) := by
  intro path origin coordinates sizes words
  have ho (p : Point) : (p.translate .origin false).IsFinite ↔ p.IsFinite := by
    change (0 + p.x).isFinite ∧ (0 + p.y).isFinite ↔ _
    rw [Double.isFinite_zero_add, Double.isFinite_zero_add]
    rfl
  constructor
  · exact (Svg.plain_pathData path style.precision).trans Path.forall_points_ofStrokes
  constructor
  · exact Svg.plain_document path canvas style title
  constructor
  · apply (Gcode.plain_code hc).trans
    rw [Path.forall_points_ofStrokes]
    simp only [ho]
  constructor
  · rw [List.forall_mem_append, List.forall_mem_append]
    exact ⟨⟨Svg.written_pathData path style.precision,
      Svg.written_document path canvas style title⟩, Gcode.written_code hc⟩
  · exact isFinite_of_compile h

theorem Program.exports_plain_line :
    let program : Program := [.act .penDown, .act (.setPosition 3 4)]
    let canvas : Canvas := { width := 1.7e308, margin := 1e308 }
    let strokes : List Stroke := [[⟨0, 0⟩, ⟨3, 4⟩]]
    let path := CommandLine.canvasPath canvas strokes
    (program.compile {}).strokes = .ok strokes ∧
      (∀ text ∈ Svg.coordinateTexts (Svg.pathData path), Decimal.Plain text) ∧
      (∃ text ∈ Svg.canvasTexts (Svg.document path canvas {} "a"), text ∈ Decimal.names) ∧
      ∀ text ∈ Gcode.coordinateTexts (Gcode.code (.ofStrokes strokes) {} "a"),
        Decimal.Plain text := by
  intro program canvas strokes path
  have h : (program.compile {}).strokes = .ok strokes := by decide +kernel
  obtain ⟨hp, hs, hw, hn, -⟩ := exports_plain h (by decide : '\n' ∉ "a".toList) canvas {} "a" {}
  rw [List.forall_mem_append, List.forall_mem_append] at hn
  constructor
  · exact h
  constructor
  · apply hp.2
    decide +kernel
  constructor
  · by_contra hne
    obtain ⟨hf, -⟩ := hs.1 fun text ht =>
      (hn.1.2 text ht).resolve_right fun hm => hne ⟨text, ht, hm⟩
    exact absurd hf (by decide +kernel)
  · apply hw.2
    decide +kernel

/-- Settings and a program of finite numbers, and the names that an export shows for them. -/
theorem Program.exports_infinity :
    let settings : Settings := { canvas := { width := 1.7e308, margin := 1e308 } }
    let program : Program :=
      [.act (.setPosition (15 * 10 ^ 307) 0), .act .penDown, .act (.setPosition (15 * 10 ^ 307) 1)]
    let strokes : List Stroke := [[⟨1.5e308, 0⟩, ⟨1.5e308, 1⟩]]
    let path := CommandLine.canvasPath settings.canvas strokes
    settings.InBounds ∧ (program.compile settings.limits).strokes = .ok strokes ∧
      "inf".toList ∈ Svg.coordinateTexts (Svg.pathData path) ∧
      "inf".toList ∈ Svg.canvasTexts (Svg.document path settings.canvas) ∧
      ¬ Decimal.Plain "inf".toList := by
  intro settings program strokes path
  constructor
  · decide +kernel
  constructor
  · decide +kernel
  constructor
  · rw [Svg.coordinateTexts_pathData]
    decide +kernel
  constructor
  · rw [Svg.canvasTexts_document]
    decide +kernel
  · exact Decimal.not_plain_of_mem_names (by decide)

end TurtlePlot
