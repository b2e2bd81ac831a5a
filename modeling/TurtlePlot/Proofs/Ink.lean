import TurtlePlot.Gcode
import TurtlePlot.Proofs.Double
import TurtlePlot.Proofs.VisibleText
import TurtlePlot.Svg
import TurtlePlot.Text.Split

/-!
What is drawn. A plotter that runs the code of a path draws the lines of the path, and so does one
that reads its path data. An open path has just the lines of the visible strokes; the closing of a
closed one adds a line back to the start of the last stroke.
-/

namespace TurtlePlot

/-- The lines between points that follow each other. -/
def segments {α : Type} (points : List α) : List (α × α) :=
  points.zip points.tail

namespace Path

/-- The lines that a path draws. `pen?` holds where the latest move led and where the pen is;
nothing is drawn before the first move. -/
def drawnFrom : (pen? : Option (Point × Point)) → Path → List (Point × Point)
  | _, [] => []
  | _, .moveTo p :: rest => drawnFrom (some (p, p)) rest
  | some (start, here), .lineTo p :: rest => (here, p) :: drawnFrom (some (start, p)) rest
  | some (start, here), .close :: rest => (here, start) :: drawnFrom (some (start, start)) rest
  | none, _ :: rest => drawnFrom none rest

def drawn (path : Path) : List (Point × Point) :=
  drawnFrom none path

variable {start here : Point}

theorem drawnFrom_lines (start here : Point) (points : List Point) (rest : Path) :
    drawnFrom (some (start, here)) (points.map .lineTo ++ rest) =
      segments (here :: points) ++ drawnFrom (some (start, points.getLastD here)) rest := by
  induction points generalizing here with
  | nil => rfl
  | cons p points ih =>
    rw [List.map_cons, List.cons_append, drawnFrom, ih, List.getLastD_cons]
    rfl

theorem drawnFrom_ofStroke (pen? : Option (Point × Point)) (start : Point) (points : List Point)
    (rest : Path) :
    drawnFrom pen? (ofStroke (start :: points) ++ rest) =
      segments (start :: points) ++ drawnFrom (some (start, points.getLastD start)) rest := by
  rw [ofStroke, List.cons_append, drawnFrom, drawnFrom_lines]

/-- Strokes are drawn one after the other, whatever comes before and after them. -/
theorem exists_drawnFrom_strokes (pen? : Option (Point × Point)) {strokes : List Stroke}
    (h : [] ∉ strokes) :
    ∃ left?, ∀ rest, drawnFrom pen? (strokes.flatMap ofStroke ++ rest) =
      strokes.flatMap segments ++ drawnFrom left? rest := by
  induction strokes generalizing pen? with
  | nil => exact ⟨pen?, fun _ => rfl⟩
  | cons stroke strokes ih =>
    rw [List.mem_cons, not_or] at h
    cases stroke with
    | nil => exact absurd rfl h.1
    | cons start points =>
      obtain ⟨left?, hl⟩ := ih (some (start, points.getLastD start)) h.2
      refine ⟨left?, fun rest => ?_⟩
      rw [List.flatMap_cons, List.append_assoc, drawnFrom_ofStroke, hl, List.flatMap_cons,
        List.append_assoc]

end Path

namespace Gcode

/-- Where a line of code moves a plotter, if it does. -/
def Line.target? : Line → Option Point
  | .travel p _ | .draw p _ => some p
  | .home | .returnHome _ => some .origin
  | _ => none

/-- The lines that a plotter draws when it runs code: it leaves a mark wherever it moves with the
pen down. -/
def drawnFrom : (down : Bool) → (here : Point) → List Line → List (Point × Point)
  | _, _, [] => []
  | _, here, .penUp _ :: rest => drawnFrom false here rest
  | _, here, .penDown _ :: rest => drawnFrom true here rest
  | down, here, line :: rest =>
    match line.target? with
    | some p => (if down then [(here, p)] else []) ++ drawnFrom down p rest
    | none => drawnFrom down here rest

variable {pen : PenSettings} {down : Bool} {here : Point}

theorem drawnFrom_header (pen : PenSettings) (comment : String) (rest : List Line) :
    drawnFrom down here (header pen comment ++ rest) = drawnFrom false .origin rest := by
  unfold header
  split <;> rfl

theorem drawnFrom_body (pen : PenSettings) (start? : Option Point) (here : Point) (path : Path) :
    drawnFrom start?.isSome here (body pen start? path ++ footer pen) =
      Path.drawnFrom (start?.map (·, here)) path := by
  induction path generalizing start? here with
  | nil => cases start? <;> rfl
  | cons op path ih =>
    cases op with
    | moveTo p =>
      have hp := ih (some p) p
      cases start? with
      | none => exact hp
      | some start => exact hp
    | lineTo p =>
      cases start? with
      | none => exact ih none p
      | some start => exact congrArg ((here, p) :: ·) (ih (some start) p)
    | close =>
      cases start? with
      | none => exact ih none here
      | some start => exact congrArg ((here, start) :: ·) (ih (some start) start)

theorem drawnFrom_lines (pen : PenSettings) (comment : String) (down : Bool) (here : Point)
    (path : Path) : drawnFrom down here (lines pen path comment) = path.drawn := by
  rw [lines, List.append_assoc, drawnFrom_header]
  exact drawnFrom_body pen none .origin path

end Gcode

namespace Decimal

theorem blank_not_mem_rounded (places : Nat) (x : Float) : ' ' ∉ rounded places x := by
  have hf : ' ' ∉ fixed places (if x == 0 then 0 else x) :=
    (visible_fixed places _).not_mem (by decide)
  simp only [rounded]
  generalize fixed places (if x == 0 then 0 else x) = text at hf
  have ht : ' ' ∉ if '.' ∈ text then trimEnd '.' (trimEnd '0' text) else text := by
    split
    · exact fun h => hf (mem_of_mem_trimEnd (mem_of_mem_trimEnd h))
    · exact hf
  generalize (if '.' ∈ text then trimEnd '.' (trimEnd '0' text) else text) = trimmed at ht ⊢
  split
  · decide
  · exact ht

end Decimal

namespace Svg

/-- The lines that words of path data draw, between coordinates as they are written. -/
def drawnFrom : (pen? : Option (List Char × List Char)) → (words : List (List Char)) →
    List (List Char × List Char)
  | _, [] => []
  | pen?, word :: words =>
    match word, pen? with
    | 'M' :: p, _ => drawnFrom (some (p, p)) words
    | 'L' :: p, some (start, here) => (here, p) :: drawnFrom (some (start, p)) words
    | ['Z'], some (start, here) => (here, start) :: drawnFrom (some (start, start)) words
    | _, _ => drawnFrom pen? words

/-- The lines that path data draws. -/
def drawn (data : String) : List (List Char × List Char) :=
  drawnFrom none (Text.pieces ' ' data.toList)

def written (places : Nat) (p : Point) : List Char :=
  (coordinates places p).toList

theorem blank_not_mem_written (places : Nat) (p : Point) : ' ' ∉ written places p := by
  simp only [written, coordinates, number, String.toList_append, String.toList_ofList]
  refine List.not_mem_append (List.not_mem_append ?_ (by decide)) ?_
  · exact Decimal.blank_not_mem_rounded places p.x
  · exact Decimal.blank_not_mem_rounded places p.y

theorem blank_not_mem_pathWord (places : Nat) (op : PathOp) :
    ' ' ∉ (pathWord places op).toList := by
  cases op with
  | moveTo p | lineTo p =>
    rw [pathWord, String.toList_append]
    exact List.not_mem_append (by decide) (blank_not_mem_written places p)
  | close => exact (by decide : ' ' ∉ "Z".toList)

theorem drawnFrom_words (places : Nat) (pen? : Option (Point × Point)) (path : Path) :
    drawnFrom (pen?.map (Prod.map (written places) (written places)))
        (path.map fun op => (pathWord places op).toList) =
      (path.drawnFrom pen?).map (Prod.map (written places) (written places)) := by
  induction path generalizing pen? with
  | nil => cases pen? <;> rfl
  | cons op path ih =>
    cases op with
    | moveTo p =>
      rw [List.map_cons, pathWord, String.toList_append]
      exact ih (some (p, p))
    | lineTo p =>
      rw [List.map_cons, pathWord, String.toList_append]
      cases pen? with
      | none => exact ih none
      | some pen =>
        exact congrArg ((written places pen.2, written places p) :: ·) (ih (some (pen.1, p)))
    | close =>
      have hz : "Z".toList = ['Z'] := rfl
      rw [List.map_cons, pathWord, hz]
      cases pen? with
      | none => exact ih none
      | some pen =>
        exact congrArg ((written places pen.2, written places pen.1) :: ·)
          (ih (some (pen.1, pen.1)))

/-- The path data of a path draws its lines. -/
theorem drawn_pathData (path : Path) (places : Nat) :
    drawn (pathData path places) =
      path.drawn.map (Prod.map (written places) (written places)) := by
  have hw : drawnFrom none (path.map fun op => (pathWord places op).toList) =
      path.drawn.map (Prod.map (written places) (written places)) :=
    drawnFrom_words places none path
  have hb : ∀ word ∈ path.map fun op => (pathWord places op).toList, ' ' ∉ word :=
    List.forall_mem_map.2 fun op _ => blank_not_mem_pathWord places op
  have hl : (pathData path places).toList =
      [' '].intercalate (path.map fun op => (pathWord places op).toList) := by
    rw [pathData, String.toList_intercalate, List.map_map]
    rfl
  rw [drawn, hl]
  cases path with
  | nil => rfl
  | cons op path =>
    rw [List.map_cons] at hb hw ⊢
    rw [Text.pieces_intercalate hb, hw]

end Svg

namespace Point

/-- The same point, where zeros of either sign are one. -/
def Same (p q : Point) : Prop :=
  Double.Same p.x q.x ∧ Double.Same p.y q.y

variable {p q : Point}

theorem same_of_coincides (h : p.coincides q) : p.Same q := by
  obtain ⟨hx, hy⟩ := Bool.and_eq_true_iff.1 h
  exact ⟨Double.same_of_beq hx, Double.same_of_beq hy⟩

theorem Same.translate (h : p.Same q) (origin : Point) (flipY : Bool) :
    (p.translate origin flipY).Same (q.translate origin flipY) := by
  obtain ⟨hx, hy⟩ := h
  cases flipY with
  | false => exact ⟨hx.add_left origin.x, hy.add_left origin.y⟩
  | true => exact ⟨hx.add_left origin.x, hy.neg.add_left origin.y⟩

theorem Same.written_eq (h : p.Same q) (places : Nat) :
    Svg.written places p = Svg.written places q := by
  obtain ⟨hx, hy⟩ := h
  simp only [Svg.written, Svg.coordinates, Svg.number, hx.rounded_eq, hy.rounded_eq]

end Point

/-- The visible strokes, in a space with the given origin. -/
def shown (strokes : List Stroke) (origin : Point) (flipY : Bool) : List Stroke :=
  (visible strokes).map (·.map (·.translate origin flipY))

theorem exists_ends {stroke : Stroke} (h : 2 ≤ stroke.length) :
    ∃ start inner finish, stroke = start :: (inner ++ [finish]) := by
  cases stroke with
  | nil => cases h
  | cons start points =>
    rcases List.eq_nil_or_concat points with rfl | ⟨inner, finish, rfl⟩
    · exact absurd h (Nat.not_succ_le_self 1)
    · exact ⟨start, inner, finish, by rw [List.concat_eq_append]⟩

theorem coincides_of_outline {start finish : Point} {inner : List Point}
    (h : isOutline? [start :: (inner ++ [finish])] = some true) : start.coincides finish := by
  rw [isOutline?] at h
  · rw [List.getLast?_concat] at h
    exact Option.some.inj h
  · intro hn
    exact absurd hn (List.append_ne_nil_of_right_ne_nil _ (List.cons_ne_nil _ _))

namespace Path

variable {strokes : List Stroke} {origin : Point} {flipY : Bool}

theorem ofStrokes_eq (strokes : List Stroke) (origin : Point) (flipY : Bool) :
    ofStrokes strokes origin flipY = (shown strokes origin flipY).flatMap ofStroke ++
      if isOutline? (visible strokes) = some true then [PathOp.close] else [] := by
  rw [shown, List.flatMap_map]
  rfl

theorem nil_not_mem_shown (strokes : List Stroke) (origin : Point) (flipY : Bool) :
    [] ∉ shown strokes origin flipY := by
  intro h
  obtain ⟨stroke, hs, hn⟩ := List.mem_map.1 h
  obtain ⟨-, hl⟩ := mem_visible.1 hs
  rw [List.map_eq_nil_iff] at hn
  rw [hn] at hl
  exact absurd hl (by decide)

theorem close_not_mem_ofStroke (stroke : Stroke) : .close ∉ ofStroke stroke := by
  cases stroke with
  | nil => exact List.not_mem_nil
  | cons start points => simp [ofStroke]

theorem isClosed_ofStrokes (strokes : List Stroke) (origin : Point) (flipY : Bool) :
    (ofStrokes strokes origin flipY).isClosed = true ↔
      isOutline? (visible strokes) = some true := by
  rw [ofStrokes_eq, isClosed, beq_iff_eq]
  split
  case isTrue ho => exact iff_of_true List.getLast?_concat ho
  case isFalse ho =>
    refine iff_of_false (fun h => ?_) ho
    rw [List.append_nil] at h
    obtain ⟨stroke, -, hc⟩ := List.mem_flatMap.1 (List.mem_of_getLast? h)
    exact close_not_mem_ofStroke stroke hc

theorem drawn_of_open (h : (ofStrokes strokes origin flipY).isClosed = false) :
    (ofStrokes strokes origin flipY).drawn = (shown strokes origin flipY).flatMap segments := by
  have hn : ¬ isOutline? (visible strokes) = some true := by
    rw [← isClosed_ofStrokes strokes origin flipY, h]
    exact Bool.false_ne_true
  obtain ⟨left?, hl⟩ := exists_drawnFrom_strokes none (nil_not_mem_shown strokes origin flipY)
  have hd : drawnFrom left? [] = [] := by
    cases left? <;> rfl
  rw [ofStrokes_eq, if_neg hn, drawn, hl, hd, List.append_nil]

/-- The closing draws the line between the ends of the last stroke. -/
theorem drawn_close {strokes : List Stroke} {start finish : Point} {inner : List Point}
    (h : [] ∉ strokes) :
    drawn ((strokes ++ [start :: (inner ++ [finish])]).flatMap ofStroke ++ [PathOp.close]) =
      (strokes ++ [start :: (inner ++ [finish])]).flatMap segments ++ [(finish, start)] := by
  obtain ⟨left?, hl⟩ := exists_drawnFrom_strokes none h
  rw [drawn, List.flatMap_append, List.flatMap_singleton, List.append_assoc, hl,
    drawnFrom_ofStroke, List.getLastD_concat, List.flatMap_append, List.flatMap_singleton,
    List.append_assoc]
  rfl

theorem exists_last (h : (ofStrokes strokes origin flipY).isClosed = true) :
    ∃ start inner finish before,
      visible strokes = before ++ [start :: (inner ++ [finish])] ∧
      ofStrokes strokes origin flipY =
        (shown strokes origin flipY).flatMap ofStroke ++ [PathOp.close] ∧
      ((visible strokes).length = 1 → start.coincides finish) := by
  have ho := (isClosed_ofStrokes strokes origin flipY).1 h
  rcases List.eq_nil_or_concat (visible strokes) with hv | ⟨before, last, hv⟩
  · rw [hv] at ho
    cases ho
  · rw [List.concat_eq_append] at hv
    have hm : last ∈ visible strokes := by
      rw [hv]
      exact List.mem_append_right _ List.mem_cons_self
    obtain ⟨start, inner, finish, rfl⟩ := exists_ends (mem_visible.1 hm).2
    refine ⟨start, inner, finish, before, hv, by rw [ofStrokes_eq, if_pos ho], fun hl => ?_⟩
    rw [hv, List.length_append] at hl
    obtain rfl : before = [] := List.eq_nil_of_length_eq_zero (Nat.succ.inj hl)
    rw [hv] at ho
    exact coincides_of_outline ho

/-- What is drawn for strokes. An open path has exactly the lines of the visible strokes. The
closing of a closed one draws one line more, between the ends of the last visible stroke; if these
coincide, as they do when only one stroke is visible, it leads from a point to the same point. The
code and the path data draw what the path does. -/
theorem drawn_ofStrokes (strokes : List Stroke) (origin : Point) (flipY : Bool) :
    let path := ofStrokes strokes origin flipY
    let lines := (shown strokes origin flipY).flatMap segments
    (path.isClosed = false → path.drawn = lines) ∧
    (path.isClosed = true → ∃ start inner finish,
      (visible strokes).getLast? = some (start :: (inner ++ [finish])) ∧
      let first := start.translate origin flipY
      let last := finish.translate origin flipY
      (∃ before, path = before ++ .moveTo first ::
        (inner.map fun p => .lineTo (p.translate origin flipY)) ++ [.lineTo last, .close]) ∧
      path.drawn = lines ++ [(last, first)] ∧
      (start.coincides finish → first.Same last ∧
        ∀ places, Svg.written places first = Svg.written places last) ∧
      ((visible strokes).length = 1 → start.coincides finish)) ∧
    (∀ pen comment down here,
      Gcode.drawnFrom down here (Gcode.lines pen path comment) = path.drawn) ∧
    ∀ places, Svg.drawn (Svg.pathData path places) =
      path.drawn.map (Prod.map (Svg.written places) (Svg.written places)) := by
  intro path lines
  refine ⟨drawn_of_open, fun h => ?_, fun pen comment down here => ?_, Svg.drawn_pathData path⟩
  · obtain ⟨start, inner, finish, before, hv, hp, ho⟩ := exists_last h
    have hn := nil_not_mem_shown strokes origin flipY
    have hs : shown strokes origin flipY = before.map (·.map (·.translate origin flipY)) ++
        [start.translate origin flipY :: (inner.map (·.translate origin flipY) ++
          [finish.translate origin flipY])] := by
      simp only [shown, hv, List.map_append, List.map_cons, List.map_nil]
    rw [hs, List.mem_append, not_or] at hn
    refine ⟨start, inner, finish, ?_, ⟨(before.map (·.map (·.translate origin flipY))).flatMap
      ofStroke, ?_⟩, ?_, fun hc => ?_, ho⟩
    · rw [hv, List.getLast?_concat]
    · simp only [path, hp, hs, List.flatMap_append, List.flatMap_singleton, ofStroke,
        List.map_append, List.map_map, List.append_assoc, List.cons_append, List.map_cons,
        List.map_nil, List.nil_append]
      rfl
    · simp only [path, lines]
      rw [hp, hs, drawn_close hn.1]
    · have hf := (Point.same_of_coincides hc).translate origin flipY
      exact ⟨hf, hf.written_eq⟩
  · exact Gcode.drawnFrom_lines pen comment down here path

theorem drawn_ofStrokes_triangle :
    let closed : List Stroke := [[⟨0, 0⟩, ⟨4, 0⟩, ⟨0, 3⟩, ⟨0, 0⟩], [⟨9, 9⟩]]
    let opened : List Stroke := [[⟨0, 0⟩, ⟨4, 0⟩, ⟨0, 3⟩], [⟨9, 9⟩]]
    (ofStrokes closed ⟨1, 1⟩ true).isClosed = true ∧
      (ofStrokes opened ⟨1, 1⟩ true).isClosed = false ∧
      (∃ first last, first.Same last ∧ (ofStrokes closed ⟨1, 1⟩ true).drawn =
        (shown closed ⟨1, 1⟩ true).flatMap segments ++ [(last, first)]) ∧
      (ofStrokes opened ⟨1, 1⟩ true).drawn = [(⟨1, 1⟩, ⟨5, 1⟩), (⟨5, 1⟩, ⟨1, -2⟩)] := by
  intro closed opened
  have hc : (ofStrokes closed ⟨1, 1⟩ true).isClosed = true := by decide
  have ho : (ofStrokes opened ⟨1, 1⟩ true).isClosed = false := by decide
  obtain ⟨start, inner, finish, -, -, hd, hs, hl⟩ := (drawn_ofStrokes closed ⟨1, 1⟩ true).2.1 hc
  have hv : (visible closed).length = 1 := by decide
  refine ⟨hc, ho, ⟨_, _, (hs (hl hv)).1, hd⟩, ?_⟩
  rw [(drawn_ofStrokes opened ⟨1, 1⟩ true).1 ho]
  decide +kernel

/-- Two strokes from one point make a closed path, and its closing draws a line that neither of them
has: from the end of the second one back to its start. -/
theorem closing_adds_line :
    let strokes : List Stroke := [[⟨0, 0⟩, ⟨0, 10⟩], [⟨0, 0⟩, ⟨-10, 0⟩]]
    let path := ofStrokes strokes
    let lines := (shown strokes .origin false).flatMap segments
    path = [.moveTo ⟨0, 0⟩, .lineTo ⟨0, 10⟩, .moveTo ⟨0, 0⟩, .lineTo ⟨-10, 0⟩, .close] ∧
      path.isClosed = true ∧ (⟨-10, 0⟩ : Point).coincides ⟨0, 0⟩ = false ∧
      (⟨-10, 0⟩, ⟨0, 0⟩) ∉ lines ∧
      Gcode.drawnFrom false .origin (Gcode.lines {} path "") = lines ++ [(⟨-10, 0⟩, ⟨0, 0⟩)] ∧
      Svg.drawn (Svg.pathData path) = [("0,0".toList, "0,10".toList),
        ("0,0".toList, "-10,0".toList), ("-10,0".toList, "0,0".toList)] := by
  intro strokes path lines
  refine ⟨by decide, by decide, by decide, by decide, by decide, ?_⟩
  decide +kernel

end Path

end TurtlePlot
