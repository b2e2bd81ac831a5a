import TurtlePlot.Gcode
import TurtlePlot.Proofs.VisibleText
import TurtlePlot.Text.Split

/-!
The text of code as a plotter runs it, line by line. The plotter moves through the instructions of
the path in order and then goes home. It travels with the pen up and draws with the pen down, but
for the lines before the first move, and ends with the pen up. Where lines are broken besides at
line feeds does not matter, as long as nothing printable breaks them.
-/

namespace TurtlePlot

namespace Text

theorem splitOnP_intercalate {isBreak : Char → Bool} {separator : Char}
    (hs : isBreak separator = true) {first : List Char} {more : List (List Char)}
    (h : ∀ line ∈ first :: more, ∀ c ∈ line, isBreak c = false) :
    ([separator].intercalate (first :: more)).splitOnP isBreak = first :: more := by
  induction more generalizing first with
  | nil =>
    rw [List.intercalate_singleton]
    exact List.splitOnP_eq_singleton (h first List.mem_cons_self)
  | cons second more ih =>
    obtain ⟨hf, hm⟩ := List.forall_mem_cons.1 h
    rw [List.intercalate_cons_cons, List.append_assoc, List.singleton_append,
      List.splitOnP_append_cons_of_forall_mem hf separator hs, ih hm]

end Text

namespace Gcode

/-- A line that moves the plotter, with the coordinates as they are written. -/
inductive Motion where
  | travel (x y : List Char)
  | draw (x y : List Char)
deriving DecidableEq

def Motion.isDraw : Motion → Bool
  | .travel _ _ => false
  | .draw _ _ => true

/-- What follows a letter in the first word that starts with it. -/
def address (letter : Char) (words : List (List Char)) : List Char :=
  ((words.find? fun word => word.head? == some letter).getD []).tail

/-- The first word of a line says whether it is a motion, the words after it where to. -/
def Motion.ofLine? (line : List Char) : Option Motion :=
  match Text.pieces ' ' line with
  | ['G', '0'] :: words => some (.travel (address 'X' words) (address 'Y' words))
  | ['G', '1'] :: words => some (.draw (address 'X' words) (address 'Y' words))
  | _ => none

/-- Whether the pen is down after a line of text: servo lines say so at their end. -/
def penAfter (down : Bool) (line : List Char) : Bool :=
  if "M280".toList <+: line then
    if "; pen up".toList <:+ line then false
    else if "; pen down".toList <:+ line then true
    else down
  else down

/-- The motions of a plotter that runs lines of text, each with whether the pen was down. -/
def motions : (down : Bool) → List (List Char) → List (Motion × Bool)
  | _, [] => []
  | down, line :: rest =>
    ((Motion.ofLine? line).map (·, down)).toList ++ motions (penAfter down line) rest

end Gcode

def PathOp.moved? : PathOp → Option Point
  | .moveTo p => some p
  | .lineTo _ | .close => none

/-- The point of the latest move. -/
def Path.latest? (path : Path) : Option Point :=
  (path.filterMap PathOp.moved?).getLast?

/-- The points that lines are drawn to before the first move. -/
def Path.early (path : Path) : List Point :=
  Path.points (path.takeWhile fun op => op.moved?.isNone)

def Gcode.Motion.travelTo (p : Point) : Motion :=
  .travel (Decimal.fixed 2 p.x) (Decimal.fixed 2 p.y)

def Gcode.Motion.drawTo (p : Point) : Motion :=
  .draw (Decimal.fixed 2 p.x) (Decimal.fixed 2 p.y)

/-- What an instruction asks for after the ones before it, with whether the pen is to be down. A
closing draws to the point of the latest move; before the first move there is nothing to close, and
no pen was lowered. -/
def PathOp.motion? (before : Path) : PathOp → Option (Gcode.Motion × Bool)
  | .moveTo p => some (.travelTo p, false)
  | .lineTo p => some (.drawTo p, before.latest?.isSome)
  | .close => before.latest?.map fun start => (.drawTo start, true)

namespace PathOp

variable {op : PathOp} {before : Path} {m : Gcode.Motion × Bool}

theorem up_of_travel (h : op.motion? before = some m) (ht : m.1.isDraw = false) :
    m.2 = false := by
  cases op with
  | moveTo p =>
    obtain rfl := Option.some.inj h
    rfl
  | lineTo p =>
    obtain rfl := Option.some.inj h
    cases ht
  | close =>
    obtain ⟨start, -, rfl⟩ := Option.map_eq_some_iff.1 h
    cases ht

theorem down_of_draw (hb : before.latest?.isSome) (h : op.motion? before = some m)
    (hd : m.1.isDraw) : m.2 = true := by
  cases op with
  | moveTo p =>
    obtain rfl := Option.some.inj h
    cases hd
  | lineTo p =>
    obtain rfl := Option.some.inj h
    exact hb
  | close =>
    obtain ⟨start, -, rfl⟩ := Option.map_eq_some_iff.1 h
    rfl

end PathOp

namespace Path

/-- What instructions ask for, one by one, after the ones before them. -/
def motionsAfter (before : Path) : Path → List (Gcode.Motion × Bool)
  | [] => []
  | op :: rest => (op.motion? before).toList ++ motionsAfter (before ++ [op]) rest

def motions (path : Path) : List (Gcode.Motion × Bool) :=
  motionsAfter [] path

variable {before path : Path}

theorem latest?_append : latest? (before ++ path) = path.latest?.or before.latest? := by
  rw [latest?, List.filterMap_append, List.getLast?_append]
  rfl

theorem latest?_concat {op : PathOp} :
    latest? (before ++ [op]) = op.moved?.or before.latest? := by
  rw [latest?_append]
  cases op <;> rfl

theorem exists_op_of_mem {m : Gcode.Motion × Bool} (hm : m ∈ motionsAfter before path) :
    ∃ earlier op, PathOp.motion? (before ++ earlier) op = some m := by
  induction path generalizing before with
  | nil => cases hm
  | cons op path ih =>
    rw [motionsAfter, List.mem_append, Option.mem_toList] at hm
    obtain hm | hm := hm
    · exact ⟨[], op, by rwa [List.append_nil]⟩
    · obtain ⟨earlier, later, h⟩ := ih hm
      exact ⟨op :: earlier, later, by rwa [List.append_cons]⟩

/-- What is drawn with the pen up are the lines before the first move. -/
theorem filter_motionsAfter (h : before.latest? = none) :
    (motionsAfter before path).filter (fun m => m.1.isDraw && !m.2) =
      path.early.map fun p => (.drawTo p, false) := by
  induction path generalizing before with
  | nil => rfl
  | cons op path ih =>
    have hb (ho : op.moved? = none) : latest? (before ++ [op]) = none := by
      rw [latest?_concat, ho, h, Option.none_or]
    cases op with
    | moveTo p =>
      have hn : (motionsAfter (before ++ [PathOp.moveTo p]) path).filter
          (fun m => m.1.isDraw && !m.2) = [] := by
        refine List.filter_eq_nil_iff.2 fun m hm hu => ?_
        obtain ⟨hd, hu⟩ := Bool.and_eq_true_iff.1 hu
        obtain ⟨earlier, op, ho⟩ := exists_op_of_mem hm
        have hs : (latest? (before ++ [PathOp.moveTo p] ++ earlier)).isSome := by
          rw [latest?_append, latest?_append]
          cases earlier.latest? <;> rfl
        rw [PathOp.down_of_draw hs ho hd] at hu
        cases hu
      rw [motionsAfter, List.filter_append, hn]
      rfl
    | lineTo p =>
      rw [motionsAfter, List.filter_append, ih (hb rfl), PathOp.motion?, h]
      rfl
    | close =>
      rw [motionsAfter, List.filter_append, ih (hb rfl), PathOp.motion?, h]
      rfl

end Path

namespace Gcode

theorem Line.toList_text (line : Line) : line.text.toList =
    match line with
    | .comment text => "; ".toList ++ text.toList
    | .blank => []
    | .millimetres => "G21 ; mm".toList
    | .absolute => "G90 ; absolute".toList
    | .home => "G28 ; home".toList
    | .penUp angle =>
      "M280".toList ++ ((" P0 S".toList ++ (toString angle).toList ++ [' ']) ++ "; pen up".toList)
    | .penDown angle =>
      "M280".toList ++ ((" P0 S".toList ++ (toString angle).toList ++ [' ']) ++ "; pen down".toList)
    | .travel p speed =>
      "G0".toList ++ ' ' :: ((coordinates p).toList ++ ' ' :: 'F' :: (toString speed).toList)
    | .draw p speed =>
      "G1".toList ++ ' ' :: ((coordinates p).toList ++ ' ' :: 'F' :: (toString speed).toList)
    | .returnHome speed =>
      "G0".toList ++ " X0 Y0 F".toList ++ ((toString speed).toList ++ " ; return home".toList)
    | .motorsOff => "M84 ; motors off".toList := by
  cases line with
  | comment text => exact String.toList_append
  | penUp | penDown | travel | draw | returnHome =>
    simp only [text, String.toList_append, List.append_assoc]
    rfl
  | blank | millimetres | absolute | home | motorsOff => rfl

theorem toList_coordinates (p : Point) :
    (coordinates p).toList =
      'X' :: Decimal.fixed 2 p.x ++ ' ' :: 'Y' :: Decimal.fixed 2 p.y := by
  simp only [coordinates, String.toList_append, String.toList_ofList, List.append_assoc]
  rfl

theorem pieces_motion {kind x y : List Char} (hk : ' ' ∉ kind) (hx : ' ' ∉ x) (hy : ' ' ∉ y)
    (rest : List Char) :
    Text.pieces ' ' (kind ++ ' ' :: ('X' :: x ++ ' ' :: ('Y' :: y ++ ' ' :: rest))) =
      kind :: ('X' :: x) :: ('Y' :: y) :: Text.pieces ' ' rest := by
  have hx' : ' ' ∉ 'X' :: x := List.not_mem_cons_of_ne_of_not_mem (by decide) hx
  have hy' : ' ' ∉ 'Y' :: y := List.not_mem_cons_of_ne_of_not_mem (by decide) hy
  rw [Text.pieces_append_cons hk, Text.pieces_append_cons hx', Text.pieces_append_cons hy']

theorem pieces_coordinates {kind : List Char} (hk : ' ' ∉ kind) (p : Point) (rest : List Char) :
    Text.pieces ' ' (kind ++ ' ' :: ((coordinates p).toList ++ ' ' :: rest)) =
      kind :: ('X' :: Decimal.fixed 2 p.x) :: ('Y' :: Decimal.fixed 2 p.y) ::
        Text.pieces ' ' rest := by
  have hb (v : Float) : ' ' ∉ Decimal.fixed 2 v := (Decimal.visible_fixed 2 v).not_mem (by decide)
  rw [toList_coordinates, List.append_assoc]
  exact pieces_motion hk (hb p.x) (hb p.y) rest

theorem ofLine?_travel (p : Point) (speed : Int) :
    Motion.ofLine? (Line.travel p speed).text.toList =
      some (.travelTo p) := by
  rw [Motion.ofLine?, Line.toList_text, pieces_coordinates (by decide)]
  rfl

theorem ofLine?_draw (p : Point) (speed : Int) :
    Motion.ofLine? (Line.draw p speed).text.toList =
      some (.drawTo p) := by
  rw [Motion.ofLine?, Line.toList_text, pieces_coordinates (by decide)]
  rfl

theorem ofLine?_returnHome (speed : Int) :
    Motion.ofLine? (Line.returnHome speed).text.toList = some (.travel ['0'] ['0']) := by
  have ht : (Line.returnHome speed).text.toList =
      ['G', '0'] ++ ' ' :: ('X' :: ['0'] ++ ' ' :: ('Y' :: ['0'] ++ ' ' ::
        ('F' :: (toString speed).toList ++ " ; return home".toList))) :=
    Line.toList_text (.returnHome speed)
  rw [Motion.ofLine?, ht, pieces_motion (by decide) (by decide) (by decide)]
  rfl

theorem ofLine?_of_first (first : List Char) (hb : ' ' ∉ first) (ht : first ≠ ['G', '0'])
    (hd : first ≠ ['G', '1']) (rest : List Char) : Motion.ofLine? (first ++ ' ' :: rest) = none := by
  rw [Motion.ofLine?, Text.pieces_append_cons hb]
  split
  case h_1 h => exact absurd (List.cons.inj h).1 ht
  case h_2 h => exact absurd (List.cons.inj h).1 hd
  case h_3 => rfl

def Line.motion? : Line → Option Motion
  | .travel p _ => some (.travelTo p)
  | .draw p _ => some (.drawTo p)
  | .returnHome _ => some (.travel ['0'] ['0'])
  | _ => none

theorem ofLine?_text (line : Line) : Motion.ofLine? line.text.toList = line.motion? := by
  cases line with
  | travel p speed => exact ofLine?_travel p speed
  | draw p speed => exact ofLine?_draw p speed
  | returnHome speed => exact ofLine?_returnHome speed
  | comment text =>
    rw [Line.toList_text]
    exact ofLine?_of_first [';'] (by decide) (by decide) (by decide) _
  | penUp | penDown =>
    rw [Line.toList_text]
    exact ofLine?_of_first ['M', '2', '8', '0'] (by decide) (by decide) (by decide) _
  | blank | millimetres | absolute | home | motorsOff => decide

def Line.penAfter (down : Bool) : Line → Bool
  | .penUp _ => false
  | .penDown _ => true
  | _ => down

theorem penAfter_up (down : Bool) (before : List Char) :
    Gcode.penAfter down ("M280".toList ++ (before ++ "; pen up".toList)) = false := by
  have hu : "; pen up".toList <:+ "M280".toList ++ (before ++ "; pen up".toList) :=
    (List.suffix_append _ _).trans (List.suffix_append _ _)
  rw [Gcode.penAfter, if_pos (List.prefix_append _ _), if_pos hu]

theorem penAfter_down (down : Bool) (before : List Char) :
    Gcode.penAfter down ("M280".toList ++ (before ++ "; pen down".toList)) = true := by
  have hd : "; pen down".toList <:+ "M280".toList ++ (before ++ "; pen down".toList) :=
    (List.suffix_append _ _).trans (List.suffix_append _ _)
  have hu : ¬ "; pen up".toList <:+ "M280".toList ++ (before ++ "; pen down".toList) := fun h =>
    absurd (List.suffix_of_suffix_length_le h hd (by decide)) (by decide)
  rw [Gcode.penAfter, if_pos (List.prefix_append _ _), if_neg hu, if_pos hd]

theorem penAfter_text (down : Bool) (line : Line) :
    Gcode.penAfter down line.text.toList = line.penAfter down := by
  cases line with
  | penUp angle =>
    rw [Line.toList_text, penAfter_up]
    rfl
  | penDown angle =>
    rw [Line.toList_text, penAfter_down]
    rfl
  | travel | draw | returnHome | comment =>
    rw [Line.toList_text]
    rfl
  | blank | millimetres | absolute | home | motorsOff => rfl

def texts (lines : List Line) : List (List Char) :=
  lines.map fun line => line.text.toList

variable (down : Bool) (pen : PenSettings)

@[simp] theorem texts_append (first second : List Line) :
    texts (first ++ second) = texts first ++ texts second :=
  List.map_append

@[simp] theorem motions_texts_cons (line : Line) (lines : List Line) (rest : List (List Char)) :
    motions down (texts (line :: lines) ++ rest) =
      (line.motion?.map (·, down)).toList ++ motions (line.penAfter down) (texts lines ++ rest) := by
  rw [texts, List.map_cons, List.cons_append, motions, ofLine?_text, penAfter_text]
  rfl

@[simp] theorem motions_texts_nil (rest : List (List Char)) :
    motions down (texts [] ++ rest) = motions down rest :=
  rfl

theorem motions_header (comment : String) (rest : List (List Char)) :
    motions down (texts (header pen comment) ++ rest) = motions false rest := by
  unfold header
  split <;> simp [Line.motion?, Line.penAfter]

theorem motions_lift (start? : Option Point) (rest : List (List Char)) :
    motions start?.isSome (texts (if start?.isSome then lift pen else []) ++ rest) =
      motions false rest := by
  cases start? with
  | none => rfl
  | some start => simp [lift, Line.motion?, Line.penAfter]

theorem motions_body (before path : Path) (rest : List (List Char)) :
    motions before.latest?.isSome (texts (body pen before.latest? path) ++ rest) =
      Path.motionsAfter before path ++ motions false rest := by
  induction path generalizing before with
  | nil =>
    cases before.latest? with
    | none => rfl
    | some start => exact motions_lift pen (some start) rest
  | cons op path ih =>
    specialize ih (before ++ [op])
    cases op with
    | moveTo p =>
      rw [Path.latest?_concat, PathOp.moved?, Option.some_or, Option.isSome_some] at ih
      rw [body, texts_append, List.append_assoc, motions_lift]
      simp only [motions_texts_cons, Line.motion?, Line.penAfter, ih, Path.motionsAfter,
        PathOp.motion?]
      rfl
    | lineTo p =>
      rw [Path.latest?_concat, PathOp.moved?, Option.none_or] at ih
      simp only [body, motions_texts_cons, Line.motion?, Line.penAfter, ih, Path.motionsAfter,
        PathOp.motion?]
      rfl
    | close =>
      rw [Path.latest?_concat, PathOp.moved?, Option.none_or] at ih
      rw [Path.motionsAfter, PathOp.motion?, List.append_assoc, ← ih]
      cases hs : before.latest? with
      | none => simp [body]
      | some start => simp [body, Line.motion?, Line.penAfter, Motion.drawTo]

theorem motions_footer : motions down (texts (footer pen)) = [(.travel ['0'] ['0'], down)] := by
  rw [← List.append_nil (texts (footer pen)), footer]
  simp only [motions_texts_cons, motions_texts_nil, Line.motion?, Line.penAfter]
  rfl

theorem motions_lines (path : Path) (comment : String) :
    motions down (texts (lines pen path comment)) =
      path.motions ++ [(Motion.travel ['0'] ['0'], false)] := by
  have hb := motions_body pen [] path (texts (footer pen))
  rw [motions_footer] at hb
  rw [lines, texts_append, texts_append, List.append_assoc, motions_header]
  exact hb

/-- The footer lifts the pen, whatever is before it. -/
theorem penAfter_lines (path : Path) (comment : String) :
    (texts (lines pen path comment)).foldl penAfter down = false := by
  rw [lines, texts_append, List.foldl_append]
  generalize (texts (header pen comment ++ body pen none path)).foldl penAfter down = d
  simp [texts, footer, penAfter_text, Line.penAfter]

section Breaks

variable {isBreak : Char → Bool} {comment : String}

theorem isBreak_of_all (hp : ∀ c, ' ' ≤ c → c ≤ '~' → isBreak c = false) {text : List Char}
    (h : text.all (fun c => ' ' ≤ c && c ≤ '~') = true) : ∀ c ∈ text, isBreak c = false := by
  intro c hm
  have hr : ' ' ≤ c ∧ c ≤ '~' := by simpa using List.all_eq_true.1 h c hm
  exact hp c hr.1 hr.2

theorem isBreak_of_mem_text (hp : ∀ c, ' ' ≤ c → c ≤ '~' → isBreak c = false) {line : Line}
    (hc : ∀ text, line = .comment text → ∀ c ∈ text.toList, isBreak c = false) :
    ∀ c ∈ line.text.toList, isBreak c = false := by
  have hk := @isBreak_of_all _ hp
  have hv {text : List Char} (h : Text.Visible text) : ∀ c ∈ text, isBreak c = false :=
    fun c hm => hp c (Std.le_of_lt (h c hm).1) (h c hm).2
  have hi (n : Int) := hv (Text.visible_toString n)
  have hx (p : Point) : ∀ c ∈ (coordinates p).toList, isBreak c = false := by
    simp only [coordinates, String.toList_append, String.toList_ofList, List.forall_mem_append]
    exact ⟨⟨⟨hk (by decide), hv (Decimal.visible_fixed 2 p.x)⟩, hk (by decide)⟩,
      hv (Decimal.visible_fixed 2 p.y)⟩
  cases line with
  | comment text =>
    simp only [Line.toList_text, List.forall_mem_append]
    exact ⟨hk (by decide), hc text rfl⟩
  | penUp angle | penDown angle =>
    simp only [Line.toList_text, List.forall_mem_append]
    exact ⟨hk (by decide), ⟨⟨hk (by decide), hi angle⟩, hk (by decide)⟩, hk (by decide)⟩
  | travel p speed | draw p speed =>
    simp only [Line.toList_text, List.forall_mem_append, List.forall_mem_cons]
    exact ⟨hk (by decide), hp ' ' (by decide) (by decide), hx p, hp ' ' (by decide) (by decide),
      hp 'F' (by decide) (by decide), hi speed⟩
  | returnHome speed =>
    simp only [Line.toList_text, List.forall_mem_append]
    exact ⟨⟨hk (by decide), hk (by decide)⟩, hi speed, hk (by decide)⟩
  | blank | millimetres | absolute | home | motorsOff => exact hk (by decide)

theorem comment_not_mem_body (pen : PenSettings) (start? : Option Point) (path : Path)
    (text : String) : Line.comment text ∉ body pen start? path := by
  have hl : Line.comment text ∉ lift pen := by simp [lift]
  fun_induction body pen start? path with
  | case1 => exact List.not_mem_nil
  | case2 => exact hl
  | case3 start? p rest ih =>
    refine List.not_mem_append ?_ (by simpa using ih)
    split
    · exact hl
    · exact List.not_mem_nil
  | case4 start? p rest ih => simpa using ih
  | case5 rest ih => exact ih
  | case6 rest start ih => simpa using ih

theorem eq_of_comment_mem {pen : PenSettings} {path : Path} {text : String}
    (h : Line.comment text ∈ lines pen path comment) : text = comment ∨ text = "turtlebuilder" := by
  have hb := comment_not_mem_body pen none path text
  have hh : Line.comment text ∈ header pen comment := by
    simpa [lines, footer, hb] using h
  unfold header at hh
  split at hh
  · right; simpa using hh
  · simpa using hh

theorem splitOnP_code (hn : isBreak '\n' = true)
    (hp : ∀ c, ' ' ≤ c → c ≤ '~' → isBreak c = false)
    (hc : ∀ c ∈ comment.toList, isBreak c = false) (pen : PenSettings) (path : Path) :
    (code path pen comment).toList.splitOnP isBreak = texts (lines pen path comment) := by
  have hb : ∀ text ∈ texts (lines pen path comment), ∀ c ∈ text, isBreak c = false := by
    refine List.forall_mem_map.2 fun line hl => isBreak_of_mem_text hp ?_
    rintro text rfl
    obtain rfl | rfl := eq_of_comment_mem hl
    · exact hc
    · exact isBreak_of_all hp (by decide)
  have hl : (code path pen comment).toList = ['\n'].intercalate (texts (lines pen path comment)) := by
    rw [code, String.toList_intercalate, List.map_map]
    rfl
  have hs : texts (lines pen path comment) ≠ [] := by
    rw [lines, texts_append]
    exact List.append_ne_nil_of_right_ne_nil _ (List.cons_ne_nil _ _)
  obtain ⟨first, more, hf⟩ := List.exists_cons_of_ne_nil hs
  rw [hf] at hb
  rw [hl, hf]
  exact Text.splitOnP_intercalate hn hb

/-- Running the code of a path line by line does what the path asks for, in order, and then goes
home. Travels have the pen up; what is drawn with the pen up are the lines before the first move;
the pen ends up. -/
theorem motions_code (hn : isBreak '\n' = true) (hp : ∀ c, ' ' ≤ c → c ≤ '~' → isBreak c = false)
    (hc : ∀ c ∈ comment.toList, isBreak c = false) (path : Path) (pen : PenSettings)
    (down : Bool) :
    let lines := (code path pen comment).toList.splitOnP isBreak
    motions down lines = path.motions ++ [(.travel ['0'] ['0'], false)] ∧
      (∀ m ∈ motions down lines, m.1.isDraw = false → m.2 = false) ∧
      (motions down lines).filter (fun m => m.1.isDraw && !m.2) =
        path.early.map (fun p => (.drawTo p, false)) ∧
      lines.foldl penAfter down = false := by
  intro lines
  have hl : lines = texts (Gcode.lines pen path comment) := splitOnP_code hn hp hc pen path
  rw [hl, motions_lines, penAfter_lines]
  refine ⟨rfl, fun m hm ht => ?_, ?_, rfl⟩
  · obtain hm | hm := List.mem_append.1 hm
    · obtain ⟨earlier, op, ho⟩ := Path.exists_op_of_mem hm
      exact PathOp.up_of_travel ho ht
    · obtain rfl := List.mem_singleton.1 hm
      rfl
  · rw [List.filter_append, Path.motions, Path.filter_motionsAfter rfl]
    exact List.append_nil _

theorem motions_code_parts :
    let breaks := ['\n', '\r', '\x0b', '\x0c', '\x1c', '\x1d', '\x1e', '\x85', '\u2028', '\u2029']
    let path : Path :=
      [.close, .lineTo ⟨1, 1⟩, .moveTo ⟨2, 0.5⟩, .lineTo ⟨3, 0⟩, .moveTo ⟨-4, 0⟩, .close]
    let lines := (code path {} "M280 é ; pen down").toList.splitOnP (breaks.contains ·)
    motions true lines =
        [(.draw "1.00".toList "1.00".toList, false), (.travel "2.00".toList "0.50".toList, false),
          (.draw "3.00".toList "0.00".toList, true), (.travel "-4.00".toList "0.00".toList, false),
          (.draw "-4.00".toList "0.00".toList, true), (.travel ['0'] ['0'], false)] ∧
      lines.foldl penAfter true = false := by
  intro breaks path lines
  have hb : breaks.all (fun c => c < ' ' || '~' < c) = true := by decide
  have hp : ∀ c, ' ' ≤ c → c ≤ '~' → breaks.contains c = false := by
    intro c hl hu
    refine Bool.eq_false_iff.2 fun hc => ?_
    have hr : c < ' ' ∨ '~' < c := by
      simpa using List.all_eq_true.1 hb c (List.contains_iff_mem.1 hc)
    exact hr.elim (Char.not_lt.2 hl) (Char.not_lt.2 hu)
  have hc : ∀ c ∈ "M280 é ; pen down".toList, breaks.contains c = false := by
    have hm : "M280 é ; pen down".toList.all (fun c => !breaks.contains c) = true := by decide
    simpa using hm
  obtain ⟨hm, -, -, hd⟩ := motions_code (by decide) hp hc path {} true
  refine ⟨hm.trans ?_, hd⟩
  decide +kernel

end Breaks

end Gcode

end TurtlePlot
