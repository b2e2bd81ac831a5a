import TurtlePlot.Proofs.Plotting

/-!
The comment of code. It stands on the first line behind a semicolon, but the text is pasted in as it
is: where it has a line break of its own, what follows becomes a line of the program.
-/

namespace TurtlePlot.Gcode

/-- Whether a line tells the machine something. Remarks start with a semicolon. -/
def isMachine (line : List Char) : Bool :=
  line.head? != some ';'

/-- The lines of a text that tell the machine something. -/
def machineLines (isBreak : Char → Bool) (text : String) : List (List Char) :=
  (text.toList.splitOnP isBreak).filter isMachine

variable (path : Path) (pen : PenSettings) {comment : String} {isBreak : Char → Bool}

theorem isMachine_eq_false_iff {line : List Char} :
    isMachine line = false ↔ line.head? = some ';' := by
  rw [isMachine, bne_eq_false_iff_eq]

theorem toList_code (h : comment ≠ "") :
    (code path pen comment).toList =
      ';' :: ' ' :: comment.toList ++ '\n' :: (code path pen).toList := by
  have hl : lines pen path comment = .comment comment :: lines pen path "" := by
    simp [lines, header, h]
  have hr : lines pen path "" = .comment "turtlebuilder" :: (lines pen path "").tail := rfl
  have hc : (Line.comment comment).text.toList = ';' :: ' ' :: comment.toList := by
    rw [Line.toList_text]
    rfl
  rw [code, code, hl, String.toList_intercalate, String.toList_intercalate, List.map_cons,
    List.map_cons, hr, List.map_cons, List.map_cons, List.intercalate_cons_cons, hc,
    List.append_assoc]
  rfl

theorem splitOnP_code_comment (hn : isBreak '\n') (hs : isBreak ';' = false)
    (hb : isBreak ' ' = false) (h : comment ≠ "") {first : List Char} {more : List (List Char)}
    (hp : comment.toList.splitOnP isBreak = first :: more) :
    (code path pen comment).toList.splitOnP isBreak =
      (';' :: ' ' :: first) :: more ++ (code path pen).toList.splitOnP isBreak := by
  have hc : (';' :: ' ' :: comment.toList).splitOnP isBreak = (';' :: ' ' :: first) :: more := by
    rw [List.splitOnP_cons_eq_if_modifyHead, List.splitOnP_cons_eq_if_modifyHead, hs, hb, hp]
    rfl
  rw [toList_code path pen h, List.splitOnP_append_cons _ _ hn, hc]

/-- The lines of the machine are those that follow the line breaks of the comment, and then the ones
that there are without it. -/
theorem machineLines_eq (hn : isBreak '\n') (hs : isBreak ';' = false) (hb : isBreak ' ' = false)
    (comment : String) :
    machineLines isBreak (code path pen comment) =
      (comment.toList.splitOnP isBreak).tail.filter isMachine ++
        machineLines isBreak (code path pen) := by
  by_cases h : comment = ""
  · subst h
    rfl
  · obtain ⟨first, more, hp⟩ :=
      List.exists_cons_of_ne_nil (List.splitOnP_ne_nil isBreak comment.toList)
    have hf : ¬ isMachine (';' :: ' ' :: first) := Bool.false_ne_true
    rw [machineLines, splitOnP_code_comment path pen hn hs hb h hp, hp, List.cons_append,
      List.filter_cons_of_neg hf, List.filter_append]
    rfl

/-- A comment adds to the lines of the machine what follows its line breaks. Nothing is added, and
nothing changed, exactly if each of those lines starts with a semicolon of its own. -/
theorem machineLines_code (hn : isBreak '\n') (hs : isBreak ';' = false) (hb : isBreak ' ' = false)
    (path : Path) (pen : PenSettings) (comment : String) :
    let more := (comment.toList.splitOnP isBreak).tail
    machineLines isBreak (code path pen comment) =
        more.filter isMachine ++ machineLines isBreak (code path pen) ∧
      (machineLines isBreak (code path pen comment) = machineLines isBreak (code path pen) ↔
        ∀ line ∈ more, line.head? = some ';') := by
  intro more
  have hl := machineLines_eq path pen hn hs hb comment
  constructor
  · exact hl
  · rw [hl, List.append_left_eq_self, List.filter_eq_nil_iff]
    apply forall₂_congr
    intro line _
    rw [Bool.not_eq_true, isMachine_eq_false_iff]

theorem machineLines_code_source :
    let breaks := ['\n', '\r', '\x0b', '\x0c', '\x1c', '\x1d', '\x1e', '\x85', '\u2028', '\u2029']
    let isBreak := (breaks.contains ·)
    let path : Path := [.moveTo ⟨2, 0.5⟩, .lineTo ⟨3, 0⟩]
    machineLines isBreak (code path {} "Source: a\n;b\u2028G28") =
        "G28".toList :: machineLines isBreak (code path) ∧
      machineLines isBreak (code path {} "Source: a\n;b\u2028G28") ≠
        machineLines isBreak (code path) := by
  intro breaks isBreak path
  have hm : ((("Source: a\n;b\u2028G28".toList.splitOnP isBreak).tail).filter isMachine) =
      ["G28".toList] := by decide
  have hn : isBreak '\n' = true := rfl
  obtain ⟨hl, hc⟩ := machineLines_code hn rfl rfl path {} "Source: a\n;b\u2028G28"
  constructor
  · rw [hl, hm, List.singleton_append]
  · intro h
    have hr := hc.1 h "G28".toList (by decide)
    cases hr

/-- A comment of two lines, the second of which moves the plotter before the path does. -/
theorem comment_moves_plotter :
    let path : Path := [.moveTo ⟨0, 0⟩, .lineTo ⟨10, 0⟩]
    let plain := code path
    let pasted := code path {} "a\nG0 X99 Y99"
    machineLines (· == '\n') pasted ≠ machineLines (· == '\n') plain ∧
      motions false (pasted.toList.splitOnP (· == '\n')) =
        (.travel "99".toList "99".toList, false) ::
          motions false (plain.toList.splitOnP (· == '\n')) := by
  intro path plain pasted
  have hp : "a\nG0 X99 Y99".toList.splitOnP (· == '\n') = [['a'], "G0 X99 Y99".toList] := by decide
  constructor
  · intro h
    rw [machineLines_eq path {} rfl rfl rfl, List.append_left_eq_self, hp] at h
    cases h
  · have hm (rest : List (List Char)) :
        motions false ([';', ' ', 'a'] :: "G0 X99 Y99".toList :: rest) =
          (.travel "99".toList "99".toList, false) :: motions false rest := rfl
    rw [splitOnP_code_comment path {} rfl rfl rfl (by decide) hp, List.cons_append,
      List.singleton_append, hm]

end TurtlePlot.Gcode
