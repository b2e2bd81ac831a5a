import Mathlib.Data.List.Basic
import TurtlePlot.Proofs.PlainNumbers
import TurtlePlot.Svg
import TurtlePlot.Text.Split

/-!
Documents as a reader of markup sees them. It knows no more than that tags stand between angle
brackets, the values of attributes between double quotes, and four characters in entities. Whatever
the colours and the title say, it finds the tags that belong to the path and reads those texts back.
-/

namespace TurtlePlot.Svg

/-- The text that entities stand for. There is none if an ampersand starts no entity. -/
def decode? : List Char → Option (List Char)
  | [] => some []
  | '&' :: 'a' :: 'm' :: 'p' :: ';' :: rest => (decode? rest).map ('&' :: ·)
  | '&' :: 'l' :: 't' :: ';' :: rest => (decode? rest).map ('<' :: ·)
  | '&' :: 'g' :: 't' :: ';' :: rest => (decode? rest).map ('>' :: ·)
  | '&' :: 'q' :: 'u' :: 'o' :: 't' :: ';' :: rest => (decode? rest).map ('"' :: ·)
  | '&' :: _ => none
  | c :: rest => (decode? rest).map (c :: ·)

/-- The characters that make up tags. -/
def isMark (c : Char) : Bool :=
  c == '<' || c == '>' || c == '"'

def unmarked (text : List Char) : Bool :=
  text.all fun c => !isMark c

variable {c : Char} {text : List Char}

theorem not_mem_of_all {p : Char → Bool} (h : text.all p) (hc : p c = false) : c ∉ text := by
  intro hm
  rw [List.all_eq_true.1 h c hm] at hc
  cases hc

theorem decode?_entity (c : Char) (rest : List Char) :
    decode? (entity c ++ rest) = (decode? rest).map (c :: ·) := by
  unfold entity
  split
  case h_1 | h_2 | h_3 | h_4 => rfl
  case h_5 ha _ _ _ =>
    rw [List.singleton_append, decode?]
    all_goals
      intros
      exact ha ‹_›

theorem decode?_escaped (text : List Char) : decode? (text.flatMap entity) = some text := by
  induction text with
  | nil => rfl
  | cons c text ih => rw [List.flatMap_cons, decode?_entity, ih, Option.map_some]

theorem toList_escape (text : String) : (escape text).toList = text.toList.flatMap entity :=
  String.toList_ofList

theorem unmarked_entity (c : Char) : unmarked (entity c) := by
  unfold entity
  split
  case h_1 | h_2 | h_3 | h_4 => rfl
  case h_5 hl hg hq =>
    rw [unmarked, List.all_cons, isMark, beq_false_of_ne hl, beq_false_of_ne hg, beq_false_of_ne hq]
    rfl

theorem unmarked_escaped (text : List Char) : unmarked (text.flatMap entity) := by
  induction text with
  | nil => rfl
  | cons c text ih => rw [List.flatMap_cons, unmarked, List.all_append, ← unmarked, ← unmarked,
      unmarked_entity, ih, Bool.and_self]

/-- Characters that no entity stands for. -/
def isClean (c : Char) : Bool :=
  c != '&' && !isMark c

theorem entity_of_isClean (h : isClean c) : entity c = [c] := by
  unfold entity
  split
  case h_1 | h_2 | h_3 | h_4 => cases h
  case h_5 => rfl

theorem escaped_of_all (h : text.all isClean) : text.flatMap entity = text := by
  induction text with
  | nil => rfl
  | cons c text ih =>
    rw [List.all_cons, Bool.and_eq_true] at h
    rw [List.flatMap_cons, entity_of_isClean h.1, ih h.2, List.singleton_append]

/-- The text with `new` wherever `c` stands. -/
def replace (c : Char) (new text : List Char) : List Char :=
  text.flatMap fun d => if d = c then new else [d]

/-- The ampersands of the entities that later replacements put in are not replaced again, as theirs
is the first one. -/
theorem escape_eq_replaced (text : String) :
    (escape text).toList =
      replace '"' "&quot;".toList (replace '>' "&gt;".toList
        (replace '<' "&lt;".toList (replace '&' "&amp;".toList text.toList))) := by
  rw [toList_escape]
  simp only [replace, List.flatMap_assoc]
  apply List.flatMap_congr
  intro c _
  unfold entity
  split
  case h_1 | h_2 | h_3 | h_4 => rfl
  case h_5 ha hl hg hq =>
    simp only [if_neg ha, if_neg hl, if_neg hg, if_neg hq, List.flatMap_singleton]

/-- A tag with the text that stands between it and the next one. -/
structure Tag where
  /-- What the tag starts with, such as `svg`, `/svg` or `?xml`. -/
  name : String
  attributes : List (String × String)
  /-- What stands behind the attributes. -/
  closing : String
  after : String
deriving DecidableEq, Repr

/-- Names of tags and attributes. -/
def isNameChar (c : Char) : Bool :=
  c.isAlpha || c == '-' || c == '/' || c == '?'

def isName (name : String) : Bool :=
  name.toList.all isNameChar

/-- The name of an attribute: a blank stands before it and an equals sign behind it. -/
def label? : List Char → Option String
  | ' ' :: rest =>
    let name := rest.takeWhile isNameChar
    if rest = name ++ ['='] then some (String.ofList name) else none
  | _ => none

/-- The attributes in the pieces between double quotes, and the piece behind the last of them. -/
def attributes? : (pieces : List (List Char)) → Option (List (String × String) × String)
  | [] => none
  | [closing] => some ([], String.ofList closing)
  | label :: value :: more => do
    let name ← label? label
    let value ← decode? value
    let (attributes, closing) ← attributes? more
    return ((name, String.ofList value) :: attributes, closing)

/-- The tag that is in the text between two opening brackets. -/
def Tag.scan? (piece : List Char) : Option Tag :=
  match Text.pieces '>' piece with
  | [inside, after] => do
    let (attributes, closing) ← attributes? (Text.pieces '"' (inside.dropWhile isNameChar))
    let after ← decode? after
    return {
      name := String.ofList (inside.takeWhile isNameChar)
      attributes, closing
      after := String.ofList after }
  | _ => none

/-- The tags of a document, which starts with one. -/
def scan? (document : List Char) : Option (List Tag) :=
  match Text.pieces '<' document with
  | [] :: pieces => pieces.mapM Tag.scan?
  | _ => none

def attributeText (name value : String) : List Char :=
  ' ' :: name.toList ++ '=' :: '"' :: value.toList.flatMap entity ++ ['"']

def attributesText (attributes : List (String × String)) : List Char :=
  attributes.flatMap fun pair => attributeText pair.1 pair.2

/-- What stands between the brackets of a tag. -/
def Tag.inside (tag : Tag) : List Char :=
  tag.name.toList ++ (attributesText tag.attributes ++ tag.closing.toList)

/-- The text of a tag up to the next one, without the opening bracket. -/
def Tag.written (tag : Tag) : List Char :=
  tag.inside ++ '>' :: tag.after.toList.flatMap entity

/-- Names are names, and only a tag with attributes has something behind them. -/
structure Tag.Tidy (tag : Tag) : Prop where
  name : isName tag.name
  attributes : (tag.attributes.map Prod.fst).all isName
  closing : unmarked tag.closing.toList
  bare : tag.attributes.isEmpty → tag.closing = ""

theorem label?_name {name : String} (h : isName name) :
    label? (' ' :: name.toList ++ ['=']) = some name := by
  have ht : (name.toList ++ ['=']).takeWhile isNameChar = name.toList := by
    rw [List.takeWhile_append_of_pos (List.all_eq_true.1 h)]
    exact List.append_nil _
  rw [List.cons_append, label?, ht, if_pos rfl, String.ofList_toList]

theorem attributes?_attributesText {attributes : List (String × String)} {closing : String}
    (ha : (attributes.map Prod.fst).all isName) (hc : unmarked closing.toList) :
    attributes? (Text.pieces '"' (attributesText attributes ++ closing.toList)) =
      some (attributes, closing) := by
  induction attributes with
  | nil =>
    rw [attributesText, List.flatMap_nil, List.nil_append,
      Text.pieces_of_not_mem (not_mem_of_all hc rfl), attributes?, String.ofList_toList]
  | cons pair attributes ih =>
    rw [List.map_cons, List.all_cons, Bool.and_eq_true] at ha
    obtain ⟨hn, hr⟩ := ha
    have hl : '"' ∉ ' ' :: pair.1.toList ++ ['='] := by
      apply List.not_mem_append _ (by decide)
      apply List.not_mem_cons_of_ne_of_not_mem (by decide)
      exact not_mem_of_all hn rfl
    have ht : attributesText (pair :: attributes) ++ closing.toList =
        (' ' :: pair.1.toList ++ ['=']) ++ '"' :: (pair.2.toList.flatMap entity ++
          '"' :: (attributesText attributes ++ closing.toList)) := by
      simp [attributesText, attributeText]
    rw [ht, Text.pieces_append_cons hl,
      Text.pieces_append_cons (not_mem_of_all (unmarked_escaped _) rfl), attributes?,
      label?_name hn, decode?_escaped, ih hr]
    simp only [Option.bind_eq_bind, Option.bind_some, String.ofList_toList]
    rfl

variable {tag : Tag}

theorem Tag.Tidy.takeWhile_dropWhile (h : tag.Tidy) :
    tag.inside.takeWhile isNameChar = tag.name.toList ∧
      tag.inside.dropWhile isNameChar =
        attributesText tag.attributes ++ tag.closing.toList := by
  let rest := attributesText tag.attributes ++ tag.closing.toList
  have hr : rest.takeWhile isNameChar = [] ∧ rest.dropWhile isNameChar = rest := by
    cases ha : tag.attributes with
    | nil =>
      have hc : rest = [] := by
        simp only [rest, ha, h.bare (by rw [ha]; rfl)]
        rfl
      rw [hc]
      exact ⟨rfl, rfl⟩
    | cons pair attributes =>
      simp only [rest, ha]
      exact ⟨rfl, rfl⟩
  have hn := List.all_eq_true.1 h.name
  rw [Tag.inside, List.takeWhile_append_of_pos hn, List.dropWhile_append_of_pos hn, hr.1, hr.2]
  exact ⟨List.append_nil _, rfl⟩

theorem not_mem_attributeText {name value : String} (hn : isName name)
    (hc : c = '<' ∨ c = '>') : c ∉ attributeText name value := by
  have hm : isMark c ∧ isNameChar c = false ∧ c ∉ [' ', '=', '"'] := by
    rcases hc with rfl | rfl
    · exact ⟨rfl, rfl, by decide⟩
    · exact ⟨rfl, rfl, by decide⟩
  obtain ⟨hm, hf, hs⟩ := hm
  have hv := not_mem_of_all (unmarked_escaped value.toList) (c := c) (by rw [hm]; rfl)
  have hn := not_mem_of_all hn hf
  simp_all [attributeText]

theorem Tag.Tidy.not_mem_inside (h : tag.Tidy) (hc : c = '<' ∨ c = '>') : c ∉ tag.inside := by
  have hm : isMark c ∧ isNameChar c = false := by
    rcases hc with rfl | rfl
    · exact ⟨rfl, rfl⟩
    · exact ⟨rfl, rfl⟩
  apply List.not_mem_append
  · exact not_mem_of_all h.name hm.2
  · apply List.not_mem_append
    · intro ha
      obtain ⟨pair, hp, ha⟩ := List.mem_flatMap.1 ha
      exact not_mem_attributeText (List.all_eq_true.1 h.attributes _ (List.mem_map_of_mem hp)) hc ha
    · exact not_mem_of_all h.closing (by rw [hm.1]; rfl)

theorem Tag.scan?_written (h : tag.Tidy) : Tag.scan? tag.written = some tag := by
  obtain ⟨ht, hd⟩ := h.takeWhile_dropWhile
  have ha : '>' ∉ tag.after.toList.flatMap entity := not_mem_of_all (unmarked_escaped _) rfl
  rw [Tag.scan?, Tag.written, Text.pieces_append_cons (h.not_mem_inside (.inr rfl)),
    Text.pieces_of_not_mem ha]
  simp only [ht, hd, attributes?_attributesText h.attributes h.closing, decode?_escaped,
    Option.bind_eq_bind, Option.bind_some, String.ofList_toList]
  rfl

theorem Tag.Tidy.not_mem_written (h : tag.Tidy) : '<' ∉ tag.written := by
  apply List.not_mem_append (h.not_mem_inside (.inl rfl))
  apply List.not_mem_cons_of_ne_of_not_mem (by decide)
  exact not_mem_of_all (unmarked_escaped _) rfl

theorem mapM_scan? {tags : List Tag} (h : ∀ tag ∈ tags, tag.Tidy) :
    (tags.map Tag.written).mapM Tag.scan? = some tags := by
  induction tags with
  | nil => rfl
  | cons tag tags ih =>
    obtain ⟨ht, hr⟩ := List.forall_mem_cons.1 h
    rw [List.map_cons, List.mapM_cons, Tag.scan?_written ht, ih hr]
    rfl

/-- Tags are found one after the other. -/
theorem scan?_written {tags : List Tag} (h : ∀ tag ∈ tags, tag.Tidy) :
    scan? (tags.flatMap fun tag => '<' :: tag.written) = some tags := by
  have hp : Text.pieces '<' (tags.flatMap fun tag => '<' :: tag.written) =
      [] :: tags.map Tag.written := by
    have hw : ∀ piece ∈ tags.map Tag.written, '<' ∉ piece := by
      intro piece hp
      obtain ⟨tag, ht, rfl⟩ := List.mem_map.1 hp
      exact (h tag ht).not_mem_written
    rw [← Text.pieces_flatMap List.not_mem_nil hw, List.flatMap_map]
    rfl
  rw [scan?, hp]
  exact mapM_scan? h

def viewBox (canvas : Canvas) (places : Nat) : String :=
  let m := canvas.margin
  " ".intercalate ([-m, -m, canvas.width + 2 * m, canvas.height + 2 * m].map (number places))

def canvasAttributes (canvas : Canvas) (places : Nat) : List (String × String) :=
  [("xmlns", "http://www.w3.org/2000/svg"), ("version", "1.1"), ("viewBox", viewBox canvas places),
    ("width", number places canvas.width), ("height", number places canvas.height)]

def pathAttributes (path : Path) (style : Style) : List (String × String) :=
  [("d", pathData path style.precision), ("stroke", style.stroke),
    ("stroke-width", number style.precision style.strokeWidth), ("fill", style.fill),
    ("stroke-linecap", "round"), ("stroke-linejoin", "round")]

/-- The tags of the document of a path. Each element has its own line, and those that are inside
another one stand behind blanks. -/
def tags (path : Path) (canvas : Canvas) (style : Style) (title : String) : List Tag :=
  let toPath := if path.isEmpty then "\n" else "\n  "
  let toTitle := if title.isEmpty then toPath else "\n  "
  let declaration : Tag :=
    ⟨"?xml", [("version", "1.0"), ("encoding", "UTF-8")], "?", "\n"⟩
  let drawing : Tag := ⟨"svg", canvasAttributes canvas style.precision, "", toTitle⟩
  let titles : List Tag := [⟨"title", [], "", title⟩, ⟨"/title", [], "", toPath⟩]
  let outline : Tag := ⟨"path", pathAttributes path style, " /", "\n"⟩
  [declaration, drawing] ++ (if title.isEmpty then [] else titles)
    ++ (if path.isEmpty then [] else [outline]) ++ [⟨"/svg", [], "", "\n"⟩]

variable (path : Path) (canvas : Canvas) (style : Style) (title after : String) (places : Nat)

theorem tidy_bare {name : String} (h : isName name) : Tag.Tidy ⟨name, [], "", after⟩ where
  name := h
  attributes := rfl
  closing := rfl
  bare := fun _ => rfl

theorem isName_canvasAttributes : ((canvasAttributes canvas places).map Prod.fst).all isName :=
  (by rfl : ["xmlns", "version", "viewBox", "width", "height"].all isName)

theorem isName_pathAttributes : ((pathAttributes path style).map Prod.fst).all isName :=
  (by rfl : ["d", "stroke", "stroke-width", "fill", "stroke-linecap", "stroke-linejoin"].all isName)

theorem tidy_tags : ∀ tag ∈ tags path canvas style title, tag.Tidy := by
  intro tag h
  simp only [tags, List.mem_append, List.mem_cons, List.not_mem_nil, or_false] at h
  rcases h with (((rfl | rfl) | h) | h) | rfl
  · exact ⟨by rfl, by rfl, by rfl, nofun⟩
  · exact ⟨(by rfl : isName "svg"), isName_canvasAttributes canvas style.precision, rfl, nofun⟩
  · split at h
    · cases h
    · simp only [List.mem_cons, List.not_mem_nil, or_false] at h
      rcases h with rfl | rfl
      · exact tidy_bare _ rfl
      · exact tidy_bare _ rfl
  · split at h
    · cases h
    · obtain rfl := List.mem_singleton.1 h
      exact ⟨(by rfl : isName "path"), isName_pathAttributes path style,
        (by rfl : unmarked " /".toList), nofun⟩
  · exact tidy_bare _ rfl

theorem isClean_of_isDigit (h : c.isDigit) : isClean c := by
  have hd {d : Char} (hd : d.isDigit = false) : c ≠ d := by
    rintro rfl
    cases h.symm.trans hd
  have hs : c ≠ '&' ∧ c ≠ '<' ∧ c ≠ '>' ∧ c ≠ '"' := ⟨hd rfl, hd rfl, hd rfl, hd rfl⟩
  simp [isClean, isMark, hs]

theorem isClean_number (x : Float) : (number places x).toList.all isClean := by
  rw [number, String.toList_ofList]
  exact Decimal.all_rounded places (fun _ => isClean_of_isDigit) rfl rfl rfl x

theorem isClean_words {words : List String} (h : ∀ word ∈ words, word.toList.all isClean) :
    (" ".intercalate words).toList.all isClean := by
  rw [String.toList_intercalate]
  induction words with
  | nil => rfl
  | cons word words ih =>
    obtain ⟨hw, hr⟩ := List.forall_mem_cons.1 h
    cases words with
    | nil => simpa using hw
    | cons next words =>
      rw [List.map_cons, List.map_cons, List.intercalate_cons_cons, List.all_append,
        List.all_append, hw, ← List.map_cons, ih hr]
      rfl

theorem isClean_viewBox : (viewBox canvas places).toList.all isClean := by
  rw [viewBox]
  apply isClean_words
  intro word hw
  obtain ⟨x, -, rfl⟩ := List.mem_map.1 hw
  exact isClean_number places x

theorem isClean_pathData : (pathData path places).toList.all isClean := by
  have hp (p : Point) : (coordinates places p).toList.all isClean := by
    simp only [coordinates, String.toList_append, List.all_append, isClean_number]
    rfl
  rw [pathData]
  apply isClean_words
  intro word hw
  obtain ⟨op, -, rfl⟩ := List.mem_map.1 hw
  cases op with
  | moveTo p | lineTo p =>
    rw [pathWord, String.toList_append, List.all_append, hp]
    rfl
  | close => exact (by rfl : "Z".toList.all isClean)

theorem toList_openTag :
    (openTag canvas places).toList =
      '<' :: ("svg".toList ++ (attributesText (canvasAttributes canvas places) ++ ['>'])) := by
  have hb : (viewBox canvas places).toList.flatMap entity = (viewBox canvas places).toList :=
    escaped_of_all (isClean_viewBox canvas places)
  have hn (x : Float) : (number places x).toList.flatMap entity = (number places x).toList :=
    escaped_of_all (isClean_number places x)
  have hl : openTag canvas places =
      "<svg xmlns=\"http://www.w3.org/2000/svg\" version=\"1.1\" viewBox=\"" ++ viewBox canvas places
        ++ "\" width=\"" ++ number places canvas.width ++ "\" height=\""
        ++ number places canvas.height ++ "\">" := rfl
  have hs : "<svg xmlns=\"http://www.w3.org/2000/svg\" version=\"1.1\" viewBox=\"".toList =
      '<' :: ("svg".toList ++ (attributeText "xmlns" "http://www.w3.org/2000/svg" ++
        (attributeText "version" "1.1" ++ ' ' :: ("viewBox".toList ++ ['=', '"'])))) := by
    rfl
  have hw : "\" width=\"".toList = '"' :: ' ' :: ("width".toList ++ ['=', '"']) := by rfl
  have hh : "\" height=\"".toList = '"' :: ' ' :: ("height".toList ++ ['=', '"']) := by rfl
  have hc : "\">".toList = ['"', '>'] := by rfl
  rw [hl]
  simp only [String.toList_append, canvasAttributes, attributesText, List.flatMap_cons,
    List.flatMap_nil, hs, hw, hh, hc]
  generalize attributeText "xmlns" "http://www.w3.org/2000/svg" = first
  generalize attributeText "version" "1.1" = second
  simp only [attributeText, hb, hn, List.append_assoc, List.cons_append, List.nil_append]

theorem toList_pathTag :
    (pathTag path style).toList =
      ' ' :: ' ' :: '<' :: ("path".toList ++ (attributesText (pathAttributes path style) ++
        (" /".toList ++ ['>']))) := by
  have hd : (pathData path style.precision).toList.flatMap entity =
      (pathData path style.precision).toList :=
    escaped_of_all (isClean_pathData path style.precision)
  have hn (x : Float) : (number style.precision x).toList.flatMap entity =
      (number style.precision x).toList :=
    escaped_of_all (isClean_number style.precision x)
  have ht : pathTag path style = "  <path d=\"" ++ pathData path style.precision ++ "\" stroke=\""
      ++ escape style.stroke ++ "\" stroke-width=\"" ++ number style.precision style.strokeWidth
      ++ "\" fill=\"" ++ escape style.fill
      ++ "\" stroke-linecap=\"round\" stroke-linejoin=\"round\" />" := rfl
  have hp : "  <path d=\"".toList =
      ' ' :: ' ' :: '<' :: ("path".toList ++ ' ' :: ("d".toList ++ ['=', '"'])) := by
    rfl
  have hs : "\" stroke=\"".toList = '"' :: ' ' :: ("stroke".toList ++ ['=', '"']) := by rfl
  have hw : "\" stroke-width=\"".toList =
      '"' :: ' ' :: ("stroke-width".toList ++ ['=', '"']) := by rfl
  have hf : "\" fill=\"".toList = '"' :: ' ' :: ("fill".toList ++ ['=', '"']) := by rfl
  have hl : "\" stroke-linecap=\"round\" stroke-linejoin=\"round\" />".toList =
      '"' :: (attributeText "stroke-linecap" "round" ++ (attributeText "stroke-linejoin" "round" ++
        (" /".toList ++ ['>']))) := by
    rfl
  rw [ht]
  simp only [String.toList_append, pathAttributes, attributesText, List.flatMap_cons,
    List.flatMap_nil, toList_escape, hp, hs, hw, hf, hl]
  generalize attributeText "stroke-linecap" "round" = caps
  generalize attributeText "stroke-linejoin" "round" = joins
  simp only [attributeText, hd, hn, List.append_assoc, List.cons_append, List.nil_append]

theorem toList_titleTag :
    (titleTag title).toList = ' ' :: ' ' :: '<' :: ("title".toList ++
      '>' :: (title.toList.flatMap entity ++ '<' :: ("/title".toList ++ ['>']))) := by
  have hl : titleTag title = "  <title>" ++ escape title ++ "</title>" := rfl
  have hs : "  <title>".toList = ' ' :: ' ' :: '<' :: ("title".toList ++ ['>']) := by rfl
  have hf : "</title>".toList = '<' :: ("/title".toList ++ ['>']) := by rfl
  rw [hl]
  simp only [String.toList_append, toList_escape, hs, hf, List.append_assoc, List.cons_append,
    List.nil_append]

theorem toList_lines (first : String) (more : List String) :
    ("\n".intercalate (first :: more) ++ "\n").toList =
      (first :: more).flatMap fun line => line.toList ++ ['\n'] := by
  have hb : "\n".toList = ['\n'] := rfl
  rw [String.toList_append, String.toList_intercalate, hb]
  induction more generalizing first with
  | nil => simp
  | cons second more ih =>
    rw [List.flatMap_cons, ← ih second]
    simp

theorem document_eq :
    (document path canvas style title).toList =
      (tags path canvas style title).flatMap fun tag => '<' :: tag.written := by
  have hl : document path canvas style title =
      "\n".intercalate ("<?xml version=\"1.0\" encoding=\"UTF-8\"?>" ::
        ([openTag canvas style.precision] ++ (if title.isEmpty then [] else [titleTag title])
          ++ (if path.isEmpty then [] else [pathTag path style]) ++ ["</svg>"])) ++ "\n" := rfl
  have hd : "<?xml version=\"1.0\" encoding=\"UTF-8\"?>".toList =
      '<' :: ("?xml".toList ++ (attributesText [("version", "1.0"), ("encoding", "UTF-8")] ++
        ("?".toList ++ ['>']))) := by
    rfl
  have hf : "</svg>".toList = '<' :: ("/svg".toList ++ ['>']) := by rfl
  have hb : "\n".toList.flatMap entity = ['\n'] := by rfl
  have hi : "\n  ".toList.flatMap entity = ['\n', ' ', ' '] := by rfl
  have he : "".toList = [] := by rfl
  have hn : attributesText [] = [] := rfl
  rw [hl, toList_lines]
  unfold tags
  by_cases ht : title.isEmpty <;> by_cases hp : path.isEmpty <;>
    simp only [ht, hp, if_true, if_false, Bool.false_eq_true, List.flatMap_cons, List.flatMap_nil,
      hd, hf, hb, hi, he, hn, toList_openTag, toList_titleTag, toList_pathTag, Tag.written,
      Tag.inside, List.append_assoc, List.cons_append, List.nil_append, List.append_nil]

/-- Whatever the colours and the title say, a reader of markup finds the tags of the path with their
attributes, and reads the texts back. -/
theorem scan_document : scan? (document path canvas style title).toList =
    some (tags path canvas style title) := by
  rw [document_eq]
  apply scan?_written
  exact tidy_tags path canvas style title

end TurtlePlot.Svg
