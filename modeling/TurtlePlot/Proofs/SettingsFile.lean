import TurtlePlot.Proofs.DoubleText
import TurtlePlot.Proofs.Grammar
import TurtlePlot.Settings.Decode
import TurtlePlot.Settings.Encode

/-!
Settings as a file. However liberally settings were written, once read they keep their bounds, and
what is written for them is read as the same settings.
-/

namespace TurtlePlot

def Limits.InBounds (l : Limits) : Prop :=
  0 < l.maxDepth ∧ 0 < l.maxSteps

def Canvas.InBounds (c : Canvas) : Prop :=
  0 < c.width ∧ 0 < c.height ∧ 0 ≤ c.margin

def Style.InBounds (s : Style) : Prop :=
  0 ≤ s.strokeWidth ∧ s.precision ≤ 10

namespace Settings

theorem inBounds_iff {s : Settings} :
    s.InBounds ↔ s.limits.InBounds ∧ s.canvas.InBounds ∧ s.style.InBounds := by
  simp only [InBounds, Limits.InBounds, Canvas.InBounds, Style.InBounds, and_assoc]

section Checked

variable {α β : Type} {fields inner : List (String × Json)} {name model : String} {default a : α}
  {coerce : Json → Except Requirement α} {check : List (String × Json) → Checked α}

theorem seq_eq_valid {f : Checked (α → β)} {x : Checked α} {b : β} (h : f <*> x = .valid b) :
    ∃ g a, f = .valid g ∧ x = .valid a ∧ g a = b := by
  cases f with
  | valid g =>
    cases x with
    | valid a =>
      cases h
      exact ⟨g, a, rfl, rfl, rfl⟩
    | invalid => cases h
  | invalid =>
    cases x with
    | valid | invalid => cases h

theorem map_eq_valid {f : α → β} {x : Checked α} {b : β} (h : f <$> x = .valid b) :
    ∃ a, x = .valid a ∧ f a = b := by
  cases x with
  | valid a =>
    cases h
    exact ⟨a, rfl, rfl⟩
  | invalid => cases h

/-- A field that is valid has its default or a value that is taken. -/
theorem of_field {P : α → Prop} (h : field fields name default coerce = .valid a) (hd : P default)
    (hc : ∀ {input a}, coerce input = .ok a → P a) : P a := by
  unfold field at h
  split at h
  case h_1 =>
    cases h
    exact hd
  case h_2 =>
    split at h
    case h_1 hv =>
      cases h
      exact hc hv
    case h_2 => cases h

theorem of_group {P : α → Prop} (h : group fields name model default check = .valid a)
    (hd : P default) (hc : ∀ {inner a}, check inner = .valid a → P a) : P a := by
  unfold group at h
  split at h
  case h_1 =>
    cases h
    exact hd
  case h_2 =>
    split at h
    case h_1 hv =>
      cases h
      exact hc hv
    case h_2 => cases h
  case h_3 => cases h

theorem field_eq_valid {input : Json} (hf : Json.field? name fields = some input)
    (hc : coerce input = .ok a) : field fields name default coerce = .valid a := by
  simp only [field, hf, hc]

theorem group_eq_valid (hf : Json.field? name fields = some (.obj inner))
    (hc : check inner = .valid a) : group fields name model default check = .valid a := by
  simp only [group, hf, hc]

end Checked

section Values

variable {input : Json} {n : Nat} {x : Float}

theorem exists_of_guard {ε α β : Type} {value : Except ε α} {P : α → Prop} [DecidablePred P]
    {f : α → β} {e : ε} {b : β}
    (h : (value >>= fun a => if P a then .ok (f a) else .error e) = .ok b) :
    ∃ a, P a ∧ f a = b := by
  obtain ⟨a, -, h⟩ := bind_eq_ok.1 h
  split at h
  case isTrue ha => exact ⟨a, ha, Except.ok.inj h⟩
  case isFalse => cases h

theorem toPositiveNat_pos (h : toPositiveNat input = .ok n) : 0 < n := by
  obtain ⟨m, hm, rfl⟩ := exists_of_guard h
  omega

theorem toPositiveFloat_pos (h : toPositiveFloat input = .ok x) : 0 < x := by
  obtain ⟨y, hy, rfl⟩ := exists_of_guard h
  exact hy

theorem toNonnegativeFloat_nonneg (h : toNonnegativeFloat input = .ok x) : 0 ≤ x := by
  obtain ⟨y, hy, rfl⟩ := exists_of_guard h
  exact hy

theorem toPrecision_le (h : toPrecision input = .ok n) : n ≤ 10 := by
  obtain ⟨m, -, h⟩ := bind_eq_ok.1 h
  split at h
  case isTrue => cases h
  case isFalse =>
    split at h
    case isTrue => cases h
    case isFalse =>
      cases h
      omega

theorem toPositiveNat_int (h : 0 < n) : toPositiveNat (.int n) = .ok n :=
  if_pos (Int.natCast_pos.2 h)

theorem toPositiveFloat_float (h : 0 < x) : toPositiveFloat (.float x) = .ok x :=
  if_pos h

theorem toNonnegativeFloat_float (h : 0 ≤ x) : toNonnegativeFloat (.float x) = .ok x :=
  if_pos h

theorem toPrecision_int (h : n ≤ 10) : toPrecision (.int n) = .ok n := by
  have hn : ¬ (n : Int) < 0 := by omega
  have hle : ¬ 10 < (n : Int) := by omega
  simp only [toPrecision, toInt, bind, Except.bind, if_neg hn, if_neg hle, Int.toNat_natCast]

theorem toAnchor_name (anchor : Anchor) : toAnchor (.str anchor.name) = .ok anchor := by
  cases anchor <;> rfl

theorem isNaN_eq_false {P : Float → Prop} (h : P x) (hn : ¬ P Float.nan) : x.isNaN = false := by
  rw [Float.isNaN_eq_decide_eq_nan]
  refine decide_eq_false ?_
  rintro rfl
  exact hn h

theorem legible_of_pos (h : 0 < x) (depth : Nat) : Json.Legible depth (.float x) :=
  .float depth (Json.floatLegible (isNaN_eq_false (P := (0 < ·)) h (by decide)))

theorem legible_of_nonneg (h : 0 ≤ x) (depth : Nat) : Json.Legible depth (.float x) :=
  .float depth (Json.floatLegible (isNaN_eq_false (P := (0 ≤ ·)) h (by decide)))

end Values

end Settings

open Settings

section Groups

variable {fields : List (String × Json)}

theorem Limits.inBounds_of_fields {l : Limits} (h : Limits.ofFields fields = .valid l) :
    l.InBounds := by
  obtain ⟨_, steps, h₁, hs, rfl⟩ := seq_eq_valid h
  obtain ⟨depth, hd, rfl⟩ := map_eq_valid h₁
  exact ⟨of_field hd (by decide) toPositiveNat_pos, of_field hs (by decide) toPositiveNat_pos⟩

theorem Canvas.inBounds_of_fields {c : Canvas} (h : Canvas.ofFields fields = .valid c) :
    c.InBounds := by
  obtain ⟨_, margin, h₄, hm, rfl⟩ := seq_eq_valid h
  obtain ⟨_, flipY, h₃, -, rfl⟩ := seq_eq_valid h₄
  obtain ⟨_, anchor, h₂, -, rfl⟩ := seq_eq_valid h₃
  obtain ⟨_, height, h₁, hh, rfl⟩ := seq_eq_valid h₂
  obtain ⟨width, hw, rfl⟩ := map_eq_valid h₁
  exact ⟨of_field hw (by decide) toPositiveFloat_pos, of_field hh (by decide) toPositiveFloat_pos,
    of_field hm (by decide) toNonnegativeFloat_nonneg⟩

theorem Style.inBounds_of_fields {s : Style} (h : Style.ofFields fields = .valid s) :
    s.InBounds := by
  obtain ⟨_, precision, h₃, hp, rfl⟩ := seq_eq_valid h
  obtain ⟨_, fill, h₂, -, rfl⟩ := seq_eq_valid h₃
  obtain ⟨_, width, h₁, hw, rfl⟩ := seq_eq_valid h₂
  obtain ⟨stroke, -, rfl⟩ := map_eq_valid h₁
  have hle : precision ≤ 10 := of_field (P := (· ≤ 10)) hp (by decide) toPrecision_le
  exact ⟨of_field hw (by decide) toNonnegativeFloat_nonneg, hle⟩

theorem Limits.exists_fields {l : Limits} (h : l.InBounds) :
    ∃ fields, l.toJson = .obj fields ∧ Limits.ofFields fields = .valid l := by
  refine ⟨_, rfl, ?_⟩
  rw [Limits.ofFields, field_eq_valid rfl (toPositiveNat_int h.1),
    field_eq_valid rfl (toPositiveNat_int h.2)]
  rfl

theorem Canvas.exists_fields {c : Canvas} (h : c.InBounds) :
    ∃ fields, c.toJson = .obj fields ∧ Canvas.ofFields fields = .valid c := by
  refine ⟨_, rfl, ?_⟩
  rw [Canvas.ofFields, field_eq_valid rfl (toPositiveFloat_float h.1),
    field_eq_valid rfl (toPositiveFloat_float h.2.1), field_eq_valid rfl (toAnchor_name c.anchor),
    field_eq_valid rfl (toNonnegativeFloat_float h.2.2)]
  rfl

theorem Style.exists_fields {s : Style} (h : s.InBounds) :
    ∃ fields, s.toJson = .obj fields ∧ Style.ofFields fields = .valid s := by
  refine ⟨_, rfl, ?_⟩
  rw [Style.ofFields, field_eq_valid rfl (toNonnegativeFloat_float h.1),
    field_eq_valid rfl (toPrecision_int h.2)]
  rfl

theorem PenSettings.exists_fields (p : PenSettings) :
    ∃ fields, p.toJson = .obj fields ∧ PenSettings.ofFields fields = .valid p :=
  ⟨_, rfl, rfl⟩

end Groups

namespace Settings

variable {s : Settings} {fields : List (String × Json)} {depth : Nat}

theorem inBounds_of_fields (h : Settings.ofFields fields = .valid s) : s.InBounds := by
  obtain ⟨_, pen, h₃, -, rfl⟩ := seq_eq_valid h
  obtain ⟨_, style, h₂, hs, rfl⟩ := seq_eq_valid h₃
  obtain ⟨_, canvas, h₁, hc, rfl⟩ := seq_eq_valid h₂
  obtain ⟨limits, hl, rfl⟩ := map_eq_valid h₁
  refine inBounds_iff.2 ⟨?_, ?_, ?_⟩
  · exact of_group hl ⟨by decide, by decide⟩ Limits.inBounds_of_fields
  · exact of_group hc ⟨by decide, by decide, by decide⟩ Canvas.inBounds_of_fields
  · exact of_group hs ⟨by decide, by decide⟩ Style.inBounds_of_fields

theorem exists_fields (h : s.InBounds) :
    ∃ fields, s.toJson = .obj fields ∧ Settings.ofFields fields = .valid s := by
  obtain ⟨hl, hc, hs⟩ := inBounds_iff.1 h
  obtain ⟨limits, hl, hlv⟩ := Limits.exists_fields hl
  obtain ⟨canvas, hc, hcv⟩ := Canvas.exists_fields hc
  obtain ⟨style, hs, hsv⟩ := Style.exists_fields hs
  obtain ⟨pen, hp, hpv⟩ := PenSettings.exists_fields s.pen
  refine ⟨_, rfl, ?_⟩
  rw [hl, hc, hs, hp, Settings.ofFields, group_eq_valid rfl hlv, group_eq_valid rfl hcv,
    group_eq_valid rfl hsv, group_eq_valid rfl hpv]
  rfl

theorem legible_toJson (h : s.InBounds) : Json.Legible (depth + 2) s.toJson := by
  obtain ⟨-, ⟨hw, hh, hm⟩, hs, -⟩ := inBounds_iff.1 h
  have hl : Json.Legible (depth + 1) s.limits.toJson := by
    refine .obj (show ["max_depth", "max_steps"].Nodup by decide) ?_
    simp only [List.forall_mem_cons]
    exact ⟨.int _ _, .int _ _, nofun⟩
  have hc : Json.Legible (depth + 1) s.canvas.toJson := by
    refine .obj (show ["width", "height", "anchor", "flip_y", "margin"].Nodup by decide) ?_
    simp only [List.forall_mem_cons]
    exact ⟨legible_of_pos hw _, legible_of_pos hh _, .str _ _, .bool _ _, legible_of_nonneg hm _,
      nofun⟩
  have hy : Json.Legible (depth + 1) s.style.toJson := by
    refine .obj (show ["stroke", "stroke_width", "fill", "precision"].Nodup by decide) ?_
    simp only [List.forall_mem_cons]
    exact ⟨.str _ _, legible_of_nonneg hs _, .str _ _, .int _ _, nofun⟩
  have hp : Json.Legible (depth + 1) s.pen.toJson := by
    refine .obj (show ["up_angle", "down_angle", "travel_speed", "draw_speed"].Nodup by decide) ?_
    simp only [List.forall_mem_cons]
    exact ⟨.int _ _, .int _ _, .int _ _, .int _ _, nofun⟩
  refine .obj (show ["compiler", "canvas", "style", "pen"].Nodup by decide) ?_
  simp only [List.forall_mem_cons]
  exact ⟨hl, hc, hy, hp, nofun⟩

theorem toList_write (s : Settings) : s.write.toList = Json.text (.lines 4) 0 s.toJson := by
  rw [write, Json.write, String.toList_ofList]

theorem plainText_write (h : s.InBounds) : Json.PlainText s.write.toList := by
  have hl : Json.Legible 2 s.toJson := legible_toJson h
  rw [toList_write]
  exact hl.plainText _ _

/-- Settings within their bounds are read from what is written for them. -/
theorem read_write (h : s.InBounds) : read s.write = .ok s := by
  have hl : Json.Legible Json.maxTextDepth s.toJson := legible_toJson h
  have hu : Text.unifyLineEnds s.write.toList = s.write.toList :=
    Text.unifyLineEnds_of_not_mem fun hr => absurd (plainText_write h _ hr) (by decide)
  have hr : Json.read s.write = .ok s.toJson := by
    rw [Json.read_eq_ok, toList_write]
    exact hl.document_text _ _
  obtain ⟨fields, hf, hv⟩ := exists_fields h
  simp only [read, hu, String.ofList_toList, hr, hf, hv]

theorem inBounds_of_read {text : String} (h : read text = .ok s) : s.InBounds := by
  unfold read at h
  split at h
  case h_1 => cases h
  case h_2 =>
    split at h
    case h_1 hv =>
      cases h
      exact inBounds_of_fields hv
    case h_2 => cases h
  case h_3 => cases h

/-- Settings that a text holds, in whatever way it writes them, are within their bounds. They are
written in ASCII, and what is written holds the same settings and is written for these again. -/
theorem read_write_of_read {text : String} (h : read text = .ok s) :
    s.InBounds ∧ Json.PlainText s.write.toList ∧ read s.write = .ok s ∧
      ∀ t, read s.write = .ok t → t = s ∧ t.write = s.write := by
  have hb := inBounds_of_read h
  refine ⟨hb, plainText_write hb, read_write hb, fun t ht => ?_⟩
  obtain rfl : s = t := Except.ok.inj ((read_write hb).symm.trans ht)
  exact ⟨rfl, rfl⟩

theorem read_write_of_read_liberal :
    let canvas := "\"canvas\": \x7b\"width\": \"1e999\", \"height\": true, \"margin\": -0.0, "
      ++ "\"flip_y\": \"Yes\", \"depth\": 7\x7d"
    let limits := "\"compiler\": \x7b\"max_steps\": \" 1_000\"\x7d"
    let pen := "\"pen\": \x7b\"up_angle\": 1, \"up_angle\": 8.0\x7d"
    let text := "\x7b" ++ ", ".intercalate [canvas, limits, pen] ++ "\x7d"
    let s : Settings := { limits.maxSteps := 1000
                          canvas := ⟨1 / 0, 1, .center, true, -0⟩
                          pen.upAngle := 8 }
    read text = .ok s ∧ s.InBounds ∧ read s.write = .ok s := by
  intro canvas limits pen text s
  have hd : (read text).toOption = some s := by decide +kernel
  have h : read text = .ok s := by
    cases hr : read text with
    | error e =>
      rw [hr] at hd
      cases hd
    | ok t =>
      rw [hr] at hd
      exact congrArg Except.ok (Option.some.inj hd)
  exact ⟨h, (read_write_of_read h).1, (read_write_of_read h).2.2.1⟩

end Settings

end TurtlePlot
