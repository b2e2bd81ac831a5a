import TurtlePlot.Proofs.Bounds
import TurtlePlot.Proofs.Exports
import TurtlePlot.Proofs.ShortNumerals

/-!
Path data read word by word. There is one word for each instruction of a path, and where coordinates
are finite a word tells the kind of the instruction and the decimals that its coordinates are rounded
to, and nothing else.
-/

namespace TurtlePlot.Svg

open Decimal
open Double (value)

variable {places : ℕ}

/-- What stands for a coordinate: a finite one is spelled, any other has a name. -/
def Shows (places : ℕ) (v : Float) (text : List Char) : Prop :=
  if v.isFinite then ∃ n, Spells places v n text else text ∈ names

/-- What stands for an instruction. -/
inductive WordFor (places : ℕ) : PathOp → List Char → Prop
  | moveTo {p : Point} {x y : List Char} (hx : Shows places p.x x) (hy : Shows places p.y y) :
    WordFor places (.moveTo p) ('M' :: (x ++ ',' :: y))
  | lineTo {p : Point} {x y : List Char} (hx : Shows places p.x x) (hy : Shows places p.y y) :
    WordFor places (.lineTo p) ('L' :: (x ++ ',' :: y))
  | close : WordFor places .close ['Z']

theorem shows_rounded (places : ℕ) (v : Float) : Shows places v (rounded places v) := by
  unfold Shows
  split
  case isTrue hv => exact exists_spells hv places
  case isFalse hv => exact rounded_mem_names places hv

theorem toList_pathWord (places : ℕ) (op : PathOp) : (pathWord places op).toList =
    match op with
    | .moveTo p => 'M' :: (rounded places p.x ++ ',' :: rounded places p.y)
    | .lineTo p => 'L' :: (rounded places p.x ++ ',' :: rounded places p.y)
    | .close => ['Z'] := by
  cases op with
  | moveTo p | lineTo p =>
    rw [pathWord, String.toList_append, toList_coordinates]
    rfl
  | close => exact (rfl : "Z".toList = ['Z'])

theorem wordFor_pathWord (places : ℕ) (op : PathOp) :
    WordFor places op (pathWord places op).toList := by
  rw [toList_pathWord]
  cases op with
  | moveTo p => exact .moveTo (shows_rounded places p.x) (shows_rounded places p.y)
  | lineTo p => exact .lineTo (shows_rounded places p.x) (shows_rounded places p.y)
  | close => exact .close

/-- Points of which the coordinates are rounded to the same decimals. -/
structure RoundAlike (places : ℕ) (p q : Point) : Prop where
  x : ∃ d, RoundsTo places (value p.x) d ∧ RoundsTo places (value q.x) d
  y : ∃ d, RoundsTo places (value p.y) d ∧ RoundsTo places (value q.y) d

/-- Instructions of one kind to points that are rounded alike. -/
inductive Alike (places : ℕ) : PathOp → PathOp → Prop
  | moveTo {p q : Point} (h : RoundAlike places p q) : Alike places (.moveTo p) (.moveTo q)
  | lineTo {p q : Point} (h : RoundAlike places p q) : Alike places (.lineTo p) (.lineTo q)
  | close : Alike places .close .close

theorem coordinates_eq_iff {p q : Point} (hp : p.IsFinite) (hq : q.IsFinite) :
    rounded places p.x ++ ',' :: rounded places p.y =
      rounded places q.x ++ ',' :: rounded places q.y ↔ RoundAlike places p q := by
  rw [List.append_cons_inj_of_notMem (comma_not_mem_rounded places p.x)
    (comma_not_mem_rounded places p.y), rounded_eq_iff hp.1 hq.1, rounded_eq_iff hp.2 hq.2]
  exact ⟨fun ⟨hx, _, hy⟩ => ⟨hx, hy⟩, fun ⟨hx, hy⟩ => ⟨hx, rfl, hy⟩⟩

/-- Words of finite coordinates are equal only for instructions that read alike. -/
theorem pathWord_eq_iff {op other : PathOp} (h : ∀ p ∈ op.point?, p.IsFinite)
    (h' : ∀ p ∈ other.point?, p.IsFinite) :
    (pathWord places op).toList = (pathWord places other).toList ↔ Alike places op other := by
  rw [toList_pathWord, toList_pathWord]
  cases op with
  | moveTo p =>
    cases other with
    | moveTo q =>
      rw [List.cons_inj_right, coordinates_eq_iff (h p rfl) (h' q rfl)]
      exact ⟨.moveTo, fun | .moveTo ha => ha⟩
    | lineTo | close => exact iff_of_false nofun nofun
  | lineTo p =>
    cases other with
    | lineTo q =>
      rw [List.cons_inj_right, coordinates_eq_iff (h p rfl) (h' q rfl)]
      exact ⟨.lineTo, fun | .lineTo ha => ha⟩
    | moveTo | close => exact iff_of_false nofun nofun
  | close =>
    cases other with
    | close => exact iff_of_true rfl .close
    | moveTo | lineTo => exact iff_of_false nofun nofun

theorem words_eq_iff {path other : Path} (h : ∀ op ∈ path, ∀ p ∈ op.point?, p.IsFinite)
    (h' : ∀ op ∈ other, ∀ p ∈ op.point?, p.IsFinite) :
    path.map (pathWord places) = other.map (pathWord places) ↔
      List.Forall₂ (Alike places) path other := by
  induction path generalizing other with
  | nil =>
    cases other with
    | nil => exact iff_of_true rfl .nil
    | cons => exact iff_of_false nofun nofun
  | cons op path ih =>
    cases other with
    | nil => exact iff_of_false nofun nofun
    | cons op' other =>
      obtain ⟨ho, hp⟩ := List.forall_mem_cons.1 h
      obtain ⟨ho', hp'⟩ := List.forall_mem_cons.1 h'
      rw [List.map_cons, List.map_cons, List.cons.injEq, List.forall₂_cons, ih hp hp',
        ← String.toList_inj, pathWord_eq_iff ho ho']

theorem forall_points_iff {path : Path} : (∀ p ∈ path.points, p.IsFinite) ↔
    ∀ op ∈ path, ∀ p ∈ op.point?, p.IsFinite :=
  List.forall_mem_filterMap

theorem pathData_ne_empty {path : Path} (h : path ≠ []) (places : ℕ) :
    pathData path places ≠ "" := by
  intro he
  have hp := pieces_pathData places h
  obtain ⟨op, rest, rfl⟩ := List.exists_cons_of_ne_nil h
  rw [he, List.map_cons, toList_pathWord] at hp
  have hw := (List.cons.inj (hp : [[]] = _)).1
  cases op <;> cases hw

theorem pathData_eq_iff (path other : Path) (places : ℕ) :
    pathData path places = pathData other places ↔
      path.map (pathWord places) = other.map (pathWord places) := by
  refine ⟨fun h => ?_, fun h => by rw [pathData, pathData, h]⟩
  by_cases hp : path = []
  · rw [hp] at h ⊢
    by_cases ho : other = []
    · rw [ho]
    · exact absurd h.symm (pathData_ne_empty ho places)
  · by_cases ho : other = []
    · rw [ho] at h
      exact absurd h (pathData_ne_empty hp places)
    · have hw := congrArg (fun data : String => Text.pieces ' ' data.toList) h
      simp only [pieces_pathData places hp, pieces_pathData places ho] at hw
      apply List.map_injective_iff.2 fun _ _ => String.toList_injective
      rw [List.map_map, List.map_map]
      exact hw

theorem pathData_of_points_eq_nil {path : Path} (h : path.points = []) (places other : ℕ) :
    pathData path places = pathData path other := by
  have hw : path.map (pathWord places) = path.map (pathWord other) := by
    apply List.map_congr_left
    intro op ho
    obtain rfl := (Path.points_eq_nil path).1 h op ho
    rfl
  rw [pathData, pathData, hw]

theorem pathDataWith_eq_ok {path : Path} (h : places + 309 < 2 ^ 31 ∨ path.points = []) :
    pathDataWith path places = .ok (pathData path places) := by
  unfold pathDataWith
  split
  case isTrue hp =>
    exact congrArg Except.ok (pathData_of_points_eq_nil (List.isEmpty_iff.1 hp) 3 places)
  case isFalse hp =>
    have hlt := h.resolve_right fun hn => hp (List.isEmpty_iff.2 hn)
    rw [placesOf_of_lt (Nat.lt_of_add_right_lt hlt)]
    rfl

theorem pathDataWith_eq_error {path : Path} (h : 2 ^ 31 ≤ places) (hp : path.points ≠ []) :
    ∃ fault, pathDataWith path places = .error fault := by
  obtain ⟨fault, hf⟩ := placesOf_of_le h
  refine ⟨fault, ?_⟩
  rw [pathDataWith, if_neg fun he => hp (List.isEmpty_iff.1 he), hf]
  rfl

/-- Path data has a word for each instruction, in order, and one blank between words. Where all
coordinates are finite, it is the same for two paths exactly if they have the same instructions in
order, to points that are rounded to the same decimals. A path without coordinates has path data
for any count of decimals; on any other there must be fewer than `2 ^ 31` digits in a coordinate, of
which up to 309 stand before the point, and with as many decimals alone there is none. -/
theorem pathDataWith_words (path : Path) (places : ℕ) :
    (2 ^ 31 ≤ places ∧ path.points ≠ [] → ∃ fault, pathDataWith path places = .error fault) ∧
    (places + 309 < 2 ^ 31 ∨ path.points = [] → ∃ data, pathDataWith path places = .ok data ∧
      (path = [] → data = "") ∧
      (path ≠ [] → List.Forall₂ (WordFor places) path (Text.pieces ' ' data.toList)) ∧
      ∀ other : Path, places + 309 < 2 ^ 31 ∨ other.points = [] →
        ∃ data', pathDataWith other places = .ok data' ∧
          ((∀ p ∈ path.points, p.IsFinite) → (∀ p ∈ other.points, p.IsFinite) →
            (data = data' ↔ List.Forall₂ (Alike places) path other))) := by
  refine ⟨fun ⟨h, hp⟩ => pathDataWith_eq_error h hp, fun h => ?_⟩
  refine ⟨pathData path places, pathDataWith_eq_ok h, ?_, fun hp => ?_, fun other ho => ?_⟩
  · rintro rfl
    rfl
  · rw [pieces_pathData places hp, List.forall₂_map_right_iff, List.forall₂_same]
    intro op _
    exact wordFor_pathWord places op
  · refine ⟨pathData other places, pathDataWith_eq_ok ho, fun hf hf' => ?_⟩
    rw [pathData_eq_iff]
    exact words_eq_iff (forall_points_iff.1 hf) (forall_points_iff.1 hf')

theorem pathDataWith_words_alike :
    let path : Path := [.moveTo ⟨-0, 1.5⟩, .lineTo ⟨2.00001, 3⟩, .close]
    let other : Path := [.moveTo ⟨0, 1.5⟩, .lineTo ⟨2, 3⟩, .close]
    path ≠ other ∧ pathDataWith path (3 : ℕ) = .ok "M0,1.5 L2,3 Z" ∧
      pathDataWith other (3 : ℕ) = .ok "M0,1.5 L2,3 Z" ∧
      List.Forall₂ (WordFor 3) path (Text.pieces ' ' "M0,1.5 L2,3 Z".toList) ∧
      List.Forall₂ (Alike 3) path other := by
  intro path other
  have hlt : 3 + 309 < 2 ^ 31 := by decide
  have hf : ∀ p ∈ path.points, p.IsFinite := by decide +kernel
  have hf' : ∀ p ∈ other.points, p.IsFinite := by decide +kernel
  have ht : pathDataWith path (3 : ℕ) = .ok "M0,1.5 L2,3 Z" :=
    (pathDataWith_eq_ok (.inl hlt)).trans (congrArg Except.ok (by decide +kernel))
  have ht' : pathDataWith other (3 : ℕ) = .ok "M0,1.5 L2,3 Z" :=
    (pathDataWith_eq_ok (.inl hlt)).trans (congrArg Except.ok (by decide +kernel))
  obtain ⟨data, he, -, hw, ha⟩ := (pathDataWith_words path 3).2 (.inl hlt)
  obtain ⟨data', he', hd⟩ := ha other (.inl hlt)
  cases ht.symm.trans he
  cases ht'.symm.trans he'
  exact ⟨by decide +kernel, ht, ht', hw (List.cons_ne_nil _ _), (hd hf hf').1 rfl⟩

/-- A count of decimals that is refused. -/
theorem pathDataWith_too_many_places :
    let path : Path := [.moveTo ⟨1.5, 0⟩]
    (0 : ℤ) ≤ 2 ^ 31 ∧ ¬ ∃ data, pathDataWith path (2 ^ 31) = .ok data := by
  intro path
  have h : pathDataWith path (2 ^ 31) = .error .tooBig := rfl
  refine ⟨by decide, ?_⟩
  rw [h]
  exact nofun

end TurtlePlot.Svg
