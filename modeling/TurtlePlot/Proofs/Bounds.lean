import TurtlePlot.Proofs.NumberLine
import TurtlePlot.Proofs.Subpaths

/-!
The box around a path. Each of its sides is pushed outward by the coordinates that lie beyond it; what
is not a number lies beyond nothing. So a side is one of the coordinates and none is beyond it, in
whatever order they come.
-/

namespace TurtlePlot

namespace Double

/-- Less or greater: an order of the doubles that are numbers, which tells apart all but equal ones. -/
structure Ranks (beyond : Float → Float → Prop) : Prop where
  isNaN : ∀ {x y}, beyond x y → x.isNaN = false ∧ y.isNaN = false
  irrefl : ∀ x, ¬ beyond x x
  trans : ∀ {x y z}, beyond x y → beyond y z → beyond x z
  split : ∀ {x y z}, y.isNaN = false → beyond x z → beyond x y ∨ beyond y z
  beq : ∀ {x y}, x.isNaN = false → y.isNaN = false → ¬ beyond x y → ¬ beyond y x → x == y

theorem ranks_lt : Ranks (· < ·) where
  isNaN h := ⟨(lt_iff_place.1 h).1, (lt_iff_place.1 h).2.1⟩
  irrefl x h := lt_irrefl _ (lt_iff_place.1 h).2.2
  trans h h' := by
    obtain ⟨hx, -, hxy⟩ := lt_iff_place.1 h
    obtain ⟨-, hz, hyz⟩ := lt_iff_place.1 h'
    exact lt_iff_place.2 ⟨hx, hz, hxy.trans hyz⟩
  split {x y z} hy h := by
    obtain ⟨hx, hz, hxz⟩ := lt_iff_place.1 h
    rcases lt_or_ge (place x) (place y) with hp | hp
    · exact .inl (lt_iff_place.2 ⟨hx, hy, hp⟩)
    · exact .inr (lt_iff_place.2 ⟨hy, hz, hp.trans_lt hxz⟩)
  beq := beq_of_not_lt

theorem ranks_gt : Ranks (· > ·) where
  isNaN h := (ranks_lt.isNaN h).symm
  irrefl := ranks_lt.irrefl
  trans hxy hyz := ranks_lt.trans hyz hxy
  split hy h := (ranks_lt.split hy h).symm
  beq hx hy hxy hyx := ranks_lt.beq hx hy hyx hxy

/-- A side is moved to a number beyond it. -/
def push (beyond : Float → Float → Prop) [DecidableRel beyond] (side x : Float) : Float :=
  if beyond x side then x else side

/-- Among numbers one that is a number, and none of them is beyond it. -/
structure Outermost (beyond : Float → Float → Prop) (numbers : List Float) (side : Float) :
    Prop where
  isNaN : side.isNaN = false
  mem : side ∈ numbers
  within : ∀ x ∈ numbers, ¬ beyond x side

variable {beyond : Float → Float → Prop} {numbers : List Float} {start side : Float}

/-- Numbers push a side as far as the outermost of them. -/
theorem Ranks.outermost_foldl [DecidableRel beyond] (h : Ranks beyond)
    (hs : start.isNaN = false) (numbers : List Float) :
    Outermost beyond (start :: numbers) (numbers.foldl (push beyond) start) := by
  induction numbers generalizing start with
  | nil => exact ⟨hs, List.mem_singleton_self start, List.forall_mem_singleton.2 (h.irrefl start)⟩
  | cons y numbers ih =>
    rw [List.foldl_cons, push]
    by_cases hy : beyond y start
    · rw [if_pos hy]
      obtain ⟨hr, hm, hw⟩ := ih (h.isNaN hy).1
      obtain ⟨hy', hw⟩ := List.forall_mem_cons.1 hw
      refine ⟨hr, .tail start hm, List.forall_mem_cons.2 ⟨fun hb => ?_, ?_⟩⟩
      · exact hy' (h.trans hy hb)
      · exact List.forall_mem_cons.2 ⟨hy', hw⟩
    · rw [if_neg hy]
      obtain ⟨hr, hm, hw⟩ := ih hs
      obtain ⟨hs', hw⟩ := List.forall_mem_cons.1 hw
      refine ⟨hr, ?_, List.forall_mem_cons.2 ⟨hs', List.forall_mem_cons.2 ⟨fun hb => ?_, hw⟩⟩⟩
      · rcases List.mem_cons.1 hm with hm | hm
        · rw [hm]
          exact List.mem_cons_self
        · exact .tail _ (.tail _ hm)
      · exact (h.split hs hb).elim hy hs'

theorem Ranks.same_of_outermost (h : Ranks beyond) {others : List Float} {side' : Float}
    (hn : ∀ x, x ∈ numbers ↔ x ∈ others) (ho : Outermost beyond numbers side)
    (ho' : Outermost beyond others side') : Same side side' := by
  apply same_of_beq
  apply h.beq ho.isNaN ho'.isNaN
  · exact ho'.within side ((hn side).1 ho.mem)
  · exact ho.within side' ((hn side').2 ho'.mem)

/-- A side is tight at coordinates: none that is a number is beyond it and it is equal to one of
them, or it is where it started if there are no numbers. -/
structure Tight (reaches : Float → Float → Prop) (start : Float) (numbers : List Float)
    (side : Float) : Prop where
  encloses : ∀ x ∈ numbers, x.isNaN = false → reaches side x
  touches : (∃ x ∈ numbers, x.isNaN = false) → ∃ x ∈ numbers, side == x
  stays : (∀ x ∈ numbers, x.isNaN) → side = start

theorem Ranks.tight (h : Ranks beyond) {reaches : Float → Float → Prop}
    (hr : ∀ {x y}, x.isNaN = false → y.isNaN = false → ¬ beyond y x → reaches x y)
    (hs : ∀ x, ¬ beyond start x) (ho : Outermost beyond (start :: numbers) side) :
    Tight reaches start numbers side where
  encloses x hx hn := hr ho.isNaN hn (ho.within x (.tail start hx))
  touches := by
    rintro ⟨x, hx, hn⟩
    rcases List.mem_cons.1 ho.mem with hm | hm
    · -- The side has not moved, so the number that is there lies at its start too.
      refine ⟨x, hx, h.beq ho.isNaN hn ?_ (ho.within x (.tail start hx))⟩
      rw [hm]
      exact hs x
    · exact ⟨side, hm, h.beq ho.isNaN ho.isNaN (h.irrefl side) (h.irrefl side)⟩
  stays hn := by
    rcases List.mem_cons.1 ho.mem with hm | hm
    · exact hm
    · cases ho.isNaN.symm.trans (hn side hm)

end Double

namespace Box

open Double

theorem foldl_enclose (b : Box) (points : List Point) :
    points.foldl enclose b =
      ⟨(points.map (·.x)).foldl (push (· < ·)) b.minX,
        (points.map (·.y)).foldl (push (· < ·)) b.minY,
        (points.map (·.x)).foldl (push (· > ·)) b.maxX,
        (points.map (·.y)).foldl (push (· > ·)) b.maxY⟩ := by
  induction points generalizing b with
  | nil => rfl
  | cons p points ih => exact ih (b.enclose p)

/-- Each side is the outermost of its coordinates and of where it started. -/
structure Encloses (b : Box) (points : List Point) : Prop where
  minX : Outermost (· < ·) (1 / 0 :: points.map (·.x)) b.minX
  minY : Outermost (· < ·) (1 / 0 :: points.map (·.y)) b.minY
  maxX : Outermost (· > ·) (-(1 / 0) :: points.map (·.x)) b.maxX
  maxY : Outermost (· > ·) (-(1 / 0) :: points.map (·.y)) b.maxY

theorem encloses_foldl (points : List Point) : Encloses (points.foldl enclose empty) points := by
  rw [foldl_enclose]
  exact ⟨ranks_lt.outermost_foldl rfl _, ranks_lt.outermost_foldl rfl _,
    ranks_gt.outermost_foldl rfl _, ranks_gt.outermost_foldl rfl _⟩

/-- The same box but for the signs of zeros. -/
structure Same (b c : Box) : Prop where
  minX : Double.Same b.minX c.minX
  minY : Double.Same b.minY c.minY
  maxX : Double.Same b.maxX c.maxX
  maxY : Double.Same b.maxY c.maxY

/-- The order of points does not matter. -/
theorem Encloses.same {b c : Box} {points others : List Point} (hp : points.Perm others)
    (hb : Encloses b points) (hc : Encloses c others) : b.Same c := by
  have hm (start : Float) (f : Point → Float) (x : Float) :
      x ∈ start :: points.map f ↔ x ∈ start :: others.map f := ((hp.map f).cons start).mem_iff
  exact ⟨ranks_lt.same_of_outermost (hm _ _) hb.minX hc.minX,
    ranks_lt.same_of_outermost (hm _ _) hb.minY hc.minY,
    ranks_gt.same_of_outermost (hm _ _) hb.maxX hc.maxX,
    ranks_gt.same_of_outermost (hm _ _) hb.maxY hc.maxY⟩

end Box

namespace Double

variable {numbers : List Float} {least greatest : Float}

theorem tight_least (h : Outermost (· < ·) (1 / 0 :: numbers) least) :
    Tight (· ≤ ·) (1 / 0) numbers least := by
  apply ranks_lt.tight le_of_not_lt _ h
  intro x hx
  have hp : place (1 / 0) = ⊤ := place_of_infinity (s := .positive) rfl
  have hlt := (lt_iff_place.1 hx).2.2
  rw [hp] at hlt
  exact not_top_lt hlt

theorem tight_greatest (h : Outermost (· > ·) (-(1 / 0) :: numbers) greatest) :
    Tight (· ≥ ·) (-(1 / 0)) numbers greatest := by
  apply ranks_gt.tight (fun hx hy => le_of_not_lt hy hx) _ h
  intro x hx
  have hp : place (-(1 / 0)) = ⊥ := place_of_infinity (s := .negative) rfl
  have hlt := (lt_iff_place.1 hx).2.2
  rw [hp] at hlt
  exact not_lt_bot hlt

theorem least_le_greatest (hl : Outermost (· < ·) (1 / 0 :: numbers) least)
    (hg : Outermost (· > ·) (-(1 / 0) :: numbers) greatest)
    (hn : ∃ x ∈ numbers, x.isNaN = false) : least ≤ greatest := by
  obtain ⟨x, hx, hn⟩ := hn
  apply le_of_not_lt hl.isNaN hg.isNaN
  intro h
  rcases ranks_lt.split hn h with hb | hb
  · exact hg.within x (.tail _ hx) hb
  · exact hl.within x (.tail _ hx) hb

end Double

namespace Path

open Double

theorem bounds?_eq_none (path : Path) : path.bounds? = none ↔ path.points = [] := by
  unfold bounds?
  split
  case h_1 h => exact iff_of_true rfl h
  case h_2 h => exact iff_of_false nofun h

theorem bounds?_eq_some {path : Path} {box : Box} (h : path.bounds? = some box) :
    path.points ≠ [] ∧ box.Encloses path.points := by
  unfold bounds? at h
  split at h
  case h_1 => cases h
  case h_2 hp =>
    obtain rfl := Option.some.inj h
    exact ⟨hp, Box.encloses_foldl path.points⟩

theorem points_eq_nil (path : Path) : path.points = [] ↔ ∀ op ∈ path, op = .close := by
  rw [points, List.filterMap_eq_nil_iff]
  apply forall₂_congr
  intro op _
  cases op with
  | moveTo | lineTo => simp only [PathOp.point?, reduceCtorEq]
  | close => exact iff_of_true rfl rfl

theorem points_ofStrokes_eq_nil (strokes : List Stroke) (origin : Point) (flipY : Bool) :
    (ofStrokes strokes origin flipY).points = [] ↔ ∀ stroke ∈ strokes, stroke.length < 2 := by
  have hn := nil_not_mem_shown strokes origin flipY
  rw [points_ofStrokes, List.flatten_eq_nil_iff]
  constructor
  · intro h stroke hs
    by_contra hl
    have hv : stroke ∈ visible strokes := mem_visible.2 ⟨hs, not_lt.1 hl⟩
    have hm := List.mem_map_of_mem (f := (·.map (·.translate origin flipY))) hv
    exact hn (h _ hm ▸ hm)
  · intro h stroke hs
    obtain ⟨original, ho, -⟩ := List.mem_map.1 hs
    obtain ⟨hm, hl⟩ := mem_visible.1 ho
    exact absurd (h original hm) (not_lt.2 hl)

/-- There is a box unless a path only closes, so for the path of strokes unless all are too short.
Its sides are tight at the coordinates of the points, are in order as far as there are numbers among
these, and do not depend on the order of the points but for the signs of zeros. -/
theorem bounds_tight (path : Path) :
    (path.bounds? = none ↔ ∀ op ∈ path, op = .close) ∧
    (∀ strokes origin flipY, (ofStrokes strokes origin flipY).bounds? = none ↔
      ∀ stroke ∈ strokes, stroke.length < 2) ∧
    ∀ box, path.bounds? = some box →
      let xs := path.points.map (·.x)
      let ys := path.points.map (·.y)
      Tight (· ≤ ·) (1 / 0) xs box.minX ∧ Tight (· ≤ ·) (1 / 0) ys box.minY ∧
      Tight (· ≥ ·) (-(1 / 0)) xs box.maxX ∧ Tight (· ≥ ·) (-(1 / 0)) ys box.maxY ∧
      ((∃ x ∈ xs, x.isNaN = false) → box.minX ≤ box.maxX) ∧
      ((∃ y ∈ ys, y.isNaN = false) → box.minY ≤ box.maxY) ∧
      ∀ path' : Path, path'.points.Perm path.points →
        ∃ box', path'.bounds? = some box' ∧ box.Same box' := by
  refine ⟨(bounds?_eq_none path).trans (points_eq_nil path), fun strokes origin flipY =>
    (bounds?_eq_none _).trans (points_ofStrokes_eq_nil strokes origin flipY), fun box hb => ?_⟩
  obtain ⟨hn, he⟩ := bounds?_eq_some hb
  refine ⟨tight_least he.minX, tight_least he.minY, tight_greatest he.maxX, tight_greatest he.maxY,
    least_le_greatest he.minX he.maxX, least_le_greatest he.minY he.maxY, fun path' hp => ?_⟩
  cases hb' : path'.bounds? with
  | none =>
    rw [bounds?_eq_none] at hb'
    rw [hb'] at hp
    exact absurd hp.nil_eq.symm hn
  | some box' => exact ⟨box', rfl, he.same hp.symm (bounds?_eq_some hb').2⟩

theorem bounds_tight_mixed :
    let path : Path := [.moveTo ⟨0 / 0, -0⟩, .lineTo ⟨3, 0⟩, .close, .lineTo ⟨-2, 0 / 0⟩]
    let turned : Path := [.moveTo ⟨-2, 0 / 0⟩, .lineTo ⟨3, 0⟩, .lineTo ⟨0 / 0, -0⟩]
    let box : Box := ⟨-2, -0, 3, -0⟩
    let box' : Box := ⟨-2, 0, 3, 0⟩
    path.bounds? = some box ∧ turned.bounds? = some box' ∧ box ≠ box' ∧ box.Same box' ∧
      box.minX ≤ box.maxX := by
  intro path turned box box'
  have hb : path.bounds? = some box := by decide +kernel
  have hb' : turned.bounds? = some box' := by decide +kernel
  have hp : turned.points.Perm path.points := by decide +kernel
  have hn : ∃ x ∈ path.points.map (·.x), x.isNaN = false := ⟨3, .tail _ List.mem_cons_self, rfl⟩
  obtain ⟨-, -, -, -, hx, -, hs⟩ := (bounds_tight path).2.2 box hb
  obtain ⟨other, ho, hs⟩ := hs turned hp
  cases hb'.symm.trans ho
  exact ⟨hb, hb', by decide +kernel, hs, hx hn⟩

end Path

end TurtlePlot
