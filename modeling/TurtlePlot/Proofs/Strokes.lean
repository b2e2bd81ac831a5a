import TurtlePlot.Proofs.Adequacy

/-!
What the trail of a turtle looks like over any sequence of commands, failed ones included. Strokes
have points, a lowered pen stands at the end of the latest stroke, and there is a stroke for each
time the pen was lowered. Strokes are only added to, and only the latest one while the pen is down.
-/

namespace TurtlePlot

namespace Turtle

/-- Strokes have points, and a pen that is down stands where the latest stroke ends. -/
structure Sound (t : Turtle) : Prop where
  ne_nil : ∀ stroke ∈ t.strokes, stroke ≠ []
  ends : t.penDown → ∃ stroke, t.strokes.getLast? = some stroke ∧
    stroke.getLast? = some t.position

/-- The strokes of a turtle are found again at a later time: all but the last unchanged and the last
one as a first part, of a longer stroke only if its pen was down. -/
structure GrowsTo (t t' : Turtle) : Prop where
  kept (i : Nat) (h : i + 1 < t.strokes.length) : t'.strokes[i]? = t.strokes[i]?
  last (stroke : Stroke) (h : t.strokes.getLast? = some stroke) :
    ∃ stroke', t'.strokes[t.strokes.length - 1]? = some stroke' ∧ stroke <+: stroke' ∧
      (stroke ≠ stroke' → t.penDown)

variable {t t' t'' : Turtle} {action : Action}

theorem strokes_of_trail {stroke : Stroke} {older : List Stroke} (h : t.trail = stroke :: older) :
    t.strokes = (older.map List.reverse).reverse ++ [stroke.reverse] := by
  rw [strokes, h, List.map_cons, List.reverse_cons]

theorem sound_of_trail (hn : ∀ stroke ∈ t.trail, stroke ≠ [])
    (he : t.penDown → ∃ stroke older, t.trail = (t.position :: stroke) :: older) : t.Sound where
  ne_nil := by
    intro stroke hs
    obtain ⟨points, hp, rfl⟩ := List.mem_map.1 (List.mem_reverse.1 hs)
    exact fun h => hn points hp (List.reverse_eq_nil_iff.1 h)
  ends := by
    intro hd
    obtain ⟨stroke, older, ht⟩ := he hd
    refine ⟨(t.position :: stroke).reverse, ?_, ?_⟩
    · rw [strokes_of_trail ht, List.getLast?_concat]
    · rw [List.getLast?_reverse, List.head?_cons]

theorem Sound.trail_ne_nil (h : t.Sound) : ∀ stroke ∈ t.trail, stroke ≠ [] := by
  rintro stroke hs rfl
  exact h.ne_nil [] (List.mem_reverse.2 (List.mem_map.2 ⟨[], hs, rfl⟩)) rfl

theorem Sound.trail_ends (h : t.Sound) (hd : t.penDown) :
    ∃ stroke older, t.trail = (t.position :: stroke) :: older := by
  obtain ⟨stroke, hs, hp⟩ := h.ends hd
  cases ht : t.trail with
  | nil =>
    rw [strokes, ht] at hs
    cases hs
  | cons points older =>
    rw [strokes_of_trail ht, List.getLast?_concat] at hs
    obtain rfl := Option.some.inj hs
    rw [List.getLast?_reverse] at hp
    obtain ⟨rest, rfl⟩ := List.head?_eq_some_iff.1 hp
    exact ⟨rest, older, rfl⟩

end Turtle

/-- What an action can make of a turtle. Only lowering the pen starts a stroke. -/
theorem Action.perform_cases {action : Action} {t t' : Turtle} (h : action.perform t = .ok t') :
    action = .penDown ∧ t' = t.lowerPen ∨
    action ≠ .penDown ∧
      (t' = t ∨ t' = t.liftPen ∨ (∃ heading, t' = t.face heading) ∨ ∃ p, t' = t.moveTo p) := by
  cases action with
  | penDown =>
    cases h
    exact .inl ⟨rfl, rfl⟩
  | pass =>
    cases h
    exact .inr ⟨nofun, .inl rfl⟩
  | penUp =>
    cases h
    exact .inr ⟨nofun, .inr (.inl rfl)⟩
  | center =>
    cases h
    exact .inr ⟨nofun, .inr (.inr (.inr ⟨_, rfl⟩))⟩
  | resetHeading =>
    cases h
    exact .inr ⟨nofun, .inr (.inr (.inl ⟨_, rfl⟩))⟩
  | setHeading degrees =>
    rw [perform] at h
    cases ha : headingOf (90 + degrees) with
    | error fault => rw [ha] at h; cases h
    | ok angle =>
      rw [ha] at h
      cases h
      exact .inr ⟨nofun, .inr (.inr (.inl ⟨_, rfl⟩))⟩
  | turn degrees =>
    rw [perform] at h
    cases ha : headingOf degrees with
    | error fault => rw [ha] at h; cases h
    | ok angle =>
      rw [ha] at h
      cases h
      exact .inr ⟨nofun, .inr (.inr (.inl ⟨_, rfl⟩))⟩
  | setPosition x y =>
    rw [perform] at h
    cases hx : nearestFloat x with
    | error fault => rw [hx] at h; cases h
    | ok x =>
      cases hy : nearestFloat y with
      | error fault => rw [hx, hy] at h; cases h
      | ok y =>
        rw [hx, hy] at h
        obtain rfl := Except.ok.inj h
        split
        · exact .inr ⟨nofun, .inl rfl⟩
        · exact .inr ⟨nofun, .inr (.inr (.inr ⟨_, rfl⟩))⟩
  | forward distance =>
    rw [perform] at h
    cases hd : unitVector t.heading with
    | error fault => rw [hd] at h; cases h
    | ok direction =>
      cases hl : nearestFloat distance with
      | error fault => rw [hd, hl] at h; cases h
      | ok length =>
        rw [hd, hl] at h
        obtain rfl := Except.ok.inj h
        exact .inr ⟨nofun, .inr (.inr (.inr ⟨_, rfl⟩))⟩

namespace Turtle

variable {t t' t'' : Turtle}

theorem trail_moveTo_of_penUp (p : Point) (h : t.penDown = false) : (t.moveTo p).trail = t.trail := by
  simp only [moveTo, h]

theorem trail_moveTo_of_penDown {stroke : Stroke} {older : List Stroke} (p : Point)
    (h : t.penDown = true) (ht : t.trail = stroke :: older) :
    (t.moveTo p).trail = (p :: stroke) :: older := by
  simp only [moveTo, h, ht]

@[simp] theorem position_moveTo (p : Point) (t : Turtle) : (t.moveTo p).position = p := by
  unfold moveTo
  split <;> rfl

@[simp] theorem penDown_moveTo (p : Point) (t : Turtle) : (t.moveTo p).penDown = t.penDown := by
  unfold moveTo
  split <;> rfl

/-- A later turtle, in terms of the trail: new strokes stand before the latest one, which may have
got more points, and before those that were finished. -/
def Extends (t t' : Turtle) : Prop :=
  ∀ stroke older, t.trail = stroke :: older →
    ∃ newer more, t'.trail = newer ++ (more ++ stroke) :: older ∧ (more ≠ [] → t.penDown) ∧
      (newer = [] → t'.penDown → t.penDown)

theorem Extends.refl (t : Turtle) : t.Extends t :=
  fun _ _ h => ⟨[], [], h, fun h => absurd rfl h, fun _ h => h⟩

theorem Extends.trans (h : t.Extends t') (h' : t'.Extends t'') : t.Extends t'' := by
  intro stroke older ht
  obtain ⟨newer, more, ht', hm, hn⟩ := h stroke older ht
  cases newer with
  | nil =>
    obtain ⟨newer', more', ht'', hm', hn'⟩ := h' _ _ ht'
    refine ⟨newer', more' ++ more, ?_, ?_, fun he hd => hn rfl (hn' he hd)⟩
    · rw [ht'', List.append_assoc]
    · intro he
      by_cases hmore : more' = []
      · subst hmore
        exact hm he
      · exact hn rfl (hm' hmore)
  | cons latest newer =>
    obtain ⟨newer', more', ht'', -, -⟩ := h' latest (newer ++ (more ++ stroke) :: older) ht'
    refine ⟨newer' ++ (more' ++ latest) :: newer, more, ?_, hm, fun he => ?_⟩
    · rw [ht'', List.append_assoc, List.cons_append]
    · exact absurd he (List.append_ne_nil_of_right_ne_nil _ (List.cons_ne_nil _ _))

theorem Extends.growsTo (h : t.Extends t') : t.GrowsTo t' := by
  cases ht : t.trail with
  | nil =>
    have hs : t.strokes = [] := by rw [strokes, ht]; rfl
    constructor
    · intro i hi
      rw [hs] at hi
      cases hi
    · intro stroke hl
      rw [hs] at hl
      cases hl
  | cons stroke older =>
    obtain ⟨newer, more, ht', hm, -⟩ := h stroke older ht
    have hs := strokes_of_trail ht
    have hs' : t'.strokes = (older.map List.reverse).reverse ++
        (stroke.reverse ++ more.reverse) :: (newer.map List.reverse).reverse := by
      rw [strokes, ht', List.map_append, List.map_cons, List.reverse_append, List.reverse_cons,
        List.append_assoc, List.singleton_append, List.reverse_append]
    constructor
    · intro i hi
      rw [hs, List.length_append, List.length_singleton] at hi
      have hi := Nat.lt_of_succ_lt_succ hi
      rw [hs, hs', List.getElem?_append_left hi, List.getElem?_append_left hi]
    · intro last hl
      rw [hs, List.getLast?_concat] at hl
      obtain rfl := Option.some.inj hl
      refine ⟨stroke.reverse ++ more.reverse, ?_, List.prefix_append _ _, fun hne => hm ?_⟩
      · rw [hs', hs, List.length_append, List.length_singleton, Nat.add_sub_cancel,
          List.getElem?_append_right (Nat.le_refl _), Nat.sub_self, List.getElem?_cons_zero]
      · rintro rfl
        exact hne (List.append_nil _).symm

/-- What can be said of a turtle and a later one, with how often the pen was lowered between. -/
structure Leads (lowerings : Nat) (t t' : Turtle) : Prop where
  sound : t.Sound → t'.Sound
  extended : t.Extends t'
  length : t'.strokes.length = t.strokes.length + lowerings

theorem Leads.refl (t : Turtle) : Leads 0 t t :=
  ⟨id, .refl t, rfl⟩

theorem Leads.trans {m n : Nat} (h : Leads m t t') (h' : Leads n t' t'') : Leads (m + n) t t'' :=
  ⟨h'.sound ∘ h.sound, h.extended.trans h'.extended, by rw [h'.length, h.length, Nat.add_assoc]⟩

def lowerings (t : Turtle) (action : Action) : Nat :=
  if action = .penDown ∧ t.penDown = false then 1 else 0

theorem leads_of_trail (ht : t'.trail = t.trail) (hd : t'.penDown → t.penDown)
    (hp : t'.penDown → t'.position = t.position) : Leads 0 t t' where
  sound := by
    intro h
    apply sound_of_trail
    · rw [ht]
      exact h.trail_ne_nil
    · intro hd'
      rw [ht, hp hd']
      exact h.trail_ends (hd hd')
  extended := by
    intro stroke older hs
    exact ⟨[], [], ht.trans hs, fun h => absurd rfl h, fun _ => hd⟩
  length := by rw [strokes, ht, strokes, Nat.add_zero]

theorem leads_lowerPen (t : Turtle) : Leads (t.lowerings .penDown) t t.lowerPen := by
  cases hd : t.penDown with
  | true =>
    rw [lowerPen, if_pos hd, lowerings, hd]
    exact .refl t
  | false =>
    have ht : t.lowerPen = { t with penDown := true, trail := [t.position] :: t.trail } :=
      if_neg (by simp only [hd, Bool.false_eq_true, not_false_eq_true])
    constructor
    · intro h
      rw [ht]
      apply sound_of_trail
      · rintro stroke (_ | ⟨_, hs⟩)
        · exact List.cons_ne_nil _ _
        · exact h.trail_ne_nil stroke hs
      · exact fun _ => ⟨[], t.trail, rfl⟩
    · intro stroke older hs
      rw [ht]
      exact ⟨[[t.position]], [], congrArg _ hs, fun h => absurd rfl h,
        fun h => absurd h (List.cons_ne_nil _ _)⟩
    · rw [strokes_lowerPen, List.length_append, lowerings, hd]
      rfl

theorem leads_moveTo (p : Point) (t : Turtle) : Leads 0 t (t.moveTo p) := by
  cases hd : t.penDown with
  | false =>
    have hn : ¬ (t.moveTo p).penDown := by
      rw [penDown_moveTo, hd]
      exact Bool.false_ne_true
    exact leads_of_trail (trail_moveTo_of_penUp p hd) (fun h => absurd h hn)
      (fun h => absurd h hn)
  | true =>
    cases ht : t.trail with
    | nil =>
      constructor
      · intro h
        obtain ⟨stroke, older, hs⟩ := h.trail_ends hd
        cases ht.symm.trans hs
      · intro stroke older hs
        cases ht.symm.trans hs
      · simp only [strokes, moveTo, hd, ht, Nat.add_zero]
    | cons stroke older =>
      have ht' := trail_moveTo_of_penDown p hd ht
      constructor
      · intro h
        apply sound_of_trail
        · rw [ht']
          rintro stroke' (_ | ⟨_, hs⟩)
          · exact List.cons_ne_nil _ _
          · exact h.trail_ne_nil stroke' (ht ▸ List.mem_cons_of_mem _ hs)
        · intro _
          rw [position_moveTo]
          exact ⟨stroke, older, ht'⟩
      · intro stroke' older' hs
        cases ht.symm.trans hs
        exact ⟨[], [p], ht', fun _ => hd, fun _ _ => hd⟩
      · simp only [strokes, ht', ht, List.length_reverse, List.length_map, List.length_cons,
          Nat.add_zero]

theorem leads_perform {action : Action} (h : action.perform t = .ok t') :
    Leads (t.lowerings action) t t' := by
  rcases Action.perform_cases h with ⟨rfl, rfl⟩ | ⟨hne, hc⟩
  · exact leads_lowerPen t
  · rw [lowerings, if_neg fun h => hne h.1]
    rcases hc with rfl | rfl | ⟨heading, rfl⟩ | ⟨p, rfl⟩
    · exact .refl _
    · exact leads_of_trail rfl nofun nofun
    · exact leads_of_trail rfl id fun _ => rfl
    · exact leads_moveTo p t

end Turtle

def Deed.lowersPen (deed : Deed) : Bool :=
  match deed.move, deed.outcome with
  | .act .penDown, .done _ => !deed.before.turtle.penDown
  | _, _ => false

section Run

variable {limits : Limits} {m : Move} {s s' : Session} {fault : Fault}

theorem Deed.lowersPen_act (action : Action) (s s' : Session) :
    (if lowersPen ⟨.act action, s, .done s'⟩ then 1 else 0) = s.turtle.lowerings action := by
  cases action with
  | penDown =>
    simp only [lowersPen, Turtle.lowerings, Bool.not_eq_true', true_and]
  | pass | center | resetHeading | setHeading | setPosition | penUp | turn | forward => rfl

theorem Move.Changes.leads (h : Move.Changes s m s') :
    Turtle.Leads (if Deed.lowersPen ⟨m, s, .done s'⟩ then 1 else 0) s.turtle s'.turtle := by
  cases h with
  | act ha =>
    rw [Deed.lowersPen_act]
    exact Turtle.leads_perform ha
  | define | remark | enter | pass | leave => exact .refl _

theorem Move.Fails.turtle_eq (h : Move.Fails limits s m fault s') : s'.turtle = s.turtle := by
  cases h <;> rfl

theorem Deed.not_lowersPen_of_failed : lowersPen ⟨m, s, .failed fault s'⟩ = false := by
  unfold lowersPen
  split
  case h_1 h => cases h
  case h_2 => rfl

theorem leads_execute (limits : Limits) (agenda : List Task) (s : Session) :
    Turtle.Leads ((execute limits agenda s).journal.countP Deed.lowersPen) s.turtle
      (execute limits agenda s).outcome.session.turtle := by
  induction agenda, s using execute_induction limits with
  | nil s =>
    rw [execute_nil]
    exact .refl _
  | done hm ih =>
    rw [execute_of_done hm]
    simp only [List.countP_cons]
    rw [Nat.add_comm]
    exact (Move.changes_of_make hm).leads.trans ih
  | @failed t rest s fault s' hm =>
    have ht : (s'.unwind rest).turtle = s.turtle := (Move.fails_of_make hm).turtle_eq
    rw [execute_of_failed hm]
    simp only [List.countP_cons, Deed.not_lowersPen_of_failed, Outcome.session, ht]
    exact .refl _

theorem deeds_execute (limits : Limits) (agenda : List Task) (s : Session) (hs : s.turtle.Sound) :
    ∀ deed ∈ (execute limits agenda s).journal,
      deed.before.turtle.Sound ∧ deed.outcome.session.turtle.Sound ∧
        deed.before.turtle.GrowsTo deed.outcome.session.turtle := by
  refine forall_deeds_execute (P := fun s => s.turtle.Sound) (fun hs hm => ?_)
    (fun {_ s _ s'} hs hm => ?_) agenda s hs
  · have hl := (Move.changes_of_make hm).leads
    exact ⟨hl.sound hs, hs, hl.sound hs, hl.extended.growsTo⟩
  · have ht : s'.turtle = s.turtle := (Move.fails_of_make hm).turtle_eq
    simp only [Outcome.session, ht]
    exact ⟨hs, hs, (Turtle.Extends.refl _).growsTo⟩

end Run

namespace Session

/-- Runs commands one after the other, each under limits of its own, and goes on after a fault. -/
def attempt : List (Limits × Command) → Session → Session
  | [], s => s
  | (limits, c) :: calls, s => attempt calls (s.exec limits c).session

def deeds : List (Limits × Command) → Session → List Deed
  | [], _ => []
  | (limits, c) :: calls, s =>
    (execute limits [.command c] s).journal ++ deeds calls (s.exec limits c).session

theorem leads_attempt (calls : List (Limits × Command)) (s : Session) :
    Turtle.Leads ((deeds calls s).countP Deed.lowersPen) s.turtle (attempt calls s).turtle := by
  induction calls generalizing s with
  | nil => exact .refl _
  | cons call calls ih =>
    obtain ⟨limits, c⟩ := call
    have hl := leads_execute limits [.command c] s
    rw [execute_exec] at hl
    rw [deeds, List.countP_append]
    exact hl.trans (ih _)

theorem deeds_sound (calls : List (Limits × Command)) (s : Session) (hs : s.turtle.Sound) :
    ∀ deed ∈ deeds calls s,
      deed.before.turtle.Sound ∧ deed.outcome.session.turtle.Sound ∧
        deed.before.turtle.GrowsTo deed.outcome.session.turtle := by
  induction calls generalizing s with
  | nil =>
    intro deed hmem
    cases hmem
  | cons call calls ih =>
    obtain ⟨limits, c⟩ := call
    have hl := leads_execute limits [.command c] s
    rw [execute_exec] at hl
    intro deed hmem
    rcases List.mem_append.1 hmem with hmem | hmem
    · exact deeds_execute limits _ s hs deed hmem
    · exact ih _ (hl.sound hs) deed hmem

/-- Whatever is attempted on a fresh session, strokes have points, a pen that is down stands at the
end of the last stroke, there are as many strokes as deeds that lowered a lifted pen, and whatever
is attempted next only adds to the strokes. The same holds from deed to deed. -/
theorem strokes_of_attempt (calls more : List (Limits × Command)) :
    let s := attempt calls {}
    s.turtle.Sound ∧ s.turtle.strokes.length = (deeds calls {}).countP Deed.lowersPen ∧
      s.turtle.GrowsTo (attempt more s).turtle ∧
      ∀ deed ∈ deeds calls {}, deed.before.turtle.Sound ∧ deed.outcome.session.turtle.Sound ∧
        deed.before.turtle.GrowsTo deed.outcome.session.turtle := by
  intro s
  have hfresh : ({} : Turtle).Sound := ⟨nofun, nofun⟩
  have hl := leads_attempt calls {}
  refine ⟨hl.sound hfresh, ?_, (leads_attempt more s).extended.growsTo,
    deeds_sound calls {} hfresh⟩
  rw [hl.length]
  exact Nat.zero_add _

end Session

end TurtlePlot
