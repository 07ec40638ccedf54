import ToastBoard.Proofs.World

/-!
# Laws of a computation

How to say that a computation keeps something whatever its listeners do. A law says what holds of a
world whenever somebody outside may act, given what the computations under way have taken on, and
how the world turns from one such moment to the next. A listener may leave any later world in which
the law holds again; the computation goes on from there. If each deed keeps a law, whoever stands
around, then every moment of every course does.
-/

namespace ToastBoard

/-- A law over worlds; `γ` is what the computations under way have taken on. -/
structure Law (γ : Type) where
  /-- What holds whenever somebody outside may act. -/
  sound : γ → World → Prop
  /-- How a world turns until a listener is told something, or until a deed ends. -/
  turn : World → Option Telling → World → Prop
  /-- How a world changes over any time. -/
  later : World → World → Prop
  /-- A turn leads to a later world. -/
  later_of_turn : ∀ {w x w'}, turn w x w' → later w w'
  /-- A world is later than itself. -/
  later_refl : ∀ w, later w w
  /-- Later than later is later. -/
  later_trans : ∀ {u v w}, later u v → later v w → later u w

variable {γ α β : Type}

namespace Talk

/-- A computation keeps a law up to its end, where `Q` holds of the world of its last turn, of its
result and of the world. When it tells somebody, the law holds with something it has taken on; it
counts on nothing but that law and a later world when they reply, and only on replies that may be
given. -/
def Keeps (L : Law γ) (may : Bool → Prop) (Q : World → Option α → World → Prop) :
    World → World → Talk Board Telling α → Prop
  | since, w, .ended a b => Q since a (w.put b)
  | since, w, .told m b resume =>
    L.turn since (some m) (w.put b) ∧
      ∃ g, L.sound g (w.put b) ∧
        ∀ returned w', may returned → L.later (w.put b) w' → L.sound g w' →
          Keeps L may Q w' w' (resume returned w'.board)

variable {L : Law γ} {may : Bool → Prop}

/-- A weaker end is kept as well. -/
theorem Keeps.mono {Q Q' : World → Option α → World → Prop}
    (hQ : ∀ since a w, Q since a w → Q' since a w) {t : Talk Board Telling α} {since w : World}
    (h : t.Keeps L may Q since w) : t.Keeps L may Q' since w := by
  induction t generalizing since w with
  | ended a b => exact hQ _ _ _ h
  | told m b resume ih =>
    obtain ⟨hturn, g, hg, hresume⟩ := h
    exact ⟨hturn, g, hg, fun returned w' hm hl hs => ih returned _ (hresume returned w' hm hl hs)⟩

/-- Only the people of a world matter for a computation that has its own board. -/
theorem keeps_put {Q : World → Option α → World → Prop} {t : Talk Board Telling α}
    {since w : World} {b : Board} : t.Keeps L may Q since (w.put b) ↔ t.Keeps L may Q since w := by
  cases t <;> exact Iff.rfl

/-- What a second computation goes on with is what the first has left. -/
theorem keeps_andThen {Q : World → Option β → World → Prop} {t : Talk Board Telling α}
    {next : α → Board → Talk Board Telling β} {since w : World} :
    (t.andThen next).Keeps L may Q since w ↔
      t.Keeps L may (fun since a w =>
        match a with
        | none => Q since none w
        | some a => (next a w.board).Keeps L may Q since w) since w := by
  induction t generalizing since w with
  | ended a b =>
    cases a with
    | none => exact Iff.rfl
    | some a =>
      simp only [andThen, Keeps, World.put_board]
      cases next a b <;> exact Iff.rfl
  | told m b resume ih =>
    simp only [andThen, Keeps]
    constructor
    · rintro ⟨hturn, g, hg, hresume⟩
      exact ⟨hturn, g, hg, fun returned w' hm hl hs =>
        (ih returned _).mp (hresume returned w' hm hl hs)⟩
    · rintro ⟨hturn, g, hg, hresume⟩
      exact ⟨hturn, g, hg, fun returned w' hm hl hs =>
        (ih returned _).mpr (hresume returned w' hm hl hs)⟩

/-- A change at the end comes after whatever the end is. -/
theorem keeps_ensuring {Q : World → Option α → World → Prop} {t : Talk Board Telling α}
    {f : Board → Board} {since w : World} :
    (t.ensuring f).Keeps L may Q since w ↔
      t.Keeps L may (fun since a w => Q since a (w.put (f w.board))) since w := by
  induction t generalizing since w with
  | ended a b => exact Iff.rfl
  | told m b resume ih =>
    simp only [ensuring, Keeps]
    constructor
    · rintro ⟨hturn, g, hg, hresume⟩
      exact ⟨hturn, g, hg, fun returned w' hm hl hs =>
        (ih returned _).mp (hresume returned w' hm hl hs)⟩
    · rintro ⟨hturn, g, hg, hresume⟩
      exact ⟨hturn, g, hg, fun returned w' hm hl hs =>
        (ih returned _).mpr (hresume returned w' hm hl hs)⟩

/-- A panic that is kept from going further ends as anything else does. -/
theorem keeps_caught {Q : World → Option Unit → World → Prop} {t : Talk Board Telling Unit}
    {since w : World} :
    t.caught.Keeps L may Q since w ↔
      t.Keeps L may (fun since _ w => Q since (some ()) w) since w := by
  induction t generalizing since w with
  | ended a b => exact Iff.rfl
  | told m b resume ih =>
    simp only [caught, Keeps]
    constructor
    · rintro ⟨hturn, g, hg, hresume⟩
      exact ⟨hturn, g, hg, fun returned w' hm hl hs =>
        (ih returned _).mp (hresume returned w' hm hl hs)⟩
    · rintro ⟨hturn, g, hg, hresume⟩
      exact ⟨hturn, g, hg, fun returned w' hm hl hs =>
        (ih returned _).mpr (hresume returned w' hm hl hs)⟩

end Talk

namespace Talk

/-- The board on which a computation stops first: where it tells somebody, or at its end. -/
def stop : Talk Board Telling α → Board
  | .ended _ b => b
  | .told _ b _ => b

/-- Whom a computation tells something first, and what. -/
def message : Talk Board Telling α → Option Telling
  | .ended .. => none
  | .told m _ _ => some m

end Talk

namespace Moment

/-- The computation that goes on in an event. -/
def computation (m : Moment) : Event → Talk Board Telling Unit
  | .deed d => d.act m.world.board
  | .reply returned =>
    match m.waiting with
    | [] => .ended none m.world.board
    | waiting :: _ => waiting.resume returned m.world.board

/-- Whom an event tells something, and what. -/
def news (m : Moment) (e : Event) : Option Telling := (m.computation e).message

theorem board_settle (w : World) (d : Deed) (waiting : List Waiting)
    (t : Talk Board Telling Unit) : (settle w d waiting t).world.board = t.stop := by
  cases t <;> rfl

/-- An event leads to where its computation stops first. -/
theorem board_after (m : Moment) (e : Event) :
    (m.after e).world.board = (m.computation e).stop := by
  obtain ⟨w, waiting⟩ := m
  cases e with
  | deed d => exact board_settle ..
  | reply returned =>
    cases waiting with
    | nil => rfl
    | cons x rest => exact board_settle ..

end Moment

namespace Law

variable {L : Law γ} {may : List Deed → Bool → Prop}

/-- How a deed ends under a law: what is taken on is what it was at the start. -/
def Ends (L : Law γ) (g : γ) (since : World) (_ : Option Unit) (w : World) : Prop :=
  L.turn since none w ∧ L.sound g w

/-- Deeds that wait go on under a law when their listeners reply, the innermost first. Each has
taken on what the one inside it started with. -/
inductive Awaits (L : Law γ) (may : List Deed → Bool → Prop) (first : γ) :
    γ → World → List Waiting → Prop where
  /-- Nobody waits. -/
  | nil {w : World} : Awaits L may first first w []
  /-- A deed waits, since some earlier world, on top of others. -/
  | cons {g g' : γ} {told w : World} {waiting : Waiting} {rest : List Waiting}
      (earlier : L.later told w)
      (goesOn : ∀ returned w', may ((waiting :: rest).map (·.deed)) returned →
        L.later told w' → L.sound g' w' →
        (waiting.resume returned w'.board).Keeps L (may ((waiting :: rest).map (·.deed)))
          (L.Ends g) w' w')
      (others : Awaits L may first g w rest) : Awaits L may first g' w (waiting :: rest)

/-- Deeds that wait may wait longer. -/
theorem Awaits.later {first g : γ} {w w' : World} {waiting : List Waiting}
    (h : L.Awaits may first g w waiting) (hl : L.later w w') : L.Awaits may first g w' waiting := by
  induction h with
  | nil => exact .nil
  | cons earlier goesOn _ ih => exact .cons (L.later_trans earlier hl) goesOn (ih hl)

/-- A moment under a law. -/
def Upholds (L : Law γ) (may : List Deed → Bool → Prop) (first : γ) (m : Moment) : Prop :=
  ∃ g, L.sound g m.world ∧ L.Awaits may first g m.world m.waiting

/-- A computation that keeps a law leads to a moment under it, by one turn. -/
theorem upholds_settle {first g : γ} {w : World} {d : Deed} {waiting : List Waiting}
    {t : Talk Board Telling Unit}
    (h : t.Keeps L (may (d :: waiting.map (·.deed))) (L.Ends g) w w)
    (hw : L.Awaits may first g w waiting) :
    L.Upholds may first (Moment.settle w d waiting t) ∧
      L.turn w t.message (Moment.settle w d waiting t).world := by
  cases t with
  | ended a b =>
    obtain ⟨hturn, hg⟩ := h
    exact ⟨⟨g, hg, hw.later (L.later_of_turn hturn)⟩, hturn⟩
  | told m b resume =>
    obtain ⟨hturn, g', hg', hresume⟩ := h
    have hothers := hw.later (L.later_of_turn hturn)
    exact ⟨⟨g', hg', .cons (L.later_refl _) hresume hothers⟩, hturn⟩

/-- The world from which an event goes on. -/
def onset (m : Moment) : Event → World
  | .deed d => d.start m.world
  | .reply _ => m.world

/-- What a law asks of the deeds and replies that are permitted. -/
structure Governs (L : Law γ) (may : List Deed → Bool → Prop)
    (permitted : Moment → Event → Prop) : Prop where
  /-- A permitted deed keeps the law, whatever the computations around it have taken on. -/
  deed : ∀ {g : γ} {m : Moment} {d : Deed}, L.sound g m.world → d.Possible m.world →
    permitted m (.deed d) → L.later m.world (d.start m.world) ∧
      (d.act m.world.board).Keeps L (may (d :: m.waiting.map (·.deed))) (L.Ends g)
        (d.start m.world) (d.start m.world)
  /-- A permitted reply may be given. -/
  reply : ∀ {m : Moment} {returned : Bool}, permitted m (.reply returned) →
    may (m.waiting.map (·.deed)) returned

variable {permitted : Moment → Event → Prop}

/-- A permitted event leads from a moment under a law to another one, by one turn. -/
theorem Governs.after (hL : L.Governs may permitted) {first : γ} {m : Moment} {e : Event}
    (hm : L.Upholds may first m) (allowed : m.Allows e) (hp : permitted m e) :
    L.Upholds may first (m.after e) ∧ L.later m.world (onset m e) ∧
      L.turn (onset m e) (m.news e) (m.after e).world := by
  obtain ⟨g, hg, hw⟩ := hm
  cases e with
  | deed d =>
    obtain ⟨hlater, hkeeps⟩ := hL.deed hg allowed hp
    have hs := upholds_settle hkeeps (hw.later hlater)
    exact ⟨hs.1, hlater, hs.2⟩
  | reply returned =>
    obtain ⟨w, waiting⟩ := m
    cases hw with
    | nil => exact absurd rfl allowed
    | cons earlier goesOn others =>
      have hs := upholds_settle (goesOn returned w (hL.reply hp) earlier hg) others
      exact ⟨hs.1, L.later_refl _, hs.2⟩

/-- Every moment of a permitted course is under the law. -/
theorem Governs.upholds (hL : L.Governs may permitted) {first : γ} (hfirst : L.sound first {})
    {m : Moment} (course : Course permitted m) : L.Upholds may first m := by
  induction course with
  | start => exact ⟨first, hfirst, .nil⟩
  | step _ e allowed hp ih => exact (hL.after ih allowed hp).1

end Law

end ToastBoard
