import Mathlib.Logic.Relation
import ToastBoard.Proofs.Departures

/-!
# The turn in which a handler ends

A run consists of turns: those of the computation itself, and the events of the courses in between,
in which listeners act. A handler that is over in the end came to its end in one of them. What its
listener has heard by then depends on the phase in which that turn found the handler, and not on
what ended it: it has heard everything from the beginning to the end if the handler was live, and
nothing at all otherwise.
-/

namespace ToastBoard

open Talk Board Relation

variable {turns turns' : List (Board × Board)} {tr tr' : Trace} {w w' v : World} {g g' : Ledger}
  {h : HandlerId} {p : Phase} {m : Moment} {α : Type}

/-- A turn of a run, from one board to another: one of the computation itself, or an event that
happened meanwhile. -/
def IsTurn (turns : List (Board × Board)) (tr : Trace) (b b' : Board) : Prop :=
  (b, b') ∈ turns ∨ ∃ x ∈ tr, b = x.1.world.board ∧ b' = (x.1.after x.2).world.board

theorem IsTurn.mono {b b' : Board} (hb : IsTurn turns tr b b') (ht : turns ⊆ turns')
    (hr : tr ⊆ tr') : IsTurn turns' tr' b b' :=
  hb.imp (fun hx => ht hx) fun ⟨x, hx, he⟩ => ⟨x, hr hx, he⟩

/-- A handler comes to its end in a turn that finds it in the phase `p`. -/
def EndsFrom (turns : List (Board × Board)) (tr : Trace) (h : HandlerId) (p : Phase) : Prop :=
  ∃ b b', IsTurn turns tr b b' ∧ b.phase h = p ∧ p ≠ .unregistered ∧ b'.phase h = .unregistered

/-- What has been heard of a handler that came to its end from the phase `p`. -/
def Board.HeardFrom (b : Board) (h : HandlerId) (p : Phase) : Prop :=
  if p = .live ∧ (b.handler h).listener ≠ none then ∃ reports : List Topic,
    (b.heard h).map (·.topic) = .shown :: (reports ++ [.finished]) ∧
      ∀ t ∈ reports, t.isReport = true
  else b.heard h = []

/-- One world leads to another in a turn of a run. -/
structure World.Steps (turns : List (Board × Board)) (tr : Trace) (w w' : World) : Prop where
  /-- It is one of the turns. -/
  turn : IsTurn turns tr w.board w'.board
  /-- Handlers move on. -/
  onward : w.board.Onward w'.board
  /-- One thing is told at most. -/
  told : ∃ x : Option Telling, w'.board.told = w.board.told ++ x.toList
  /-- The board was in order. -/
  before : ∃ g, (order false).sound g w
  /-- The board is in order. -/
  after : ∃ g, (order false).sound g w'
  /-- A handler becomes live only if its registration is finished meanwhile. -/
  live : ∀ h < w.board.handlers.length, w'.board.phase h = .live →
    w.board.phase h = .live ∨ tr.Finishes h

theorem World.Steps.mono (hw : w.Steps turns tr w') (ht : turns ⊆ turns') (hr : tr ⊆ tr') :
    w.Steps turns' tr' w' :=
  { hw with
    turn := hw.turn.mono ht hr
    live := fun h hlt hp => (hw.live h hlt hp).imp_right (.of_subset hr) }

theorem steps_mono (hw : ReflTransGen (World.Steps turns tr) w w') (ht : turns ⊆ turns')
    (hr : tr ⊆ tr') : ReflTransGen (World.Steps turns' tr') w w' :=
  ReflTransGen.mono (fun _ _ (hs : World.Steps turns tr _ _) => hs.mono ht hr) _ _ hw

/-- A managed course goes on in turns. -/
theorem Moment.Tame.steps {first : Ledger} {events : List Event} (hm : m.Tame first)
    (ho : Course.Open Managed m events) :
    ReflTransGen (World.Steps [] (m.trace events)) m.world (events.foldl Moment.after m).world := by
  induction events generalizing m with
  | nil => exact .refl
  | cons e rest ih =>
    obtain ⟨allowed, hmanaged, hrest⟩ := ho
    have hafter := (hm.turn allowed).2
    have hboard : m.world.board.Elapses [(m, e)] (m.after e).world.board := by
      refine hm.board allowed ?_
      cases e with
      | deed d => exact hmanaged.imp_right fun ⟨c, hc⟩ => ⟨c, congrArg Event.deed hc⟩
      | reply returned => exact .inl trivial
    have hfirst : m.world.Steps [] (m.trace (e :: rest)) (m.after e).world := by
      refine ⟨.inr ⟨(m, e), List.mem_cons_self, rfl, rfl⟩, (hm.lawful.turn allowed).1,
        (hm.lawful.turn allowed).2, hm.lawful.sound, hafter.lawful.sound, fun x hlt hp => ?_⟩
      exact (hboard.live x hlt hp).imp_right
        (.of_subset (List.cons_subset_cons _ (List.nil_subset _)))
    exact .head hfirst (steps_mono (ih hafter hrest) (List.Subset.refl _)
      (List.subset_cons_self _ _))

/-- So do listeners. -/
theorem World.Strays.steps (hw : w.Strays tr w') (hs : (order false).sound g w) :
    ReflTransGen (World.Steps [] tr) w w' := by
  obtain ⟨events, ho, rfl, hend⟩ := hw
  have htame : (⟨w, []⟩ : Moment).Tame g := ⟨⟨g, hs, .nil⟩, List.forall_mem_nil _⟩
  have hsteps := htame.steps ho
  rwa [hend] at hsteps

/-- A computation that fades goes on in turns. -/
theorem Talk.Runs.steps {t : Talk Board Telling α} {a : Option α} {start : Board}
    {P : Option α → World → Prop} (hp : t.Runs w turns tr a w') (hs : (order false).sound g' w)
    (hf : t.Fades g start P w) : ReflTransGen (World.Steps turns tr) w w' := by
  have hturn : ∀ {w : World} {b turns tr g g' x}, (order false).sound g w →
      (order false).sound g' (w.put b) → (order false).turn w x (w.put b) → w.board.Ebbs b →
      (w.board, b) ∈ turns → w.Steps turns tr (w.put b) := by
    intro w b turns tr g g' x hs hs' hturn hebb hmem
    refine ⟨.inl hmem, hturn.1, ⟨x, hturn.2.1⟩, ⟨g, hs⟩, ⟨g', hs'⟩, fun y _ hl => .inl ?_⟩
    rcases hebb.phase y with hy | hy
    · exact hy.symm.trans hl
    · cases hy.symm.trans hl
  induction hp generalizing g' with
  | ended =>
    obtain ⟨hat, -, -, -⟩ := hf.keeps
    exact .single (hturn hs hat.sound hat.quiet hf.ebbs List.mem_cons_self)
  | told strays rest ih =>
    obtain ⟨hfirst, g', hsound, hresume⟩ := hf.keeps
    obtain ⟨hpassed, hkept⟩ := strays.drifts hsound
    have hlater := ih hkept
      ⟨hf.ebbs.2 true _, hf.outlives.2 true _, hresume true _ trivial hpassed.later hkept⟩
    exact .head (hturn hs hsound hfirst hf.ebbs.1 List.mem_cons_self) (.trans
      (steps_mono (strays.steps hsound) (List.nil_subset _) (List.subset_append_left ..))
      (steps_mono hlater (List.subset_cons_self _ _) (List.subset_append_right ..)))

/-- What a listener has heard once its handler has come to its end in a turn. -/
theorem World.Steps.heardFrom (hw : w.Steps turns tr w') (hlt : h < w.board.handlers.length)
    (hp : w.board.phase h ≠ .unregistered) (hp' : w'.board.phase h = .unregistered) :
    w'.board.HeardFrom h (w.board.phase h) := by
  obtain ⟨⟨x, htold⟩, ⟨g, hs⟩, ⟨g', hs'⟩⟩ := And.intro hw.told (And.intro hw.before hw.after)
  have hlistener := hw.onward.listener h hlt
  by_cases hl : (w.board.handler h).listener = none
  · rw [HeardFrom, if_neg fun hc => hc.2 (hlistener.trans hl)]
    exact hs'.notices.silent h (hlistener.trans hl)
  · obtain ⟨news, hnews, -, -, hfinished, hquiet⟩ := hs.news hs' hw.onward htold hl
    have hbefore := hs.notices.course h hl
    by_cases hlive : w.board.phase h = .live
    · have hafter := hs'.notices.course h (by rwa [hlistener])
      rw [HeardFrom, if_pos ⟨hlive, by rwa [hlistener]⟩]
      rw [show w'.board.phase h = _ from hp'] at hafter
      refine hafter.resolve_left fun hnil => ?_
      rw [hnews, List.map_append, hfinished.mpr ⟨hlive, hp'⟩] at hnil
      simp at hnil
    · rw [HeardFrom, if_neg fun hc => hlive hc.1, hnews,
        hquiet hlive (by rw [hp']; exact Phase.noConfusion),
        List.map_eq_nil_iff.mp (hbefore.eq_nil hlive hp)]
      rfl

/-- What was heard of a handler that is over remains so. -/
theorem World.Steps.silent (hw : w.Steps turns tr w') (hlt : h < w.board.handlers.length)
    (hp : w.board.phase h = .unregistered) : w'.board.heard h = w.board.heard h := by
  obtain ⟨⟨x, htold⟩, ⟨g, hs⟩, ⟨g', hs'⟩⟩ := And.intro hw.told (And.intro hw.before hw.after)
  have hp' := hw.onward.over hlt hp
  exact hs.hush hs' hw.onward htold hlt (by rw [hp]; exact Phase.noConfusion)
    (by rw [hp']; exact Phase.noConfusion)

theorem onward_of_steps (hw : ReflTransGen (World.Steps turns tr) w w') :
    w.board.Onward w'.board := by
  induction hw with
  | refl => exact .refl _
  | tail _ hstep ih => exact ih.trans hstep.onward

/-- What was heard of a handler that is over remains so. -/
theorem silent_of_steps (hw : ReflTransGen (World.Steps turns tr) w w')
    (hlt : h < w.board.handlers.length) (hp : w.board.phase h = .unregistered) :
    w'.board.heard h = w.board.heard h := by
  induction hw with
  | refl => rfl
  | tail hbefore hstep ih =>
    have honward := onward_of_steps hbefore
    exact (hstep.silent (Nat.lt_of_lt_of_le hlt honward.length) (honward.over hlt hp)).trans ih

/-- A handler that is over once a run has come to its end, and was not before, came to its end in
one of its turns, which settles what was heard of it. -/
theorem endsFrom_of_steps (hw : ReflTransGen (World.Steps turns tr) w w')
    (hlt : h < w.board.handlers.length) (hp : w.board.phase h ≠ .unregistered)
    (hover : w'.board.phase h = .unregistered) : ∃ p, EndsFrom turns tr h p ∧
      w'.board.HeardFrom h p ∧ (p = .live → w.board.phase h = .live ∨ tr.Finishes h) := by
  induction hw using ReflTransGen.head_induction_on with
  | refl => exact absurd hover hp
  | @head w v hstep hrest ih =>
    have hlt' := Nat.lt_of_lt_of_le hlt hstep.onward.length
    by_cases hv : v.board.phase h = .unregistered
    · refine ⟨w.board.phase h, ⟨_, _, hstep.turn, rfl, hp, hv⟩, ?_, .inl⟩
      have hfrom := hstep.heardFrom hlt hp hv
      rw [HeardFrom] at hfrom ⊢
      rwa [silent_of_steps hrest hlt' hv, (onward_of_steps hrest).listener h hlt']
    · obtain ⟨p, hend, hfrom, hlive⟩ := ih hlt' hv
      exact ⟨p, hend, hfrom, fun hl => (hlive hl).elim (hstep.live h hlt) .inr⟩

end ToastBoard
