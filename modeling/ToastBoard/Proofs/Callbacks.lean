import ToastBoard.Proofs.Ripening

/-!
# Runs with callbacks

A computation that tells listeners runs to its end while each of them does what it likes before it
returns: a course of its own, on the world as it was left, of deeds that leave things to
coordinators, inside of which other listeners are told and return. What happened is written down in
a trace. Between any two points of such a run nothing comes to life but by an alert that was shown
or a registration that was finished in between.
-/

namespace ToastBoard

open Board

variable {h : HandlerId} {r : RegistryId} {m : Moment} {e : Event} {α β : Type}

/-- Events that happened, each with the moment before it. -/
abbrev Trace := List (Moment × Event)

namespace Trace

/-- A handler was made to show an alert. -/
def Shows (tr : Trace) (h : HandlerId) : Prop := ∃ m c source listener,
  (m, Event.deed (.showAlert c source listener)) ∈ tr ∧ h = m.world.board.handlers.length

/-- The registration of a handler was finished. -/
def Finishes (tr : Trace) (h : HandlerId) : Prop := ∃ m s attempt,
  (m, Event.deed (.finish s)) ∈ tr ∧ m.world.board.inside? s = some attempt ∧ attempt.handler = h

/-- At some moment a handler had a toast to release. -/
def Stores (tr : Trace) (h : HandlerId) (id : ToastId) : Prop := ∃ m e,
  (m, e) ∈ tr ∧ (m.world.board.handler h).registration = some id

variable {tr tr' : Trace}

theorem Shows.of_subset (ht : tr ⊆ tr') (hs : tr.Shows h) : tr'.Shows h := by
  obtain ⟨m, c, source, listener, hm, hh⟩ := hs
  exact ⟨m, c, source, listener, ht hm, hh⟩

theorem Finishes.of_subset (ht : tr ⊆ tr') (hs : tr.Finishes h) : tr'.Finishes h := by
  obtain ⟨m, s, attempt, hm, hh⟩ := hs
  exact ⟨m, s, attempt, ht hm, hh⟩

end Trace

/-- What may have happened between two boards. -/
structure Board.Elapses (tr : Trace) (b b' : Board) : Prop where
  /-- A handler is live that was, or its registration was finished. -/
  live : ∀ h < b.handlers.length, b'.phase h = .live → b.phase h = .live ∨ tr.Finishes h
  /-- What a handler has to release it had before, or it is new. -/
  registration : ∀ {h id}, (b'.handler h).registration = some id →
    (b.handler h).registration = some id ∨ b.screen.toasts.length < id
  /-- What a handler had to release meanwhile nobody else has. -/
  stored : ∀ {h id}, tr.Stores h id → (0 < id ∧ id ≤ b'.screen.toasts.length) ∧
    ∀ g, (b'.handler g).registration = some id → g = h
  /-- No toast is forgotten. -/
  toasts : b.screen.toasts.length ≤ b'.screen.toasts.length
  /-- A signal that has fired remains so. -/
  fired : b.signal.fired = true → b'.signal.fired = true
  /-- No coordinator is forgotten or gets another registry. -/
  coordinators : b.coordinators.map (·.registry) <+: b'.coordinators.map (·.registry)
  /-- An entry was there before, or is that of a handler that was shown. -/
  entries : ∀ {r name h}, (name, h) ∈ (b'.registry r).entries →
    (name, h) ∈ (b.registry r).entries ∨ (tr.Shows h ∧ b.handlers.length ≤ h ∧
      h < b'.handlers.length)

/-- What may have happened between two worlds: handlers have moved on, nobody has given up a
coordinator, and of a handler that was not live nothing was told unless its registration was
finished before it was over. -/
structure World.Elapses (tr : Trace) (w w' : World) : Prop where
  /-- What may have happened between their boards. -/
  board : w.board.Elapses tr w'.board
  /-- Handlers have moved on, and what was told remains told. -/
  later : (order false).later w w'
  /-- Nobody has given up a coordinator. -/
  coordinators : w.coordinators ⊆ w'.coordinators
  /-- Nothing was told of a handler that was not live. -/
  hush : ∀ h < w.board.handlers.length, w.board.phase h ≠ .live →
    (w.board.phase h = .unregistered ∨ ¬tr.Finishes h) → w'.board.heard h = w.board.heard h

section Elapses

variable {tr tr' : Trace} {a b c : Board}

theorem Board.Elapses.refl (b : Board) : b.Elapses [] b where
  live _ _ hp := .inl hp
  registration := .inl
  stored hs := by
    obtain ⟨m, e, hm, -⟩ := hs
    cases hm
  toasts := Nat.le_refl _
  fired := id
  coordinators := List.prefix_rfl
  entries := .inl

theorem Board.Elapses.trans (h : a.Elapses tr b) (ho : a.Onward b) (h' : b.Elapses tr' c)
    (ho' : b.Onward c) : a.Elapses (tr ++ tr') c where
  live x hx hp := by
    rcases h'.live x (Nat.lt_of_lt_of_le hx ho.length) hp with hb | hf
    · exact (h.live x hx hb).imp_right (.of_subset (List.subset_append_left ..))
    · exact .inr (hf.of_subset (List.subset_append_right ..))
  registration hr := by
    rcases h'.registration hr with hb | hn
    · exact h.registration hb
    · exact .inr (Nat.lt_of_le_of_lt h.toasts hn)
  stored hs := by
    obtain ⟨m, e, hm, hr⟩ := hs
    rcases List.mem_append.mp hm with hm | hm
    · obtain ⟨⟨hpos, hle⟩, hone⟩ := h.stored ⟨m, e, hm, hr⟩
      refine ⟨⟨hpos, Nat.le_trans hle h'.toasts⟩, fun g hg => ?_⟩
      rcases h'.registration hg with hb | hn
      · exact hone g hb
      · exact absurd hle (Nat.not_le_of_lt hn)
    · exact h'.stored ⟨m, e, hm, hr⟩
  toasts := Nat.le_trans h.toasts h'.toasts
  fired hf := h'.fired (h.fired hf)
  coordinators := h.coordinators.trans h'.coordinators
  entries hx := by
    rcases h'.entries hx with hb | ⟨hs, hn, hlt⟩
    · rcases h.entries hb with ha | ⟨hs, hn, hlt⟩
      · exact .inl ha
      · exact .inr ⟨hs.of_subset (List.subset_append_left ..), hn,
          Nat.lt_of_lt_of_le hlt ho'.length⟩
    · exact .inr ⟨hs.of_subset (List.subset_append_right ..), Nat.le_trans ho.length hn, hlt⟩

/-- In a turn that only ends things nothing else happens. -/
theorem Board.Ebbs.elapses (h : a.Ebbs b) : a.Elapses [] b where
  live x _ hp := by
    rcases h.phase x with he | he
    · exact .inl (he ▸ hp)
    · rw [hp] at he
      cases he
  registration hr := .inl (h.registration hr)
  stored hs := by
    obtain ⟨m, e, hm, -⟩ := hs
    cases hm
  toasts := Nat.le_of_eq h.toasts.symm
  fired := h.fired
  coordinators := h.coordinators ▸ List.prefix_rfl
  entries hx := .inl (h.entries hx)

theorem World.Elapses.refl (w : World) : w.Elapses [] w :=
  ⟨.refl _, (order false).later_refl w, fun _ => id, fun _ _ _ _ => rfl⟩

theorem World.Elapses.trans {u v w : World} (h : u.Elapses tr v) (h' : v.Elapses tr' w) :
    u.Elapses (tr ++ tr') w where
  board := h.board.trans h.later.1 h'.board h'.later.1
  later := (order false).later_trans h.later h'.later
  coordinators _ hc := h'.coordinators (h.coordinators hc)
  hush x hx hp hf := by
    have hlt := Nat.lt_of_lt_of_le hx h.later.1.length
    rcases hf with hu | hf
    · have hu' := h.later.1.over hx hu
      have hl : v.board.phase x ≠ .live := by
        rw [hu']
        exact Phase.noConfusion
      exact (h'.hush x hlt hl (.inl hu')).trans (h.hush x hx hp (.inl hu))
    · have hl : v.board.phase x ≠ .live := fun hl => (h.board.live x hx hl).elim hp
        fun hl => hf (hl.of_subset (List.subset_append_left ..))
      exact (h'.hush x hlt hl (.inr fun hl => hf (hl.of_subset
        (List.subset_append_right ..)))).trans
        (h.hush x hx hp (.inr fun hl => hf (hl.of_subset (List.subset_append_left ..))))

/-- In a turn that only ends things nothing else happens. -/
theorem World.elapses_of_turn {w : World} {b : Board} {x : Option Telling} {g g' : Ledger}
    (hs : (order false).sound g w) (hs' : (order false).sound g' (w.put b))
    (hturn : (order false).turn w x (w.put b)) (he : w.board.Ebbs b) : w.Elapses [] (w.put b) where
  board := he.elapses
  later := (order false).later_of_turn hturn
  coordinators _ hc := hc
  hush h hlt hp _ := by
    refine Sound.hush hs hs' hturn.1 hturn.2.1 hlt hp fun hl => ?_
    rcases he.elapses.live h hlt hl with hl | ⟨_, _, _, hm, -⟩
    · exact hp hl
    · cases hm

end Elapses

/-- What is done in a calm course: things are left to coordinators, and nobody panics. -/
def Calm (_ : Moment) : Event → Prop
  | .deed d => d.Coordinated
  | .reply returned => returned = true

theorem Calm.coordinated (he : Calm m e) : e.Coordinated := by
  cases e with
  | deed d => exact he
  | reply returned => trivial

/-- Whoever owns a coordinator still does after an event, unless it is to give that one up. -/
theorem mem_coordinators_after {c : CoordinatorId} (allowed : m.Allows e)
    (he : e ≠ .deed (.dropCoordinator c)) (hc : c ∈ m.world.coordinators) :
    c ∈ (m.after e).world.coordinators := by
  have hsettle : ∀ (w : World) d waiting (t : Talk Board Telling Unit),
      (Moment.settle w d waiting t).world.coordinators = w.coordinators := by
    intro w d waiting t
    cases t <;> rfl
  cases e with
  | deed d =>
    change c ∈ (Moment.settle _ d _ _).world.coordinators
    rw [hsettle]
    cases d with
    | setUp settings host =>
      simp only [Deed.start, Deed.holdings]
      split
      · exact List.mem_cons_of_mem _ hc
      · exact hc
    | shareCoordinator d => exact List.mem_cons_of_mem _ hc
    | dropCoordinator d =>
      exact (List.mem_erase_of_ne fun hd => he (by rw [hd])).mpr hc
    | openRegistry | shareRegistry | dropRegistry | openStation | mark | stop | create | share
    | letGo | submit | unregister | lookUp | install | takeEntry | takeAll | restore
    | removeIfCurrent | grab | showAlert | closeAlert | removeHandler | suppress | fire | emit
    | deliver | arm | advance | finish => exact hc
  | reply returned =>
    obtain ⟨w, waiting⟩ := m
    cases waiting with
    | nil => exact absurd rfl allowed
    | cons x rest =>
      change c ∈ (Moment.settle w x.deed rest _).world.coordinators
      rw [hsettle]
      exact hc

/-- In an event that leaves things to coordinators nobody gives one up. -/
theorem coordinators_after (allowed : m.Allows e) (he : e.Coordinated) :
    m.world.coordinators ⊆ (m.after e).world.coordinators := fun _ hc =>
  mem_coordinators_after allowed (fun hd => (congrArg Event.Coordinated hd).mp he) hc

namespace Event.Starts

variable {b b' : Board}

/-- Nobody comes to life by what an event starts with but a handler whose registration is
finished. -/
theorem live (hs : e.Starts b b') (hlt : h < b.handlers.length) (hp : b'.phase h = .live) :
    b.phase h = .live ∨ ∃ s attempt, e = .deed (.finish s) ∧ b.inside? s = some attempt ∧
      attempt.handler = h := by
  cases hs with
  | still => exact .inl hp
  | made fields listener registry =>
    have hcreate := readied_create b { fields, listener, registry } rfl rfl
    exact .inl ((hcreate.other h (Nat.ne_of_lt hlt)) ▸ hp)
  | shown c source listener hshown => exact .inl ((hshown.other h (Nat.ne_of_lt hlt)) ▸ hp)
  | installed r name x =>
    rw [phase_install] at hp
    exact .inl hp
  | restored r name x previous => exact .inl ((restore_quiet ..).2.2 h ▸ hp)
  | submitted s x =>
    by_cases hx : h = x
    · subst hx
      rcases submit_phase b s hlt with ⟨-, -, he⟩ | ⟨-, -, ⟨-, he⟩ | ⟨-, he⟩⟩
      · rw [he] at hp
        cases hp
      · rw [he] at hp
        cases hp
      · exact .inl (he ▸ hp)
    · obtain ⟨-, -, -, hother⟩ := submit_quiet b s x
      rw [phase, hother h hx] at hp
      exact .inl hp
  | setUp settings host =>
    rw [phase, handler, handlers_setUp] at hp
    exact .inl hp
  | @ripened s attempt _ hin hripe =>
    by_cases hx : h = attempt.handler
    · exact .inr ⟨s, attempt, rfl, hin, hx.symm⟩
    · rw [phase, hripe.other h hx] at hp
      exact .inl hp

/-- What a handler has to release once an event has started it had before, or it is new. -/
theorem registration (hs : e.Starts b b') {id : ToastId}
    (hr : (b'.handler h).registration = some id) :
    (b.handler h).registration = some id ∨ b.screen.toasts.length < id := by
  cases hs with
  | still => exact .inl hr
  | made fields listener registry =>
    have hcreate := readied_create b { fields, listener, registry } rfl rfl
    exact .inl (hcreate.registration hr)
  | shown c source listener hshown => exact .inl (hshown.registration hr)
  | installed r name x =>
    rw [handler_install] at hr
    exact .inl hr
  | restored r name x previous =>
    obtain ⟨registries, hrest⟩ := ebbs_restore b r name x previous
    exact .inl (hrest.registration hr)
  | submitted s x =>
    obtain ⟨-, -, -, -, hstored⟩ := submit_rest b s x
    exact .inl ((hstored h).1 ▸ hr)
  | setUp settings host =>
    rw [handler, handlers_setUp] at hr
    exact .inl hr
  | @ripened s attempt _ hin hripe =>
    by_cases hx : h = attempt.handler
    · subst hx
      exact hripe.registration hr
    · rw [hripe.other h hx] at hr
      exact .inl hr

/-- What an event starts with concerns neither toasts that were recorded, nor coordinators that were
set up, nor a signal that has fired. -/
theorem rest (hs : e.Starts b b') : b.screen.toasts.length ≤ b'.screen.toasts.length ∧
    (b.signal.fired = true → b'.signal.fired = true) ∧
    b.coordinators.map (·.registry) <+: b'.coordinators.map (·.registry) := by
  have hsame : b'.signal = b.signal → b.signal.fired = true → b'.signal.fired = true :=
    fun he hf => he ▸ hf
  have hkeep : ∀ {d : Board}, d.coordinators.map (·.registry) = b.coordinators.map (·.registry) →
      b.coordinators.map (·.registry) <+: d.coordinators.map (·.registry) :=
    fun he => he ▸ List.prefix_rfl
  have hadds : b.Adds b' → b.screen.toasts.length ≤ b'.screen.toasts.length ∧
      (b.signal.fired = true → b'.signal.fired = true) ∧
      b.coordinators.map (·.registry) <+: b'.coordinators.map (·.registry) := fun ha =>
    ⟨Nat.le_of_eq ha.toasts.symm, fun hf => ha.signal.elim (hsame · hf) id, hkeep ha.coordinators⟩
  cases hs with
  | still => exact ⟨Nat.le_refl _, id, List.prefix_rfl⟩
  | made fields listener registry =>
    exact hadds (readied_create b { fields, listener, registry } rfl rfl).toAdds
  | shown c source listener hshown => exact hadds hshown.toAdds
  | installed r name x =>
    rw [install_eq]
    exact ⟨Nat.le_refl _, id, List.prefix_rfl⟩
  | restored r name x previous =>
    obtain ⟨registries, hrest⟩ := ebbs_restore b r name x previous
    exact ⟨Nat.le_of_eq hrest.toasts.symm, hrest.fired, hkeep hrest.coordinators⟩
  | submitted s x =>
    obtain ⟨-, hscreen, hsignal, hcoordinators, -⟩ := submit_rest b s x
    exact ⟨Nat.le_of_eq (by rw [hscreen]), hsame hsignal, hkeep (by rw [hcoordinators])⟩
  | setUp settings host =>
    rcases setUp_cases b settings host with ⟨worker, identity, -, he⟩ | ⟨he, -⟩
    · rw [he]
      refine ⟨Nat.le_refl _, fun hf => ?_, ?_⟩
      · change (b.signal.subscribe _).2.fired = true
        rw [Signal.subscribe_of_fired hf]
        exact hf
      · change _ <+: (b.coordinators ++ [_]).map Coordinator.registry
        rw [List.map_append]
        exact List.prefix_append ..
    · rw [he]
      exact ⟨Nat.le_refl _, id, List.prefix_rfl⟩
  | ripened hin hripe =>
    exact ⟨hripe.toasts, hsame hripe.signal, hkeep (by rw [hripe.coordinators])⟩

end Event.Starts

namespace Moment.Tame

variable {first : Ledger}

/-- What happens on the board in an event that leaves things to coordinators or gives one up. -/
theorem board (hm : m.Tame first) (allowed : m.Allows e)
    (he : e.Coordinated ∨ ∃ c, e = .deed (.dropCoordinator c)) :
    m.world.board.Elapses [(m, e)] (m.after e).world.board := by
  obtain ⟨⟨b', hstarts, hebb⟩, -⟩ := hm.turn allowed
  obtain ⟨g, hsound⟩ := hm.lawful.sound
  obtain ⟨htoasts, hfired, hcoordinators⟩ := hstarts.rest
  have hregistration : ∀ {x id}, ((m.after e).world.board.handler x).registration = some id →
      (m.world.board.handler x).registration = some id ∨
        m.world.board.screen.toasts.length < id :=
    fun hr => hstarts.registration (hebb.registration hr)
  refine ⟨?_, hregistration, ?_, ?_, ?_, ?_, ?_⟩
  · intro x hx hp
    rcases hebb.phase x with hb | hb
    · rcases hstarts.live hx (hb ▸ hp) with hl | ⟨s, attempt, rfl, hin, ha⟩
      · exact .inl hl
      · exact .inr ⟨m, s, attempt, List.mem_singleton.mpr rfl, hin, ha⟩
    · rw [hp] at hb
      cases hb
  · rintro x id ⟨m', e', hm', hr⟩
    cases List.mem_singleton.mp hm'
    rw [hebb.toasts]
    obtain ⟨hpos, hle⟩ := hsound.toasts.recorded hr
    refine ⟨⟨hpos, Nat.le_trans hle htoasts⟩, fun y hy => ?_⟩
    rcases hregistration hy with hb | hn
    · exact hsound.toasts.distinct hb hr
    · exact absurd hle (Nat.not_le_of_lt hn)
  · rw [hebb.toasts]
    exact htoasts
  · exact fun hf => hebb.fired (hfired hf)
  · rw [hebb.coordinators]
    exact hcoordinators
  · intro q name x hx
    rcases hstarts.entries allowed (hebb.entries hx) with hb |
      ⟨hn, hl, -, c, source, listener, rfl⟩ | ⟨-, hc, hd⟩
    · exact .inl hb
    · refine .inr ⟨⟨m, c, source, listener, List.mem_singleton.mpr rfl, hn⟩,
        Nat.le_of_eq hn.symm, ?_⟩
      rw [hebb.length, hl, hn]
      exact Nat.lt_succ_self _
    · rcases he with he | ⟨c, he⟩
      · exact absurd he hc
      · exact absurd he (hd c)

/-- An event leads to a later world. -/
theorem world_later (hm : m.Tame first) (allowed : m.Allows e) :
    (order false).later m.world (m.after e).world := by
  obtain ⟨-, hlater, hturn⟩ := governs_free.after hm.lawful allowed trivial
  exact (order false).later_trans hlater ((order false).later_of_turn hturn)

/-- What happens in an event. -/
theorem elapses (hm : m.Tame first) (allowed : m.Allows e) (he : e.Coordinated) :
    m.world.Elapses [(m, e)] (m.after e).world := by
  obtain ⟨honward, x, htold⟩ := hm.lawful.turn allowed
  obtain ⟨g, hsound⟩ := hm.lawful.sound
  obtain ⟨g', hsound'⟩ := (hm.turn allowed).2.lawful.sound
  have hboard := hm.board allowed (.inl he)
  refine ⟨hboard, hm.world_later allowed, coordinators_after allowed he, ?_⟩
  intro x hx hp hf
  refine hsound.hush hsound' honward htold hx hp fun hl => ?_
  rcases hf with hu | hf
  · rw [honward.over hx hu] at hl
    cases hl
  · exact (hboard.live x hx hl).elim hp hf

end Moment.Tame

/-- What happens from a moment on, in turn. -/
def Moment.trace : Moment → List Event → Trace
  | _, [] => []
  | m, e :: rest => (m, e) :: (m.after e).trace rest

/-- What passes while a listener is told: a calm course by itself, on the world as it was left, up
to its end. -/
def World.Passes (w : World) (tr : Trace) (w' : World) : Prop := ∃ events,
  Course.Open Calm ⟨w, []⟩ events ∧ Moment.trace ⟨w, []⟩ events = tr ∧
    events.foldl Moment.after ⟨w, []⟩ = ⟨w', []⟩

/-- How a computation runs to its end while its listeners act before they return. -/
inductive Talk.Plays : World → Talk Board Telling α → Trace → Option α → World → Prop where
  /-- It has ended. -/
  | ended {w : World} {a : Option α} {b : Board} : Plays w (.ended a b) [] a (w.put b)
  /-- It tells a listener, and goes on with the world that is left. -/
  | told {w w' w'' : World} {m : Telling} {b : Board} {resume : Bool → Board → Talk Board Telling α}
      {tr tr' : Trace} {a : Option α} (passes : (w.put b).Passes tr w')
      (rest : Plays w' (resume true w'.board) tr' a w'') :
      Plays w (.told m b resume) (tr ++ tr') a w''

/-- A calm course keeps what was taken on. -/
theorem Moment.Tame.passes {first : Ledger} {events : List Event} {w' : World} (hm : m.Tame first)
    (ho : Course.Open Calm m events) (hend : events.foldl Moment.after m = ⟨w', []⟩) :
    m.world.Elapses (m.trace events) w' ∧ (order false).sound first w' := by
  induction events generalizing m with
  | nil =>
    subst hend
    exact ⟨.refl _, hm.lawful.top rfl⟩
  | cons e rest ih =>
    obtain ⟨allowed, hcalm, hrest⟩ := ho
    obtain ⟨hlater, hsound⟩ := ih (hm.turn allowed).2 hrest hend
    exact ⟨(hm.elapses allowed hcalm.coordinated).trans hlater, hsound⟩

/-- What a computation has taken on is kept while a listener acts. -/
theorem World.Passes.elapses {w w' : World} {tr : Trace} {g : Ledger} (hp : w.Passes tr w')
    (hs : (order false).sound g w) : w.Elapses tr w' ∧ (order false).sound g w' := by
  obtain ⟨events, ho, rfl, hend⟩ := hp
  exact Moment.Tame.passes (m := ⟨w, []⟩) ⟨⟨g, hs, .nil⟩, List.forall_mem_nil _⟩ ho hend

/-- It does not matter how three computations are put together. -/
theorem Talk.andThen_assoc {σ μ γ : Type} (t : Talk σ μ α) (next : α → σ → Talk σ μ β)
    (last : β → σ → Talk σ μ γ) :
    (t.andThen next).andThen last = t.andThen fun a s => (next a s).andThen last := by
  induction t with
  | ended a s => cases a <;> rfl
  | told m s resume ih =>
    exact congrArg (Talk.told m s) (funext fun returned => funext fun s => ih returned s)

namespace Talk.Plays

variable {w w' : World} {tr : Trace} {a : Option α} {t : Talk Board Telling α} {g g' : Ledger}
  {start : Board} {P : Option α → World → Prop}

/-- Only the people of a world matter for a computation that has its own board. -/
theorem put {b : Board} : t.Plays (w.put b) tr a w' ↔ t.Plays w tr a w' := by
  constructor <;> intro hp
  · cases hp with
    | ended => exact .ended
    | told passes rest => exact .told passes rest
  · cases hp with
    | ended => exact .ended
    | told passes rest => exact .told passes rest

/-- A computation that keeps the law where listeners may return, and only ends things, ends as it
promises, whatever its listeners do, and only they do anything else meanwhile. -/
theorem elapses (hp : t.Plays w tr a w') (may : Bool → Prop) (hm : may true)
    (hs : (order false).sound g' w) (he : t.Ebbs w.board)
    (hk : t.Keeps (order false) may (Leaves false may {} g start P) w w) :
    w.Elapses tr w' ∧ (order false).sound g w' ∧ (a = none → may false) ∧ P a w' := by
  induction hp generalizing g' with
  | ended =>
    obtain ⟨hat, hpanic, -, hpost⟩ := hk
    exact ⟨World.elapses_of_turn hs hat.sound hat.quiet he, hat.sound, hpanic, hpost⟩
  | told passes rest ih =>
    obtain ⟨hturn, g', hsound, hresume⟩ := hk
    obtain ⟨hpassed, hkept⟩ := passes.elapses hsound
    obtain ⟨hlater, hend⟩ := ih hkept (he.2 true _) (hresume true _ hm hpassed.later hkept)
    exact ⟨(World.elapses_of_turn hs hsound hturn he.1).trans (hpassed.trans hlater), hend⟩

/-- A run of one computation after the other is a run of each. -/
theorem andThen {next : α → Board → Talk Board Telling β} {o : Option β}
    (hp : (t.andThen next).Plays w tr o w') : (o = none ∧ t.Plays w tr none w') ∨
      ∃ tr₁ tr₂ x v, tr = tr₁ ++ tr₂ ∧ t.Plays w tr₁ (some x) v ∧
        (next x v.board).Plays v tr₂ o w' := by
  induction t generalizing w tr with
  | ended a b =>
    cases a with
    | none =>
      cases hp
      exact .inl ⟨rfl, .ended⟩
    | some x => exact .inr ⟨[], tr, x, w.put b, rfl, .ended, put.mpr hp⟩
  | told m b resume ih =>
    cases hp with
    | told passes rest =>
      rcases ih true _ rest with ⟨ho, hr⟩ | ⟨tr₁, tr₂, x, v, rfl, hr, hn⟩
      · exact .inl ⟨ho, .told passes hr⟩
      · exact .inr ⟨_, tr₂, x, v, (List.append_assoc ..).symm, .told passes hr, hn⟩

/-- A change at the end comes after the run. -/
theorem ensuring {f : Board → Board} (hp : (t.ensuring f).Plays w tr a w') :
    ∃ v, t.Plays w tr a v ∧ w' = v.put (f v.board) := by
  induction t generalizing w tr with
  | ended x b =>
    cases hp
    exact ⟨w.put b, .ended, rfl⟩
  | told m b resume ih =>
    cases hp with
    | told passes rest =>
      obtain ⟨v, hr, hv⟩ := ih true _ rest
      exact ⟨v, .told passes hr, hv⟩

end Talk.Plays

end ToastBoard
