import ToastBoard.Proofs.LifeCycle
import ToastBoard.Proofs.Reentry
import ToastBoard.Proofs.Shutdown

/-!
# Reports that come too early

What the screen reports about a handler while it is being registered is kept for later, the first
report only. That comes to the same as if the screen had waited: the first report is heard as soon
as the handler is live, and it ends the handler, so that the others would not have been heard
anyway. A failure is not kept that long, as the handler does not become live then; it leaves the
same, but nothing is told.
-/

namespace ToastBoard

open Board

variable {σ : Type} {b b' c c' d : Board} {h : HandlerId} {s : StationId} {o : Outcome}
  {os : List Outcome} {reason : String}

namespace Board

/-- What the screen reports about a handler is delivered before the worker finishes its
registration. -/
def deliverEarly (s : StationId) (h : HandlerId) (os : List Outcome) : Act (Option HandlerId) :=
  (Action.forEach os (hear h)).andThen fun _ => finish s

/-- What the screen reports about a handler is delivered after the worker finished its
registration. -/
def deliverLate (s : StationId) (h : HandlerId) (os : List Outcome) : Act Unit :=
  (finish s).andThen fun _ => Action.forEach os (hear h)

/-- Boards that differ at most in what is kept for handlers, in the order in which holders are
written down, and in what was told. -/
structure SameButPending (b b' : Board) : Prop where
  /-- There are the same entries. -/
  registries : b'.registries = b.registries
  /-- The same toasts were recorded, and released as often. -/
  screen : b'.screen = b.screen
  /-- The stations are the same. -/
  stations : b'.stations = b.stations
  /-- The coordinators are the same. -/
  coordinators : b'.coordinators = b.coordinators
  /-- The signal is the same. -/
  signal : b'.signal = b.signal
  /-- The same handlers are held. -/
  held : b.held.Perm b'.held
  /-- There are as many handlers. -/
  length : b'.handlers.length = b.handlers.length
  /-- Handlers have come as far, and have the same to release. -/
  handler : ∀ x, b'.handler x = { b.handler x with pending := (b'.handler x).pending }

/-- Whether a registry has a handler, or somebody holds it. -/
def HeldOrListed (b : Board) (h : HandlerId) : Prop := h ∈ b.held ∨ ∃ r, h ∈ (b.registry r).handlers

/-- Whether an operation holds a handler that a registry has, too, or somebody else holds. -/
def HeldBesides (b : Board) (h : HandlerId) : Prop :=
  h ∈ b.held ∧ { b with held := b.held.erase h }.HeldOrListed h

/-- A handler that is being registered, and that others have, too, until it is over. -/
structure StaysHeldBesides (b : Board) (s : StationId) (h : HandlerId) (audience : Audience σ)
    (memory : σ) : Prop where
  /-- They have it before the worker finishes. -/
  first : b.HeldOrListed h
  /-- They have it each time somebody has been told something meanwhile. -/
  later : (finish s b).Always audience (fun c => c.HeldBesides h ∨ c.phase h = .unregistered) memory

/-- What the listener of a handler that is being registered hears if a failure comes late. -/
def premiere (b : Board) (h : HandlerId) : List Telling :=
  if b.screen.faults.register = none ∧ b.phase h = .initializing ∧
      (b.handler h).listener ≠ none then
    [⟨h, (b.handler h).notice .shown none⟩, ⟨h, (b.handler h).notice .finished none⟩]
  else []

/-- Boards that are the same but for a handler of the same phase differ in what is kept for it. -/
theorem sameButPending_of_sameButFor (hb : b.SameButFor (some h) b') (hp : b'.phase h = b.phase h) :
    b.SameButPending b' := by
  refine ⟨hb.registries, hb.screen, hb.stations, (congrArg Board.coordinators hb.rest :),
    (congrArg Board.signal hb.rest :), hb.held, hb.length, fun x => ?_⟩
  by_cases hx : x = h
  · subst hx
    have hself := hb.handler x
    rw [Handler.SameButProgress, show (b'.handler x).phase = (b.handler x).phase from hp] at hself
    exact hself
  · rw [hb.same x fun hc => hx (Option.some.inj hc)]

/-- A handler that is over hears nothing. -/
theorem hear_over (hp : b.phase h = .unregistered) (o : Outcome) :
    hear h o b = .ended (some ()) b := by
  by_cases hr : b.refersTo h = true
  · rw [hear_of_not_live hr (hp.trans_ne Phase.noConfusion),
      if_neg (hp.trans_ne Phase.noConfusion)]
  · rw [hear_eq, if_neg hr]

theorem forEach_cons (o : Outcome) (os : List Outcome) (h : HandlerId) (b : Board) :
    Action.forEach (o :: os) (hear h) b =
      (hear h o b).andThen fun _ => Action.forEach os (hear h) := rfl

/-- A handler that is over hears nothing. -/
theorem forEach_hear_over (hp : b.phase h = .unregistered) (os : List Outcome) :
    Action.forEach os (hear h) b = .ended (some ()) b := by
  induction os with
  | nil => rfl
  | cons o os ih =>
    rw [forEach_cons, hear_over hp]
    exact ih

/-- A board on which an outcome is kept for a handler. -/
def keeping (b : Board) (h : HandlerId) (o : Outcome) : Board :=
  b.update h fun hd => { hd with pending := some o }

/-- What is kept for a handler is kept with it. -/
theorem handler_keeping (hlt : h < b.handlers.length) :
    (b.keeping h o).handler h = { b.handler h with pending := some o } := by
  rw [keeping, handler_update_self hlt]

/-- What is kept for a handler has no part in its phase. -/
@[simp] theorem phase_keeping (x : HandlerId) : (b.keeping h o).phase x = b.phase x := by
  rw [phase, keeping, handler_update]
  split <;> rfl

/-- Changes that are the same for a handler are the same. -/
theorem update_congr {f g : Handler → Handler} (hfg : f (b.handler h) = g (b.handler h)) :
    b.update h f = b.update h g := by
  have hsame : b.handlers.modify h f = b.handlers.modify h g := by
    refine List.ext_getElem? fun i => ?_
    rw [List.getElem?_modify, List.getElem?_modify]
    by_cases hi : h = i
    · subst hi
      cases hget : b.handlers[h]? with
      | none => rfl
      | some hd =>
        have hhd : b.handler h = hd := by
          rw [handler, List.getD_eq_getElem?_getD, hget, Option.getD_some]
        rw [hhd] at hfg
        simp [hfg]
    · simp [hi]
  rw [update, hsame, update]

/-- What a handler keeps, it keeps whatever it hears then. -/
theorem forEach_hear_keeping (hr : b.refersTo h = true) (hp : b.phase h = .initializing)
    (hk : (b.handler h).pending ≠ none) (os : List Outcome) :
    Action.forEach os (hear h) b = .ended (some ()) b := by
  induction os with
  | nil => rfl
  | cons o os ih =>
    have hsame : b.update h (fun hd => hd.deferred o) = b := by
      have hid : (b.handler h).deferred o = id (b.handler h) := by
        unfold Handler.deferred
        split
        · rename_i hn
          exact absurd hn hk
        · rfl
      rw [update_congr hid]
      exact congrArg (fun handlers => { b with handlers }) (List.modify_id _ _)
    rw [forEach_cons, hear_of_not_live hr (hp.trans_ne Phase.noConfusion), if_pos hp, hsame]
    exact ih

/-- Of several reports about a handler that is being registered the first one is kept. -/
theorem forEach_hear_initializing (hr : b.refersTo h = true) (hp : b.phase h = .initializing)
    (hk : (b.handler h).pending = none) (o : Outcome) (os : List Outcome) :
    Action.forEach (o :: os) (hear h) b = .ended (some ()) (b.keeping h o) := by
  have hlt : h < b.handlers.length := lt_of_phase_ne (hp.trans_ne Phase.noConfusion)
  have hfirst : b.update h (fun hd => hd.deferred o) = b.keeping h o := by
    refine update_congr ?_
    unfold Handler.deferred
    rw [hk]
  have hself := handler_keeping (o := o) hlt
  have hkept : (b.keeping h o).refersTo h = true := (refersTo_update _ h).trans hr
  rw [forEach_cons, hear_of_not_live hr (hp.trans_ne Phase.noConfusion), if_pos hp, hfirst]
  refine forEach_hear_keeping hkept ((phase_keeping h).trans hp) ?_ os
  rw [hself]
  exact Option.some_ne_none o

/-- What is kept for a handler is all that is odd about it. -/
theorem sameButFor_keeping (b : Board) (h : HandlerId) (o : Outcome) :
    (b.keeping h o).SameButFor (some h) b := by
  refine ⟨rfl, .refl _, (length_update ..).symm, fun x => ?_, fun x hx => ?_, fun _ => rfl⟩
  · rw [keeping, handler_update]
    split
    · exact rfl
    · exact .refl _
  · rw [keeping, handler_update, if_neg fun hc => hx (congrArg some hc.1)]

/-- A board on which a registration was refused, as it had been set to be. -/
def turnedDown (b : Board) : Board :=
  { b with screen := { b.screen with faults := { b.screen.faults with register := none } } }

theorem aloof_turnedDown : Aloof turnedDown := fun _ _ _ _ => rfl

/-- The toast that is recorded next. -/
def upcoming (b : Board) : ToastId := b.screen.toasts.length + 1

/-- Whoever becomes live keeps nothing for later. -/
theorem live_keeping (h : HandlerId) (o : Outcome) (toast : ToastId) :
    (b.keeping h o).live h toast = b.live h toast := by
  unfold keeping live update
  rw [List.modify_modify_eq]
  rfl

/-- Whoever is refused keeps nothing for later. -/
theorem refuse_keeping (h : HandlerId) (o : Outcome) (toast : ToastId) :
    (b.keeping h o).refuse h toast = b.refuse h toast := by
  unfold keeping refuse update
  rw [List.modify_modify_eq]
  rfl

section Registering

variable (hp : b.phase h = .initializing) (he : b.screen.faults.early = none)

include hp

/-- A registration that is refused ends the handler. -/
theorem register_turnedDown (hf : b.screen.faults.register = some reason) :
    register h b = removeSelf h (b.turnedDown.setPhase h .initFailed) := by
  have hn : b.turnedDown.phase h ≠ .unregistered := hp.trans_ne Phase.noConfusion
  have hreject : reject h b.turnedDown = _ := reject_eq h b.turnedDown
  rw [if_neg hn] at hreject
  exact (register_refused hf).trans hreject

include he

/-- A registration during which nothing was reported makes the handler live. -/
theorem register_live (hf : b.screen.faults.register = none) (hk : (b.handler h).pending = none) :
    register h b = (notify h .shown none ((b.recorded h).live h b.upcoming)).andThen
      fun _ => (pure () : Act Unit) := by
  have hn : (b.recorded h).phase h ≠ .unregistered := hp.trans_ne Phase.noConfusion
  rw [register_recorded hf, he]
  change complete h b.upcoming (b.recorded h) = _
  rw [complete_eq, if_neg hn, show ((b.recorded h).handler h).pending = none from hk]
  exact goLive_eq ..

/-- What was kept during a registration is heard once the handler is live. A failure is not: the
handler fails, and ends without having been live. -/
theorem register_keeping (hf : b.screen.faults.register = none) (o : Outcome) :
    register h (b.keeping h o) = match o with
      | .failed _ => removeSelf h ((b.recorded h).refuse h b.upcoming)
      | o => (notify h .shown none ((b.recorded h).live h b.upcoming)).andThen
          fun _ => handleOutcome h o := by
  have hlt : h < b.handlers.length := lt_of_phase_ne (hp.trans_ne Phase.noConfusion)
  have hself := handler_keeping (o := o) hlt
  have hrecorded : (b.keeping h o).recorded h = (b.recorded h).keeping h o := by
    unfold recorded
    rw [hself]
    rfl
  have hkept : (((b.recorded h).keeping h o).handler h).pending = some o :=
    congrArg Handler.pending (handler_keeping (b := b.recorded h) hlt)
  have hn : ((b.recorded h).keeping h o).phase h ≠ .unregistered :=
    ((phase_keeping h).trans hp).trans_ne Phase.noConfusion
  rw [register_recorded (b := b.keeping h o) hf, show (b.keeping h o).screen.faults.early = none
    from he]
  change complete h b.upcoming ((b.keeping h o).recorded h) = _
  rw [hrecorded, complete_eq, if_neg hn, hkept]
  cases o with
  | failed reason => exact congrArg (removeSelf h) (refuse_keeping h _ _)
  | activated action =>
    change goLive h b.upcoming _ _ = _
    rw [goLive_eq, live_keeping]
  | dismissed =>
    change goLive h b.upcoming _ _ = _
    rw [goLive_eq, live_keeping]

end Registering

/-- A registration of a handler that is over leaves it so, and tells nothing. -/
theorem register_over (hp : b.phase h = .unregistered) (he : b.screen.faults.early = none) :
    ∃ d, register h b = .ended (some ()) d ∧ d.phase h = .unregistered ∧ d.told = b.told := by
  cases hf : b.screen.faults.register with
  | some reason =>
    have hreject : reject h b.turnedDown = _ := reject_eq h b.turnedDown
    rw [if_pos (show b.turnedDown.phase h = _ from hp)] at hreject
    exact ⟨b.turnedDown, (register_refused hf).trans hreject, hp, rfl⟩
  | none =>
    have hdone : complete h b.upcoming (b.recorded h) =
        .ended (some ()) ((b.recorded h).releaseToast (some b.upcoming)) := by
      rw [complete_eq, if_pos (show (b.recorded h).phase h = _ from hp)]
    refine ⟨(b.recorded h).releaseToast (some b.upcoming), ?_, ?_, rfl⟩
    · rw [register_recorded hf, he]
      exact hdone
    · rw [phase_releaseToast]
      exact hp

/-- A board on which a worker has stepped out of an attempt, and holds the handler. -/
def steppedOut (b : Board) (s : StationId) (h : HandlerId) : Board :=
  (b.hold h).updateStation s fun st => { st with inside := none }

variable (audience : Audience σ) (memory : σ) {memory' : σ} {a : Option Unit} {thread : String}

section Finishing

variable (hin : b.inside? s = some ⟨h, thread, .proceeds⟩)

include hin

/-- A worker that finishes an attempt registers its handler and gives it back. -/
theorem finish_proceeds : finish s b =
    (((register h (b.steppedOut s h)).caught).ensuring (·.letGo h)).andThen
      fun _ b => .ended (some (some h)) b := by
  rw [finish_eq, hin]
  rfl

/-- Whatever comes of a registration, the worker goes on. -/
theorem before_finish
    (hregister : (register h (b.steppedOut s h)).before audience memory = (a, d, memory')) :
    (finish s b).before audience memory = (some (some h), d.letGo h, memory') := by
  rw [finish_proceeds hin, Talk.before_andThen, Talk.before_ensuring, Talk.before_caught,
    hregister]
  rfl

/-- A worker that finishes an attempt whose registration tells nobody anything tells nobody
anything. -/
theorem finish_ended (hregister : register h (b.steppedOut s h) = .ended a d) :
    finish s b = .ended (some (some h)) (d.letGo h) := by
  rw [finish_proceeds hin, hregister]
  rfl

end Finishing

/-- What comes early for a handler that is over is lost. -/
theorem deliverEarly_over (hp : b.phase h = .unregistered) (os : List Outcome) :
    deliverEarly s h os b = finish s b := by
  change (Action.forEach os (hear h) b).andThen _ = _
  rw [forEach_hear_over hp]
  rfl

/-- The first of what comes early is kept for a handler that is being registered. -/
theorem deliverEarly_initializing (hr : b.refersTo h = true) (hp : b.phase h = .initializing)
    (hk : (b.handler h).pending = none) (o : Outcome) (os : List Outcome) :
    deliverEarly s h (o :: os) b = finish s (b.keeping h o) := by
  change (Action.forEach (o :: os) (hear h) b).andThen _ = _
  rw [forEach_hear_initializing hr hp hk]
  rfl

/-- What comes late is heard on the board that the registration left. -/
theorem before_deliverLate {x : Option HandlerId} (os : List Outcome)
    (hfinish : (finish s b).before audience memory = (some x, d, memory')) :
    (deliverLate s h os b).before audience memory =
      (Action.forEach os (hear h) d).before audience memory' := by
  have hthen := Talk.before_andThen audience (finish s b) (fun _ => Action.forEach os (hear h))
    memory
  rw [hfinish] at hthen
  exact hthen

/-- If the handler is over by then, late reports change nothing. -/
theorem before_deliverLate_over {x : Option HandlerId} (os : List Outcome)
    (hfinish : (finish s b).before audience memory = (some x, d, memory'))
    (hp : d.phase h = .unregistered) :
    (deliverLate s h os b).before audience memory = (some (), d, memory') := by
  rw [before_deliverLate audience memory os hfinish, forEach_hear_over hp]
  rfl

/-- A handler that others have, too, hears after it was given back as if it had not been. -/
theorem hear_heldBesides (hs : c.HeldBesides h) (o : Outcome) :
    ((handleOutcome h o c).ensuring (·.letGo h)).TellsSame (hear h o (c.letGo h)) := by
  obtain ⟨hheld, ht⟩ := hs
  have hr : { c with held := c.held.erase h }.refersTo h = true :=
    refersTo_iff.mpr (ht.imp_right .inl)
  have hback : c.letGo h = { c with held := c.held.erase h } := by rw [letGo, reap, if_pos hr]
  -- the hold that was given back is taken again, and may have stood at another place before
  have hsame : c.SameButFor none ({ c with held := c.held.erase h }.hold h) :=
    ⟨rfl, List.perm_cons_erase hheld, rfl, fun _ => .refl _, fun _ _ => rfl, fun _ => rfl⟩
  rw [hback, hear_eq, if_pos hr]
  exact (tellsSame_handleOutcome hsame h o).ensuring fun hc => hc.letGo h

/-- The first of some late reports ends a live handler, and the others are not heard. -/
theorem before_hear_heldBesides (hs : c.HeldBesides h) (hl : c.phase h = .live) (o : Outcome)
    (os : List Outcome) : ∃ e d' memory',
      (handleOutcome h o c).before audience memory = (some (), e, memory') ∧
      (Action.forEach (o :: os) (hear h) (c.letGo h)).before audience memory =
        (some (), d', memory') ∧
      (e.letGo h).SameButFor none d' ∧ d'.phase h = .unregistered ∧ e.phase h = .unregistered := by
  obtain ⟨_, e, memory', he, hover⟩ := (returns_handleOutcome o hl).before audience memory
  obtain ⟨x, d, d', s', hearly, hlate, hd⟩ := (hear_heldBesides hs o).before audience memory
  rw [Talk.before_ensuring, he] at hearly
  cases hearly
  have hphase : d'.phase h = .unregistered := by
    rw [phase, hd.same h (Option.some_ne_none h)]
    exact (phase_letGo ..).trans hover
  refine ⟨e, d', memory', he, ?_, hd, hphase, hover⟩
  have hthen := Talk.before_andThen audience (hear h o (c.letGo h))
    (fun _ => Action.forEach os (hear h)) memory
  rw [hlate] at hthen
  refine hthen.trans ?_
  change (Action.forEach os (hear h) d').before audience memory' = _
  rw [forEach_hear_over hphase]
  rfl

/-- A handler that failed ends by itself without a word. -/
theorem told_removeSelf_failed (hp : b.phase h = .initFailed)
    (hd : removeSelf h b = .ended (some ()) d) : d.told = b.told := by
  have htold := told_quietly_removeSelf h b
  have hnone : b.parting h = [] := if_neg fun hl => by
    rw [hp] at hl
    exact Phase.noConfusion hl.1
  rw [hd, hnone, List.append_nil] at htold
  exact htold

/-- If the handler is over already, it hears nothing, sooner or later. -/
theorem deferral_over (hin : b.inside? s = some ⟨h, thread, .proceeds⟩)
    (hp : b.phase h = .unregistered) (he : b.screen.faults.early = none) (os : List Outcome) :
    ∃ d, deliverEarly s h os b = .ended (some (some h)) d ∧
      (deliverLate s h os b).before audience memory = (some (), d, memory) ∧
      d.phase h = .unregistered ∧ d.told = b.told := by
  obtain ⟨d, hd, hover, htold⟩ := register_over (b := b.steppedOut s h) hp he
  have hphase : (d.letGo h).phase h = .unregistered := (phase_letGo ..).trans hover
  have hfinish := finish_ended hin hd
  have hbefore : (finish s b).before audience memory = (some (some h), d.letGo h, memory) := by
    rw [hfinish]
    rfl
  exact ⟨d.letGo h, (deliverEarly_over hp os).trans hfinish,
    before_deliverLate_over audience memory os hbefore hphase, hphase,
    (sameButToasts_letGo h).told.trans htold⟩

/-- Handlers that failed end by themselves, and leave the same, on boards on which they are odd. -/
theorem removeSelf_failed_sameButFor (hb : b.SameButFor (some h) b') (hp : b.phase h = .initFailed)
    (hp' : b'.phase h = .initFailed) : ∃ d d',
      removeSelf h b = .ended (some ()) d ∧ removeSelf h b' = .ended (some ()) d' ∧
      d.SameButFor (some h) d' ∧ d.phase h = .unregistered ∧ d'.phase h = .unregistered := by
  obtain ⟨d, hd, hover, -⟩ := removeSelf_failed hp
  obtain ⟨d', hd', hover', -⟩ := removeSelf_failed hp'
  have hends := hb.quietly_removeSelf (hp.trans_ne Phase.noConfusion)
    (hp'.trans_ne Phase.noConfusion)
  rw [hd, hd'] at hends
  exact ⟨d, d', hd, hd', hends, hover, hover'⟩

/-- If the registration is refused, what was kept is lost. -/
theorem deferral_refused (hin : b.inside? s = some ⟨h, thread, .proceeds⟩)
    (hp : b.phase h = .initializing) (hk : (b.handler h).pending = none)
    (hf : b.screen.faults.register = some reason) (o : Outcome) (os : List Outcome) :
    ∃ d d', deliverEarly s h (o :: os) b = .ended (some (some h)) d ∧
      (deliverLate s h (o :: os) b).before audience memory = (some (), d', memory) ∧
      d.SameButPending d' ∧ d.phase h = .unregistered ∧ d.told = b.told ∧ d'.told = b.told := by
  have hphase : ((b.steppedOut s h).keeping h o).phase h = .initializing :=
    (phase_keeping h).trans hp
  have hrefused : ∀ a : Board, a.phase h = .initializing →
      (a.turnedDown.setPhase h .initFailed).phase h = .initFailed := by
    intro a ha
    have hlt : h < a.handlers.length := lt_of_phase_ne (ha.trans_ne Phase.noConfusion)
    exact phase_setPhase (b := a.turnedDown) hlt _
  have hsameBut := ((sameButFor_keeping (b.steppedOut s h) h o).aloof aloof_turnedDown).setPhase
    .initFailed .initFailed
  obtain ⟨d, d', hd, hd', hends, hover, hover'⟩ :=
    removeSelf_failed_sameButFor hsameBut (hrefused _ hphase) (hrefused (b.steppedOut s h) hp)
  have htold := told_removeSelf_failed (hrefused _ hphase) hd
  have htold' := told_removeSelf_failed (hrefused (b.steppedOut s h) hp) hd'
  have hearly := (register_turnedDown hphase hf).trans hd
  have hlate := (register_turnedDown (b := b.steppedOut s h) hp hf).trans hd'
  have hbefore : (finish s b).before audience memory = (some (some h), d'.letGo h, memory) := by
    rw [finish_ended hin hlate]
    rfl
  refine ⟨d.letGo h, d'.letGo h, ?_, before_deliverLate_over audience memory _ hbefore
    ((phase_letGo ..).trans hover'), sameButPending_of_sameButFor (hends.letGo h) ?_,
    (phase_letGo ..).trans hover, ?_, ?_⟩
  · rw [deliverEarly_initializing (refersTo_of_inside hin rfl) hp hk]
    exact finish_ended (b := b.keeping h o) hin hearly
  · rw [phase_letGo, phase_letGo, hover, hover']
  · exact (sameButToasts_letGo h).told.trans htold
  · exact (sameButToasts_letGo h).told.trans htold'

/-- If the handler is over already or its registration is refused, nothing is told. -/
theorem deferral_silent (hin : b.inside? s = some ⟨h, thread, .proceeds⟩)
    (hp : b.phase h = .initializing ∨ b.phase h = .unregistered)
    (hk : (b.handler h).pending = none) (he : b.screen.faults.early = none)
    (hcase : b.phase h = .unregistered ∨ b.screen.faults.register ≠ none)
    (o : Outcome) (os : List Outcome) :
    b.premiere h = [] ∧ ∃ d d', deliverEarly s h (o :: os) b = .ended (some (some h)) d ∧
      (deliverLate s h (o :: os) b).before audience memory = (some (), d', memory) ∧
      d.SameButPending d' ∧ d.phase h = .unregistered ∧ d.told = b.told ∧ d'.told = b.told := by
  constructor
  · refine if_neg fun hc => ?_
    rcases hcase with hover | hf
    · rw [hover] at hc
      exact Phase.noConfusion hc.2.1
    · exact hf hc.1
  · rcases hp with hp | hp
    · obtain ⟨reason, hf⟩ := Option.ne_none_iff_exists'.mp
        (hcase.resolve_left (hp.trans_ne Phase.noConfusion))
      exact deferral_refused audience memory hin hp hk hf o os
    · obtain ⟨d, hearly, hlate, hover, htold⟩ := deferral_over audience memory hin hp he (o :: os)
      exact ⟨d, d, hearly, hlate, sameButPending_of_sameButFor (h := h) (.refl d) rfl, hover, htold,
        htold⟩

/-- A board on which a handler has just become live with its toast. -/
def shown (b : Board) (s : StationId) (h : HandlerId) : Board :=
  ((b.steppedOut s h).recorded h).live h b.upcoming

/-- A board on which a handler has just failed with its toast. -/
def unshown (b : Board) (s : StationId) (h : HandlerId) : Board :=
  ((b.steppedOut s h).recorded h).refuse h b.upcoming

/-- A handler that is shown is live, and has the toast that was recorded for it. -/
theorem handler_shown (hlt : h < b.handlers.length) : (b.shown s h).handler h =
    { b.handler h with phase := .live, registration := some b.upcoming, pending := none } :=
  (handler_update _ h h _).trans (if_pos ⟨rfl, hlt⟩)

/-- A handler that is not shown has failed. -/
theorem phase_unshown (hlt : h < b.handlers.length) : (b.unshown s h).phase h = .initFailed :=
  congrArg Handler.phase ((handler_update _ h h _).trans (if_pos ⟨rfl, hlt⟩))

/-- Whether a handler has failed or is live, and was announced then, is all that is odd about it. -/
theorem sameButFor_unshown (b : Board) (s : StationId) (h : HandlerId) :
    (b.unshown s h).SameButFor (some h) ((b.shown s h).announce h .shown none) := by
  have hsameBut : (b.unshown s h).SameButFor (some h) (b.shown s h) :=
    (SameButFor.refl ((b.steppedOut s h).recorded h)).update rfl fun ho => absurd rfl ho
  rw [announce_eq]
  exact hsameBut.retell (b.unshown s h).told _

/-- A handler that ends right after it was announced was told what is told at a premiere. -/
theorem told_premiere (hp : b.phase h = .initializing) (hf : b.screen.faults.register = none) :
    ((b.shown s h).announce h .shown none).told ++
      ((b.shown s h).announce h .shown none).parting h = b.told ++ b.premiere h := by
  have hself : (b.shown s h).handler h = _ :=
    handler_shown (lt_of_phase_ne (hp.trans_ne Phase.noConfusion))
  rw [told_announce, parting, phase, handler_announce, hself]
  change (b.told ++ if (b.handler h).listener = none then [] else
    [⟨h, (b.handler h).notice .shown none⟩]) ++ (if Phase.live = .live ∧
      (b.handler h).listener ≠ none then [⟨h, (b.handler h).notice .finished none⟩] else []) = _
  rw [premiere, List.append_assoc]
  by_cases hl : (b.handler h).listener = none
  · rw [if_pos hl, if_neg fun hc => hc.2 hl, if_neg fun hc => hc.2.2 hl]
    rfl
  · rw [if_neg hl, if_pos ⟨rfl, hl⟩, if_pos ⟨hf, hp, hl⟩]
    rfl

section Done

variable {audience memory} (hin : b.inside? s = some ⟨h, thread, .proceeds⟩)
  (hp : b.phase h = .initializing) (hk : (b.handler h).pending = none)
  (he : b.screen.faults.early = none) (hf : b.screen.faults.register = none)

include hin hp hk he hf

/-- A worker that finishes lets the handler go once its listener has heard that it is live. -/
theorem before_finish_shown
    (htold : (notify h .shown none (b.shown s h)).before audience memory = (some (), c, memory')) :
    (finish s b).before audience memory = (some (some h), c.letGo h, memory') := by
  refine before_finish audience memory hin (a := some ()) ?_
  have hthen := Talk.before_andThen audience (notify h .shown none (b.shown s h))
    (fun _ => (pure () : Act Unit)) memory
  rw [htold] at hthen
  rw [register_live (b := b.steppedOut s h) hp he hf hk]
  exact hthen

/-- Others still have a handler once its listener has heard that it is live. -/
theorem heldBesides_shown (hs : b.StaysHeldBesides s h audience memory)
    (htold : (notify h .shown none (b.shown s h)).before audience memory = (a, c, memory')) :
    c.HeldBesides h ∨ c.phase h = .unregistered := by
  have hlater := hs.later
  rw [finish_proceeds hin, register_live (b := b.steppedOut s h) hp he hf hk] at hlater
  have hnotify := hlater.of_andThen.of_ensuring.of_caught.of_andThen
  change (notify h .shown none (b.shown s h)).Always _ _ _ at hnotify
  rw [notify_eq] at htold hnotify
  cases hl : ((b.shown s h).handler h).listener with
  | none =>
    rw [hl] at htold
    cases htold
    have hback : (h :: b.held).erase h = b.held := List.erase_cons_head ..
    refine .inl ⟨List.mem_cons_self, ?_⟩
    rcases hs.first with ht | ht
    · exact .inl (hback ▸ ht)
    · exact .inr ht
  | some l =>
    rw [hl] at htold hnotify
    cases htold
    exact hnotify.1

/-- Unless it was a failure, what was kept is heard once the listener has heard that the handler is
live. -/
theorem before_deliverEarly (ho : ∀ reason, o ≠ .failed reason) (os : List Outcome) {memory'' : σ}
    (htold : (notify h .shown none (b.shown s h)).before audience memory = (some (), c, memory'))
    (hheard : (handleOutcome h o c).before audience memory' = (a, d, memory'')) :
    (deliverEarly s h (o :: os) b).before audience memory =
      (some (some h), d.letGo h, memory'') := by
  have hthen := Talk.before_andThen audience (notify h .shown none (b.shown s h))
    (fun _ => handleOutcome h o) memory
  rw [htold] at hthen
  have hregister := register_keeping (b := b.steppedOut s h) hp he hf o
  rw [deliverEarly_initializing (refersTo_of_inside hin rfl) hp hk]
  refine before_finish (b := b.keeping h o) audience memory hin (a := a) ?_
  change (register h ((b.steppedOut s h).keeping h o)).before audience memory = _
  rw [hregister]
  cases o with
  | failed reason => exact absurd rfl (ho reason)
  | activated action => exact hthen.trans hheard
  | dismissed => exact hthen.trans hheard

/-- Unless it was a failure, what was kept is heard as if it had come late. -/
theorem deferral_live (hs : b.StaysHeldBesides s h audience memory)
    (ho : ∀ reason, o ≠ .failed reason) (os : List Outcome) : ∃ d d' memory',
      (deliverEarly s h (o :: os) b).before audience memory = (some (some h), d, memory') ∧
      (deliverLate s h (o :: os) b).before audience memory = (some (), d', memory') ∧
      d.SameButFor none d' := by
  have hlt : h < b.handlers.length := lt_of_phase_ne (hp.trans_ne Phase.noConfusion)
  obtain ⟨_, c, memory', htold, honward⟩ :=
    (returns_notify h .shown none (b.shown s h)).before audience memory
  have hlate := before_finish_shown hin hp hk he hf htold
  have hphase := honward.phase h (Nat.lt_of_lt_of_eq hlt (length_update ..).symm)
  rw [phase, handler_shown hlt] at hphase
  -- up to here both runs are the same; the listener may have ended the handler
  rcases hphase.of_live with hl | hover
  · have hbesides := (heldBesides_shown hin hp hk he hf hs htold).resolve_right
      (hl.trans_ne Phase.noConfusion)
    obtain ⟨e, d', memory'', hheard, hlater, hsameBut, -⟩ :=
      before_hear_heldBesides audience memory' hbesides hl o os
    exact ⟨e.letGo h, d', memory'', before_deliverEarly hin hp hk he hf ho os htold hheard,
      (before_deliverLate audience memory _ hlate).trans hlater, hsameBut⟩
  · have hnothing : (handleOutcome h o c).before audience memory' = (some (), c, memory') := by
      rw [handleOutcome_eq, hover]
      rfl
    have hgone : (c.letGo h).phase h = .unregistered := (phase_letGo ..).trans hover
    exact ⟨c.letGo h, c.letGo h, memory', before_deliverEarly hin hp hk he hf ho os htold hnothing,
      before_deliverLate_over audience memory _ hlate hgone, .refl _⟩

/-- With listeners that leave the board alone, a failure that comes late ends the handler right
after that was announced. -/
theorem before_deliverLate_failed (hstill : audience.Still)
    (hs : b.StaysHeldBesides s h audience memory) (reason : String) (os : List Outcome) :
    ∃ d' memory', (deliverLate s h (.failed reason :: os) b).before audience memory =
        (some (), d', memory') ∧ d'.phase h = .unregistered ∧
      ((removeSelf h ((b.shown s h).announce h .shown none)).quietly.2.letGo h).SameButFor none
        d' := by
  have hlt : h < b.handlers.length := lt_of_phase_ne (hp.trans_ne Phase.noConfusion)
  obtain ⟨memory', hshown⟩ := Talk.before_still hstill (notify h .shown none (b.shown s h)) memory
  rw [quietly_notify] at hshown
  have hbesides := heldBesides_shown hin hp hk he hf hs hshown
  have hlate := before_finish_shown hin hp hk he hf hshown
  have hl : ((b.shown s h).announce h .shown none).phase h = .live :=
    congrArg Handler.phase ((handler_announce h).trans (handler_shown hlt))
  generalize (b.shown s h).announce h .shown none = c at hlate hbesides hl ⊢
  obtain ⟨e, d', memory'', hheard, hlater, hsameBut, hgone, -⟩ := before_hear_heldBesides audience
    memory' (hbesides.resolve_right (hl.trans_ne Phase.noConfusion)) hl (.failed reason) os
  have hself : handleOutcome h (.failed reason) c = removeSelf h c := by
    rw [handleOutcome_eq, hl]
    rfl
  obtain ⟨_, hquiet⟩ := Talk.before_still hstill (removeSelf h c) memory'
  rw [hself, hquiet] at hheard
  have hend : (removeSelf h c).quietly.2 = e := congrArg (·.2.1) hheard
  rw [hend]
  exact ⟨d', memory'', (before_deliverLate audience memory _ hlate).trans hlater, hgone, hsameBut⟩

variable (audience memory)

/-- If it was a failure, the handler ends without having been live. If it had come late, its
listener would have heard that it is shown and that it is over. -/
theorem deferral_failed (reason : String) (os : List Outcome) : ∃ d,
      deliverEarly s h (.failed reason :: os) b = .ended (some (some h)) d ∧
      d.phase h = .unregistered ∧ d.told = b.told ∧
      (audience.Still → b.StaysHeldBesides s h audience memory → ∃ d' memory',
        (deliverLate s h (.failed reason :: os) b).before audience memory =
          (some (), d', memory') ∧
        d.SameButPending d' ∧ d'.told = b.told ++ b.premiere h) := by
  have hlt : h < b.handlers.length := lt_of_phase_ne (hp.trans_ne Phase.noConfusion)
  have hfailed := phase_unshown (s := s) hlt
  obtain ⟨e, hend, hover, -⟩ := removeSelf_failed hfailed
  have hphase : (e.letGo h).phase h = .unregistered := (phase_letGo ..).trans hover
  have htold := told_removeSelf_failed hfailed hend
  refine ⟨e.letGo h, ?_, hphase, (sameButToasts_letGo h).told.trans htold, fun hstill hs => ?_⟩
  · rw [deliverEarly_initializing (refersTo_of_inside hin rfl) hp hk]
    exact finish_ended (b := b.keeping h (.failed reason)) hin
      ((register_keeping (b := b.steppedOut s h) hp he hf (.failed reason)).trans hend)
  · obtain ⟨d', memory', hlate, hgone, hsameBut⟩ :=
      before_deliverLate_failed hin hp hk he hf hstill hs reason os
    have hl : ((b.shown s h).announce h .shown none).phase h = .live :=
      congrArg Handler.phase ((handler_announce h).trans (handler_shown hlt))
    have hends := (sameButFor_unshown b s h).quietly_removeSelf
      (hfailed.trans_ne Phase.noConfusion) (hl.trans_ne Phase.noConfusion)
    rw [hend] at hends
    refine ⟨d', memory', hlate, sameButPending_of_sameButFor ((hends.letGo h).trans hsameBut.weaken)
      (hgone.trans hphase.symm), ?_⟩
    rw [hsameBut.told rfl, (sameButToasts_letGo h).told]
    exact (told_quietly_removeSelf h _).trans (told_premiere hp hf)

end Done

end Board

/-- At a moment of any course at which a worker is in the middle of registering a handler that
somebody else has, too, some reports about it come to the same whether they are delivered before the
worker finishes or after that, whatever comes of the registration and whatever the listeners do but
panic. They are told the same if the first report is not a failure. If it is, the handler does not
become live and nothing is told; if listeners leave the board alone, nothing but the premiere of the
handler would have been told otherwise. -/
theorem deferral_matches_late_delivery {m : Moment} (course : FreeCourse m) {thread : String}
    (hin : m.world.board.inside? s = some ⟨h, thread, .proceeds⟩)
    (hk : (m.world.board.handler h).pending = none)
    (he : m.world.board.screen.faults.early = none) (audience : Audience σ) (memory : σ)
    (hs : m.world.board.StaysHeldBesides s h audience memory) (o : Outcome) (os : List Outcome) :
    ((∀ reason, o ≠ .failed reason) → ∃ d d' memory',
      (deliverEarly s h (o :: os) m.world.board).before audience memory =
        (some (some h), d, memory') ∧
      (deliverLate s h (o :: os) m.world.board).before audience memory = (some (), d', memory') ∧
      d.SameButPending d' ∧ d'.told = d.told) ∧
    ((∃ reason, o = .failed reason) → ∃ d,
      deliverEarly s h (o :: os) m.world.board = .ended (some (some h)) d ∧
      d.phase h = .unregistered ∧ d.told = m.world.board.told ∧
      (audience.Still → ∃ d' memory',
        (deliverLate s h (o :: os) m.world.board).before audience memory =
          (some (), d', memory') ∧
        d.SameButPending d' ∧ d'.told = m.world.board.told ++ m.world.board.premiere h)) := by
  obtain ⟨g, hsound⟩ := sound_of_freeCourse course
  generalize m.world.board = b at *
  have hwaiting := hsound.jobs.waiting (.inr ⟨s, _, hin, rfl⟩)
  by_cases hcase : b.phase h = .unregistered ∨ b.screen.faults.register ≠ none
  · obtain ⟨hnone, d, d', hearly, hlate, hsame, hover, htold, htold'⟩ :=
      deferral_silent audience memory hin hwaiting hk he hcase o os
    refine ⟨fun _ => ⟨d, d', memory, ?_, hlate, hsame, htold'.trans htold.symm⟩,
      fun _ => ⟨d, hearly, hover, htold, fun _ => ⟨d', memory, hlate, hsame, ?_⟩⟩⟩
    · rw [hearly]
      rfl
    · rw [htold', hnone, List.append_nil]
  · have hp := hwaiting.resolve_right fun hp => hcase (.inl hp)
    have hf : b.screen.faults.register = none := not_not.mp fun hf => hcase (.inr hf)
    refine ⟨fun ho => ?_, ?_⟩
    · obtain ⟨d, d', memory', hearly, hlate, hsameBut⟩ :=
        deferral_live hin hp hk he hf hs ho os
      refine ⟨d, d', memory', hearly, hlate, sameButPending_of_sameButFor (h := h)
        hsameBut.weaken ?_,
        hsameBut.told rfl⟩
      rw [phase, hsameBut.same h (Option.some_ne_none h), phase]
    · rintro ⟨reason, rfl⟩
      obtain ⟨d, hearly, hover, htold, hstill⟩ :=
        deferral_failed audience memory hin hp hk he hf reason os
      exact ⟨d, hearly, hover, htold, fun h => hstill h hs⟩

/-- Listeners that get hold of the handler once more whenever they are told something, and write
down what that was. -/
def collectors : Audience (List Topic) where
  hear m b s := (b.hold m.handler, s ++ [m.notice.topic])
  onward _ _ _ := onward_of_handlers rfl
  blind m _ _ _ hb := ⟨hb.hold m.handler, rfl⟩

/-- A coordinator shows an alert, and its worker is in the middle of registering it. -/
def beingRegistered : List Event :=
  [.deed (.setUp {} { supported := true, identity := .ok "id" }),
    .deed (.showAlert 0 (Alert.asSource (plainAlert "a")) (some 0)), .deed (.advance 0)]

/-- Listeners that write down what they are told, that show the alert once more when it is clicked,
and that close it as soon as this has ended the older one. -/
def insistent (m : Telling) (s : List Topic) : Reaction × List Topic :=
  (match m.notice.topic with
    | .clicked => .showAlert 0 (Alert.asSource (plainAlert "a")) (some 1)
    | .finished => .closeAlert 0 "a"
    | _ => .nothing,
    s ++ [m.notice.topic])

/-- A click and a dismissal of that alert come to the same before and after: the listener hears of
the click, and holds the handler three times. This is so as well if the listener shows another alert
meanwhile, and closes that one while the older one ends. A failure comes to silence. -/
theorem deferral_matches_late_delivery_clicked :
    FreeCourse (beingRegistered.foldl Moment.after {}) ∧
    (∃ d d', (deliverEarly 0 0 [.activated none, .dismissed]
        (beingRegistered.foldl Moment.after {}).world.board).before collectors [] =
          (some (some 0), d, [.shown, .clicked, .finished]) ∧
      (deliverLate 0 0 [.activated none, .dismissed]
        (beingRegistered.foldl Moment.after {}).world.board).before collectors [] =
          (some (), d', [.shown, .clicked, .finished]) ∧
      d.SameButPending d' ∧ d.held = [0, 0, 0] ∧ d.screen.toasts.map (·.releases) = [1]) ∧
    (∃ d d', (deliverEarly 0 0 [.activated none, .dismissed]
        (beingRegistered.foldl Moment.after {}).world.board).before (.reentrant insistent 2) [] =
          (some (some 0), d, [.shown, .clicked, .finished]) ∧
      (deliverLate 0 0 [.activated none, .dismissed]
        (beingRegistered.foldl Moment.after {}).world.board).before (.reentrant insistent 2) [] =
          (some (), d', [.shown, .clicked, .finished]) ∧
      d.SameButPending d' ∧ d.handlers.map (·.phase) = [.unregistered, .unregistered]) ∧
    ∃ d, deliverEarly 0 0 [.failed "no"] (beingRegistered.foldl Moment.after {}).world.board =
        .ended (some (some 0)) d ∧ d.told = [] := by
  have hcourse : FreeCourse (beingRegistered.foldl Moment.after {}) :=
    Course.start.follow ⟨trivial, trivial, List.mem_cons_self, trivial, trivial, trivial, trivial⟩
  have hboth := deferral_matches_late_delivery hcourse (s := 0) (h := 0) rfl rfl rfl
    collectors [] ⟨.inr ⟨0, by decide⟩, .inl ⟨by decide, .inl (by decide)⟩, trivial⟩
  obtain ⟨d, d', memory', hearly, hlate, hsame, -⟩ :=
    (hboth (.activated none) [.dismissed]).1 fun _ hc => Outcome.noConfusion hc
  obtain ⟨e, hfailed, -, htold, -⟩ := (hboth (.failed "no") []).2 ⟨_, rfl⟩
  have hheld : [0, 0, 0] = d.held := congrArg (·.2.1.held) hearly
  have hreleases : [1] = d.screen.toasts.map Toast.releases :=
    congrArg (·.2.1.screen.toasts.map Toast.releases) hearly
  have hmemory : [.shown, .clicked, .finished] = memory' := congrArg (·.2.2) hearly
  obtain ⟨f, f', memory'', hearly', hlate', hsame', -⟩ :=
    (deferral_matches_late_delivery hcourse (s := 0) (h := 0) rfl rfl rfl
      (.reentrant insistent 2)
        [] ⟨.inr ⟨0, by decide⟩, .inl ⟨by decide, .inr ⟨0, by decide⟩⟩, trivial⟩
      (.activated none) [.dismissed]).1 fun _ hc => Outcome.noConfusion hc
  have hphases : [.unregistered, .unregistered] = f.handlers.map Handler.phase :=
    congrArg (·.2.1.handlers.map Handler.phase) hearly'
  have hmemory' : [.shown, .clicked, .finished] = memory'' := congrArg (·.2.2) hearly'
  rw [← hmemory] at hearly hlate
  rw [← hmemory'] at hearly' hlate'
  exact ⟨hcourse, ⟨d, d', hearly, hlate, hsame, hheld.symm, hreleases.symm⟩,
    ⟨f, f', hearly', hlate', hsame', hphases.symm⟩, e, hfailed, htold⟩

end ToastBoard
