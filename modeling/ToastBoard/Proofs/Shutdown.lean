import ToastBoard.Proofs.LastTurns
import ToastBoard.Proofs.Visiting

/-!
# Shutting down

When the signal fires, the handlers of every coordinator that exists are taken out of their table
and end one after the other, in some order, while listeners show, close and fire as they like. The
table is empty when the first of them is told, so it never gets anybody back but those who are shown
from then on; and those who were taken out stay over, whatever worker comes to their job later.
-/

namespace ToastBoard

open Talk Board

variable {visit : Visit} {w w' : World} {turns : List (Board × Board)} {tr : Trace} {g : Ledger}
  {h : HandlerId} {r : RegistryId} {c : CoordinatorId} {α β : Type}

/-- Every coordinator that was set up observes a signal that has not fired, in the order in which
they were set up. -/
def Board.Observed (b : Board) : Prop :=
  b.signal.fired = false → b.signal.observers = List.range b.coordinators.length

namespace Board.Observed

variable {b b' : Board}

theorem same (hb : b.Observed) (hs : b'.signal = b.signal ∨ b'.signal.fired = true)
    (hc : b'.coordinators.map (·.registry) = b.coordinators.map (·.registry)) : b'.Observed := by
  have hlen : b'.coordinators.length = b.coordinators.length := by
    simpa using congrArg List.length hc
  intro hf
  rcases hs with hs | hs
  · rw [hs] at hf ⊢
    rw [hlen, hb hf]
  · rw [hs] at hf
    cases hf

theorem starts {e : Event} (hb : b.Observed) (hs : e.Starts b b') : b'.Observed := by
  cases hs with
  | still => exact hb
  | made fields listener registry =>
    have hcreate := readied_create b { fields, listener, registry } rfl rfl
    exact hb.same hcreate.signal hcreate.coordinators
  | shown c source listener hshown => exact hb.same hshown.signal hshown.coordinators
  | installed r name x =>
    rw [install_eq]
    exact hb
  | restored r name x previous =>
    obtain ⟨registries, hrest⟩ := ebbs_restore b r name x previous
    exact Observed.same (b := { b with registries }) hb hrest.signal hrest.coordinators
  | submitted s x =>
    obtain ⟨-, -, hsignal, hcoordinators, -⟩ := submit_rest b s x
    exact hb.same (.inl hsignal) (by rw [hcoordinators])
  | setUp settings host =>
    rcases setUp_cases b settings host with ⟨worker, identity, -, he⟩ | ⟨he, -⟩
    · rw [he]
      intro hf
      change (b.signal.subscribe b.coordinators.length).2.fired = false at hf
      change (b.signal.subscribe b.coordinators.length).2.observers =
        List.range (b.coordinators ++ [_]).length
      unfold Signal.subscribe at hf ⊢
      split
      · rename_i hfired
        rw [if_pos hfired, hfired] at hf
        cases hf
      · rename_i hfired
        rw [List.length_append, List.length_singleton, List.range_succ,
          hb (Bool.eq_false_iff.mpr hfired)]
    · rw [he]
      exact hb
  | ripened hin hripe => exact hb.same (.inl hripe.signal) (by rw [hripe.coordinators])

end Board.Observed

/-- At every moment of every course each coordinator observes the signal. -/
theorem observed_of_freeCourse {m : Moment} (course : FreeCourse m) : m.world.board.Observed := by
  induction course with
  | start => exact fun _ => rfl
  | step course e allowed _ ih =>
    obtain ⟨⟨b', hstarts, hebb⟩, -⟩ := (tame_of_freeCourse course).turn allowed
    exact (ih.starts hstarts).same hebb.signal hebb.coordinators

/-- Coordinators keep their registries as long as none is forgotten. -/
theorem registry_of_founded {b b' : Board}
    (hp : b.coordinators.map (·.registry) <+: b'.coordinators.map (·.registry))
    (hlt : c < b.coordinators.length) :
    (b'.coordinator c).registry = (b.coordinator c).registry := by
  have hlt' : c < b'.coordinators.length :=
    Nat.lt_of_lt_of_le hlt (by simpa using hp.length_le)
  obtain ⟨rest, hrest⟩ := hp
  have hget := getElem?_registries hlt'
  rw [← hrest, List.getElem?_append_left (by rwa [List.length_map]),
    getElem?_registries hlt] at hget
  exact (Option.some.inj hget).symm

/-- A coordinator that somebody owns stays, with its registry. -/
theorem World.Elapses.coordinator (hw : w.Elapses tr w') (hs : (order false).sound g w)
    (hs' : (order false).sound g w') (hc : w.board.hasCoordinator c = true) :
    w'.board.hasCoordinator c = true ∧
      (w'.board.coordinator c).registry = (w.board.coordinator c).registry := by
  have hpos : 0 < (w.board.coordinator c).owners := by simpa [hasCoordinator] using hc
  have hmem : c ∈ g.coords ++ w.coordinators := by
    rw [hs.books.mastered c] at hpos
    exact List.count_pos_iff.mp hpos
  have hpos' : 0 < (w'.board.coordinator c).owners := hs'.books.pos_of_master
    ((List.mem_append.mp hmem).elim (List.mem_append_left _)
      fun h => List.mem_append_right _ (hw.coordinators h))
  exact ⟨by simpa [hasCoordinator] using hpos',
    registry_of_founded hw.board.coordinators (lt_of_coordinator_owners hpos)⟩

namespace Phase.Hears

variable {topics new : List Topic}

/-- Whoever is live hears reports until the end. -/
theorem ending (h : Phase.live.Hears topics) (h' : Phase.unregistered.Hears (topics ++ new)) :
    ∃ reports : List Topic, new = reports ++ [.finished] ∧ ∀ t ∈ reports, t.isReport = true := by
  obtain ⟨old, rfl, hold⟩ := h
  rcases h' with h' | ⟨all, he, hall⟩
  · cases h'
  have heq : old ++ new = all ++ [.finished] := (List.cons.inj he).2
  rcases List.eq_nil_or_concat new with rfl | ⟨reports, last, rfl⟩
  · have hm : Topic.finished ∈ old := by
      rw [List.append_nil] at heq
      rw [heq]
      exact List.mem_append_right _ List.mem_cons_self
    cases hold _ hm
  · rw [List.concat_eq_append, ← List.append_assoc] at heq
    obtain ⟨hreports, hlast⟩ := List.append_inj' heq rfl
    refine ⟨reports, by rw [List.concat_eq_append, hlast], fun t ht => hall t ?_⟩
    rw [← hreports]
    exact List.mem_append_right _ ht

end Phase.Hears

/-- What a drain of the registry `r` that started at `start` leaves at `w'`, after the turns `turns`
and what happened in between, `tr`. -/
structure TornDown (r : RegistryId) (start : World) (turns : List (Board × Board)) (tr : Trace)
    (w' : World) : Prop where
  /-- Whoever was in the table is over, with nothing to release. -/
  ended : ∀ h ∈ (start.board.registry r).handlers,
    w'.board.phase h = .unregistered ∧ (w'.board.handler h).registration = none
  /-- Each toast that they had to release was released once. -/
  released : ∀ h ∈ (start.board.registry r).handlers, ∀ id,
    (start.board.handler h).registration = some id ∨ tr.Stores h id →
      ∃ t ∈ w'.board.screen.toasts, t.id = id ∧ t.releases = 1
  /-- Who was live has told that it is finished, once and as the last thing. -/
  finished : ∀ h ∈ (start.board.registry r).handlers, start.board.phase h = .live →
    (start.board.handler h).listener ≠ none → ∃ news : List Notice, ∃ reports : List Topic,
      w'.board.heard h = start.board.heard h ++ news ∧
        news.map (·.topic) = reports ++ [.finished] ∧ ∀ t ∈ reports, t.isReport = true
  /-- Who was over has told nothing. -/
  hushed : ∀ h ∈ (start.board.registry r).handlers, start.board.phase h = .unregistered →
    w'.board.heard h = start.board.heard h
  /-- Everybody else came to their end in one of the turns, from some phase. They have told
  everything up to that end if they were live then, and nothing at all otherwise. They were live
  only if they were so at the start, or their registration was finished meanwhile. -/
  told : ∀ h ∈ (start.board.registry r).handlers, start.board.phase h ≠ .unregistered →
    (start.board.phase h ≠ .live → start.board.heard h = []) ∧
    ∃ p, EndsFrom turns tr h p ∧ w'.board.HeardFrom h p ∧
      (p = .live → start.board.phase h = .live ∨ tr.Finishes h)
  /-- Whoever is in the table was shown meanwhile. -/
  table : ∀ {name h}, (name, h) ∈ (w'.board.registry r).entries → tr.Shows h

namespace TornDown

variable {start : World}

/-- Who was not live has told nothing, unless its registration was finished meanwhile. -/
theorem silent (ht : TornDown r start turns tr w') (hh : h ∈ (start.board.registry r).handlers)
    (hp : start.board.phase h ≠ .live) (hf : ¬tr.Finishes h) :
    w'.board.heard h = start.board.heard h := by
  by_cases hu : start.board.phase h = .unregistered
  · exact ht.hushed h hh hu
  · obtain ⟨hnone, p, -, hfrom, hlive⟩ := ht.told h hh hu
    rw [HeardFrom, if_neg fun hc => (hlive hc.1).elim hp hf] at hfrom
    rw [hfrom, hnone hp]

/-- Who was not live has told nothing, or that it is shown and, in the end, that it is finished. -/
theorem late (ht : TornDown r start turns tr w') (hh : h ∈ (start.board.registry r).handlers)
    (hp : start.board.phase h ≠ .live) :
    w'.board.heard h = start.board.heard h ∨ (start.board.heard h = [] ∧
      ∃ reports : List Topic, (w'.board.heard h).map (·.topic) =
        .shown :: (reports ++ [.finished]) ∧ ∀ t ∈ reports, t.isReport = true) := by
  by_cases hu : start.board.phase h = .unregistered
  · exact .inl (ht.hushed h hh hu)
  · obtain ⟨hnone, p, -, hfrom, -⟩ := ht.told h hh hu
    rw [HeardFrom] at hfrom
    split at hfrom
    · exact .inr ⟨hnone hp, hfrom⟩
    · exact .inl (hfrom.trans (hnone hp).symm)

end TornDown

/-- On a board in order, who is over has nothing to release. -/
theorem Board.Sound.bare {b : Board} {T : Terms} (hb : b.Sound false {} T) : b.Bare := by
  intro h hp
  cases hr : (b.handler h).registration with
  | none => rfl
  | some id =>
    have hl := hb.toasts.live hr (by simp)
    rw [hp] at hl
    cases hl

/-- What was drained is torn down. -/
theorem Drained.tornDown {g g' : Ledger} (hd : Drained r w tr w') (hw : w.Elapses tr w')
    (hsteps : Relation.ReflTransGen (World.Steps turns tr) w w') (hs : (order false).sound g w)
      (hs' : (order false).sound g' w')
    (hknown : ∀ h ∈ (w.board.registry r).handlers, h < w.board.handlers.length) :
    TornDown r w turns tr w' := by
  have hover : ∀ h ∈ (w.board.registry r).handlers, w'.board.phase h = .unregistered ∧
      (w'.board.handler h).registration = none := fun h hh =>
    ⟨hd.ended h hh (hknown h hh), hs'.bare h (hd.ended h hh (hknown h hh))⟩
  have honward := hw.later.1
  obtain ⟨told, htold⟩ := hw.later.2.1
  have hheard : ∀ h, w'.board.heard h =
      w.board.heard h ++ (told.filter (·.handler = h)).map (·.notice) := fun h => by
    rw [heard, heard, ← htold, List.filter_append, List.map_append]
  have hlistener : ∀ h ∈ (w.board.registry r).handlers,
      (w'.board.handler h).listener = (w.board.handler h).listener := fun h hh =>
    honward.listener h (hknown h hh)
  have hcourse : ∀ h ∈ (w.board.registry r).handlers, (w.board.handler h).listener ≠ none →
      Phase.unregistered.Hears ((w'.board.heard h).map (·.topic)) := fun h hh hl =>
    (hover h hh).1 ▸ hs'.notices.course h ((hlistener h hh).symm ▸ hl)
  refine ⟨hover, ?_, ?_, fun h hh hp => silent_of_steps hsteps (hknown h hh) hp, fun h hh hp =>
    ⟨fun hl => ?_, endsFrom_of_steps hsteps (hknown h hh) hp (hover h hh).1⟩, hd.table⟩
  · intro h hh id hr
    refine hs'.toasts.gone ?_ fun x hx => ?_
    · rcases hr with hr | hr
      · obtain ⟨hpos, hle⟩ := hs.toasts.recorded hr
        exact ⟨hpos, Nat.le_trans hle hw.board.toasts⟩
      · exact (hw.board.stored hr).1
    -- whoever had it would be the handler itself, which is over
    · have hsame : x = h := by
        rcases hr with hr | hr
        · rcases hw.board.registration hx with hb | hn
          · exact hs.toasts.distinct hb hr
          · exact absurd (hs.toasts.recorded hr).2 (Nat.not_le_of_lt hn)
        · exact (hw.board.stored hr).2 x hx
      rw [hsame, (hover h hh).2] at hx
      cases hx
  · intro h hh hp hl
    have hbefore := hs.notices.course h hl
    rw [show w.board.phase h = .live from hp] at hbefore
    have hafter := hcourse h hh hl
    rw [hheard, List.map_append] at hafter
    obtain ⟨reports, hreports, hall⟩ := hbefore.ending hafter
    exact ⟨_, reports, hheard h, hreports, hall⟩
  · by_cases hlistens : (w.board.handler h).listener = none
    · exact hs.notices.silent h hlistens
    · exact List.map_eq_nil_iff.mp ((hs.notices.course h hlistens).eq_nil hl hp)

section Run

/-- Firing the signal is shutting down one observer after the other. -/
theorem plays_fire {b : Board} {a : Option Nat} (hp : (fire visit b).Plays w tr a w') :
    a = some b.signal.fire.1.length ∧
      (Action.forEach b.signal.fire.1 (shutDown visit) b.fired).Plays w tr (some ()) w' := by
  rw [fire_eq] at hp
  rcases hp.andThen with ⟨-, hpanic⟩ | ⟨_, _, _, _, rfl, hall, hend⟩
  · obtain ⟨_, hruns⟩ := hpanic.runs
    cases runs_forEach (fun _ _ _ _ _ _ _ => runs_shutDown) hruns
  · cases hend
    rw [List.append_nil]
    exact ⟨rfl, hall⟩

/-- A signal that has fired does nothing more. -/
theorem fire_of_fired {b : Board} (hf : b.signal.fired = true) :
    fire visit b = .ended (some 0) b := by
  have hsame : b.fired = b := by rw [Board.fired, Signal.fire_of_fired hf]
  rw [fire_eq, Signal.fire_of_fired hf, hsame]
  rfl

/-- What passes while coordinators shut down. -/
theorem elapses_shutDownAll {cs : List CoordinatorId} {a : Option Unit}
    (hs : (order false).sound g w)
    (hp : (Action.forEach cs (shutDown visit) w.board).Plays w tr a w') :
    w.Elapses tr w' ∧ (order false).sound g w' := by
  obtain ⟨hw, hs', -⟩ := hp.elapses (fun _ => True) trivial hs
    (Act.Ebbs.forEach (ebbs_shutDown visit) cs w.board)
    (keeps_shutDownAll (fun hs => Bool.noConfusion hs) (At.start hs))
  exact ⟨hw, hs'⟩

/-- The first of some coordinators that shut down is torn down in the end. -/
theorem tornDown_first {cs : List CoordinatorId} {a : Option Unit} (hs : (order false).sound g w)
    (hc : w.board.hasCoordinator c = true)
    (hknown : ∀ h ∈ (w.board.registry (w.board.coordinator c).registry).handlers,
      h < w.board.handlers.length)
    (hp : (Action.forEach (c :: cs) (shutDown visit) w.board).Plays w tr a w')
    (hr : (Action.forEach (c :: cs) (shutDown visit) w.board).Runs w turns tr a w') :
    TornDown (w.board.coordinator c).registry w turns tr w' := by
  have hsteps := hr.steps hs (fades_shutDownAll hs (c :: cs))
  rcases Plays.andThen (t := shutDown visit c w.board) hp with
    ⟨-, hpanic⟩ | ⟨_, _, _, v, rfl, hfirst, hrest⟩
  · obtain ⟨_, hruns⟩ := hpanic.runs
    cases runs_shutDown hruns
  · obtain ⟨_, hruns⟩ := hfirst.runs
    have hdrained := drained_shutDown hs hc hruns
    obtain ⟨hw, hkept, -⟩ := hfirst.elapses (fun _ => True) trivial hs
      (ebbs_shutDown visit c w.board)
      (keeps_shutDown (fun hs => Bool.noConfusion hs) (At.start hs))
    obtain ⟨hlater, hend⟩ := elapses_shutDownAll hkept hrest
    have hdone := hdrained.later hw.later.1.length hlater.board hlater.later.1
    exact hdone.tornDown (hw.trans hlater) hsteps hs hend hknown

end Run

/-- How a signal that fires at `w` comes to the coordinator `c`: `before` has happened until
`start`, when it is the turn of `c`, and `after` happens from then on until the end at `w'`, between
the turns `turns` of those who shut down. -/
def ComesTo (visit : Visit) (c : CoordinatorId) (w : World) (before : Trace) (start : World)
    (turns : List (Board × Board)) (after : Trace) (w' : World) : Prop :=
  ∃ earlier later : List CoordinatorId, w.board.signal.observers = earlier ++ c :: later ∧
    (Action.forEach earlier (shutDown visit) w.board.fired).Plays w before (some ()) start ∧
    (Action.forEach (c :: later) (shutDown visit) start.board).Plays start after (some ()) w' ∧
    (Action.forEach (c :: later) (shutDown visit) start.board).Runs start turns after (some ()) w'

/-- A handler is over, has told what it had told, and no toast on the screen is its own. -/
structure Board.Gone (b : Board) (h : HandlerId) (heard : List Notice) : Prop where
  /-- It is over. -/
  ended : b.phase h = .unregistered
  /-- It has told nothing else. -/
  silent : b.heard h = heard
  /-- It has nothing to release. -/
  bare : (b.handler h).registration = none
  /-- What is not released is that of others. -/
  others : ∀ t ∈ b.screen.toasts, t.releases = 0 →
    ∃ g ≠ h, b.phase g = .live ∧ (b.handler g).registration = some t.id

namespace Moment.Tame

variable {m : Moment} {first : Ledger} {events : List Event}

/-- A tame moment remains so. -/
theorem later (hm : m.Tame first) (ho : Course.Open (fun _ _ => True) m events) :
    (events.foldl Moment.after m).Tame first := by
  induction events generalizing m with
  | nil => exact hm
  | cons e rest ih => exact ih (hm.turn ho.1).2 ho.2.2

/-- A signal that has fired remains so. -/
theorem fired (hm : m.Tame first) (hf : m.world.board.signal.fired = true)
    (ho : Course.Open (fun _ _ => True) m events) :
    (events.foldl Moment.after m).world.board.signal.fired = true := by
  induction events generalizing m with
  | nil => exact hf
  | cons e rest ih =>
    obtain ⟨⟨b', hstarts, hebb⟩, htame⟩ := hm.turn ho.1
    exact ih htame (hebb.fired (hstarts.rest.2.1 hf)) ho.2.2

/-- Who is over is gone for good. -/
theorem gone (hm : m.Tame first) (hlt : h < m.world.board.handlers.length)
    (hp : m.world.board.phase h = .unregistered) (ho : Course.Open (fun _ _ => True) m events) :
    (events.foldl Moment.after m).world.board.Gone h (m.world.board.heard h) := by
  obtain ⟨g, hsound⟩ := (hm.later ho).lawful.sound
  have hover := (hm.lawful.onward ho).over hlt hp
  refine ⟨hover, hm.lawful.silent hlt hp ho, hsound.bare h hover, fun t ht h0 => ?_⟩
  rcases hsound.toasts.owned t ht h0 with hl | ⟨x, hx⟩
  · cases hl
  · have hlive := hsound.toasts.live hx (by simp)
    refine ⟨x, fun hxh => ?_, hlive, hx⟩
    rw [hxh, hover] at hlive
    cases hlive

end Moment.Tame

/-- Where the signal is fired a course goes on in order. -/
theorem tame_fired {m : Moment} (course : FreeCourse m) {visit : Visit} {tr : Trace}
    {a : Option Nat} {w' : World} (hp : (fire visit m.world.board).Plays m.world tr a w') :
    (⟨w', m.waiting⟩ : Moment).Tame {} ∧ w'.board.signal.fired = true := by
  obtain ⟨g, hs, hawaits⟩ := lawful_of_freeCourse course
  have hfired : (order false).sound g (m.world.put m.world.board.fired) :=
    (At.fired (At.start hs)).sound
  have hstart : m.world.Elapses [] (m.world.put m.world.board.fired) :=
    World.elapses_of_turn hs hfired (At.fired (At.start hs)).quiet (ebbs_fired _)
  obtain ⟨hw, hs'⟩ := elapses_shutDownAll (w := m.world.put m.world.board.fired) hfired
    (Plays.put.mpr (plays_fire hp).2)
  exact ⟨⟨⟨g, hs', hawaits.later (hstart.trans hw).later⟩, (tame_of_freeCourse course).waiting⟩,
    hw.board.fired (Signal.fired_fire _)⟩

/-- When the signal is fired for the first time each coordinator has its turn, and the handlers that
are in its table by then are torn down. -/
theorem tornDown_in_turn {m : Moment} (course : FreeCourse m)
    (unfired : m.world.board.signal.fired = false) {visit : Visit} {tr : Trace} {a : Option Nat}
    {w' : World} (hp : (fire visit m.world.board).Plays m.world tr a w') {c : CoordinatorId}
    (hc : m.world.board.hasCoordinator c = true) : ∃ before start turns after,
      tr = before ++ after ∧ ComesTo visit c m.world before start turns after w' ∧
      TornDown (m.world.board.coordinator c).registry start turns after w' ∧
      ∀ h ∈ (start.board.registry (m.world.board.coordinator c).registry).handlers,
        ∀ events, Course.Open (fun _ _ => True) ⟨w', m.waiting⟩ events →
          (events.foldl Moment.after ⟨w', m.waiting⟩).world.board.Gone h (w'.board.heard h) := by
  obtain ⟨g, hs, -⟩ := lawful_of_freeCourse course
  have hobservers := observed_of_freeCourse course unfired
  have hfired : (order false).sound g (m.world.put m.world.board.fired) :=
    (At.fired (At.start hs)).sound
  have hstart : m.world.Elapses [] (m.world.put m.world.board.fired) :=
    World.elapses_of_turn hs hfired (At.fired (At.start hs)).quiet (ebbs_fired _)
  have hlt : c < m.world.board.coordinators.length :=
    lt_of_coordinator_owners (by simpa [hasCoordinator] using hc)
  obtain ⟨earlier, later, hsplit⟩ := List.append_of_mem (List.mem_range.mpr hlt)
  obtain ⟨-, hall⟩ := plays_fire hp
  rw [Signal.fire, if_neg (by simp [unfired]), hobservers, hsplit, forEach_append] at hall
  rcases hall.andThen with ⟨hno, -⟩ | ⟨before, after, _, start, rfl, hbefore, hafter⟩
  · cases hno
  obtain ⟨hcome, hkept⟩ := elapses_shutDownAll (w := m.world.put m.world.board.fired) hfired
    (Plays.put.mpr hbefore)
  obtain ⟨hthere, hregistry⟩ := (hstart.trans hcome).coordinator hs hkept hc
  have hknown : ∀ h ∈ (start.board.registry (m.world.board.coordinator c).registry).handlers,
      h < start.board.handlers.length := by
    intro h hh
    obtain ⟨name, hx⟩ := Registry.mem_handlers.mp hh
    rcases hcome.board.entries hx with hb | ⟨-, -, hlt⟩
    · exact Nat.lt_of_lt_of_le ((known_of_freeCourse course).entries hb) hcome.later.1.length
    · exact hlt
  obtain ⟨turns, hruns⟩ := hafter.runs
  have htorn := tornDown_first hkept hthere (hregistry.symm ▸ hknown) hafter hruns
  rw [hregistry] at htorn
  refine ⟨before, start, turns, after, rfl, ⟨earlier, later, hobservers.trans hsplit, hbefore,
    hafter, hruns⟩, htorn, fun h hh events ho => ?_⟩
  obtain ⟨hlater, -⟩ := elapses_shutDownAll hkept hafter
  exact (tame_fired course hp).1.gone
    (Nat.lt_of_lt_of_le (hknown h hh) hlater.later.1.length) (htorn.ended h hh).1 ho

/-- Whoever fires a signal that has not fired comes to an end without a panic, in whatever order
handlers are visited and whatever their listeners do but panic. By then each handler that was in
the table of a coordinator when it was the turn of that coordinator is torn down, and stays so; its
table has only those who were shown since then; and the signal does nothing more. If the listeners
only return, nothing but the order in which different listeners are told depends on the order of
visits. -/
theorem shutdown_tears_down {m : Moment} (course : FreeCourse m)
    (unfired : m.world.board.signal.fired = false) :
    (∀ visit : Visit, ∀ tr a w', (fire visit m.world.board).Plays m.world tr a w' →
      a = some m.world.board.coordinators.length ∧
      (∀ c, m.world.board.hasCoordinator c = true → ∃ before start turns after,
        tr = before ++ after ∧ ComesTo visit c m.world before start turns after w' ∧
        TornDown (m.world.board.coordinator c).registry start turns after w' ∧
        ∀ h ∈ (start.board.registry (m.world.board.coordinator c).registry).handlers,
          ∀ events, Course.Open (fun _ _ => True) ⟨w', m.waiting⟩ events →
            (events.foldl Moment.after ⟨w', m.waiting⟩).world.board.Gone h (w'.board.heard h)) ∧
      ∀ events, Course.Open (fun _ _ => True) ⟨w', m.waiting⟩ events → ∀ visit' : Visit,
        fire visit' (events.foldl Moment.after ⟨w', m.waiting⟩).world.board =
          .ended (some 0) (events.foldl Moment.after ⟨w', m.waiting⟩).world.board) ∧
    ∀ visit visit' : Visit,
      (fire visit m.world.board).quietly.1 = (fire visit' m.world.board).quietly.1 ∧
        (fire visit m.world.board).quietly.2.SameButTellingOrder
          (fire visit' m.world.board).quietly.2 := by
  obtain ⟨g, hs, -⟩ := lawful_of_freeCourse course
  refine ⟨fun visit tr a w' hp => ?_, fun visit visit' => sameButTellingOrder_fire hs.bare⟩
  obtain ⟨htame, hfired⟩ := tame_fired course hp
  refine ⟨?_, fun c hc => tornDown_in_turn course unfired hp hc,
    fun events ho visit' => fire_of_fired (htame.fired hfired ho)⟩
  rw [(plays_fire hp).1, Signal.fire, if_neg (by simp [unfired]),
    observed_of_freeCourse course unfired, List.length_range]

/-- An alert of a name, which asks for clicks. -/
def plainAlert (name : String) : Alert :=
  { cookie := "c", name, title := "t", text := "x", textClickable := true, source := "",
    requireInteraction := false, actions := [], imageUrl := "" }

/-- One alert is live, one is being registered and one is queued; the next release is going to
report an error. -/
def manyAlerts : List Event :=
  [.deed (.setUp {} { supported := true, identity := .ok "id" }),
    .deed (.showAlert 0 (Alert.asSource (plainAlert "a")) (some 0)), .deed (.advance 0),
    .deed (.finish 0), .reply true,
    .deed (.showAlert 0 (Alert.asSource (plainAlert "b")) (some 1)), .deed (.advance 0),
    .deed (.showAlert 0 (Alert.asSource (plainAlert "c")) (some 2)),
    .deed (.arm { release := true })]

/-- Told of the end, a listener fires the signal once more and shows another alert. -/
def fireAndShow : List Event :=
  [.deed (.fire .inTurn), .deed (.showAlert 0 (Alert.asSource (plainAlert "d")) (some 3))]

/-- When the signal fires, the three alerts are torn down, the last one first, while a listener acts
as it likes; the worker then finds nobody to register but for the alert shown meanwhile. -/
theorem shutdown_tears_down_reentrant : FreeCourse (manyAlerts.foldl Moment.after {}) ∧
    (manyAlerts.foldl Moment.after {}).world.board.signal.fired = false ∧ ∃ tr w',
      (fire .reversed (manyAlerts.foldl Moment.after {}).world.board).Plays
        (manyAlerts.foldl Moment.after {}).world tr (some 1) w' ∧
      (∃ before start turns after, tr = before ++ after ∧ TornDown 0 start turns after w') ∧
      (w'.board.registry 0).entries = [("d", 3)] ∧
      [0, 1, 2].map w'.board.phase = [.unregistered, .unregistered, .unregistered] ∧
      [0, 1, 2].map (fun h => (w'.board.heard h).map (·.topic)) = [[.shown, .finished], [], []] ∧
      ([.deed (.finish 0), .deed (.advance 0), .deed (.advance 0)].foldl Moment.after
        ⟨w', []⟩).world.board.screen.toasts.map (·.releases) = [1, 1] ∧
      fire .inTurn w'.board = .ended (some 0) w'.board := by
  have hcourse : FreeCourse (manyAlerts.foldl Moment.after {}) := by
    refine Course.start.follow ⟨trivial, trivial, List.mem_cons_self, trivial, trivial, trivial,
      trivial, trivial, List.cons_ne_nil _ _, trivial, List.mem_cons_self, trivial, trivial,
      trivial, List.mem_cons_self, trivial, trivial, trivial, trivial⟩
  obtain ⟨tr, w', hplays, hfacts⟩ : ∃ tr w',
      (fire .reversed (manyAlerts.foldl Moment.after {}).world.board).Plays
        (manyAlerts.foldl Moment.after {}).world tr (some 1) w' ∧
      (w'.board.registry 0).entries = [("d", 3)] ∧
      [0, 1, 2].map w'.board.phase = [.unregistered, .unregistered, .unregistered] ∧
      [0, 1, 2].map (fun h => (w'.board.heard h).map (·.topic)) = [[.shown, .finished], [], []] ∧
      ([.deed (.finish 0), .deed (.advance 0), .deed (.advance 0)].foldl Moment.after
        ⟨w', []⟩).world.board.screen.toasts.map (·.releases) = [1, 1] := by
    refine ⟨_, _, .told ⟨fireAndShow, ?_, rfl, rfl⟩ .ended, rfl, rfl, rfl, rfl⟩
    exact ⟨trivial, trivial, List.mem_cons_self, trivial, trivial⟩
  obtain ⟨-, htorn, hsilent⟩ := (shutdown_tears_down hcourse rfl).1 _ tr _ w' hplays
  obtain ⟨before, start, turns, after, htr, -, htorn, -⟩ := htorn 0 rfl
  obtain ⟨htable, hphases, hheard, htoasts⟩ := hfacts
  exact ⟨hcourse, rfl, tr, w', hplays, ⟨before, start, turns, after, htr, htorn⟩, htable, hphases,
    hheard, htoasts, hsilent [] trivial _⟩

end ToastBoard
