import ToastBoard.Proofs.Founding

/-!
# The first time the signal fires

Whoever fires the signal first tells how many coordinators were set up before. Each of them has its
turn: one that still exists then is drained, and one that is gone does nothing. Coordinators that
are set up later, be it by a listener in the middle of that, are spared: their registries are not
touched. From then on nobody who fires the signal does anything.
-/

namespace ToastBoard

open Talk Board

variable {visit : Visit} {n : Nat} {g : Ledger} {h : HandlerId} {r : RegistryId} {c : CoordinatorId}
  {w w' : World} {tr : Trace}

namespace Board

variable {b b' : Board}

/-- Coordinators keep their registries, and none is touched but those of the first `n`. -/
structure Spares (n : Nat) (b b' : Board) : Prop where
  /-- Coordinators keep their registries. -/
  coordinators : b'.coordinators.map (·.registry) = b.coordinators.map (·.registry)
  /-- Other registries are not touched. -/
  registry : ∀ r ∉ (b.coordinators.map (·.registry)).take n, b'.registry r = b.registry r

theorem transits_spares (n : Nat) : Transits (Spares n) where
  trans h h' := ⟨h'.coordinators.trans h.coordinators, fun r hr =>
    (h'.registry r (by rwa [h.coordinators])).trans (h.registry r hr)⟩

/-- Whatever leaves registries and coordinators as they are touches nothing. -/
theorem spares_of_registries (hr : b'.registries = b.registries)
    (hc : b'.coordinators = b.coordinators) : Spares n b b' :=
  ⟨by rw [hc], fun r _ => registry_of_registries hr r⟩

theorem spares_refl (b : Board) : Spares n b b := spares_of_registries rfl rfl

/-- One of the first coordinators has one of the first registries. -/
theorem registry_mem_take (hc : c < n) (hlt : c < b.coordinators.length) :
    (b.coordinator c).registry ∈ (b.coordinators.map (·.registry)).take n := by
  refine List.mem_of_getElem? (i := c) ?_
  rw [List.getElem?_take, if_pos hc, getElem?_registries hlt]

/-- Later coordinators have other registries. -/
theorem registry_not_mem_take (hapart : (b.coordinators.map (·.registry)).Nodup) (hc : n ≤ c)
    (hlt : c < b.coordinators.length) :
    (b.coordinator c).registry ∉ (b.coordinators.map (·.registry)).take n := by
  intro hmem
  have hdrop : (b.coordinator c).registry ∈ (b.coordinators.map (·.registry)).drop n := by
    refine List.mem_of_getElem? (i := c - n) ?_
    rw [List.getElem?_drop, Nat.add_sub_cancel' hc, getElem?_registries hlt]
  rw [← List.take_append_drop n (b.coordinators.map (·.registry)), List.nodup_append] at hapart
  exact hapart.2.2 _ hmem _ hdrop rfl

/-- A registry of the first coordinators may change. -/
theorem spares_updateRegistry {f : Registry → Registry}
    (hr : r < b.registries.length → r ∈ (b.coordinators.map (·.registry)).take n) :
    Spares n b (b.updateRegistry r f) := by
  refine ⟨rfl, fun q hq => ?_⟩
  rw [registry_updateRegistry, if_neg]
  rintro ⟨rfl, hlt⟩
  exact hq (hr hlt)

/-- A table of the first coordinators may be emptied. -/
theorem spares_takeAll (hr : r < b.registries.length →
    r ∈ (b.coordinators.map (·.registry)).take n) : Spares n b (b.takeAll r).2 := by
  have hheld : Spares n b { b with held := (b.registry r).handlers ++ b.held } :=
    spares_of_registries rfl rfl
  exact (transits_spares n).trans hheld (spares_updateRegistry hr)

theorem spares_letGoAll (hs : List HandlerId) : Spares n b (b.letGoAll hs) :=
  spares_of_registries (registries_letGoAll hs) (sameCoordination_letGoAll hs).coordinators

theorem spares_retire (h : HandlerId) : Spares n b (b.retire h) :=
  spares_of_registries (registries_retire h) (sameCoordination_retire h).coordinators

/-- A registry of the first coordinators may be given up. -/
theorem spares_disownRegistry (hr : r < b.registries.length →
    r ∈ (b.coordinators.map (·.registry)).take n) : Spares n b (b.disownRegistry r) := by
  have hupdate : Spares n b (b.updateRegistry r fun reg => { reg with owners := reg.owners - 1 }) :=
    spares_updateRegistry hr
  unfold disownRegistry
  simp only
  split
  · exact hupdate
  · have hempty := (transits_spares n).trans hupdate (spares_updateRegistry (r := r)
      (f := fun reg => { reg with entries := [] }) fun hlt => hr (by
        rwa [length_updateRegistry] at hlt))
    exact (transits_spares n).trans hempty
      (spares_of_registries (sameButToasts_reapAll _).registries
        (sameButToasts_reapAll _).coordinators)

/-- Coordinators may change while they keep their registries. -/
theorem spares_updateCoordinator {f : Coordinator → Coordinator}
    (hf : ∀ co, (f co).registry = co.registry) : Spares n b (b.updateCoordinator c f) :=
  ⟨(ebbs_updateCoordinator hf).coordinators, fun _ _ => rfl⟩

/-- One of the first coordinators may be given up. -/
theorem spares_disownCoordinator (hc : c < n) : Spares n b (b.disownCoordinator c) := by
  have hupdate : Spares n b (b.updateCoordinator c fun co => { co with owners := co.owners - 1 }) :=
    spares_updateCoordinator fun _ => rfl
  unfold disownCoordinator
  simp only
  generalize (b.updateCoordinator c fun co => { co with owners := co.owners - 1 }) = d at hupdate ⊢
  split
  · exact hupdate
  · have hr : (d.coordinator c).registry < d.registries.length →
        (d.coordinator c).registry ∈ (d.coordinators.map (·.registry)).take n := by
      intro hlt
      by_cases hmade : c < d.coordinators.length
      · exact registry_mem_take hc hmade
      -- a coordinator that was never set up has a registry that was never made
      · rw [coordinator, List.getD_eq_getElem?_getD,
          List.getElem?_eq_none (Nat.le_of_not_lt hmade)] at hlt
        exact absurd hlt (Nat.lt_irrefl _)
    have hgone := (transits_spares n).trans hupdate (spares_disownRegistry hr)
    exact (transits_spares n).trans hgone (spares_of_registries rfl rfl)

/-- Telling a listener something touches no registry. -/
theorem spares_notify (topic : Topic) (action : Option String) :
    (notify h topic action).Within (Spares n) := by
  intro b
  rw [notify_eq]
  split
  · exact spares_refl b
  · exact ⟨spares_of_registries (by rw [announce_eq]) sameCoordination_announce.coordinators,
      fun _ b' => spares_refl b'⟩

/-- Ending a handler touches no registry. -/
theorem spares_unregister (h : HandlerId) : (unregister h).Within (Spares n) := by
  intro b
  rw [unregister_eq]
  split
  · exact spares_refl b
  · split
    · exact (spares_notify .finished none _).after (transits_spares n) (spares_retire h)
    · exact spares_retire h

/-- What is done for each of some things spares others if it does for each. -/
theorem spares_forEach {α : Type} {act : α → Act Unit} :
    (xs : List α) → (∀ x ∈ xs, (act x).Within (Spares n)) →
      Act.Within (Spares n) (Action.forEach xs act)
  | [], _ => fun b => spares_refl b
  | x :: xs, hact => fun b => Talk.Within.andThen (transits_spares n) (hact x List.mem_cons_self b)
      fun _ => spares_forEach xs fun y hy => hact y (List.mem_cons_of_mem _ hy)

/-- A table of the first coordinators may be drained. -/
theorem spares_drain {b : Board} (hr : r < b.registries.length →
    r ∈ (b.coordinators.map (·.registry)).take n) : (drain visit r b).Within (Spares n) b := by
  have hall := spares_forEach (n := n) (visit r (b.takeAll r).1) (fun h _ => spares_unregister h)
    (b.takeAll r).2
  exact (hall.ensuring (transits_spares n) fun _ => spares_letGoAll _).after (transits_spares n)
    (spares_takeAll hr)

/-- One of the first coordinators shuts down. -/
theorem spares_shutDown (hc : c < n) : (shutDown visit c).Within (Spares n) := by
  intro b
  change ((if b.hasCoordinator c = true then
    withCoordinator c fun co => drain visit co.registry else pure ()) b).Within _ b
  split
  · rename_i hhas
    have hlt : c < b.coordinators.length :=
      lt_of_coordinator_owners (by simpa [hasCoordinator] using hhas)
    have hown : Spares n b (b.ownCoordinator c) := spares_updateCoordinator fun _ => rfl
    have hdrain : (drain visit (b.coordinator c).registry (b.ownCoordinator c)).Within (Spares n)
        (b.ownCoordinator c) :=
      spares_drain fun _ => by rw [hown.coordinators]; exact registry_mem_take hc hlt
    exact (hdrain.ensuring (transits_spares n) fun _ => spares_disownCoordinator hc).after
      (transits_spares n) hown
  · exact spares_refl b

/-- Whoever fires a signal spares those who do not observe it. -/
theorem spares_fire {b : Board} (hobservers : ∀ c ∈ b.signal.fire.1, c < n) :
    (fire visit b).Within (Spares n) b := by
  rw [fire_eq]
  have hshut : ∀ c ∈ b.signal.fire.1, (shutDown visit c).Within (Spares n) := fun c hc =>
    spares_shutDown (hobservers c hc)
  have hall := spares_forEach b.signal.fire.1 hshut b.fired
  have hfired : Spares n b b.fired := spares_of_registries rfl rfl
  exact Talk.Within.andThen (transits_spares n) (hall.after (transits_spares n) hfired)
    fun _ b' => spares_refl b'

end Board

/-- A coordinator that somebody owns stays unless it is given up. -/
theorem World.Drifts.coordinator (hw : w.Drifts tr w') (hs : (order false).sound g w)
    (hs' : (order false).sound g w') (hd : ∀ m, (m, .deed (.dropCoordinator c)) ∉ tr)
    (hc : w.board.hasCoordinator c = true) : w'.board.hasCoordinator c = true := by
  have hpos : 0 < (w.board.coordinator c).owners := by simpa [hasCoordinator] using hc
  have hmem : c ∈ g.coords ++ w.coordinators := by
    rw [hs.books.mastered c] at hpos
    exact List.count_pos_iff.mp hpos
  have hmem' : c ∈ g.coords ++ w'.coordinators := (List.mem_append.mp hmem).elim
    (List.mem_append_left _) fun h => List.mem_append_right _ (hw.owned c h hd)
  simpa [hasCoordinator] using hs'.books.pos_of_master hmem'

/-- How a signal that fires at `w` comes to the coordinator `c`: `before` has happened until
`start`, when it is the turn of `c`; `its` happens until that is over at `mid`; and `after` happens
from then on until the end at `w'`. -/
def TakesTurn (visit : Visit) (c : CoordinatorId) (w : World) (before : Trace) (start : World)
    (its : Trace) (mid : World) (after : Trace) (w' : World) : Prop :=
  ∃ earlier later : List CoordinatorId, ∃ turns₁ turns₂ turns₃,
    w.board.signal.observers = earlier ++ c :: later ∧
      (Action.forEach earlier (shutDown visit) w.board.fired).Runs w turns₁ before (some ())
        start ∧
      (shutDown visit c start.board).Runs start turns₂ its (some ()) mid ∧
      (Action.forEach later (shutDown visit) mid.board).Runs mid turns₃ after (some ()) w'

/-- What happens to the coordinator `c` while a signal that fires at `w` runs to its end. -/
structure Visited (visit : Visit) (c : CoordinatorId) (w : World) (before : Trace) (start : World)
    (its : Trace) (mid : World) (after : Trace) (w' : World) : Prop where
  /-- It has its turn. -/
  turn : TakesTurn visit c w before start its mid after w'
  /-- It is not there by then if it was gone. -/
  gone : w.board.hasCoordinator c = false → start.board.hasCoordinator c = false
  /-- It is there by then unless it was given up meanwhile. -/
  stays : w.board.hasCoordinator c = true → (∀ m, (m, .deed (.dropCoordinator c)) ∉ before) →
    start.board.hasCoordinator c = true
  /-- If it is there it is drained: nobody who was in its registry is left. -/
  drained : start.board.hasCoordinator c = true →
    Drained (w.board.coordinator c).registry start (its ++ after) w'
  /-- Otherwise it does nothing. -/
  still : start.board.hasCoordinator c = false → mid = start ∧ its = []

section Run

variable {turns : List (Board × Board)}

/-- Firing the signal is shutting down one observer after the other. -/
theorem runs_fire {b : Board} {a : Option Nat} (hp : (fire visit b).Runs w turns tr a w') :
    a = some b.signal.fire.1.length ∧ ∃ turns', (Action.forEach b.signal.fire.1 (shutDown visit)
      b.fired).Runs w turns' tr (some ()) w' := by
  rw [fire_eq] at hp
  rcases hp.andThen with ⟨-, hpanic⟩ | ⟨_, _, _, _, _, _, rfl, hall, hend⟩
  · cases runs_forEach (fun _ _ _ _ _ _ _ => runs_shutDown) hpanic
  · cases hend
    rw [List.append_nil]
    exact ⟨rfl, _, hall⟩

/-- Firing the signal ends things only, and brings no coordinator back. -/
theorem fades_fire (visit : Visit) (hs : (order false).sound g w) :
    (fire visit w.board).Fades g w.board (fun _ _ => True) w :=
  ⟨ebbs_fire visit w.board,
    within_fire readsCoordination_outlives.handling (fun _ _ => outlives_ownCoordinator)
      outlives_disownCoordinator
      (fun _ => ⟨Nat.le_refl _, fun _ _ => id⟩) visit w.board,
    keeps_fire (fun hs => Bool.noConfusion hs) (At.start hs)⟩

/-- A computation comes to its end whatever its listeners do, as long as they return. -/
theorem Talk.runs_run {α : Type} {answer : Telling → World → World}
    (ha : ∀ x w, ∃ tr, World.Strays w tr (answer x w)) (t : Talk Board Telling α) (w : World) :
    ∃ turns tr, t.Runs w turns tr
      (t.run World.board (fun b w => w.put b) (fun x w => (true, answer x w)) w).1
      (t.run World.board (fun b w => w.put b) (fun x w => (true, answer x w)) w).2 := by
  induction t generalizing w with
  | ended a b => exact ⟨_, _, .ended⟩
  | told m b resume ih =>
    obtain ⟨tr, hstrays⟩ := ha m (w.put b)
    obtain ⟨turns, tr', hrest⟩ := ih true (answer m (w.put b)).board (answer m (w.put b))
    exact ⟨_, _, .told hstrays hrest⟩

end Run

/-- What comes of a signal that fires at `m` for the first time, after `n` coordinators were set
up. -/
structure Sweeps (visit : Visit) (m : Moment) (n : Nat) (turns : List (Board × Board)) (tr : Trace)
    (a : Option Nat) (w' : World) : Prop where
  /-- It tells how many there were. -/
  result : a = some n
  /-- Each of them has its turn. -/
  visited : ∀ c < n, ∃ before start its mid after, tr = before ++ (its ++ after) ∧
    Visited visit c m.world before start its mid after w'
  /-- No turn touches the registry of a coordinator that is set up later. -/
  spared : ∀ x ∈ turns, ∀ c, n ≤ c → c < x.1.coordinators.length →
    x.2.registry (x.1.coordinator c).registry = x.1.registry (x.1.coordinator c).registry
  /-- Who fires the signal meanwhile does nothing. -/
  nested : ∀ x ∈ tr, ∀ visit' : Visit,
    fire visit' x.1.world.board = .ended (some 0) x.1.world.board
  /-- Nor does anybody who fires it later. -/
  later : ∀ events, Course.Open (fun _ _ => True) ⟨w', m.waiting⟩ events → ∀ visit' : Visit,
    fire visit' (events.foldl Moment.after ⟨w', m.waiting⟩).world.board =
      .ended (some 0) (events.foldl Moment.after ⟨w', m.waiting⟩).world.board

/-- Each coordinator that observes a signal has its turn. -/
theorem visited_of_runs {turns : List (Board × Board)}
    (hs : (order false).sound g w) (hmem : c ∈ w.board.signal.observers)
    (hlt : c < w.board.coordinators.length)
    (hp : (Action.forEach w.board.signal.observers (shutDown visit) w.board.fired).Runs w turns tr
      (some ()) w') : ∃ before start its mid after, tr = before ++ (its ++ after) ∧
        Visited visit c w before start its mid after w' := by
  obtain ⟨earlier, later, hsplit⟩ := List.append_of_mem hmem
  rw [hsplit, forEach_append] at hp
  rcases hp.andThen with ⟨hno, -⟩ | ⟨turns₁, _, before, rest, _, start, rfl, hbefore, hrest⟩
  · cases hno
  rcases Runs.andThen (t := shutDown visit c start.board) hrest with
    ⟨hno, -⟩ | ⟨turns₂, turns₃, its, after, _, mid, rfl, hits, hafter⟩
  · cases hno
  have hturn := (At.start hs).fired.quiet
  have hfired : (order false).sound g (w.put w.board.fired) := (At.fired (At.start hs)).sound
  have hstart : w.Drifts [] (w.put w.board.fired) :=
    .of_turn hturn (ebbs_fired _) ⟨Nat.le_refl _, fun _ _ => id⟩
  obtain ⟨_, hbefore'⟩ := hbefore.put (b := w.board.fired)
  obtain ⟨hcome, hkept, -⟩ := hbefore'.drifts hfired (fades_shutDownAll hfired earlier)
  obtain ⟨hturned, hleft, -⟩ := hits.drifts hkept (fades_shutDown hkept c)
  obtain ⟨hlater, -, -⟩ := hafter.drifts hleft (fades_shutDownAll hleft later)
  have htotal : w.Drifts before start := hstart.trans hcome
  refine ⟨before, start, its, mid, after, rfl, ⟨earlier, later, turns₁, turns₂, turns₃, hsplit,
    hbefore, hits, hafter⟩, htotal.outlives.gone c hlt,
    fun hc hd => htotal.coordinator hs hkept hd hc, fun hc => ?_, fun hc => ?_⟩
  · have hdrained := drained_shutDown hkept hc hits
    rw [registry_of_founded htotal.board.coordinators hlt] at hdrained
    exact hdrained.later hturned.later.1.length hlater.board hlater.later.1
  · rw [still_shutDown hc] at hits
    cases hits
    exact ⟨rfl, rfl⟩

/-- Setting up a coordinator on one signal succeeds in test mode, or where the platform has toasts
and an identity; it tells a failure in a fixed order, and leaves nothing behind then. The first time
that signal fires, in whatever order handlers are visited and whatever listeners do but panic, it
comes to an end and tells how many coordinators were set up until then; each of them that still
exists when it is its turn is drained, one that is gone does nothing, and none that is set up later
is touched. After that nobody who fires it does anything. -/
theorem signal_sweeps_founders {events : List Event}
    (ho : Course.Open (fun _ _ => True) {} events) (hfire : ∀ visit, .deed (.fire visit) ∉ events) :
    (∀ (b : Board) (settings : Settings) (host : Host) (worker : Worker HandlerId),
      Worker.start host.threadRefusal settings.dispatcherThreadName = some (.ok worker) →
        b.SetsUp settings host) ∧
    ∀ visit : Visit,
      (∀ answer : Telling → World → World, (∀ x w, ∃ tr, World.Strays w tr (answer x w)) →
        ∃ turns tr w', (fire visit (events.foldl Moment.after {}).world.board).Runs
          (events.foldl Moment.after {}).world turns tr
            (some (Moment.trace {} events).founded) w') ∧
      ∀ turns tr a w', (fire visit (events.foldl Moment.after {}).world.board).Runs
        (events.foldl Moment.after {}).world turns tr a w' →
          Sweeps visit (events.foldl Moment.after {}) (Moment.trace {} events).founded turns tr a
            w' := by
  have course : FreeCourse (events.foldl Moment.after {}) := Course.start.follow ho
  have hunfired : (events.foldl Moment.after {}).world.board.signal.fired = false :=
    fired_of_open (m := {}) (List.forall_mem_nil _) ho hfire
  have hfounded : (Moment.trace {} events).founded =
      (events.foldl Moment.after {}).world.board.coordinators.length := by
    have hcount := (tame_of_freeCourse .start).founded ho
    exact (hcount.trans (Nat.zero_add _)).symm
  rw [hfounded]
  generalize events.foldl Moment.after {} = m at course hunfired ⊢
  have hobservers := observed_of_freeCourse course hunfired
  have hrun : m.world.board.signal.fire.1 = m.world.board.signal.observers := by
    rw [Signal.fire, if_neg (by simp [hunfired])]
  obtain ⟨g, hs, hawaits⟩ := lawful_of_freeCourse course
  refine ⟨fun b _ _ _ hw => setsUp b hw, fun visit => ?_⟩
  have hsweeps : ∀ turns tr a w', (fire visit m.world.board).Runs m.world turns tr a w' →
      Sweeps visit m m.world.board.coordinators.length turns tr a w' := by
    intro turns tr a w' hp
    obtain ⟨ha, _, hall⟩ := runs_fire hp
    rw [hrun, hobservers] at ha hall
    have hfades := fades_fire (w := m.world) visit hs
    obtain ⟨hdrifts, hs', -⟩ := hp.drifts hs hfades
    have hfired : (order false).sound g (m.world.put m.world.board.fired) :=
      (At.fired (At.start hs)).sound
    obtain ⟨_, hall'⟩ := hall.put (b := m.world.board.fired)
    obtain ⟨hpassed, -, -⟩ := hall'.drifts hfired (fades_shutDownAll hfired _)
    have hlit : (m.world.put m.world.board.fired).board.signal.fired = true := Signal.fired_fire _
    have htame : (⟨w', m.waiting⟩ : Moment).Tame {} :=
      ⟨⟨g, hs', hawaits.later hdrifts.later⟩, (tame_of_freeCourse course).waiting⟩
    refine ⟨by rw [ha, List.length_range], fun c hc => ?_, fun x hx c hc hlt => ?_,
      fun x hx visit' => fire_of_fired (hpassed.fired hlit x hx),
      fun events ho visit' => fire_of_fired (htame.fired (hpassed.board.fired hlit) ho)⟩
    · exact visited_of_runs hs (hobservers ▸ List.mem_range.mpr hc) hc (hobservers ▸ hall)
    · obtain ⟨hspares, g', v, hsound, hv'⟩ := hp.within hs hfades (spares_fire
        (n := m.world.board.coordinators.length) fun c hc => List.mem_range.mp (by
          rwa [hrun, hobservers] at hc)) x hx
      have hapart : (x.1.coordinators.map (·.registry)).Nodup := hv' ▸ hsound.books.apart
      exact hspares.registry _ (registry_not_mem_take hapart hc hlt)
  refine ⟨fun answer ha => ?_, hsweeps⟩
  obtain ⟨turns, tr, hp⟩ := Talk.runs_run ha (fire visit m.world.board) m.world
  have hresult := (hsweeps _ _ _ _ hp).result
  exact ⟨turns, tr, _, hresult ▸ hp⟩

/-- A platform with toasts and an identity. -/
def ready : Host := { supported := true, identity := .ok "id" }

/-- Two coordinators are set up, and one is not; each of the two shows an alert, and the second one
is given up. -/
def oneLeft : List Event :=
  [.deed (.setUp {} ready), .deed (.setUp {} .bare), .deed (.setUp {} ready),
    .deed (.showAlert 0 (Alert.asSource (plainAlert "a")) (some 0)), .deed (.advance 0),
    .deed (.finish 0), .reply true,
    .deed (.showAlert 1 (Alert.asSource (plainAlert "b")) (some 1)), .deed (.dropCoordinator 1)]

/-- Told of the end, a listener sets up another coordinator, which shows an alert, and fires the
signal once more. -/
def startAnew : List Event :=
  [.deed (.setUp {} ready), .deed (.showAlert 2 (Alert.asSource (plainAlert "c")) (some 2)),
    .deed (.fire .inTurn)]

/-- The signal counts the coordinator that was given up, drains the one that is left and spares the
one that its listener sets up meanwhile. -/
theorem signal_sweeps_founders_oneLeft : Course.Open (fun _ _ => True) {} oneLeft ∧
    (∀ visit, .deed (.fire visit) ∉ oneLeft) ∧ (∀ b : Board, b.SetsUp {} .bare) ∧ ∃ turns tr w',
      (fire .reversed (oneLeft.foldl Moment.after {}).world.board).Runs
        (oneLeft.foldl Moment.after {}).world turns tr (some 2) w' ∧
      Sweeps .reversed (oneLeft.foldl Moment.after {}) 2 turns tr (some 2) w' ∧
      [0, 1, 2].map w'.board.hasCoordinator = [true, false, true] ∧
      [0, 1, 2].map (fun r => (w'.board.registry r).entries) = [[], [], [("c", 2)]] ∧
      (w'.board.heard 0).map (·.topic) = [.shown, .finished] := by
  have ho : Course.Open (fun _ _ => True) {} oneLeft := ⟨trivial, trivial, trivial, trivial,
    trivial, trivial, List.mem_cons_of_mem _ List.mem_cons_self, trivial, trivial, trivial, trivial,
    trivial, List.cons_ne_nil _ _, trivial, List.mem_cons_self, trivial, List.mem_cons_self,
    trivial, trivial⟩
  have hfire : ∀ visit, .deed (.fire visit) ∉ oneLeft := by simp [oneLeft]
  obtain ⟨hsetsUp, hsweeps⟩ := signal_sweeps_founders ho hfire
  obtain ⟨turns, tr, w', hruns, hfacts⟩ : ∃ turns tr w',
      (fire .reversed (oneLeft.foldl Moment.after {}).world.board).Runs
        (oneLeft.foldl Moment.after {}).world turns tr (some 2) w' ∧
      [0, 1, 2].map w'.board.hasCoordinator = [true, false, true] ∧
      [0, 1, 2].map (fun r => (w'.board.registry r).entries) = [[], [], [("c", 2)]] ∧
      (w'.board.heard 0).map (·.topic) = [.shown, .finished] := by
    refine ⟨_, _, _, .told ⟨startAnew, ?_, rfl, rfl⟩ .ended, rfl, rfl, rfl⟩
    exact ⟨trivial, .inl trivial, List.mem_cons_self, .inl trivial, trivial, .inl trivial, trivial⟩
  exact ⟨ho, hfire, fun b => hsetsUp b {} .bare _ (if_neg (by decide)), turns, tr, w', hruns,
    (hsweeps _).2 turns tr _ w' hruns, hfacts⟩

end ToastBoard
