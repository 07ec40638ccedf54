import ToastBoard.Proofs.Deeds
import ToastBoard.Proofs.Steady
import ToastBoard.Proofs.Places
import ToastBoard.Proofs.Visiting

/-!
# Operations of a coordinator while listeners only return

What comes of showing and closing an alert, of dropping new alerts and of the signal, on a board on
which nothing goes wrong: each of them puts handlers into the table or takes them out, ends the ones
that are taken out, and leaves everybody else alone.
-/

namespace ToastBoard

open Board

/-- What somebody asks of a coordinator. -/
inductive Operation where
  /-- To show an alert. -/
  | showAlert (source : Source) (listener : Option ListenerId)
  /-- To close the alert of a name. -/
  | closeAlert (name : String)
  /-- To drop new alerts, or no longer. -/
  | suppress (suppressed : Bool)
  /-- To fire the signal. -/
  | fire (visit : Visit)

/-- The deed that is asked of a coordinator. -/
def Operation.deed (c : CoordinatorId) : Operation → Deed
  | .showAlert source listener => .showAlert c source listener
  | .closeAlert name => .closeAlert c name
  | .suppress suppressed => .suppress c suppressed
  | .fire visit => .fire visit

/-- What comes of a deed while listeners only return. -/
def Deed.quietly (d : Deed) (b : Board) : Board := (d.act b).quietly.2

namespace Board

variable {b d : Board} {h : HandlerId} {s : StationId} {r : RegistryId} {c : CoordinatorId}
  {co : Coordinator} {name : String} {T : Terms} {α : Type}

/-- Telling the result in another way changes nothing else. -/
theorem quietly_map {α β : Type} (t : Talk Board Telling α) (f : α → β) :
    (t.andThen fun a b => (.ended (some (f a)) b : Talk Board Telling β)).quietly =
      (t.quietly.1.map f, t.quietly.2) := by
  rw [Talk.quietly_andThen]
  obtain ⟨a, b⟩ := t.quietly
  cases a <;> rfl

theorem quietly_void (t : Talk Board Telling α) :
    (t.andThen fun _ b => (.ended (some ()) b : Talk Board Telling Unit)).quietly.2 =
      t.quietly.2 := congrArg Prod.snd (quietly_map t fun _ => ())

/-- A deed that hands nothing out leaves a board in order, with what it reports. -/
theorem Sound.deed (hb : b.Sound false {} T) {d : Deed} (hd : d.Possible (Board.around T b))
    (hh : d.holdings (Board.around T b) = Board.around T b) :
    (d.quietly b).Sound false {} { T with reported := T.reported ++ d.reports b } := by
  have hs : (Board.around T b).board.Sound false {}
      ((Board.burden T).terms (Board.around T b)) := by
    rw [terms_around]
    exact hb
  have hkeeps : (d.act b).Keeps (order false) (fun _ => True) ((order false).Ends (Board.burden T))
      (d.start (Board.around T b)) (d.start (Board.around T b)) :=
    keeps_deed hs hd (fun hc => Bool.noConfusion hc) fun hc => Bool.noConfusion hc
  rw [Deed.start, hh] at hkeeps
  obtain ⟨-, -, hend⟩ := hkeeps.quietly trivial
  have hend' : (d.quietly b).Sound false {} ((Board.burden T).terms
      { Board.around T (d.quietly b) with reported := T.reported ++ d.reports b }) := hend
  have hterms := terms_around { T with reported := T.reported ++ d.reports b } (d.quietly b)
  exact hterms ▸ hend'

/-- A coordinator that gets an owner and loses one is as it was. -/
theorem disownCoordinator_of_owned (hc : 0 < (b.coordinator c).owners)
    (hd : d.coordinators = (b.ownCoordinator c).coordinators) :
    d.disownCoordinator c = { d with coordinators := b.coordinators } := by
  have hsame : d.coordinators.modify c (fun co => { co with owners := co.owners - 1 }) =
      b.coordinators := by
    rw [hd]
    change (b.coordinators.modify c _).modify c _ = _
    rw [List.modify_modify_eq]
    exact List.modify_id ..
  have hgone : d.updateCoordinator c (fun co => { co with owners := co.owners - 1 }) =
      { d with coordinators := b.coordinators } := by
    rw [updateCoordinator, hsame]
  have hcoordinators : ({ d with coordinators := b.coordinators } : Board).coordinators =
      b.coordinators := rfl
  have hthere : ({ d with coordinators := b.coordinators } : Board).hasCoordinator c = true :=
    decide_eq_true (Nat.lt_of_lt_of_eq hc (owners_coordinator hcoordinators c).symm)
  unfold disownCoordinator
  rw [hgone]
  exact if_pos hthere

/-- What is done in the name of a coordinator, if it does not concern coordinators. -/
theorem quietly_withCoordinator (act : Coordinator → Act α) {a : Option α}
    (hc : 0 < (b.coordinator c).owners)
    (hact : (act (b.coordinator c) (b.ownCoordinator c)).quietly = (a, d))
    (hd : d.coordinators = (b.ownCoordinator c).coordinators) :
    (withCoordinator c act b).quietly = (a, { d with coordinators := b.coordinators }) := by
  change ((act (b.coordinator c) (b.ownCoordinator c)).ensuring
    (·.disownCoordinator c)).quietly = _
  rw [Talk.quietly_ensuring, hact]
  exact congrArg (Prod.mk a) (disownCoordinator_of_owned hc hd)

/-- A board on which somebody who was taken out ends. -/
def parted (b : Board) : Option HandlerId → Board
  | none => b
  | some p => (b.dismissed p).letGo p

theorem ends_parted (old : Option HandlerId) : b.Ends old.toList (b.parted old) := by
  cases old with
  | none => exact (Tidies.refl b).ends
  | some p => exact (ends_dismissed p).tidies (tidies_letGo p)

/-- A board on which a new handler stands under its name and is queued. -/
def entrusted (b : Board) (co : Coordinator) (h : HandlerId) : Board :=
  (b.install co.registry (b.handler h).name h).2.queued co.station h

/-- A board on which the one that the new handler has displaced has ended as well. -/
def presented (b : Board) (co : Coordinator) (h : HandlerId) : Board :=
  ((b.entrusted co h).parted (b.current? co.registry (b.handler h).name)).letGo h

/-- A handler that was just created takes its place under its name. -/
theorem quietly_present (hb : b.Steady co.station) (hp : b.phase h = .created) :
    (Act.thenLetGo h (present co h) b).quietly = (some (.ok ()), b.presented co h) := by
  have hold : (b.install co.registry (b.handler h).name h).1 =
      b.current? co.registry (b.handler h).name := by rw [install_eq]
  have hinstalled := hb.stirs (stirs_install co.registry (b.handler h).name h)
  have hcreated : (b.install co.registry (b.handler h).name h).2.phase h = .created := by
    rw [phase_install]
    exact hp
  have hsubmit := hinstalled.submit hcreated
  have hend : ∀ (old : Option HandlerId) (a : Board), (supersede old a).quietly =
      (some (), a.parted old) := by
    intro old a
    cases old with
    | none => rfl
    | some p => exact Call.quietly_thenLetGo p a
  change ((present co h b).ensuring (·.letGo h)).quietly = _
  rw [Talk.quietly_ensuring, present_eq, entrust_accepted (by rw [hsubmit]), hsubmit,
    Talk.quietly_andThen, hend, hold]
  rfl

theorem ends_presented (co : Coordinator) (h : HandlerId) : (b.entrusted co h).Ends
    (b.current? co.registry (b.handler h).name).toList (b.presented co h) :=
  (ends_parted _).tidies (tidies_letGo h)

/-- A board on which the handler of a name was taken out and has ended. -/
def closedUp (b : Board) (r : RegistryId) (name : String) : Board :=
  (b.takeEntry r name).2.parted (b.current? r name)

theorem quietly_takeDown (co : Coordinator) (name : String) (b : Board) :
    (takeDown co name b).quietly = (some (), b.closedUp co.registry name) := by
  have htaken : (b.takeEntry co.registry name).1 = b.current? co.registry name := by
    rw [takeEntry_eq]
  unfold takeDown
  rw [htaken, closedUp]
  cases b.current? co.registry name with
  | none => rfl
  | some p => exact Call.quietly_thenLetGo p (b.takeEntry co.registry name).2

theorem ends_closedUp (r : RegistryId) (name : String) :
    (b.takeEntry r name).2.Ends (b.current? r name).toList (b.closedUp r name) := ends_parted _

variable {visit : Visit}

/-- Everybody is taken out of a registry and ends, in any order. -/
theorem ends_drainedIn (visit : Visit) (r : RegistryId) :
    (b.takeAll r).2.Ends (b.registry r).handlers (b.drainedIn visit r) :=
  ((ends_dismissedAll _).tidies (tidies_letGoAll _)).congr fun _ => (visit.fair r _).mem_iff

/-- A board on which a coordinator has dealt with an alert that it was given. -/
def offered (b : Board) (co : Coordinator) (source : Source) (listener : Option ListenerId) :
    Board :=
  if co.suppressed = true then b
  else match source.read.result with
    | .error _ => b
    | .ok fields =>
      (b.create { fields, listener, registry := some co.registry }).2.presented co
        b.handlers.length

/-- The coordinators are what they were. -/
theorem coordinators_offered (co : Coordinator) (source : Source) (listener : Option ListenerId) :
    (b.offered co source listener).coordinators = b.coordinators := by
  unfold offered
  split
  · rfl
  · split
    · rfl
    · rename_i fields _
      have hpresented := ends_presented
        (b := (b.create { fields, listener, registry := some co.registry }).2) co b.handlers.length
      rw [hpresented.coordinators, entrusted, install_eq]
      rfl

/-- What a coordinator answers to an alert that it is given. -/
def answerTo (co : Coordinator) (source : Source) : Reading Unit :=
  if co.suppressed = true then .done ()
  else ⟨source.read.result.map fun _ => (), source.read.called⟩

theorem quietly_offer (hb : b.Steady co.station) (source : Source)
    (listener : Option ListenerId) : (offer source listener co b).quietly =
      (some (answerTo co source), b.offered co source listener) := by
  unfold offer offered answerTo
  split
  · rfl
  · rcases source.read with ⟨e | fields, called⟩
    · rfl
    · have hcreated : (b.create { fields, listener, registry := some co.registry }).2.phase
          b.handlers.length = .created := phase_create_self b _
      have hpresent := quietly_present (hb.stirs (stirs_create rfl rfl rfl)) hcreated
      exact (quietly_map ..).trans (congrArg (fun x : Option (Except Failure Unit) × Board =>
        (x.1.map fun shown => (⟨shown, called⟩ : Reading Unit), x.2)) hpresent)

/-- A coordinator is asked to show an alert. -/
theorem quietly_showAlert (hb : b.Steady (b.coordinator c).station)
    (hc : 0 < (b.coordinator c).owners) (source : Source) (listener : Option ListenerId) :
    (Board.showAlert c source listener b).quietly = (some (answerTo (b.coordinator c) source),
      { (b.ownCoordinator c).offered (b.coordinator c) source listener with
        coordinators := b.coordinators }) := by
  have howned : (b.ownCoordinator c).Steady (b.coordinator c).station := hb.same rfl rfl rfl
  rw [showAlert_eq]
  exact quietly_withCoordinator (offer source listener) hc
    (quietly_offer howned source listener) (coordinators_offered ..)

/-- A coordinator is asked to close the alert of a name. -/
theorem quietly_closeAlert (hc : 0 < (b.coordinator c).owners) (name : String) :
    (Board.closeAlert c name b).quietly = (some (),
      { (b.ownCoordinator c).closedUp (b.coordinator c).registry name with
        coordinators := b.coordinators }) := by
  rw [closeAlert_eq]
  refine quietly_withCoordinator (fun co => takeDown co name) hc (quietly_takeDown ..) ?_
  rw [(ends_closedUp _ _).coordinators, takeEntry_eq]
  rfl

/-- The signal fires for the first time, and a coordinator is the only observer. -/
theorem quietly_fire_once (visit : Visit) (hc : 0 < (b.coordinator c).owners)
    (hs : b.signal.fire.1 = [c]) : (fire visit b).quietly =
      (some 1, { (b.fired.ownCoordinator c).drainedIn visit (b.coordinator c).registry with
        coordinators := b.coordinators }) := by
  have hhere : b.fired.hasCoordinator c = true := decide_eq_true hc
  rw [quietly_fire, hs]
  refine Prod.ext rfl ?_
  change b.fired.shutInto visit c = _
  unfold shutInto
  rw [if_pos hhere]
  exact disownCoordinator_of_owned (b := b.fired) hc (ends_drainedIn visit _).coordinators

/-- The signal fires once more. -/
theorem quietly_fire_again (hs : b.signal.fired = true) :
    (fire visit b).quietly = (some 0, b) := by
  have hnobody : b.signal.fire = ([], b.signal) := Signal.fire_of_fired hs
  have hsame : b.fired = b := by
    change { b with signal := b.signal.fire.2 } = b
    rw [hnobody]
  rw [quietly_fire, hnobody, hsame]
  rfl

end Board

end ToastBoard
