import ToastBoard.Proofs.Ripening

/-!
# What is done aside from coordinators

Whatever becomes of handlers, their tables and their workers concerns neither coordinators nor the
signal nor the names of threads. So a relation between boards that only looks at these is kept in
every turn of such a computation, and of any deed if it is kept when somebody owns or gives up a
coordinator. Nobody but who fires the signal makes it fire, and a coordinator that is gone remains
so.
-/

namespace ToastBoard

open Board

variable {R : Board → Board → Prop} {h : HandlerId} {r : RegistryId} {c : CoordinatorId}
  {s : StationId} {name : String} {α β : Type}

namespace Worker

variable {Job : Type} {w w' : Worker Job} {message : Message Job}

/-- A worker that is sent a message keeps the name of its thread. -/
theorem name_of_send (h : w.send message = .ok w') : w'.name = w.name := by
  unfold send at h
  split at h
  · cases h
  · split at h
    · cases h
    · cases h
      rfl

theorem name_stop (w : Worker Job) : w.stop.name = w.name := by
  unfold stop
  split <;> rfl

theorem name_next (w : Worker Job) : w.next.2.name = w.name := by
  unfold next
  split <;> rfl

end Worker

namespace Board

/-- The names of all threads. -/
def crew (b : Board) : List String := b.stations.map (·.worker.name)

/-- Boards with the same coordinators and the same signal, on which threads keep their names. -/
structure SameCoordination (b b' : Board) : Prop where
  /-- The signal is the same. -/
  signal : b'.signal = b.signal
  /-- The coordinators are the same. -/
  coordinators : b'.coordinators = b.coordinators
  /-- No thread is forgotten, and none gets another name. -/
  crew : b.crew <+: b'.crew

/-- A relation of boards in which what is in order twice is in order. -/
structure Transits (R : Board → Board → Prop) : Prop where
  /-- What is in order twice is in order. -/
  trans : ∀ {a b c}, R a b → R b c → R a c

/-- A relation of boards that comes from their coordinators, signals and names of threads. -/
structure ReadsCoordination (R : Board → Board → Prop) : Prop extends Transits R where
  /-- What leaves coordinators, the signal and the names of threads as they are is in order. -/
  sameCoordination : ∀ {b b'}, b.SameCoordination b' → R b b'

variable {a b b' : Board}

/-- It makes no difference what becomes of the rest. -/
theorem SameCoordination.same (hsignal : b'.signal = b.signal)
    (hcoordinators : b'.coordinators = b.coordinators) (hstations : b'.stations = b.stations) :
    b.SameCoordination b' :=
  ⟨hsignal, hcoordinators, by simp only [Board.crew, hstations, List.prefix_rfl]⟩

theorem SameCoordination.refl (b : Board) : b.SameCoordination b := .same rfl rfl rfl

theorem SameCoordination.trans {c : Board} (h : a.SameCoordination b) (h' : b.SameCoordination c) :
    a.SameCoordination c :=
  ⟨h'.signal.trans h.signal, h'.coordinators.trans h.coordinators, h.crew.trans h'.crew⟩

/-- Boards with the same signal, coordinators and stations are in order with each other. -/
theorem ReadsCoordination.same (hR : ReadsCoordination R) (hsignal : b'.signal = b.signal)
    (hcoordinators : b'.coordinators = b.coordinators) (hstations : b'.stations = b.stations) :
    R b b' :=
  hR.sameCoordination (.same hsignal hcoordinators hstations)

theorem ReadsCoordination.refl (hR : ReadsCoordination R) (b : Board) : R b b :=
  hR.sameCoordination (.refl b)

/-- A relation of boards in which whatever is done with handlers and their tables is in order, but
for registering handlers. -/
structure AllowsHandling (R : Board → Board → Prop) : Prop extends Transits R where
  /-- Nothing need be done. -/
  refl : ∀ b, R b b
  /-- Somebody holds a handler. -/
  hold : ∀ (b : Board) h, R b (b.hold h)
  /-- Somebody gives back a hold on a handler. -/
  letGo : ∀ (b : Board) h, R b (b.letGo h)
  /-- Somebody owns a registry. -/
  ownRegistry : ∀ (b : Board) r, R b (b.ownRegistry r)
  /-- Somebody gives up a registry. -/
  disownRegistry : ∀ (b : Board) r, R b (b.disownRegistry r)
  /-- A handler is made. -/
  create : ∀ (b : Board) hd, R b (b.create hd).2
  /-- A handler is put under a name. -/
  install : ∀ (b : Board) r name h, R b (b.install r name h).2
  /-- It is taken back. -/
  restore : ∀ (b : Board) r name h old, R b (b.restore r name h old).2
  /-- The handler of a name is taken out. -/
  takeEntry : ∀ (b : Board) r name, R b (b.takeEntry r name).2
  /-- All handlers are taken out. -/
  takeAll : ∀ (b : Board) r, R b (b.takeAll r).2
  /-- A handler is submitted. -/
  submit : ∀ (b : Board) s h, R b (b.submit s h).2
  /-- Something is kept for a handler. -/
  defer : ∀ (b : Board) h o, R b (b.update h fun hd => hd.deferred o)
  /-- A handler ends. -/
  retire : ∀ (b : Board) h, R b (b.retire h)
  /-- The listener of a handler is told something. -/
  announce : ∀ (b : Board) h topic action, R b (b.announce h topic action)

/-- Releasing a toast leaves coordinators and the signal as they are. -/
theorem sameCoordination_releaseToast (toast : Option ToastId) :
    b.SameCoordination (b.releaseToast toast) := by
  cases toast <;> exact .same rfl rfl rfl

/-- Ending a handler to which nothing refers concerns no coordinator. -/
theorem sameCoordination_reap (h : HandlerId) : b.SameCoordination (b.reap h) := by
  unfold reap
  split
  · exact .refl b
  · have hbare : b.SameCoordination (b.update h fun hd => { hd with registration := none }) :=
      .same rfl rfl rfl
    exact hbare.trans (sameCoordination_releaseToast _)

theorem sameCoordination_reapAll (hs : List HandlerId) : b.SameCoordination (hs.foldl reap b) := by
  induction hs generalizing b with
  | nil => exact .refl b
  | cons h hs ih => exact (sameCoordination_reap h).trans ih

/-- Giving a handler back concerns no coordinator. -/
theorem sameCoordination_letGo (h : HandlerId) : b.SameCoordination (b.letGo h) :=
  SameCoordination.trans (b := { b with held := b.held.erase h }) (.same rfl rfl rfl)
    (sameCoordination_reap h)

theorem sameCoordination_letGoAll (hs : List HandlerId) : b.SameCoordination (b.letGoAll hs) := by
  induction hs generalizing b with
  | nil => exact .refl b
  | cons h hs ih => exact (sameCoordination_letGo h).trans ih

/-- Telling a listener something concerns no coordinator by itself. -/
theorem sameCoordination_announce {topic : Topic} {action : Option String} :
    b.SameCoordination (b.announce h topic action) := by
  rw [announce_eq]
  exact .same rfl rfl rfl

/-- A handler that ends concerns no coordinator. -/
theorem sameCoordination_retire (h : HandlerId) : b.SameCoordination (b.retire h) :=
  SameCoordination.trans (b := b.update h Handler.retired) (.same rfl rfl rfl)
    (sameCoordination_releaseToast _)

/-- A registry may be given up, and its handlers with it, without concern to coordinators. -/
theorem sameCoordination_disownRegistry (r : RegistryId) :
    b.SameCoordination (b.disownRegistry r) := by
  unfold disownRegistry
  simp only
  split
  · exact .same rfl rfl rfl
  · refine SameCoordination.trans ?_ (sameCoordination_reapAll _)
    exact .same rfl rfl rfl

/-- Looking a name up leaves coordinators as they are. -/
theorem sameCoordination_lookUp (r : RegistryId) (name : String) :
    b.SameCoordination (b.lookUp r name).2 := by
  rw [lookUp_eq]
  exact .same rfl rfl rfl

/-- Taking out what stands under a name concerns no coordinator. -/
theorem sameCoordination_takeEntry (r : RegistryId) (name : String) :
    b.SameCoordination (b.takeEntry r name).2 := by
  rw [takeEntry_eq]
  exact .same rfl rfl rfl

/-- Putting a handler under its name concerns no coordinator. -/
theorem sameCoordination_install (r : RegistryId) (name : String) (h : HandlerId) :
    b.SameCoordination (b.install r name h).2 := by
  rw [install_eq]
  exact .same rfl rfl rfl

/-- Putting back what was displaced concerns no coordinator. -/
theorem sameCoordination_restore (r : RegistryId) (name : String) (h : HandlerId)
    (old : Option HandlerId) :
    b.SameCoordination (b.restore r name h old).2 := by
  have hchanged : ∀ f : Registry → Registry, b.SameCoordination (b.updateRegistry r f) := fun _ =>
    .same rfl rfl rfl
  unfold restore
  split
  · split
    · exact ((hchanged _).trans (sameCoordination_reap h)).trans (sameCoordination_letGo _)
    · exact ((hchanged _).trans (sameCoordination_reap h)).trans (sameCoordination_letGoAll _)
  · exact sameCoordination_letGoAll _

/-- A station changes, but the name of its thread does not. -/
theorem sameCoordination_updateStation {f : Station → Station}
    (hf : (f (b.station s)).worker.name = (b.station s).worker.name) :
    b.SameCoordination (b.updateStation s f) := by
  have hcrew : (b.updateStation s f).crew = b.crew := by
    refine List.ext_getElem? fun i => ?_
    simp only [crew, updateStation, List.getElem?_map, List.getElem?_modify]
    cases hi : b.stations[i]? with
    | none => rfl
    | some st =>
      by_cases hs : s = i
      · subst hs
        rw [station, List.getD_eq_getElem?_getD, hi] at hf
        simpa using hf
      · simp [hs]
  exact ⟨rfl, rfl, hcrew ▸ List.prefix_rfl⟩

/-- Another worker with the same name leaves the names of threads as they are. -/
theorem sameCoordination_setWorker {worker : Worker HandlerId}
    (hw : worker.name = (b.station s).worker.name) : b.SameCoordination (b.setWorker s worker) :=
  sameCoordination_updateStation hw

/-- A new station adds the name of its thread. -/
theorem crew_openStation (worker : Worker HandlerId) :
    (b.openStation worker).2.crew = b.crew ++ [worker.name] := List.map_append

theorem sameCoordination_openStation (worker : Worker HandlerId) :
    b.SameCoordination (b.openStation worker).2 :=
  ⟨rfl, rfl, [worker.name], (crew_openStation worker).symm⟩

theorem sameCoordination_setPhase (h : HandlerId) (phase : Phase) :
    b.SameCoordination (b.setPhase h phase) :=
  .same rfl rfl rfl

/-- Whether a worker takes a handler or not, coordinators are left as they are. -/
theorem sameCoordination_submit (s : StationId) (h : HandlerId) :
    b.SameCoordination (b.submit s h).2 := by
  have hset := sameCoordination_setPhase (b := b) h .initializing
  unfold submit
  split
  · simp only
    split
    · rename_i hsent
      exact hset.trans (sameCoordination_setWorker (Worker.name_of_send hsent))
    · exact hset.trans (sameCoordination_setPhase h .initFailed)
  · exact .refl b

/-- A thread that ends keeps its name. -/
theorem sameCoordination_closeStation (s : StationId) : b.SameCoordination (b.closeStation s) :=
  SameCoordination.trans (b := b.setWorker s (b.station s).worker.finish)
    (sameCoordination_setWorker rfl)
    (sameCoordination_reapAll _)

/-- Standing inside an attempt or not makes no difference to coordinators. -/
theorem sameCoordination_beginAttempt (s : StationId) (h : HandlerId) :
    b.SameCoordination (b.beginAttempt s h) :=
  SameCoordination.trans (b := { b with screen := b.screen.attempt h (b.station s).worker.name })
    (.same rfl rfl rfl) (sameCoordination_updateStation rfl)

/-- Whatever a worker takes next, coordinators and the names of threads stay the same. -/
theorem sameCoordination_advance (s : StationId) : b.SameCoordination (b.advance s).2 := by
  have hset := sameCoordination_setWorker (b := b) (Worker.name_next (b.station s).worker)
  unfold advance
  split
  · exact .refl b
  · split
    · exact .refl b
    · exact sameCoordination_closeStation s
    · exact hset
    · simp only
      split
      · exact hset.trans (sameCoordination_reap _)
      · exact hset.trans (sameCoordination_beginAttempt s _)

/-- So several holds may be given back. -/
theorem AllowsHandling.letGoAll (hR : AllowsHandling R) (hs : List HandlerId) (b : Board) :
    R b (b.letGoAll hs) := by
  induction hs generalizing b with
  | nil => exact hR.refl b
  | cons h hs ih => exact hR.trans (hR.letGo b h) (ih (b.letGo h))

/-- What is done with handlers and their tables leaves coordinators, the signal and the names of
threads as they are. -/
theorem ReadsCoordination.handling (hR : ReadsCoordination R) : AllowsHandling R where
  toTransits := hR.toTransits
  refl := hR.refl
  hold _ _ := hR.same rfl rfl rfl
  letGo _ h := hR.sameCoordination (sameCoordination_letGo h)
  ownRegistry _ _ := hR.same rfl rfl rfl
  disownRegistry _ r := hR.sameCoordination (sameCoordination_disownRegistry r)
  create _ _ := hR.same rfl rfl rfl
  install _ r name h := hR.sameCoordination (sameCoordination_install r name h)
  restore _ r name h old := hR.sameCoordination (sameCoordination_restore r name h old)
  takeEntry _ r name := hR.sameCoordination (sameCoordination_takeEntry r name)
  takeAll _ _ := hR.same rfl rfl rfl
  submit _ s h := hR.sameCoordination (sameCoordination_submit s h)
  defer _ _ _ := hR.same rfl rfl rfl
  retire _ h := hR.sameCoordination (sameCoordination_retire h)
  announce _ _ _ _ := hR.sameCoordination sameCoordination_announce

end Board

namespace Talk

variable {since : Board}

/-- Each turn leads from a board to one that is related to it, whatever the board is when a listener
replies. -/
def Within (R : Board → Board → Prop) : Board → Talk Board Telling α → Prop
  | since, .ended _ b => R since b
  | since, .told _ b resume => R since b ∧ ∀ returned b', (resume returned b').Within R b'

/-- What was before is taken to the first turn. -/
theorem Within.after (hR : Transits R) {b : Board} {t : Talk Board Telling α} (ht : t.Within R b)
    (hb : R since b) : t.Within R since := by
  cases t with
  | ended a b' => exact hR.trans hb ht
  | told m b' resume => exact ⟨hR.trans hb ht.1, ht.2⟩

/-- A computation is in order in each turn if its parts are. -/
theorem Within.andThen (hR : Transits R) {t : Talk Board Telling α}
    {next : α → Board → Talk Board Telling β} (ht : t.Within R since)
    (hn : ∀ a b, (next a b).Within R b) : (t.andThen next).Within R since := by
  induction t generalizing since with
  | ended a b =>
    cases a with
    | none => exact ht
    | some a => exact (hn a b).after hR ht
  | told m b resume ih => exact ⟨ht.1, fun returned b' => ih returned b' (ht.2 returned b')⟩

/-- What is done in any case at the end has to be in order, too. -/
theorem Within.ensuring (hR : Transits R) {t : Talk Board Telling α} {f : Board → Board}
    (ht : t.Within R since) (hf : ∀ b, R b (f b)) : (t.ensuring f).Within R since := by
  induction t generalizing since with
  | ended a b => exact hR.trans ht (hf b)
  | told m b resume ih => exact ⟨ht.1, fun returned b' => ih returned b' (ht.2 returned b')⟩

/-- Nothing is out of order because a panic is caught. -/
theorem Within.caught {t : Talk Board Telling Unit} (ht : t.Within R since) :
    t.caught.Within R since := by
  induction t generalizing since with
  | ended a b => exact ht
  | told m b resume ih => exact ⟨ht.1, fun returned b' => ih returned b' (ht.2 returned b')⟩

end Talk

/-- Each turn of a computation leads from a board to one that is related to it, on whatever board it
starts. -/
def Act.Within (R : Board → Board → Prop) (act : Act α) : Prop := ∀ b, (act b).Within R b

section Acts

variable (hR : AllowsHandling R)

include hR

namespace Act.Within

/-- Actions may be done one after the other. -/
theorem andThen {act : Act α} {next : α → Act β} (ha : act.Within R)
    (hn : ∀ a, (next a).Within R) : Act.Within R (act.andThen next) :=
  fun b => (ha b).andThen hR.toTransits hn

/-- A handler may be given back afterwards. -/
theorem thenLetGo {act : Act α} (ha : act.Within R) (h : HandlerId) :
    (Act.thenLetGo h act).Within R :=
  fun b => (ha b).ensuring hR.toTransits fun b => hR.letGo b h

/-- A handler may be held meanwhile. -/
theorem holding {act : Act α} (ha : act.Within R) (h : HandlerId) : (Act.holding h act).Within R :=
  fun b => (thenLetGo hR ha h (b.hold h)).after hR.toTransits (hR.hold b h)

/-- A registry may be held meanwhile. -/
theorem owning {act : Act α} (ha : act.Within R) (r : RegistryId) : (Act.owning r act).Within R :=
  fun b => ((ha (b.ownRegistry r)).ensuring hR.toTransits
    fun b => hR.disownRegistry b r).after hR.toTransits (hR.ownRegistry b r)

/-- An action may be repeated for each of some things. -/
theorem forEach {act : β → Act Unit} (ha : ∀ x, (act x).Within R) :
    (xs : List β) → Act.Within R (Action.forEach xs act)
  | [] => fun b => hR.refl b
  | x :: xs => andThen hR (ha x) fun _ => forEach ha xs

/-- What is done in the name of a coordinator is in order if it is to own the coordinator and to
give it up. -/
theorem withCoordinator {act : Coordinator → Act α} (ha : ∀ co, (act co).Within R) {b : Board}
    (hown : R b (b.ownCoordinator c)) (hdisown : ∀ b, R b (b.disownCoordinator c)) :
    (Board.withCoordinator c act b).Within R b :=
  ((ha (b.coordinator c) (b.ownCoordinator c)).ensuring hR.toTransits hdisown).after
    hR.toTransits hown

end Act.Within

namespace Board

/-- Telling a listener something is in order in each turn. -/
theorem within_notify (h : HandlerId) (topic : Topic) (action : Option String) :
    (notify h topic action).Within R := by
  intro b
  rw [notify_eq]
  split
  · exact hR.refl b
  · exact ⟨hR.announce b h topic action, fun _ b' => hR.refl b'⟩

/-- Ending a handler is in order, before and after its listener is told of it. -/
theorem within_unregister (h : HandlerId) : (unregister h).Within R := by
  intro b
  rw [unregister_eq]
  split
  · exact hR.refl b
  · split
    · exact (within_notify hR h .finished none _).after hR.toTransits (hR.retire b h)
    · exact hR.retire b h

/-- A current handler may be taken out and ended. -/
theorem within_removeIfCurrent (r : RegistryId) (name : String) (h : HandlerId) :
    (removeIfCurrent r name h).Within R := by
  intro b
  rw [removeIfCurrent_eq]
  split
  · have hend := Act.Within.thenLetGo hR (within_unregister hR h) h (b.takeEntry r name).2
    have htaken := hend.after hR.toTransits (hR.takeEntry b r name)
    exact htaken.andThen hR.toTransits fun _ b => hR.refl b
  · exact hR.refl b

/-- A handler may leave its own registry. -/
theorem within_leaveRegistry (h : HandlerId) : (leaveRegistry h).Within R := by
  intro b
  rw [leaveRegistry_eq]
  split
  · exact hR.refl b
  · split
    · exact Act.Within.owning hR (within_removeIfCurrent hR _ _ h) _ b
    · exact hR.refl b

/-- A handler may end by itself. -/
theorem within_removeSelf (h : HandlerId) : (removeSelf h).Within R := by
  refine Act.Within.andThen hR (within_leaveRegistry hR h) fun removed => ?_
  split
  · exact fun b => hR.refl b
  · exact within_unregister hR h

/-- What has become of an alert may be told to its listener. -/
theorem within_report (h : HandlerId) (o : Outcome) : (report h o).Within R := by
  intro b
  rw [report_eq]
  split
  · split
    · exact within_notify hR h .clicked none b
    · exact hR.refl b
  · exact within_notify hR h .actionTaken _ b
  · exact hR.refl b
  · exact hR.refl b

/-- A live handler may be told what has become of its alert, and end then. -/
theorem within_handleOutcome (h : HandlerId) (o : Outcome) : (handleOutcome h o).Within R := by
  intro b
  rw [handleOutcome_eq]
  split
  · exact (within_report hR h o b).andThen hR.toTransits fun _ => within_removeSelf hR h
  · exact hR.defer b h o
  · exact hR.refl b

/-- A handler may hear from the screen, whatever its phase. -/
theorem within_hear (h : HandlerId) (o : Outcome) : (hear h o).Within R := by
  intro b
  rw [hear_eq]
  split
  · exact Act.Within.holding hR (within_handleOutcome hR h o) h b
  · exact hR.refl b

/-- The screen may report on the alerts of a name. -/
theorem within_emit (name : String) (o : Outcome) : (emit name o).Within R := by
  intro b
  rw [emit_eq]
  cases b.screen.sinkOf? name with
  | none => exact hR.refl b
  | some h => exact (within_hear hR h o b).andThen hR.toTransits fun _ b' => hR.refl b'

/-- The alert of a name may be closed. -/
theorem within_takeDown (co : Coordinator) (name : String) :
    Act.Within R (takeDown co name) := by
  intro b
  have htaken := hR.takeEntry b co.registry name
  unfold takeDown
  split
  · exact htaken
  · exact (Act.Within.thenLetGo hR (within_unregister hR _) _ _).after hR.toTransits htaken

/-- A displaced handler may be ended. -/
theorem within_supersede (old : Option HandlerId) : (supersede old).Within R := by
  cases old with
  | none => exact fun b => hR.refl b
  | some p => exact Act.Within.thenLetGo hR (within_unregister hR p) p

/-- A handler that no worker took may be taken back. -/
theorem within_rollBack (r : RegistryId) (name : String) (h : HandlerId) (old : Option HandlerId) :
    (rollBack r name h old).Within R := fun b =>
  (within_unregister hR h (b.restore r name h old).2).after hR.toTransits
    (hR.restore b r name h old)

/-- A new handler may be put under its name and submitted. -/
theorem within_present (co : Coordinator) (h : HandlerId) : (present co h).Within R := by
  intro b
  rw [present_eq]
  have hinstalled := hR.install b co.registry (b.handler h).name h
  generalize (b.install co.registry (b.handler h).name h).2 = d at hinstalled ⊢
  have hsubmitted := hR.trans hinstalled (hR.submit d co.station h)
  cases he : (d.submit co.station h).1 with
  | ok u =>
    rw [entrust_accepted he]
    exact ((within_supersede hR _ _).after hR.toTransits hsubmitted).andThen hR.toTransits
      fun _ b => hR.refl b
  | error e =>
    rw [entrust_refused he]
    exact ((within_rollBack hR _ _ h _ _).after hR.toTransits hsubmitted).andThen hR.toTransits
      fun _ b => hR.refl b

/-- To show an alert is to make a handler and to present it, unless alerts are dropped or a getter
fails. -/
theorem within_offer (source : Source) (listener : Option ListenerId) (co : Coordinator) :
    Act.Within R (offer source listener co) := by
  intro b
  unfold offer
  split
  · exact hR.refl b
  · split
    · exact hR.refl b
    · refine Talk.Within.andThen hR.toTransits ?_ fun _ b => hR.refl b
      exact (Act.Within.thenLetGo hR (within_present hR co _) _ _).after hR.toTransits
        (hR.create b _)

end Board

end Acts

section Registering

variable (hR : ReadsCoordination R)

include hR

namespace Board

/-- A handler may fail to be registered. -/
theorem within_reject (h : HandlerId) : (reject h).Within R := by
  intro b
  rw [reject_eq]
  split
  · exact hR.refl b
  · exact (within_removeSelf hR.handling h _).after hR.toTransits (hR.same rfl rfl rfl)

/-- A handler may become live. -/
theorem within_complete (h : HandlerId) (toast : ToastId) : (complete h toast).Within R := by
  intro b
  rw [complete_eq]
  split
  · exact hR.sameCoordination (sameCoordination_releaseToast _)
  · split
    · exact (within_removeSelf hR.handling h _).after hR.toTransits (hR.same rfl rfl rfl)
    · rw [goLive_eq]
      have hlive : R b (b.live h toast) := hR.same rfl rfl rfl
      refine ((within_notify hR.handling h .shown none _).after hR.toTransits hlive).andThen
        hR.toTransits fun _ => ?_
      cases (b.handler h).pending with
      | none => exact fun b' => hR.refl b'
      | some o => exact within_handleOutcome hR.handling h o

/-- A handler may be registered, whether the screen refuses or not. -/
theorem within_register (h : HandlerId) : (register h).Within R := by
  intro b
  cases hf : b.screen.faults.register with
  | some reason =>
    rw [register_refused hf]
    exact (within_reject hR h _).after hR.toTransits (hR.same rfl rfl rfl)
  | none =>
    rw [register_recorded hf]
    have hrecorded : R b (b.recorded h) := hR.same rfl rfl rfl
    refine Talk.Within.andThen hR.toTransits ?_ fun _ => within_complete hR h _
    cases b.screen.faults.early with
    | none => exact hrecorded
    | some o => exact (within_hear hR.handling h o _).after hR.toTransits hrecorded

/-- A worker may finish the attempt inside which it stands. -/
theorem within_finish (s : StationId) : (finish s).Within R := by
  intro b
  rw [finish_eq]
  split
  · exact hR.refl b
  · rename_i attempt _
    have hconclude : (conclude s attempt).Within R := by
      intro b
      rw [conclude_eq]
      have hleft : R b (b.updateStation s fun st => { st with inside := none }) :=
        hR.sameCoordination (sameCoordination_updateStation rfl)
      cases attempt.fate with
      | proceeds => exact (within_register hR _ _).caught.after hR.toTransits hleft
      | panics => exact hleft
      | crashes => exact hR.trans hleft (hR.sameCoordination (sameCoordination_closeStation s))
    exact (Act.Within.holding hR.handling hconclude _ b).andThen hR.toTransits fun _ b => hR.refl b

end Board

end Registering

/-- The coordinator in whose name something is done, if there is one. -/
def Deed.patron : Deed → Option CoordinatorId
  | .shareCoordinator c | .showAlert c _ _ | .closeAlert c _ | .removeHandler c _ _ => some c
  | _ => none

/-- To give up a coordinator is in order if it is to take an owner away from it. -/
theorem Board.ReadsCoordination.disownCoordinator (hR : ReadsCoordination R) {b : Board}
    (hb : R b (b.updateCoordinator c fun co => { co with owners := co.owners - 1 })) :
    R b (b.disownCoordinator c) := by
  unfold Board.disownCoordinator
  simp only
  split
  · exact hb
  · refine hR.trans hb (hR.sameCoordination ?_)
    exact (sameCoordination_disownRegistry _).trans
      (sameCoordination_setWorker (Worker.name_stop _))

/-- Each turn of a deed but to fire the signal is in order if it is to own the coordinator in whose
name it is done, to give one up, to set one up and to have alerts dropped. -/
theorem within_deed (hR : ReadsCoordination R) {d : Deed} {b : Board} (hfire : d.fires = false)
    (hown : ∀ c, d.patron = some c → ∀ b', b.SameCoordination b' → R b' (b'.ownCoordinator c))
    (hdisown : ∀ b c, R b (b.disownCoordinator c))
    (hsuppress : ∀ c suppressed, R b (b.setSuppression c suppressed))
    (hset : ∀ settings host, R b (b.setUp settings host).2) : (d.act b).Within R b := by
  cases d with
  | openRegistry => exact hR.same rfl rfl rfl
  | shareRegistry r => exact hR.same rfl rfl rfl
  | dropRegistry r => exact hR.sameCoordination (sameCoordination_disownRegistry r)
  | openStation refusal name =>
    rw [Deed.act_openStation]
    cases Worker.start refusal name with
    | none => exact hR.refl b
    | some result =>
      cases result with
      | error e => exact hR.refl b
      | ok worker => exact hR.sameCoordination (sameCoordination_openStation worker)
  | mark s =>
    change R b _
    dsimp only
    split
    · rename_i hsent
      exact hR.sameCoordination (sameCoordination_setWorker (Worker.name_of_send hsent))
    · exact hR.refl b
  | stop s => exact hR.sameCoordination (sameCoordination_setWorker (Worker.name_stop _))
  | setUp settings host => exact hset settings host
  | shareCoordinator c => exact hown c rfl b (.refl b)
  | dropCoordinator c => exact hdisown b c
  | create fields listener registry => exact hR.same rfl rfl rfl
  | share h => exact hR.same rfl rfl rfl
  | letGo h => exact hR.sameCoordination (sameCoordination_letGo h)
  | submit s h => exact hR.sameCoordination (sameCoordination_submit s h)
  | unregister h => exact Act.Within.holding hR.handling (within_unregister hR.handling h) h b
  | lookUp r name => exact hR.sameCoordination (sameCoordination_lookUp r name)
  | install r name h => exact hR.sameCoordination (sameCoordination_install r name h)
  | takeEntry r name => exact hR.sameCoordination (sameCoordination_takeEntry r name)
  | takeAll r => exact hR.same rfl rfl rfl
  | restore r name h previous =>
    exact hR.sameCoordination (sameCoordination_restore r name h previous)
  | removeIfCurrent r name h =>
    have hend := Act.Within.owning hR.handling (within_removeIfCurrent hR.handling r name h) r
    exact (Act.Within.holding hR.handling hend h b).andThen hR.toTransits fun _ b => hR.refl b
  | grab c name => exact hR.sameCoordination (sameCoordination_lookUp _ name)
  | showAlert c source listener =>
    have hshow : (Board.showAlert c source listener b).Within R b := by
      rw [showAlert_eq]
      exact Act.Within.withCoordinator hR.handling (within_offer hR.handling source listener)
        (hown c rfl b (.refl b)) fun b => hdisown b c
    exact hshow.andThen hR.toTransits fun _ b => hR.refl b
  | closeAlert c name =>
    change (Board.closeAlert c name b).Within R b
    rw [closeAlert_eq]
    exact Act.Within.withCoordinator hR.handling (fun co => within_takeDown hR.handling co name)
      (hown c rfl b (.refl b)) fun b => hdisown b c
  | removeHandler c name h =>
    have hremove : (Act.holding h (Board.removeHandler c name h) b).Within R b := by
      have hheld : R (b.hold h) ((b.hold h).ownCoordinator c) := hown c rfl _ (.same rfl rfl rfl)
      have hend := Act.Within.withCoordinator hR.handling
        (fun co => within_removeIfCurrent hR.handling co.registry name h) hheld fun b => hdisown b c
      exact (hend.ensuring hR.toTransits fun _ => hR.sameCoordination
        (sameCoordination_letGo h)).after hR.toTransits
        (hR.same rfl rfl rfl)
    exact hremove.andThen hR.toTransits fun _ b => hR.refl b
  | suppress c suppressed => exact hsuppress c suppressed
  | fire visit => exact Bool.noConfusion hfire
  | emit name outcome =>
    exact (within_emit hR.handling name outcome b).andThen hR.toTransits fun _ b => hR.refl b
  | deliver n outcome =>
    rw [Deed.act_deliver]
    cases b.screen.attempts[n]? with
    | none => exact hR.refl b
    | some attempt => exact within_hear hR.handling attempt.handler outcome b
  | arm faults => exact hR.same rfl rfl rfl
  | advance s => exact hR.sameCoordination (sameCoordination_advance s)
  | finish s => exact (within_finish hR s b).andThen hR.toTransits fun _ b => hR.refl b

variable {m : Moment} {e : Event} {events : List Event}

/-- Each turn of the deeds that wait is in order. -/
def Moment.Within (R : Board → Board → Prop) (m : Moment) : Prop :=
  ∀ x ∈ m.waiting, ∀ returned b, (x.resume returned b).Within R b

/-- What is in order in each turn is in order when those who are told go on. -/
theorem within_settle {b : Board} {w : World} {d : Deed} {waiting : List Waiting}
    {t : Talk Board Telling Unit} (ht : t.Within R b) (hw : Moment.Within R ⟨w, waiting⟩) :
    R b (Moment.settle w d waiting t).world.board ∧ (Moment.settle w d waiting t).Within R := by
  cases t with
  | ended a b' => exact ⟨ht, hw⟩
  | told n b' resume =>
    refine ⟨ht.1, fun x hx => ?_⟩
    rcases List.mem_cons.mp hx with rfl | hx
    · exact ht.2
    · exact hw x hx

/-- An event is in order if its deed is. -/
theorem Moment.Within.after (hm : m.Within R) (allowed : m.Allows e)
    (hd : ∀ d, e = .deed d → (d.act m.world.board).Within R m.world.board) :
    R m.world.board (m.after e).world.board ∧ (m.after e).Within R := by
  cases e with
  | deed d => exact within_settle (hd d rfl) hm
  | reply returned =>
    obtain ⟨w, waiting⟩ := m
    cases waiting with
    | nil => exact absurd rfl allowed
    | cons x rest =>
      exact within_settle (w := w) (hm x List.mem_cons_self returned w.board)
        fun y hy => hm y (List.mem_cons_of_mem _ hy)

/-- Setting up a coordinator does not fire the signal. -/
theorem fired_setUp (b : Board) (settings : Settings) (host : Host) :
    (b.setUp settings host).2.signal.fired = b.signal.fired := by
  rcases setUp_cases b settings host with ⟨worker, identity, -, he⟩ | ⟨he, -⟩
  · rw [he]
    change (b.signal.subscribe _).2.fired = _
    unfold Signal.subscribe
    split <;> rfl
  · rw [he]

/-- Nobody but who fires the signal makes it fire. -/
theorem fired_of_open (hm : m.Within fun b b' => b'.signal.fired = b.signal.fired)
    (ho : Course.Open (fun _ _ => True) m events) (hfire : ∀ visit, .deed (.fire visit) ∉ events) :
    (events.foldl Moment.after m).world.board.signal.fired = m.world.board.signal.fired := by
  induction events generalizing m with
  | nil => rfl
  | cons e rest ih =>
    obtain ⟨allowed, -, hrest⟩ := ho
    have hR : ReadsCoordination fun b b' => b'.signal.fired = b.signal.fired :=
      ⟨⟨fun h h' => h'.trans h⟩, fun h => congrArg _ h.signal⟩
    obtain ⟨hturn, hm'⟩ := hm.after allowed (by
      rintro d rfl
      refine within_deed hR (Bool.eq_false_iff.mpr fun hd => ?_) (fun _ _ _ _ => rfl)
        (fun _ _ => hR.disownCoordinator rfl) (fun _ _ => rfl)
        (fired_setUp m.world.board)
      obtain ⟨visit, rfl⟩ := Deed.fires_iff.mp hd
      exact hfire visit List.mem_cons_self)
    exact (ih hm' hrest fun visit hf => hfire visit (List.mem_cons_of_mem _ hf)).trans hturn

end ToastBoard
