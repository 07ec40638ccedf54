import ToastBoard.Proofs.Showing

/-!
# What a turn can change

A turn is what a computation does up to its end or up to a listener, and from a reply on to the next
one. Apart from the turn in which a handler is made, is submitted or comes to the end of its
registration, a turn only ends things: a handler stays in its phase or is over, a toast that it has
to release is released or not, no toast is recorded, and the signal stays as it is or has fired.
Nothing is needed to know about the board for that, so it holds whatever a listener has done before
it replies.
-/

namespace ToastBoard

open Board

variable {h : HandlerId} {r : RegistryId} {c : CoordinatorId} {s : StationId}
  {name : String} {α β : Type}

/-- A toast as it was when it was recorded. -/
def Toast.fresh (t : Toast) : Toast := { t with releases := 0 }

/-- What was read from the alert of a handler, and the registry to which it leads. -/
def Handler.origin (hd : Handler) : Snapshot × Option RegistryId := (hd.fields, hd.registry)

/-- Whether a handler belongs under a name in a registry. -/
def Handler.Belongs (hd : Handler) (r : RegistryId) (name : String) : Prop :=
  hd.name = name ∧ hd.registry = some r

/-- Where a handler belongs is told by its origin. -/
theorem Handler.Belongs.of_origin {hd hd' : Handler} (hb : hd.Belongs r name)
    (ho : hd'.origin = hd.origin) : hd'.Belongs r name := by
  obtain ⟨hfields, hregistry⟩ := Prod.ext_iff.mp ho
  exact ⟨(congrArg Snapshot.name hfields).trans hb.1, hregistry.trans hb.2⟩

namespace Screen

/-- Whether the screen remembers whom to tell about exactly those toasts that are not released, in
the same order. -/
def Tracked (screen : Screen) : Prop := screen.sinks.map (·.1) = screen.unreleased.map (·.id)

/-- A screen on which nobody else is remembered: at most, toasts were released. -/
structure Dims (screen screen' : Screen) : Prop where
  /-- There are the same toasts. -/
  fresh : screen'.toasts.map (·.fresh) = screen.toasts.map (·.fresh)
  /-- Nobody else is remembered. -/
  sinks : screen'.sinks ⊆ screen.sinks
  /-- Those who are forgotten are those whose toasts were released. -/
  tracked : screen.Tracked → screen'.Tracked

namespace Dims

variable {screen screen' screen'' : Screen}

theorem refl (screen : Screen) : screen.Dims screen := ⟨rfl, fun _ => id, id⟩

theorem trans (h : screen.Dims screen') (h' : screen'.Dims screen'') : screen.Dims screen'' :=
  ⟨h'.fresh.trans h.fresh, fun _ hp => h.sinks (h'.sinks hp), fun ht => h'.tracked (h.tracked ht)⟩

/-- Nobody else is remembered where neither sinks nor toasts change. -/
theorem of_sinks (hs : screen'.sinks = screen.sinks) (ht : screen'.toasts = screen.toasts) :
    screen.Dims screen' :=
  ⟨by rw [ht], fun _ hp => hs ▸ hp, fun h => by rwa [Tracked, unreleased, hs, ht]⟩

end Dims

/-- With a toast that is released, whom to tell about it is forgotten. -/
theorem dims_release (screen : Screen) (id : ToastId) : screen.Dims (screen.release id) := by
  have hfresh : ∀ toasts : List Toast,
      (toasts.map fun t => if t.id = id then { t with releases := t.releases + 1 } else t).map
        (·.fresh) = toasts.map (·.fresh) := by
    intro toasts
    rw [List.map_map]
    refine List.map_congr_left fun t _ => ?_
    change Toast.fresh (if t.id = id then _ else _) = t.fresh
    split <;> rfl
  refine ⟨hfresh _, List.filter_subset_self _, fun ht => ?_⟩
  have hids : ∀ sinks : List (ToastId × HandlerId),
      (sinks.filter fun sink => sink.1 ≠ id).map (·.1) = (sinks.map (·.1)).filter (· ≠ id) :=
    fun sinks => by rw [List.filter_map]; rfl
  have hreleased : ∀ toasts : List Toast,
      ((toasts.map fun t => if t.id = id then { t with releases := t.releases + 1 } else t).filter
        fun t => t.releases == 0).map (·.id) =
          ((toasts.filter fun t => t.releases == 0).map (·.id)).filter (· ≠ id) := by
    intro toasts
    induction toasts with
    | nil => rfl
    | cons t toasts ih =>
      by_cases hid : t.id = id <;> by_cases h0 : t.releases = 0 <;>
        simpa [List.filter_cons, hid, h0] using ih
  rw [Tracked] at ht
  change (screen.sinks.filter fun sink => sink.1 ≠ id).map (·.1) = _
  rw [hids, ht]
  exact (hreleased screen.toasts).symm

/-- Whom to tell about a toast that is recorded is remembered. -/
theorem tracked_record {screen : Screen} (ht : screen.Tracked) (h : HandlerId)
    (fields : Snapshot) : (screen.record h fields).2.Tracked := by
  simp only [Tracked, record, unreleased, List.filter_append, List.map_append]
  exact congrArg (· ++ [screen.toasts.length + 1]) ht

end Screen

namespace Board

/-- A later board on which nothing came to life: there are the same handlers, each as it was or
over. No entry was made, and nobody else is remembered on the screen. -/
structure Ebbs (b b' : Board) : Prop where
  /-- There are the same handlers. -/
  length : b'.handlers.length = b.handlers.length
  /-- They show what they showed, and lead to the registries to which they led. -/
  origin : ∀ h, (b'.handler h).origin = (b.handler h).origin
  /-- A handler stays in its phase or is over. -/
  phase : ∀ h, b'.phase h = b.phase h ∨ b'.phase h = .unregistered
  /-- What a handler has to release it had before. -/
  registration : ∀ {h id}, (b'.handler h).registration = some id →
    (b.handler h).registration = some id
  /-- No toast is recorded. -/
  toasts : b'.screen.toasts.length = b.screen.toasts.length
  /-- Nobody else is remembered on the screen. -/
  screen : b.screen.Dims b'.screen
  /-- The signal is as it was or has fired. -/
  signal : b'.signal = b.signal ∨ b'.signal.fired = true
  /-- No coordinator is set up, and none gets another registry. -/
  coordinators : b'.coordinators.map (·.registry) = b.coordinators.map (·.registry)
  /-- An entry was there before. -/
  entries : ∀ {r name h}, (name, h) ∈ (b'.registry r).entries →
    (name, h) ∈ (b.registry r).entries

namespace Ebbs

variable {a b c : Board}

theorem refl (b : Board) : b.Ebbs b where
  length := rfl
  origin _ := rfl
  phase _ := .inl rfl
  registration := id
  toasts := rfl
  screen := .refl _
  signal := .inl rfl
  coordinators := rfl
  entries := id

theorem trans (h : a.Ebbs b) (h' : b.Ebbs c) : a.Ebbs c where
  length := h'.length.trans h.length
  origin x := (h'.origin x).trans (h.origin x)
  phase x := by
    rcases h'.phase x with hp | hp
    · rw [hp]
      exact h.phase x
    · exact .inr hp
  registration hx := h.registration (h'.registration hx)
  toasts := h'.toasts.trans h.toasts
  screen := h.screen.trans h'.screen
  signal := by
    rcases h'.signal with he | hf
    · rw [he]
      exact h.signal
    · exact .inr hf
  coordinators := h'.coordinators.trans h.coordinators
  entries hx := h.entries (h'.entries hx)

/-- A signal that has fired remains so. -/
theorem fired (h : a.Ebbs b) (hf : a.signal.fired = true) : b.signal.fired = true := by
  rcases h.signal with he | he
  · rw [he]
    exact hf
  · exact he

end Ebbs

variable {b b' : Board}

/-- Nothing comes to life where handlers stay as they are and no entry is made. -/
theorem ebbs_of_handlers (hh : b'.handlers = b.handlers)
    (ht : b'.screen.toasts.length = b.screen.toasts.length) (hd : b.screen.Dims b'.screen)
    (hs : b'.signal = b.signal)
    (hc : b'.coordinators.map (·.registry) = b.coordinators.map (·.registry))
    (he : ∀ {r name h}, (name, h) ∈ (b'.registry r).entries →
      (name, h) ∈ (b.registry r).entries) : b.Ebbs b' where
  length := by rw [hh]
  origin x := by rw [handler, handler, hh]
  phase x := .inl (by rw [phase, phase, handler, handler, hh])
  registration hx := by rwa [handler, hh] at hx
  toasts := ht
  screen := hd
  signal := .inl hs
  coordinators := hc
  entries hx := he hx

/-- A handler that stays in its phase or ends, with what it had to release or without. -/
theorem ebbs_update {f : Handler → Handler}
    (ho : (f (b.handler h)).origin = (b.handler h).origin)
    (hp : (f (b.handler h)).phase = b.phase h ∨ (f (b.handler h)).phase = .unregistered)
    (hr : ∀ {id}, (f (b.handler h)).registration = some id →
      (b.handler h).registration = some id) : b.Ebbs (b.update h f) where
  length := length_update ..
  origin x := by
    rw [handler_update]
    split
    · rename_i hx
      rw [hx.1]
      exact ho
    · rfl
  phase x := by
    rw [phase, handler_update]
    split
    · rename_i hx
      rw [hx.1]
      exact hp
    · exact .inl rfl
  registration hx := by
    rw [handler_update] at hx
    split at hx
    · rename_i hx'
      rw [hx'.1] at hx ⊢
      exact hr hx
    · exact hx
  toasts := rfl
  screen := .refl _
  signal := .inl rfl
  coordinators := rfl
  entries := id

/-- Releasing a toast makes nobody live, and adds nothing to the screen. -/
theorem ebbs_releaseToast (toast : Option ToastId) : b.Ebbs (b.releaseToast toast) := by
  cases toast with
  | none => exact .refl b
  | some toast =>
    have hlength : (b.releaseToast (some toast)).screen.toasts.length =
        b.screen.toasts.length := by
      rw [toasts_releaseToast, List.length_map]
    exact ebbs_of_handlers rfl hlength (Screen.dims_release ..) rfl rfl id

/-- Ending a handler to which nothing refers makes nobody live. -/
theorem ebbs_reap (h : HandlerId) : b.Ebbs (b.reap h) := by
  unfold reap
  split
  · exact .refl b
  · have hupdate : b.Ebbs (b.update h fun hd => { hd with registration := none }) :=
      ebbs_update rfl (.inl rfl) (by simp)
    exact hupdate.trans (ebbs_releaseToast _)

/-- Ending some handlers to which nothing refers makes nobody live. -/
theorem ebbs_reapAll (hs : List HandlerId) : b.Ebbs (hs.foldl reap b) := by
  induction hs generalizing b with
  | nil => exact .refl b
  | cons h hs ih => exact (ebbs_reap h).trans ih

/-- Giving a handler back makes nobody live. -/
theorem ebbs_letGo (h : HandlerId) : b.Ebbs (b.letGo h) := by
  have hheld : b.Ebbs { b with held := b.held.erase h } :=
    ebbs_of_handlers rfl rfl (.refl _) rfl rfl id
  exact hheld.trans (ebbs_reap h)

theorem ebbs_letGoAll (hs : List HandlerId) : b.Ebbs (b.letGoAll hs) := by
  induction hs generalizing b with
  | nil => exact .refl b
  | cons h hs ih => exact (ebbs_letGo h).trans ih

/-- Telling a listener something makes nobody live by itself. -/
theorem ebbs_announce {topic : Topic} {action : Option String} :
    b.Ebbs (b.announce h topic action) := by
  rw [announce_eq]
  exact ebbs_of_handlers rfl rfl (.refl _) rfl rfl id

/-- A handler that ends only loses what it has. -/
theorem ebbs_retire (h : HandlerId) : b.Ebbs (b.retire h) := by
  have hupdate : b.Ebbs (b.update h Handler.retired) :=
    ebbs_update rfl (.inr rfl) fun hx => by cases hx
  exact hupdate.trans (ebbs_releaseToast _)

/-- A registry in which no entry is made. -/
theorem ebbs_updateRegistry {f : Registry → Registry}
    (hf : ∀ {name h}, (name, h) ∈ (f (b.registry r)).entries →
      (name, h) ∈ (b.registry r).entries) : b.Ebbs (b.updateRegistry r f) := by
  refine ebbs_of_handlers rfl rfl (.refl _) rfl rfl fun {q name h} hx => ?_
  rw [registry_updateRegistry] at hx
  split at hx
  · rename_i hq
    rw [hq.1] at hx ⊢
    exact hf hx
  · exact hx

/-- Owning a registry concerns no handler. -/
theorem ebbs_ownRegistry (r : RegistryId) : b.Ebbs (b.ownRegistry r) :=
  ebbs_updateRegistry id

/-- Giving a registry up makes nobody live. -/
theorem ebbs_disownRegistry (r : RegistryId) : b.Ebbs (b.disownRegistry r) := by
  unfold disownRegistry
  simp only
  have hless : b.Ebbs (b.updateRegistry r fun reg =>
      { reg with owners := reg.owners - 1 }) := ebbs_updateRegistry id
  split
  · exact hless
  · refine hless.trans (Ebbs.trans ?_ (ebbs_reapAll _))
    exact ebbs_updateRegistry (by simp)

/-- Looking a name up makes nobody live. -/
theorem ebbs_lookUp (r : RegistryId) (name : String) : b.Ebbs (b.lookUp r name).2 := by
  rw [lookUp_eq]
  exact ebbs_of_handlers rfl rfl (.refl _) rfl rfl id

/-- Taking out what stands under a name makes nobody live. -/
theorem ebbs_takeEntry (r : RegistryId) (name : String) :
    b.Ebbs (b.takeEntry r name).2 := by
  have hheld : b.Ebbs { b with held := (b.current? r name).toList ++ b.held } :=
    ebbs_of_handlers rfl rfl (.refl _) rfl rfl id
  rw [takeEntry_eq]
  exact hheld.trans (ebbs_updateRegistry fun hx => (Registry.mem_entries_erase.mp hx).1)

/-- Taking out everything makes nobody live. -/
theorem ebbs_takeAll (r : RegistryId) : b.Ebbs (b.takeAll r).2 := by
  have hheld : b.Ebbs { b with held := (b.takeAll r).1 ++ b.held } :=
    ebbs_of_handlers rfl rfl (.refl _) rfl rfl id
  exact hheld.trans (ebbs_updateRegistry (by simp))

/-- What a worker has to do concerns no handler. -/
theorem ebbs_setWorker (worker : Worker HandlerId) : b.Ebbs (b.setWorker s worker) :=
  ebbs_of_handlers rfl rfl (.refl _) rfl rfl id

/-- Jobs that are lost make nobody live. -/
theorem ebbs_closeStation (s : StationId) : b.Ebbs (b.closeStation s) :=
  (ebbs_setWorker _).trans (ebbs_reapAll _)

/-- Coordinators may change while they keep their registries. -/
theorem ebbs_updateCoordinator {f : Coordinator → Coordinator}
    (hf : ∀ co, (f co).registry = co.registry) : b.Ebbs (b.updateCoordinator c f) := by
  refine ebbs_of_handlers rfl rfl (.refl _) rfl (List.ext_getElem? fun i => ?_) id
  change ((b.coordinators.modify c f).map (·.registry))[i]? = _
  rw [List.getElem?_map, List.getElem?_map, List.getElem?_modify]
  cases b.coordinators[i]? with
  | none => rfl
  | some co =>
    split
    · exact congrArg some (hf co)
    · rfl

/-- Giving a coordinator up makes nobody live. -/
theorem ebbs_disownCoordinator (c : CoordinatorId) : b.Ebbs (b.disownCoordinator c) := by
  unfold disownCoordinator
  simp only
  split
  · exact ebbs_updateCoordinator fun _ => rfl
  · have hless : b.Ebbs (b.updateCoordinator c fun co =>
        { co with owners := co.owners - 1 }) := ebbs_updateCoordinator fun _ => rfl
    exact (hless.trans (ebbs_disownRegistry _)).trans (ebbs_setWorker _)

/-- An attempt records nothing. -/
theorem toasts_attempt (screen : Screen) (h : HandlerId) (thread : String) :
    (screen.attempt h thread).toasts = screen.toasts := by
  change screen.nextFate.2.toasts = screen.toasts
  unfold Screen.nextFate
  split
  · rfl
  · split <;> rfl

/-- An attempt does not change who takes reports. -/
theorem sinks_attempt (screen : Screen) (h : HandlerId) (thread : String) :
    (screen.attempt h thread).sinks = screen.sinks := by
  change screen.nextFate.2.sinks = screen.sinks
  unfold Screen.nextFate
  split
  · rfl
  · split <;> rfl

/-- Beginning an attempt makes nobody live. -/
theorem ebbs_beginAttempt (s : StationId) (h : HandlerId) : b.Ebbs (b.beginAttempt s h) :=
  ebbs_of_handlers rfl (congrArg List.length (toasts_attempt ..))
    (.of_sinks (sinks_attempt ..) (toasts_attempt ..)) rfl rfl id

/-- Whatever a worker takes next, nobody becomes live by that. -/
theorem ebbs_advance (s : StationId) : b.Ebbs (b.advance s).2 := by
  unfold advance
  split
  · exact .refl b
  · split
    · exact .refl b
    · exact ebbs_closeStation s
    · exact ebbs_setWorker _
    · simp only
      split
      · exact (ebbs_setWorker _).trans (ebbs_reap _)
      · exact (ebbs_setWorker _).trans (ebbs_beginAttempt ..)

end Board

namespace Talk

variable {since : Board}

/-- In each turn nothing comes to life, whatever the board is when a listener replies. -/
def Ebbs : Board → Talk Board Telling α → Prop
  | since, .ended _ b => since.Ebbs b
  | since, .told _ b resume => since.Ebbs b ∧
      ∀ returned b', (resume returned b').Ebbs b'

/-- What was before is taken to the first turn. -/
theorem Ebbs.after {b : Board} {t : Talk Board Telling α} (ht : t.Ebbs b)
    (hb : since.Ebbs b) : t.Ebbs since := by
  cases t with
  | ended a b' => exact hb.trans ht
  | told m b' resume => exact ⟨hb.trans ht.1, ht.2⟩

/-- A computation makes nobody live if its parts do not. -/
theorem Ebbs.andThen {t : Talk Board Telling α} {next : α → Board → Talk Board Telling β}
    (ht : t.Ebbs since) (hn : ∀ a b, (next a b).Ebbs b) :
    (t.andThen next).Ebbs since := by
  induction t generalizing since with
  | ended a b =>
    cases a with
    | none => exact ht
    | some a => exact (hn a b).after ht
  | told m b resume ih => exact ⟨ht.1, fun returned b' => ih returned b' (ht.2 returned b')⟩

/-- What is done in any case at the end may not make anybody live, either. -/
theorem Ebbs.ensuring {t : Talk Board Telling α} {f : Board → Board} (ht : t.Ebbs since)
    (hf : ∀ b : Board, b.Ebbs (f b)) : (t.ensuring f).Ebbs since := by
  induction t generalizing since with
  | ended a b => exact Board.Ebbs.trans ht (hf b)
  | told m b resume ih => exact ⟨ht.1, fun returned b' => ih returned b' (ht.2 returned b')⟩

theorem Ebbs.caught {t : Talk Board Telling Unit} (ht : t.Ebbs since) :
    t.caught.Ebbs since := by
  induction t generalizing since with
  | ended a b => exact ht
  | told m b resume ih => exact ⟨ht.1, fun returned b' => ih returned b' (ht.2 returned b')⟩

end Talk

/-- Nothing comes to life in a computation, on whatever board it starts. -/
def Act.Ebbs (act : Act α) : Prop := ∀ b, (act b).Ebbs b

namespace Act.Ebbs

/-- A change that makes nobody live is an action that does not. -/
theorem change {f : Board → Board} (hf : ∀ b : Board, b.Ebbs (f b)) :
    Act.Ebbs (Action.change f : Act Unit) := hf

/-- Actions may be done one after the other. -/
theorem andThen {act : Act α} {next : α → Act β} (ha : act.Ebbs)
    (hn : ∀ a, (next a).Ebbs) : Act.Ebbs (act.andThen next) :=
  fun b => (ha b).andThen hn

theorem thenLetGo {act : Act α} (ha : act.Ebbs) (h : HandlerId) :
    (Act.thenLetGo h act).Ebbs :=
  fun b => (ha b).ensuring fun _ => ebbs_letGo h

theorem holding {act : Act α} (ha : act.Ebbs) (h : HandlerId) :
    (Act.holding h act).Ebbs :=
  fun b => (ha.thenLetGo h (b.hold h)).after (ebbs_of_handlers rfl rfl (.refl _) rfl rfl id)

theorem owning {act : Act α} (ha : act.Ebbs) (r : RegistryId) :
    (Act.owning r act).Ebbs :=
  fun b => ((ha (b.ownRegistry r)).ensuring fun _ => ebbs_disownRegistry r).after
    (ebbs_ownRegistry r)

theorem forEach {act : β → Act Unit} (ha : ∀ x, (act x).Ebbs) :
    (xs : List β) → Act.Ebbs (Action.forEach xs act)
  | [] => fun b => .refl b
  | x :: xs => (ha x).andThen fun _ => forEach ha xs

/-- A coordinator may be held meanwhile. -/
theorem withCoordinator {act : Coordinator → Act α} (ha : ∀ co, (act co).Ebbs)
    (c : CoordinatorId) : (Board.withCoordinator c act).Ebbs :=
  fun b => ((ha (b.coordinator c) (b.ownCoordinator c)).ensuring
    fun _ => ebbs_disownCoordinator c).after (ebbs_updateCoordinator fun _ => rfl)

end Act.Ebbs

namespace Board

variable {b since : Board}

/-- Telling a listener something makes nobody live. -/
theorem ebbs_notify (h : HandlerId) (topic : Topic) (action : Option String) :
    (notify h topic action).Ebbs := by
  intro b
  rw [notify_eq]
  split
  · exact .refl b
  · exact ⟨ebbs_announce, fun _ b' => .refl b'⟩

/-- Ending a handler makes nobody live. -/
theorem ebbs_unregister (h : HandlerId) : (unregister h).Ebbs := by
  intro b
  rw [unregister_eq]
  split
  · exact .refl b
  · split
    · exact (ebbs_notify h .finished none _).after (ebbs_retire h)
    · exact ebbs_retire h

/-- A current handler that is taken out and ended makes nobody live. -/
theorem ebbs_removeIfCurrent (r : RegistryId) (name : String) (h : HandlerId) :
    (removeIfCurrent r name h).Ebbs := by
  intro b
  rw [removeIfCurrent_eq]
  split
  · have hend := ((ebbs_unregister h).thenLetGo h (b.takeEntry r name).2).after
      (ebbs_takeEntry r name)
    exact hend.andThen fun _ b => .refl b
  · exact .refl b

theorem ebbs_leaveRegistry (h : HandlerId) : (leaveRegistry h).Ebbs := by
  intro b
  rw [leaveRegistry_eq]
  split
  · exact .refl b
  · split
    · rename_i r _ _
      exact (ebbs_removeIfCurrent r (b.handler h).name h).owning r b
    · exact .refl b

/-- A handler that ends by itself makes nobody live. -/
theorem ebbs_removeSelf (h : HandlerId) : (removeSelf h).Ebbs := by
  refine (ebbs_leaveRegistry h).andThen fun removed => ?_
  split
  · exact fun b => .refl b
  · exact ebbs_unregister h

/-- Telling a listener of an outcome makes nobody live. -/
theorem ebbs_report (h : HandlerId) (o : Outcome) : (report h o).Ebbs := by
  intro b
  rw [report_eq]
  split
  · split
    · exact ebbs_notify h .clicked none b
    · exact .refl b
  · exact ebbs_notify h .actionTaken _ b
  · exact .refl b
  · exact .refl b

/-- A handler that ends on account of an outcome makes nobody live. -/
theorem ebbs_handleOutcome (h : HandlerId) (o : Outcome) : (handleOutcome h o).Ebbs := by
  intro b
  rw [handleOutcome_eq]
  split
  · exact (ebbs_report h o b).andThen fun _ => ebbs_removeSelf h
  · refine ebbs_update ?_ (.inl ?_) fun hx => ?_
    · rw [deferred_eq]
      rfl
    · rw [deferred_eq]
      rfl
    · rwa [deferred_eq] at hx
  · exact .refl b

/-- Hearing from the screen makes nobody live. -/
theorem ebbs_hear (h : HandlerId) (o : Outcome) : (hear h o).Ebbs := by
  intro b
  rw [hear_eq]
  split
  · exact (ebbs_handleOutcome h o).holding h b
  · exact .refl b

/-- Closing an alert makes nobody live. -/
theorem ebbs_closeAlert (c : CoordinatorId) (name : String) :
    (closeAlert c name).Ebbs := by
  rw [closeAlert_eq]
  refine Act.Ebbs.withCoordinator (fun co b => ?_) c
  unfold takeDown
  split
  · exact ebbs_takeEntry _ _
  · exact ((ebbs_unregister _).thenLetGo _ _).after (ebbs_takeEntry _ _)

/-- Ending everybody in a table makes nobody live. -/
theorem ebbs_drain (visit : Visit) (r : RegistryId) : (drain visit r).Ebbs := by
  intro b
  have hall := Act.Ebbs.forEach ebbs_unregister (visit r (b.takeAll r).1) (b.takeAll r).2
  exact (hall.ensuring fun _ => ebbs_letGoAll _).after (ebbs_takeAll r)

/-- Shutting a coordinator down makes nobody live. -/
theorem ebbs_shutDown (visit : Visit) (c : CoordinatorId) : (shutDown visit c).Ebbs := by
  intro b
  change ((if b.hasCoordinator c = true then
    withCoordinator c fun co => drain visit co.registry else pure ()) b).Ebbs b
  split
  · exact Act.Ebbs.withCoordinator (fun co => ebbs_drain visit co.registry) c b
  · exact .refl b

theorem ebbs_fired (b : Board) : b.Ebbs b.fired :=
  ⟨rfl, fun _ => rfl, fun _ => .inl rfl, id, rfl, .refl _, .inr (Signal.fired_fire _), rfl, id⟩

/-- Firing the signal makes nobody live. -/
theorem ebbs_fire (visit : Visit) : (fire visit).Ebbs := by
  intro b
  have hall := Act.Ebbs.forEach (ebbs_shutDown visit) b.signal.fire.1 b.fired
  have hend : ((Action.forEach b.signal.fire.1 (shutDown visit) b.fired).andThen fun _ b' =>
      (.ended (some b.signal.fire.1.length) b' : Talk Board Telling Nat)).Ebbs b.fired :=
    hall.andThen fun _ b' => Ebbs.refl b'
  exact hend.after (ebbs_fired b)

/-- A report of the screen makes nobody live. -/
theorem ebbs_emit (name : String) (o : Outcome) : (emit name o).Ebbs := by
  intro b
  rw [emit_eq]
  cases b.screen.sinkOf? name with
  | none => exact .refl b
  | some h => exact (ebbs_hear h o b).andThen fun _ b' => Ebbs.refl b'

/-- Ending whoever was displaced makes nobody live. -/
theorem ebbs_supersede (old : Option HandlerId) : (supersede old).Ebbs := by
  cases old with
  | none => exact fun b => .refl b
  | some p => exact (ebbs_unregister p).thenLetGo p

end Board

end ToastBoard
