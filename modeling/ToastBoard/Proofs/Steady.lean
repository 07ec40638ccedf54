import ToastBoard.Proofs.Traffic
import ToastBoard.Proofs.Turns

/-!
# Boards on which nothing goes wrong

A board is steady if nothing is going to fail on its screen, nothing was reported, and its worker
takes jobs and is there. It remains so while alerts are shown and closed and listeners only return.
Its worker then does one of four things: nothing, because there is nothing to do; skip a job whose
handler is over; begin an attempt; or finish one, with a handler that goes live or, if it is over by
then, with a toast that is withdrawn at once.
-/

namespace ToastBoard

open Board

/-- What a computation leaves if it keeps a law, it leaves if listeners only return. -/
theorem Talk.Keeps.quietly {γ α : Type} {L : Law γ} {may : Bool → Prop} (hm : may true)
    {Q : World → Option α → World → Prop} {t : Talk Board Telling α} {since w : World}
    (h : t.Keeps L may Q since w) : ∃ since', Q since' t.quietly.1 (w.put t.quietly.2) := by
  induction t generalizing since w with
  | ended a b => exact ⟨since, h⟩
  | told m b resume ih =>
    obtain ⟨-, g, hs, hresume⟩ := h
    exact ih true b (Talk.keeps_put.mp (hresume true (w.put b) hm (L.later_refl _) hs))

/-- A toast as it was recorded, released or not. -/
def Toast.card (t : Toast) : Toast := { t with releases := 0 }

/-- A toast shows the same after it was released. -/
@[simp] theorem Toast.card_released (id : Option ToastId) (t : Toast) :
    (t.released id).card = t.card := by
  unfold Toast.released
  split <;> rfl

namespace Board

variable {b b' : Board} {h : HandlerId} {s : StationId} {r : RegistryId} {T : Terms}

/-- A world around a board. -/
def around (T : Terms) (b : Board) : World :=
  { board := b, coordinators := T.founders, reported := T.reported }

/-- What is taken on in it. -/
def burden (T : Terms) : Ledger :=
  { holds := T.holders, owns := T.owners, coords := T.coords, ending := T.ending }

/-- The world around a board is on the terms that it was made for. -/
theorem terms_around (T : Terms) (b : Board) : (burden T).terms (around T b) = T := by
  simp [Ledger.terms, burden, around]

/-- What a computation that keeps a board in order leaves while listeners only return. -/
theorem Sound.quietly {α : Type} {start : Board} {P : Option α → World → Prop}
    {t : Talk Board Telling α} {w : World}
    (ht : t.Keeps (order false) (fun _ => True) (Leaves false (fun _ => True) {} (burden T) start P)
      w (around T b)) : t.quietly.2.Sound false {} T := by
  obtain ⟨since, hat, -⟩ := ht.quietly trivial
  have hs := hat.sound
  rwa [show ((around T b).put t.quietly.2) = around T t.quietly.2 from rfl, terms_around] at hs

/-- A board in order is in order in the world around it. -/
theorem Sound.around (hb : b.Sound false {} T) :
    At false {} (burden T) (around T b) (around T b) :=
  .start (by rw [terms_around]; exact hb)

/-- A handler that ends leaves a board in order. -/
theorem Sound.dismissed (hb : b.Sound false {} T) (h : HandlerId) :
    (b.dismissed h).Sound false {} T := by
  have hs := Sound.quietly (keeps_unregister (h := h) hb.around (.inl rfl) fun hs =>
    Bool.noConfusion hs)
  rwa [show (Board.around T b).board = b from rfl, quietly_unregister] at hs

/-- A change by those who show and close alerts: handlers may end and new ones may be there, toasts
may be withdrawn, and the worker has what it had. -/
structure Stirs (b b' : Board) : Prop where
  /-- The worker has what it had. -/
  stations : b'.stations = b.stations
  /-- Nothing is attempted. -/
  attempts : b'.screen.attempts = b.screen.attempts
  /-- Nothing new is going to fail. -/
  faults : b.screen.faults = {} → b'.screen.faults = {}
  /-- No toast is recorded. -/
  cards : b'.screen.toasts.map Toast.card = b.screen.toasts.map Toast.card
  /-- Handlers move on. -/
  onward : b.Onward b'
  /-- A handler stays in its phase, is over, or is new. -/
  phase : ∀ h, b'.phase h = b.phase h ∨ b'.phase h = .unregistered ∨
    (b'.phase h = .created ∧ b.handlers.length ≤ h)
  /-- Nothing is kept for later. -/
  pending : ∀ h, (b.handler h).pending = none → (b'.handler h).pending = none
  /-- What a handler has to release it had before. -/
  registration : ∀ {h id}, (b'.handler h).registration = some id →
    (b.handler h).registration = some id

namespace Stirs

variable {a c : Board}

theorem refl (b : Board) : b.Stirs b :=
  ⟨rfl, rfl, id, rfl, .refl b, fun _ => .inl rfl, fun _ => id, id⟩

theorem trans (h : a.Stirs b) (h' : b.Stirs c) : a.Stirs c where
  stations := h'.stations.trans h.stations
  attempts := h'.attempts.trans h.attempts
  faults hf := h'.faults (h.faults hf)
  cards := h'.cards.trans h.cards
  onward := h.onward.trans h'.onward
  phase x := by
    rcases h'.phase x with he | he | ⟨he, hn⟩
    · rw [he]
      exact h.phase x
    · exact .inr (.inl he)
    · exact .inr (.inr ⟨he, Nat.le_trans h.onward.length hn⟩)
  pending x hx := h'.pending x (h.pending x hx)
  registration hr := h.registration (h'.registration hr)

end Stirs

/-- Whatever leaves handlers, stations and the screen as they are leaves the worker with what it
had. -/
theorem stirs_of_handlers (hh : b'.handlers = b.handlers) (hs : b'.stations = b.stations)
    (hscreen : b'.screen = b.screen) : b.Stirs b' where
  stations := hs
  attempts := by rw [hscreen]
  faults hf := by rw [hscreen, hf]
  cards := by rw [hscreen]
  onward := onward_of_handlers hh
  phase x := .inl (by rw [phase, handler, hh]; rfl)
  pending x hx := by
    rw [handler, hh]
    exact hx
  registration hr := by
    rw [handler, hh] at hr
    exact hr

theorem stirs_update {f : Handler → Handler} (hf : (f (b.handler h)).fields = (b.handler h).fields)
    (hl : (f (b.handler h)).listener = (b.handler h).listener)
    (hr : (f (b.handler h)).registry = (b.handler h).registry)
    (hp : (f (b.handler h)).phase = b.phase h ∨ (f (b.handler h)).phase = .unregistered)
    (ho : (f (b.handler h)).pending = (b.handler h).pending)
    (hn : (f (b.handler h)).registration = none) : b.Stirs (b.update h f) where
  stations := rfl
  attempts := rfl
  faults := id
  cards := rfl
  onward := onward_update hf hl hr <| hp.elim (fun he => he ▸ .refl _) fun he =>
    he ▸ Phase.leadsTo_unregistered _
  phase x := by
    rw [phase, handler_update]
    split
    · rename_i hx
      rw [hx.1]
      exact hp.imp_right .inl
    · exact .inl rfl
  pending x hx := by
    rw [handler_update]
    split
    · rename_i hxh
      rw [hxh.1] at hx ⊢
      rw [ho, hx]
    · exact hx
  registration {x id} hx := by
    rw [handler_update] at hx
    split at hx
    · rename_i hxh
      rw [hxh.1, hn] at hx
      cases hx
    · exact hx

/-- Releasing a toast leaves the worker with what it had. -/
theorem stirs_releaseToast (toast : Option ToastId) : b.Stirs (b.releaseToast toast) where
  stations := (sameButToasts_releaseToast toast).stations
  attempts := (sameButToasts_releaseToast toast).attempts
  faults hf := by
    cases toast with
    | none => exact hf
    | some id =>
      change { b.screen.faults with release := false } = _
      rw [hf]
  cards := by
    rw [toasts_releaseToast, List.map_map]
    exact List.map_congr_left fun t _ => Toast.card_released toast t
  onward := (sameButToasts_releaseToast toast).onward
  phase x := .inl (phase_releaseToast toast x)
  pending x hx := by rwa [handler_releaseToast]
  registration hr := by rwa [handler_releaseToast] at hr

/-- Ending a handler to which nothing refers leaves the worker with what it had. -/
theorem stirs_reap (h : HandlerId) : b.Stirs (b.reap h) := by
  unfold reap
  split
  · exact .refl b
  · exact (stirs_update rfl rfl rfl (.inl rfl) rfl rfl).trans (stirs_releaseToast _)

/-- A handler that ends leaves the worker with what it had. -/
theorem stirs_retire (h : HandlerId) : b.Stirs (b.retire h) :=
  (stirs_update rfl rfl rfl (.inr rfl) rfl rfl).trans (stirs_releaseToast _)

/-- Telling a listener something leaves the worker with what it had. -/
theorem stirs_announce {topic : Topic} {action : Option String} :
    b.Stirs (b.announce h topic action) :=
  stirs_of_handlers handlers_announce (by rw [announce_eq]) (by rw [announce_eq])

/-- Dismissing a handler leaves the worker with what it had. -/
theorem stirs_dismissed (h : HandlerId) : b.Stirs (b.dismissed h) := by
  unfold dismissed
  split
  · exact .refl b
  · split
    · exact (stirs_retire h).trans stirs_announce
    · exact stirs_retire h

/-- Making a handler leaves the worker with what it had. -/
theorem stirs_create {hd : Handler} (hp : hd.phase = .created) (hr : hd.registration = none)
    (ho : hd.pending = none) : b.Stirs (b.create hd).2 := by
  refine ⟨rfl, rfl, id, rfl, onward_create b hd, fun x => ?_, fun x hx => ?_, fun {x id} hx => ?_⟩
  · rw [phase, handler_create]
    split
    · rename_i hx
      exact .inr (.inr ⟨hp, Nat.le_of_eq hx.symm⟩)
    · exact .inl rfl
  · rw [handler_create]
    split
    · exact ho
    · exact hx
  · rw [handler_create] at hx
    split at hx
    · rw [hr] at hx
      cases hx
    · exact hx

/-- Putting a handler under its name leaves the worker with what it had. -/
theorem stirs_install (r : RegistryId) (name : String) (h : HandlerId) :
    b.Stirs (b.install r name h).2 := by
  rw [install_eq]
  exact stirs_of_handlers rfl rfl rfl

/-- A change after which each handler is in the phase it was in and everything else is where it was:
at most holds are given back, listeners are told and toasts withdrawn. -/
structure Tidies (b b' : Board) : Prop extends Stirs b b' where
  /-- There are the same handlers. -/
  length : b'.handlers.length = b.handlers.length
  /-- Each handler is in the phase it was in. -/
  stays : ∀ h, b'.phase h = b.phase h
  /-- The registries are the same. -/
  registries : b'.registries = b.registries
  /-- The coordinators are the same. -/
  coordinators : b'.coordinators = b.coordinators
  /-- The signal is the same. -/
  signal : b'.signal = b.signal

namespace Tidies

variable {a c : Board}

theorem refl (b : Board) : b.Tidies b := ⟨.refl b, rfl, fun _ => rfl, rfl, rfl, rfl⟩

theorem trans (h : a.Tidies b) (h' : b.Tidies c) : a.Tidies c where
  toStirs := h.toStirs.trans h'.toStirs
  length := h'.length.trans h.length
  stays x := (h'.stays x).trans (h.stays x)
  registries := h'.registries.trans h.registries
  coordinators := h'.coordinators.trans h.coordinators
  signal := h'.signal.trans h.signal

end Tidies

/-- Releasing a toast leaves each handler in its phase. -/
theorem tidies_releaseToast (toast : Option ToastId) : b.Tidies (b.releaseToast toast) :=
  ⟨stirs_releaseToast toast, (sameButToasts_releaseToast toast).length, phase_releaseToast toast,
    (sameButToasts_releaseToast toast).registries, (sameButToasts_releaseToast toast).coordinators,
    by cases toast <;> rfl⟩

/-- A handler to which nothing refers gives up its toast, and each handler stays in its phase. -/
theorem tidies_reap (h : HandlerId) : b.Tidies (b.reap h) := by
  refine ⟨stirs_reap h, (sameButToasts_reap h).length, (sameButToasts_reap h).phase,
    (sameButToasts_reap h).registries,
    (sameButToasts_reap h).coordinators, ?_⟩
  unfold reap
  split
  · rfl
  · exact (tidies_releaseToast _).signal

/-- Giving a handler back leaves each handler in its phase. -/
theorem tidies_letGo (h : HandlerId) : b.Tidies (b.letGo h) :=
  Tidies.trans (b := { b with held := b.held.erase h })
    ⟨stirs_of_handlers rfl rfl rfl, rfl, fun _ => rfl, rfl, rfl, rfl⟩ (tidies_reap h)

/-- Giving some handlers back leaves each handler in its phase. -/
theorem tidies_letGoAll (hs : List HandlerId) : b.Tidies (b.letGoAll hs) := by
  induction hs generalizing b with
  | nil => exact .refl b
  | cons h hs ih => exact (tidies_letGo h).trans ih

/-- Telling a listener something leaves each handler in its phase. -/
theorem tidies_announce {topic : Topic} {action : Option String} :
    b.Tidies (b.announce h topic action) := by
  refine ⟨stirs_announce, by rw [handlers_announce], fun x => ?_, ?_, ?_, ?_⟩
  · rw [phase, handler_announce]
    rfl
  all_goals rw [announce_eq]

/-- A change by which some handlers end, after which everything else is where it was. -/
structure Ends (hs : List HandlerId) (b b' : Board) : Prop extends Stirs b b' where
  /-- There are the same handlers. -/
  length : b'.handlers.length = b.handlers.length
  /-- Those that end are over, and each of the others is in the phase it was in. -/
  stands : ∀ h, b'.phase h = if h ∈ hs then .unregistered else b.phase h
  /-- The registries are the same. -/
  registries : b'.registries = b.registries
  /-- The coordinators are the same. -/
  coordinators : b'.coordinators = b.coordinators
  /-- The signal is the same. -/
  signal : b'.signal = b.signal

/-- Where each handler stays in its phase, nobody ends. -/
theorem Tidies.ends (h : b.Tidies b') : b.Ends [] b' :=
  ⟨h.toStirs, h.length, fun x => (h.stays x).trans (if_neg List.not_mem_nil).symm, h.registries,
    h.coordinators, h.signal⟩

/-- Handlers may end in two steps. -/
theorem Ends.trans {hs hs' : List HandlerId} {a c : Board} (h : a.Ends hs b) (h' : b.Ends hs' c) :
    a.Ends (hs ++ hs') c where
  toStirs := h.toStirs.trans h'.toStirs
  length := h'.length.trans h.length
  stands x := by
    rw [h'.stands, h.stands]
    by_cases hx : x ∈ hs <;> by_cases hx' : x ∈ hs' <;> simp [hx, hx']
  registries := h'.registries.trans h.registries
  coordinators := h'.coordinators.trans h.coordinators
  signal := h'.signal.trans h.signal

/-- Handlers that have ended may be given back. -/
theorem Ends.tidies {hs : List HandlerId} {a c : Board} (h : a.Ends hs b) (ht : b.Tidies c) :
    a.Ends hs c :=
  List.append_nil hs ▸ h.trans ht.ends

/-- It does not matter in which order they end. -/
theorem Ends.congr {hs hs' : List HandlerId} (h : b.Ends hs b') (he : ∀ x, x ∈ hs ↔ x ∈ hs') :
    b.Ends hs' b' where
  toStirs := h.toStirs
  length := h.length
  stands x := by
    rw [h.stands]
    exact if_congr (he x) rfl rfl
  registries := h.registries
  coordinators := h.coordinators
  signal := h.signal

/-- A handler that is dismissed ends, and no other one does. -/
theorem ends_dismissed (h : HandlerId) : b.Ends [h] (b.dismissed h) := by
  obtain ⟨-, hregistries, hphase⟩ := dismissed_quiet b h
  have hretire := tidies_releaseToast (b := b.update h Handler.retired) (b.handler h).registration
  refine ⟨stirs_dismissed h, ?_, fun x => ?_, hregistries, ?_, ?_⟩
  · unfold dismissed
    split
    · rfl
    · split
      · rw [handlers_announce]
        exact hretire.length.trans (length_update ..)
      · exact hretire.length.trans (length_update ..)
  · rw [hphase]
    simp only [List.mem_singleton]
  all_goals unfold dismissed; split
  · rfl
  · split
    · exact tidies_announce.coordinators.trans hretire.coordinators
    · exact hretire.coordinators
  · rfl
  · split
    · exact tidies_announce.signal.trans hretire.signal
    · exact hretire.signal

/-- Handlers that are dismissed end, and no other ones do. -/
theorem ends_dismissedAll (hs : List HandlerId) : b.Ends hs (hs.foldl dismissed b) := by
  induction hs generalizing b with
  | nil => exact (Tidies.refl b).ends
  | cons h hs ih => exact (ends_dismissed h).trans ih

/-- A board on which nothing goes wrong at a station. -/
structure Steady (s : StationId) (b : Board) : Prop where
  /-- Nothing is going to fail. -/
  faults : b.screen.faults = {}
  /-- The screen gets to see every attempt. -/
  fates : ∀ a ∈ b.screen.attempts, a.fate = .proceeds
  /-- Nothing was reported before its time. -/
  pending : ∀ h, (b.handler h).pending = none
  /-- No initialization has failed. -/
  unfailed : ∀ h, b.phase h ≠ .initFailed
  /-- The worker takes jobs. -/
  accepting : (b.station s).worker.accepting = true
  /-- The worker is there. -/
  alive : (b.station s).worker.alive = true
  /-- There are only jobs in its queue. -/
  queue : (b.station s).worker.queue = (b.jobs s).map .run
  /-- Who is initializing is queued, or its attempt is under way. -/
  awaited : ∀ h, b.phase h = .initializing →
    h ∈ b.jobs s ∨ ∃ a, b.inside? s = some a ∧ a.handler = h

namespace Steady

/-- The station of a steady board was made. -/
theorem lt_stations (hb : b.Steady s) : s < b.stations.length := by
  by_contra hlt
  have hnone : b.stations[s]? = none := List.getElem?_eq_none (Nat.le_of_not_lt hlt)
  have haccepting := hb.accepting
  rw [station, List.getD_eq_getElem?_getD, hnone] at haccepting
  cases haccepting

/-- Whoever shows and closes alerts leaves a board steady. -/
theorem stirs (hb : b.Steady s) (hs : b.Stirs b') : b'.Steady s where
  faults := hs.faults hb.faults
  fates := hs.attempts ▸ hb.fates
  pending x := hs.pending x (hb.pending x)
  unfailed x hx := by
    rcases hs.phase x with he | he | ⟨he, -⟩
    · exact hb.unfailed x (he ▸ hx)
    · rw [hx] at he
      cases he
    · rw [hx] at he
      cases he
  accepting := by
    rw [station, hs.stations]
    exact hb.accepting
  alive := by
    rw [station, hs.stations]
    exact hb.alive
  queue := by
    rw [jobs, station, hs.stations]
    exact hb.queue
  awaited x hx := by
    have hinside : b'.inside? s = b.inside? s := by
      rw [inside?, inside?, station, station, hs.stations, hs.attempts]
    have hjobs : b'.jobs s = b.jobs s := by rw [jobs, jobs, station, station, hs.stations]
    rw [hinside, hjobs]
    rcases hs.phase x with he | he | ⟨he, -⟩
    · exact hb.awaited x (he ▸ hx)
    · rw [hx] at he
      cases he
    · rw [hx] at he
      cases he

/-- Nobody but handlers, stations and the screen matters. -/
theorem same (hb : b.Steady s) (hh : b'.handlers = b.handlers) (hs : b'.stations = b.stations)
    (hscreen : b'.screen = b.screen) : b'.Steady s :=
  hb.stirs (stirs_of_handlers hh hs hscreen)

end Steady

/-- A board on which the registration of a handler is queued. -/
def queued (b : Board) (s : StationId) (h : HandlerId) : Board :=
  (b.setPhase h .initializing).setWorker s
    { (b.station s).worker with queue := (b.station s).worker.queue ++ [.run h] }

/-- A worker at a steady board takes a handler that was just created. -/
theorem Steady.submit (hb : b.Steady s) (hp : b.phase h = .created) :
    b.submit s h = (.ok (), b.queued s h) := by
  have hsend : (b.station s).worker.dispatch h =
      .ok { (b.station s).worker with queue := (b.station s).worker.queue ++ [.run h] } := by
    unfold Worker.dispatch Worker.send
    rw [if_neg (by rw [hb.accepting]; exact Bool.noConfusion),
      if_neg (by rw [hb.alive]; exact Bool.noConfusion)]
  have hstation : (b.setPhase h .initializing).station s = b.station s := rfl
  unfold Board.submit
  rw [hp]
  simp only [hstation, hsend]
  rfl

/-- A handler that is queued comes last. -/
theorem jobs_queued (hs : s < b.stations.length) : (b.queued s h).jobs s = b.jobs s ++ [h] := by
  rw [queued, jobs_setWorker (b := b.setPhase h .initializing) hs, if_pos rfl, List.flatMap_append]
  rfl

/-- A handler that is queued is initializing. -/
theorem phase_queued (hlt : h < b.handlers.length) (x : HandlerId) :
    (b.queued s h).phase x = if x = h then .initializing else b.phase x := by
  have hupdate := handler_update b h x fun hd => { hd with phase := .initializing }
  change ((b.update h fun hd => { hd with phase := .initializing }).handler x).phase = _
  rw [hupdate]
  by_cases hx : x = h
  · rw [if_pos ⟨hx, hlt⟩, if_pos hx]
  · rw [if_neg fun hc => hx hc.1, if_neg hx, phase]

/-- Queueing a handler leaves the station where it stands. -/
theorem inside_queued : ((b.queued s h).station s).inside = (b.station s).inside :=
  inside_setWorker (b := b.setPhase h .initializing) _ s

/-- A board with another job is steady. -/
theorem Steady.queued (hb : b.Steady s) (hlt : h < b.handlers.length) :
    (b.queued s h).Steady s := by
  have hs := hb.lt_stations
  have hstation : (b.queued s h).station s = { b.station s with
      worker := { (b.station s).worker with
        queue := (b.station s).worker.queue ++ [.run h] } } := by
    rw [Board.queued, setWorker, station_updateStation, if_pos ⟨rfl, hs⟩]
    rfl
  have hinside : (b.queued s h).inside? s = b.inside? s := by
    rw [inside?, hstation]
    rfl
  refine ⟨hb.faults, hb.fates, fun x => ?_, fun x => ?_, by rw [hstation]; exact hb.accepting,
    by rw [hstation]; exact hb.alive, ?_, fun x hx => ?_⟩
  · have hupdate := handler_update b h x fun hd => { hd with phase := .initializing }
    change ((b.update h fun hd => { hd with phase := .initializing }).handler x).pending = none
    rw [hupdate]
    split <;> exact hb.pending x
  · rw [phase_queued hlt]
    split
    · exact Phase.noConfusion
    · exact hb.unfailed x
  · rw [jobs_queued hs, hstation, List.map_append, ← hb.queue]
    rfl
  · rw [phase_queued hlt] at hx
    rw [jobs_queued hs, hinside]
    by_cases hxh : x = h
    · exact .inl (List.mem_append_right _ (List.mem_singleton.mpr hxh))
    · rw [if_neg hxh] at hx
      exact (hb.awaited x hx).imp_left (List.mem_append_left _)

/-- What a worker does next while listeners only return: it finishes the attempt under way, or else
takes what is next in its queue. -/
def work (s : StationId) (b : Board) : Board :=
  if (b.station s).inside.isSome then (finish s b).quietly.2 else (b.advance s).2

/-- A board on which a worker has taken what is next in its queue. -/
def dequeued (b : Board) (s : StationId) : Board := b.setWorker s (b.station s).worker.next.2

/-- A board on which the attempt under way has led to a toast. -/
def noted (b : Board) (s : StationId) (h : HandlerId) : Board :=
  ((b.hold h).updateStation s fun st => { st with inside := none }).recorded h

/-- A board on which the attempt under way is over: its handler is live with its toast, or the toast
is withdrawn if the handler is over by then. -/
def resolved (b : Board) (s : StationId) (h : HandlerId) : Board :=
  if b.phase h = .unregistered then (b.noted s h).releaseToast (some (b.screen.toasts.length + 1))
  else (b.noted s h).live h (b.screen.toasts.length + 1)

/-- What a worker may do in a step at a steady board. -/
inductive Works (s : StationId) (b : Board) : Board → Prop where
  /-- There is nothing to do. -/
  | idle (inside : (b.station s).inside = none) (jobs : b.jobs s = []) : Works s b b
  /-- A job is skipped. -/
  | skipped {h : HandlerId} {rest : List HandlerId} {b' : Board}
      (inside : (b.station s).inside = none) (jobs : b.jobs s = h :: rest)
      (gone : b.phase h = .unregistered) (tidies : (b.dequeued s).Tidies b') : Works s b b'
  /-- An attempt begins. -/
  | entered {h : HandlerId} {rest : List HandlerId} (inside : (b.station s).inside = none)
      (jobs : b.jobs s = h :: rest) (here : b.phase h ≠ .unregistered) :
      Works s b ((b.dequeued s).beginAttempt s h)
  /-- The attempt under way is finished. -/
  | finished {a : Attempt} {b' : Board} (inside : b.inside? s = some a)
      (tidies : (b.resolved s a.handler).Tidies b') : Works s b b'

/-- The screen registers a handler of which nothing was reported. -/
theorem quietly_register (hf : b.screen.faults = {}) (hp : (b.handler h).pending = none) :
    (register h b).quietly = (some (), if b.phase h = .unregistered then
      (b.recorded h).releaseToast (some (b.screen.toasts.length + 1))
    else ((b.recorded h).live h (b.screen.toasts.length + 1)).announce h .shown none) := by
  have hcomplete : register h b = complete h (b.screen.toasts.length + 1) (b.recorded h) := by
    rw [register_recorded (by rw [hf]), show b.screen.faults.early = none by rw [hf]]
    rfl
  have hphase : (b.recorded h).phase h = b.phase h := rfl
  have hpending : ((b.recorded h).handler h).pending = none := hp
  rw [hcomplete, complete_eq, hphase]
  split
  · rfl
  · simp only [hpending]
    rw [goLive_eq, Talk.quietly_andThen, quietly_notify]
    rfl

/-- What a worker does when it finishes an attempt. -/
theorem quietly_finish (hb : b.Steady s) {a : Attempt} (hi : b.inside? s = some a) :
    (finish s b).quietly.2 = (if b.phase a.handler = .unregistered then b.resolved s a.handler
      else (b.resolved s a.handler).announce a.handler .shown none).letGo a.handler := by
  have hfate : a.fate = .proceeds := hb.fates a (inside?_mem hi)
  have hregister := quietly_register (b := (b.hold a.handler).updateStation s fun st =>
    { st with inside := none }) (h := a.handler) hb.faults (hb.pending _)
  have hconclude : (conclude s a (b.hold a.handler)).quietly.2 =
      if b.phase a.handler = .unregistered then b.resolved s a.handler
      else (b.resolved s a.handler).announce a.handler .shown none := by
    obtain ⟨h, thread, fate⟩ := a
    cases hfate
    change ((register h).caught ((b.hold h).updateStation s fun st =>
      { st with inside := none })).quietly.2 = _
    change ((register h ((b.hold h).updateStation s fun st =>
      { st with inside := none })).caught).quietly.2 = _
    rw [Talk.quietly_caught, hregister, resolved]
    change (if b.phase h = .unregistered then _ else _) = _
    split <;> rfl
  rw [← hconclude, finish_eq, hi]
  change (((conclude s a (b.hold a.handler)).ensuring (·.letGo a.handler)).andThen
    fun _ b => .ended (some (some a.handler)) b).quietly.2 = _
  rw [Talk.quietly_andThen, Talk.quietly_ensuring]
  cases (conclude s a (b.hold a.handler)).quietly.1 <;> rfl

/-- But for what is tidied up, an attempt that is finished is resolved. -/
theorem tidies_finish (hb : b.Steady s) {a : Attempt} (hi : b.inside? s = some a) :
    (b.resolved s a.handler).Tidies (finish s b).quietly.2 := by
  rw [quietly_finish hb hi]
  split
  · exact tidies_letGo _
  · exact tidies_announce.trans (tidies_letGo _)

/-- A worker at a steady board takes one of its steps. -/
theorem Steady.works (hb : b.Steady s) (hj : b.Jobs) : Works s b (b.work s) := by
  unfold work
  cases hi : (b.station s).inside with
  | some i =>
    have hlt := hj.inside hi
    have hinside : b.inside? s = some b.screen.attempts[i] := by
      rw [inside?, hi]
      exact List.getElem?_eq_getElem hlt
    exact .finished hinside (tidies_finish hb hinside)
  | none =>
    have hqueue := hb.queue
    unfold advance
    rw [hi]
    cases hjobs : b.jobs s with
    | nil =>
      rw [hjobs] at hqueue
      rw [hqueue]
      exact .idle hi hjobs
    | cons h rest =>
      rw [hjobs] at hqueue
      rw [hqueue]
      change Works s b (if (b.dequeued s).phase h = .unregistered then
        (Progress.skipped h, (b.dequeued s).reap h)
        else (Progress.entered h, (b.dequeued s).beginAttempt s h)).2
      have hphase : (b.dequeued s).phase h = b.phase h := rfl
      rw [hphase]
      split
      · exact .skipped hi hjobs ‹_› (tidies_reap h)
      · exact .entered hi hjobs ‹_›

namespace Steady

/-- What a worker has left once it has taken a job. -/
theorem station_dequeued (hb : b.Steady s) {rest : List HandlerId} (hj : b.jobs s = h :: rest) :
    (b.dequeued s).station s =
      { b.station s with worker := { (b.station s).worker with queue := rest.map .run } } := by
  have hqueue : (b.station s).worker.queue = .run h :: rest.map .run := by
    rw [hb.queue, hj]
    rfl
  rw [dequeued, setWorker, station_updateStation, if_pos ⟨rfl, hb.lt_stations⟩, Worker.next, hqueue]

/-- The first job is gone when it was taken. -/
theorem jobs_dequeued (hb : b.Steady s) {rest : List HandlerId} (hj : b.jobs s = h :: rest) :
    (b.dequeued s).jobs s = rest := by
  rw [jobs, hb.station_dequeued hj]
  exact List.flatMap_map .. |>.trans (List.flatMap_singleton' rest)

/-- A board on which an attempt has begun. -/
theorem beginAttempt (hb : b.Steady s) {rest : List HandlerId} (hj : b.jobs s = h :: rest) :
    ∃ a : Attempt, a.handler = h ∧ a.fate = .proceeds ∧
      ((b.dequeued s).beginAttempt s h).screen =
        { b.screen with attempts := b.screen.attempts ++ [a] } ∧
      ((b.dequeued s).beginAttempt s h).station s =
        { inside := some b.screen.attempts.length
          worker := { (b.station s).worker with queue := rest.map .run } } := by
  have hfate : b.screen.nextFate = (.proceeds, b.screen) := by
    unfold Screen.nextFate
    rw [hb.faults]
    rfl
  refine ⟨⟨h, ((b.dequeued s).station s).worker.name, .proceeds⟩, rfl, rfl, ?_, ?_⟩
  · change b.screen.attempt h _ = _
    unfold Screen.attempt
    rw [hfate]
  · have hlen : (b.dequeued s).stations.length = b.stations.length := length_updateStation ..
    have hlt : s < (b.dequeued s).stations.length := Nat.lt_of_lt_of_eq hb.lt_stations hlen.symm
    unfold Board.beginAttempt
    rw [station_updateStation, if_pos ⟨rfl, hlt⟩]
    change { (b.dequeued s).station s with inside := some b.screen.attempts.length } = _
    rw [hb.station_dequeued hj]

end Steady

/-- Who was not attempted by the worker stays as it is. -/
theorem handler_resolved {x : HandlerId} (hx : x ≠ h) :
    (b.resolved s h).handler x = b.handler x := by
  unfold resolved
  split
  · rw [handler_releaseToast]
    rfl
  · rw [live, handler_update_of_ne hx]
    rfl

theorem length_resolved : (b.resolved s h).handlers.length = b.handlers.length := by
  unfold resolved
  split
  · exact (sameButToasts_releaseToast _).length
  · exact length_update ..

/-- Whoever the worker attempted is live, unless it is over. -/
theorem handler_resolved_self (hlt : h < b.handlers.length) : (b.resolved s h).handler h =
    if b.phase h = .unregistered then b.handler h else { b.handler h with
      phase := .live, registration := some (b.screen.toasts.length + 1), pending := none } := by
  unfold resolved
  split
  · rw [handler_releaseToast]
    rfl
  · have hlt' : h < (b.noted s h).handlers.length := hlt
    rw [live, handler_update_self hlt']
    rfl

/-- Once an attempt is over the worker stands outside, with the jobs it had. -/
theorem station_resolved (hs : s < b.stations.length) :
    (b.resolved s h).station s = { b.station s with inside := none } := by
  have hnoted : (b.noted s h).station s = { b.station s with inside := none } := by
    rw [noted]
    change ((b.hold h).updateStation s fun st => { st with inside := none }).station s = _
    rw [station_updateStation, if_pos ⟨rfl, hs⟩]
    rfl
  unfold resolved
  split
  · rw [station, (sameButToasts_releaseToast _).stations]
    exact hnoted
  · exact hnoted

/-- What is on the screen once an attempt is over. -/
theorem screen_resolved (hf : b.screen.faults = {}) : (b.resolved s h).screen.faults = {} ∧
    (b.resolved s h).screen.attempts = b.screen.attempts ∧ ∃ t : Toast,
      t.Shows (b.handler h).fields ∧ (b.resolved s h).screen.toasts.map Toast.card =
        b.screen.toasts.map Toast.card ++ [t.card] := by
  have hfaults : (b.noted s h).screen.faults = {} := by
    change { b.screen.faults with early := none } = _
    rw [hf]
  have htoasts : (b.noted s h).screen.toasts.map Toast.card = b.screen.toasts.map Toast.card ++
      [Toast.card ⟨b.screen.toasts.length + 1, (b.handler h).fields.name,
        (b.handler h).fields.cookie, (b.handler h).fields.title, (b.handler h).fields.text, 0⟩] :=
    List.map_append ..
  unfold resolved
  split
  · have hrelease := stirs_releaseToast (b := b.noted s h) (some (b.screen.toasts.length + 1))
    exact ⟨hrelease.faults hfaults, hrelease.attempts, _, ⟨rfl, rfl, rfl, rfl⟩,
      hrelease.cards.trans htoasts⟩
  · exact ⟨hfaults, rfl, _, ⟨rfl, rfl, rfl, rfl⟩, htoasts⟩

namespace Steady

/-- A worker takes a job whose handler is over. -/
theorem dequeued (hb : b.Steady s) {rest : List HandlerId} (hj : b.jobs s = h :: rest)
    (hp : b.phase h = .unregistered) : (b.dequeued s).Steady s := by
  have hstation := hb.station_dequeued hj
  refine ⟨hb.faults, hb.fates, hb.pending, hb.unfailed, ?_, ?_, ?_, fun x hx => ?_⟩
  · rw [hstation]
    exact hb.accepting
  · rw [hstation]
    exact hb.alive
  · rw [hb.jobs_dequeued hj, hstation]
  · have hinside : (b.dequeued s).inside? s = b.inside? s := by
      rw [inside?, hstation]
      rfl
    have hne : x ≠ h := by
      rintro rfl
      rw [show b.phase x = .initializing from hx] at hp
      cases hp
    rw [hb.jobs_dequeued hj, hinside]
    have hawaited := hb.awaited x hx
    rw [hj] at hawaited
    exact hawaited.imp_left fun hm => (List.mem_cons.mp hm).resolve_left hne

/-- A worker begins an attempt. -/
theorem entered (hb : b.Steady s) {rest : List HandlerId} (hj : b.jobs s = h :: rest)
    (hi : (b.station s).inside = none) : ((b.dequeued s).beginAttempt s h).Steady s := by
  obtain ⟨a, ha, hfate, hscreen, hstation⟩ := hb.beginAttempt hj
  have hjobs : ((b.dequeued s).beginAttempt s h).jobs s = rest := by
    rw [jobs, hstation]
    exact List.flatMap_map .. |>.trans (List.flatMap_singleton' rest)
  refine ⟨by rw [hscreen]; exact hb.faults, ?_, hb.pending, hb.unfailed, by rw [hstation]; exact
    hb.accepting, by rw [hstation]; exact hb.alive, by rw [hjobs, hstation], fun x hx => ?_⟩
  · rw [hscreen]
    intro y hy
    rcases List.mem_append.mp hy with hy | hy
    · exact hb.fates y hy
    · rw [List.mem_singleton.mp hy, hfate]
  · have hawaited := hb.awaited x hx
    rw [hj] at hawaited
    rw [hjobs]
    rcases hawaited with hm | ⟨y, hy, -⟩
    · rcases List.mem_cons.mp hm with rfl | hm
      · refine .inr ⟨a, ?_, ha⟩
        rw [inside?, hstation, hscreen]
        exact List.getElem?_concat_length ..
      · exact .inl hm
    · rw [inside?, hi] at hy
      cases hy

/-- A worker finishes an attempt. -/
theorem resolved (hb : b.Steady s) {a : Attempt} (hi : b.inside? s = some a)
    (hlt : a.handler < b.handlers.length) : (b.resolved s a.handler).Steady s := by
  have hstation := station_resolved (h := a.handler) hb.lt_stations
  obtain ⟨hfaults, hattempts, -⟩ := screen_resolved (s := s) (h := a.handler) hb.faults
  have hjobs : (b.resolved s a.handler).jobs s = b.jobs s := by
    rw [jobs, hstation]
    rfl
  refine ⟨hfaults, hattempts ▸ hb.fates, fun x => ?_, fun x hx => ?_, by rw [hstation]; exact
    hb.accepting, by rw [hstation]; exact hb.alive, ?_, fun x hx => ?_⟩
  · by_cases hx : x = a.handler
    · rw [hx, handler_resolved_self hlt]
      split
      · exact hb.pending _
      · rfl
    · rw [handler_resolved hx]
      exact hb.pending x
  · by_cases hxa : x = a.handler
    · rw [hxa, phase, handler_resolved_self hlt] at hx
      split at hx
      · exact hb.unfailed _ hx
      · cases hx
    · rw [phase, handler_resolved hxa] at hx
      exact hb.unfailed x hx
  · rw [hjobs, hstation]
    exact hb.queue
  · have hne : x ≠ a.handler := by
      rintro rfl
      rw [phase, handler_resolved_self hlt] at hx
      split at hx
      · rename_i hu
        rw [show b.phase a.handler = .initializing from hx] at hu
        cases hu
      · cases hx
    rw [phase, handler_resolved hne] at hx
    rw [hjobs]
    refine (hb.awaited x hx).imp_right ?_
    rintro ⟨y, hy, rfl⟩
    rw [hi] at hy
    exact absurd (congrArg Attempt.handler (Option.some.inj hy)).symm hne

/-- A step of the worker leaves a board steady. -/
theorem work (hb : b.Steady s) (hj : b.Jobs) : (b.work s).Steady s := by
  have hworks := hb.works hj
  generalize b.work s = b' at hworks
  cases hworks with
  | idle => exact hb
  | skipped hi hjobs hp htidies => exact (hb.dequeued hjobs hp).stirs htidies.toStirs
  | entered hi hjobs hp => exact hb.entered hjobs hi
  | finished hi htidies =>
    exact (hb.resolved hi (hj.known (.inr (List.mem_map_of_mem (inside?_mem hi))))).stirs
      htidies.toStirs

end Steady

/-- What a worker does concerns neither registries nor coordinators nor the signal. It makes no
handler and ends none, and leaves alone those that were not submitted. -/
structure Toils (b b' : Board) : Prop where
  /-- There are the same handlers. -/
  length : b'.handlers.length = b.handlers.length
  /-- Handlers move on. -/
  onward : b.Onward b'
  /-- The same handlers are over. -/
  gone : ∀ h, b'.phase h = .unregistered ↔ b.phase h = .unregistered
  /-- The same handlers have not been submitted. -/
  unbegun : ∀ h, b'.phase h = .created ↔ b.phase h = .created
  /-- The registries are the same. -/
  registries : b'.registries = b.registries
  /-- The coordinators are the same. -/
  coordinators : b'.coordinators = b.coordinators
  /-- The signal is the same. -/
  signal : b'.signal = b.signal

theorem Toils.refl (b : Board) : b.Toils b :=
  ⟨rfl, .refl b, fun _ => .rfl, fun _ => .rfl, rfl, rfl, rfl⟩

theorem Toils.trans {c : Board} (hb : b.Toils b') (ht : b'.Toils c) : b.Toils c where
  length := ht.length.trans hb.length
  onward := hb.onward.trans ht.onward
  gone h := (ht.gone h).trans (hb.gone h)
  unbegun h := (ht.unbegun h).trans (hb.unbegun h)
  registries := ht.registries.trans hb.registries
  coordinators := ht.coordinators.trans hb.coordinators
  signal := ht.signal.trans hb.signal

/-- A worker may give handlers back. -/
theorem Tidies.toils (ht : b.Tidies b') : b.Toils b' :=
  ⟨ht.length, ht.onward, fun h => by rw [ht.stays], fun h => by rw [ht.stays], ht.registries,
    ht.coordinators, ht.signal⟩

/-- Nobody but the worker and the screen matters. -/
theorem toils_of_handlers (hh : b'.handlers = b.handlers) (hr : b'.registries = b.registries)
    (hc : b'.coordinators = b.coordinators) (hs : b'.signal = b.signal) : b.Toils b' := by
  have hphase : ∀ x, b'.phase x = b.phase x := fun x => by rw [phase, handler, hh]; rfl
  exact ⟨by rw [hh], onward_of_handlers hh, fun x => by rw [hphase], fun x => by rw [hphase], hr,
    hc, hs⟩

/-- A handler whose attempt is under way is being registered, unless it is over. -/
theorem Jobs.initializing (hj : b.Jobs) {a : Attempt} (hi : b.inside? s = some a)
    (hp : b.phase a.handler ≠ .unregistered) : b.phase a.handler = .initializing :=
  (hj.waiting (.inr ⟨s, a, hi, rfl⟩)).resolve_right hp

/-- When an attempt is over its handler is live, unless it is over as well. -/
theorem phase_resolved (hlt : h < b.handlers.length) (x : HandlerId) : (b.resolved s h).phase x =
    if x = h ∧ b.phase h ≠ .unregistered then .live else b.phase x := by
  rw [phase]
  by_cases hx : x = h
  · rw [hx, handler_resolved_self hlt]
    by_cases hp : b.phase h = .unregistered
    · rw [if_pos hp, if_neg fun hc => hc.2 hp, phase]
    · rw [if_neg hp, if_pos ⟨rfl, hp⟩]
  · rw [handler_resolved hx, if_neg fun hc => hx hc.1, phase]

/-- A worker may resolve the attempt inside which it stands. -/
theorem toils_resolved (hj : b.Jobs) {a : Attempt} (hi : b.inside? s = some a) :
    b.Toils (b.resolved s a.handler) := by
  have hlt : a.handler < b.handlers.length := hj.known (.inl (.inr ⟨s, a, hi, rfl⟩))
  have hphase := phase_resolved (s := s) hlt
  have hkeeps : ∀ {p : Phase}, p ≠ .live → p ≠ .initializing → ∀ x,
      (b.resolved s a.handler).phase x = p ↔ b.phase x = p := by
    intro p hl hn x
    rw [hphase]
    split
    · rename_i hx
      rw [hx.1, hj.initializing hi hx.2]
      exact ⟨fun h => absurd h.symm hl, fun h => absurd h.symm hn⟩
    · exact .rfl
  refine ⟨length_resolved, ?_, hkeeps Phase.noConfusion Phase.noConfusion,
    hkeeps Phase.noConfusion Phase.noConfusion, ?_, ?_, ?_⟩
  · have hsame : b.Onward (b.noted s a.handler) := onward_of_handlers rfl
    unfold resolved
    split
    · exact hsame.trans (sameButToasts_releaseToast _).onward
    · rename_i hp
      refine hsame.trans (onward_update rfl rfl rfl ?_)
      change (b.phase a.handler).LeadsTo .live
      rw [hj.initializing hi hp]
      exact Phase.initializing_leadsTo Phase.noConfusion
  all_goals unfold resolved; split
  · exact (sameButToasts_releaseToast _).registries
  · rfl
  · exact (sameButToasts_releaseToast _).coordinators
  · rfl
  · exact (tidies_releaseToast (b := b.noted s a.handler) _).signal
  · rfl

/-- A step of the worker of a steady board. -/
theorem Steady.toils (hb : b.Steady s) (hj : b.Jobs) : b.Toils (b.work s) := by
  have hworks := hb.works hj
  generalize b.work s = b' at hworks
  cases hworks with
  | idle => exact .refl b
  | skipped hi hjobs hp htidies =>
    have hdequeued : b.Toils (b.dequeued s) := toils_of_handlers rfl rfl rfl rfl
    exact hdequeued.trans htidies.toils
  | entered hi hjobs hp => exact toils_of_handlers rfl rfl rfl rfl
  | finished hi htidies => exact (toils_resolved hj hi).trans htidies.toils

/-- A step of the worker leaves handlers in their phases, or lets the one that was being registered
go live. -/
theorem Steady.moves (hb : b.Steady s) (hj : b.Jobs) :
    (∀ x, (b.work s).phase x = b.phase x) ∨ ∃ h, b.phase h = .initializing ∧
      (b.work s).phase h = .live ∧ ∀ x ≠ h, (b.work s).phase x = b.phase x := by
  have hworks := hb.works hj
  generalize b.work s = b' at hworks
  cases hworks with
  | idle => exact .inl fun _ => rfl
  | skipped hi hjobs hp htidies => exact .inl htidies.stays
  | entered hi hjobs hp => exact .inl fun _ => rfl
  | @finished a _ hi htidies =>
    have hlt : a.handler < b.handlers.length := hj.known (.inl (.inr ⟨s, a, hi, rfl⟩))
    by_cases hp : b.phase a.handler = .unregistered
    · refine .inl fun x => ?_
      rw [htidies.stays, phase_resolved hlt, if_neg fun hc => hc.2 hp]
    · refine .inr ⟨a.handler, hj.initializing hi hp, ?_, fun x hx => ?_⟩
      · rw [htidies.stays, phase_resolved hlt, if_pos ⟨rfl, hp⟩]
      · rw [htidies.stays, phase_resolved hlt, if_neg fun hc => hx hc.1]

/-- When the worker has nothing to do, a handler that was submitted is live or over. -/
theorem Steady.final (hb : b.Steady s) (hidle : b.isIdle s = true) (hp : b.phase h ≠ .created) :
    b.phase h = .live ∨ b.phase h = .unregistered := by
  have hnothing : (b.station s).inside = none ∧ (b.station s).worker.queue = [] := by
    simpa [isIdle] using hidle
  cases hph : b.phase h with
  | live => exact .inl rfl
  | unregistered => exact .inr rfl
  | created => exact absurd hph hp
  | initFailed => exact absurd hph (hb.unfailed h)
  | initializing =>
    rcases hb.awaited h hph with hm | ⟨a, ha, -⟩
    · rw [jobs, hnothing.2] at hm
      cases hm
    · rw [inside?, hnothing.1] at ha
      cases ha

/-- A step of the worker leaves a board in order on which nothing is going to fail. -/
theorem Sound.work (hb : b.Sound false {} T) (hf : b.screen.faults = {}) :
    (b.work s).Sound false {} T := by
  unfold Board.work
  split
  · refine Sound.quietly (keeps_finish hb.around fun p hp => ?_)
    have hnone : (Deed.finish s).reports b = [] := by
      simp only [Deed.reports, hf]
      split <;> rfl
    rw [show (Board.around T b).board = b from rfl, hnone] at hp
    cases hp
  · exact hb.advance s

/-- How many steps a worker has before it at most. -/
def workload (s : StationId) (b : Board) : Nat :=
  2 * (b.jobs s).length + if (b.station s).inside.isSome then 1 else 0

/-- Some steps of a worker. -/
def workOff (s : StationId) : Nat → Board → Board
  | 0, b => b
  | n + 1, b => workOff s n (b.work s)

/-- A worker does what there is to do. -/
def flush (s : StationId) (b : Board) : Board := workOff s (b.workload s) b

/-- A station with nothing to do is idle. -/
theorem isIdle_of_workload (hb : b.Steady s) (h0 : b.workload s = 0) : b.isIdle s = true := by
  have hjobs : b.jobs s = [] := List.eq_nil_of_length_eq_zero (by unfold workload at h0; omega)
  have hinside : (b.station s).inside = none := by
    cases hi : (b.station s).inside with
    | none => rfl
    | some i =>
      rw [workload, hi] at h0
      simp at h0
  have hqueue := hb.queue
  rw [hjobs] at hqueue
  rw [isIdle, hinside, hqueue]
  rfl

/-- With each step there is less to do. -/
theorem workload_work (hb : b.Steady s) (hj : b.Jobs) :
    (b.work s).workload s ≤ b.workload s - 1 := by
  have hworks := hb.works hj
  generalize b.work s = b' at hworks
  cases hworks with
  | idle hi hjobs => simp [workload, hi, hjobs]
  | @skipped h rest _ hi hjobs hp htidies =>
    have hstation : b'.station s = (b.dequeued s).station s := by
      rw [station, htidies.stations, station]
    have hrest : b'.jobs s = rest := by
      rw [jobs, hstation]
      exact hb.jobs_dequeued hjobs
    rw [workload, workload, hrest, hstation, hb.station_dequeued hjobs, hi, hjobs]
    simp
    omega
  | @entered h rest hi hjobs hp =>
    obtain ⟨a, -, -, -, hstation⟩ := hb.beginAttempt hjobs
    have hrest : ((b.dequeued s).beginAttempt s h).jobs s = rest := by
      rw [jobs, hstation]
      exact List.flatMap_map .. |>.trans (List.flatMap_singleton' rest)
    rw [workload, workload, hrest, hstation, hi, hjobs]
    simp
    omega
  | @finished a _ hi htidies =>
    have hstation : b'.station s = { b.station s with inside := none } := by
      rw [station, htidies.stations]
      exact station_resolved hb.lt_stations
    have hjobs : b'.jobs s = b.jobs s := by
      rw [jobs, hstation]
      rfl
    have hsome : (b.station s).inside.isSome = true := by
      rw [inside?] at hi
      cases hin : (b.station s).inside with
      | none =>
        rw [hin] at hi
        cases hi
      | some i => rfl
    rw [workload, workload, hjobs, hstation, hsome]
    simp

/-- In the end there is nothing to do. -/
theorem isIdle_workOff {n : Nat} (hs : b.Sound false {} T) (hb : b.Steady s)
    (hn : b.workload s ≤ n) : (workOff s n b).isIdle s = true := by
  induction n generalizing b with
  | zero => exact isIdle_of_workload hb (Nat.le_zero.mp hn)
  | succ n ih =>
    have hless := workload_work hb hs.jobs
    exact ih (hs.work hb.faults) (hb.work hs.jobs) (by omega)

/-- What each step of a worker keeps is kept until there is nothing to do. -/
theorem workOff_induction {P : Board → Prop} (hstep : ∀ b, P b → P (b.work s)) (n : Nat)
    (hb : P b) : P (workOff s n b) := by
  induction n generalizing b with
  | zero => exact hb
  | succ n ih => exact ih (hstep b hb)

/-- What a worker leaves once it has done what there is to do. -/
theorem flushed (hs : b.Sound false {} T) (hb : b.Steady s) : (b.flush s).Sound false {} T ∧
    (b.flush s).Steady s ∧ b.Toils (b.flush s) ∧ (b.flush s).isIdle s = true := by
  have hkept : (b.flush s).Sound false {} T ∧ (b.flush s).Steady s ∧ b.Toils (b.flush s) :=
    workOff_induction (P := fun d => d.Sound false {} T ∧ d.Steady s ∧ b.Toils d)
      (fun d ⟨hs, hb, ht⟩ => ⟨hs.work hb.faults, hb.work hs.jobs, ht.trans (hb.toils hs.jobs)⟩) _
      ⟨hs, hb, .refl b⟩
  exact ⟨hkept.1, hkept.2.1, hkept.2.2, isIdle_workOff hs hb (Nat.le_refl _)⟩

end Board

end ToastBoard
