import ToastBoard.Proofs.Agreement
import ToastBoard.Proofs.Books
import ToastBoard.Proofs.Notices
import ToastBoard.Proofs.Toasts

/-!
# Boards in order

Everything that holds of a board whenever somebody outside may act, taken together, and how each
small change of a board keeps it. In the middle of a step some of it is out of order for a moment;
what that is, is written down as slack, and a step is over when there is none.
-/

namespace ToastBoard

/-- What is out of order in the middle of a step. -/
structure Slack where
  /-- A handler that does not agree with its registry. -/
  unsettled : Option HandlerId := none
  /-- A handler that has a toast to release without being live. -/
  refused : Option HandlerId := none
  /-- A toast that has no handler yet. -/
  loose : Option ToastId := none
  /-- Handlers to which perhaps nothing refers any more. -/
  doubtful : List HandlerId := []
  /-- A handler whose job was just taken. -/
  taken : Option HandlerId := none

/-- What people and computations have, and what was reported. -/
structure Terms where
  /-- Who is held, once for each holder. -/
  holders : List HandlerId
  /-- Which registries are owned, once for each owner but coordinators. -/
  owners : List RegistryId
  /-- Which coordinators computations own, once for each. -/
  coords : List CoordinatorId
  /-- Which coordinators people own, once for each owner. -/
  founders : List CoordinatorId
  /-- Who was taken out and is about to end. -/
  ending : List HandlerId
  /-- What the screen has reported. -/
  reported : List (HandlerId × Outcome)

namespace Board

variable {b b' : Board} {h : HandlerId}

theorem refersTo_of_held (hh : h ∈ b.held) : b.refersTo h = true := refersTo_iff.mpr (.inl hh)

theorem refersTo_of_entry (r : RegistryId) (name : String)
    (he : (name, h) ∈ (b.registry r).entries) : b.refersTo h = true :=
  refersTo_iff.mpr (.inr (.inl ⟨r, Registry.mem_handlers.mpr ⟨name, he⟩⟩))

theorem refersTo_of_busy (hb : b.Busy h) : b.refersTo h = true :=
  refersTo_iff.mpr (.inr (.inr hb))

theorem refersTo_of_job {s : StationId} (hj : h ∈ b.jobs s) : b.refersTo h = true :=
  refersTo_of_busy (.inl ⟨s, hj⟩)

theorem refersTo_of_inside {s : StationId} {a : Attempt} (hi : b.inside? s = some a)
    (ha : a.handler = h) : b.refersTo h = true :=
  refersTo_of_busy (.inr ⟨s, a, hi, ha⟩)

/-- References stay where stations do and others are made up for. -/
theorem refersTo_mono (hr : b.refersTo h = true) (hheld : h ∈ b.held → b'.refersTo h = true)
    (hentry : ∀ {r name}, (name, h) ∈ (b.registry r).entries → b'.refersTo h = true)
    (hs : b'.stations = b.stations) (ha : b'.screen.attempts = b.screen.attempts) :
    b'.refersTo h = true := by
  have hstation : ∀ s, b'.station s = b.station s := fun s => by rw [station, station, hs]
  rcases refersTo_iff.mp hr with h1 | ⟨r, h1⟩ | ⟨s, h1⟩ | ⟨s, a, h1, h2⟩
  · exact hheld h1
  · obtain ⟨name, he⟩ := Registry.mem_handlers.mp h1
    exact hentry he
  · refine refersTo_of_job (s := s) ?_
    rw [jobs, hstation]
    exact h1
  · refine refersTo_of_inside (s := s) ?_ h2
    rw [inside?, hstation, ha]
    exact h1

/-- Boards that are the same but for toasts refer to the same handlers. -/
theorem SameButToasts.refersTo (ha : b.SameButToasts b') (h : HandlerId) :
    b'.refersTo h = b.refersTo h := by
  simp only [Board.refersTo, stationHandlers, ha.held, ha.registries, ha.stations, ha.attempts]

/-- A board in order, but for some slack. Where only coordinators work on it, registries and
handlers agree as well. -/
structure Sound (strict : Bool) (k : Slack) (T : Terms) (b : Board) : Prop where
  /-- Each handler has one job at most. -/
  jobs : b.Jobs
  /-- Each toast is released once. -/
  toasts : b.Toasts k.refused k.loose k.doubtful
  /-- Notices come in order. -/
  notices : b.Notices T.reported
  /-- Holders and owners are written down. -/
  books : b.Books T.holders T.owners (T.coords ++ T.founders)
  /-- There is one entry at most to a name. -/
  tables : ∀ r, (b.registry r).OnePerName
  /-- What computations own people own as well. -/
  founded : strict = true → ∀ c ∈ T.coords, c ∈ T.founders
  /-- Registries and handlers agree. -/
  agreed : strict = true → b.Agreed T.founders T.ending k.unsettled
  /-- Who is initializing is awaited. -/
  prospects : strict = true → b.Prospects k.taken

variable {strict : Bool} {k k' : Slack} {T T' : Terms}

/-- Where it does not matter who is about to end or who is unsettled, it may be anybody. -/
theorem Sound.free (hb : b.Sound false k T) {ending : List HandlerId} {unsettled : Option HandlerId}
    {taken : Option HandlerId} :
    b.Sound false { k with unsettled, taken } { T with ending } :=
  ⟨hb.jobs, hb.toasts, hb.notices, hb.books, hb.tables, fun hc => Bool.noConfusion hc,
    fun hc => Bool.noConfusion hc, fun hc => Bool.noConfusion hc⟩

/-- The order of holders and owners does not matter, and more may be reported. -/
theorem Sound.perm (hb : b.Sound strict k T) (hh : T.holders.Perm T'.holders)
    (ho : T.owners.Perm T'.owners) (hc : (T.coords ++ T.founders).Perm (T'.coords ++ T'.founders))
    (hf : strict = true → (∀ c ∈ T.founders, c ∈ T'.founders) ∧ ∀ c ∈ T'.coords, c ∈ T.coords)
    (he : T'.ending = T.ending)
    (hr : ∀ p ∈ T.reported, p ∈ T'.reported) : b.Sound strict k T' where
  jobs := hb.jobs
  toasts := hb.toasts
  notices := hb.notices.same rfl rfl hr
  books := hb.books.perm hh ho hc
  tables := hb.tables
  founded hs c hc := (hf hs).1 c (hb.founded hs c ((hf hs).2 c hc))
  agreed hs := by
    rw [he]
    exact (hb.agreed hs).found (hf hs).1
  prospects := hb.prospects

/-- Order is kept by a change on the screen that keeps toasts in order. -/
theorem Sound.sameButToasts (hb : b.Sound strict k T) (ha : b.SameButToasts b')
    (ht : b'.Toasts k'.refused k'.loose k'.doubtful) (hu : k'.unsettled = k.unsettled)
    (hk : k'.taken = k.taken) : b'.Sound strict k' T where
  jobs := hb.jobs.of_phases (fun s => by rw [Board.jobs, Board.jobs, station, station, ha.stations])
    (fun s => by rw [station, station, ha.stations]) ha.attempts (Nat.le_of_eq ha.length.symm)
    fun x _ => .inl (ha.phase x)
  toasts := ht
  notices := hb.notices.sameButToasts ha
  books := hb.books.sameButToasts ha
  tables r := by
    have hr : b'.registry r = b.registry r := by rw [registry, registry, ha.registries]
    rw [hr]
    exact hb.tables r
  founded := hb.founded
  agreed hs := by
    rw [hu]
    exact (hb.agreed hs).phases ha.length (fun x => (ha.handler x).fields)
      (fun x => (ha.handler x).registry) ha.registries ha.coordinators
      fun x hx => .inl ⟨hx, ha.phase x⟩
  prospects hs := by
    rw [hk]
    refine (hb.prospects hs).frame (fun x _ => (ha.handler x).registry) ?_ (by rw [ha.registries])
      ha.coordinators ha.stations ha.attempts
    intro x hx ht
    rw [ha.phase] at hx
    exact ⟨hx, ht⟩

/-- Order is kept where nothing changes but what is going to go wrong, or who observes the
signal. -/
theorem Sound.same (hb : b.Sound strict k T) (hh : b'.handlers = b.handlers)
    (ha : b.SameButToasts b') (ht : b'.screen.toasts = b.screen.toasts) : b'.Sound strict k T := by
  have hhandler : ∀ x, b'.handler x = b.handler x := fun x => by rw [handler, handler, hh]
  refine hb.sameButToasts ha ?_ rfl rfl
  refine hb.toasts.of_refs ht (fun x => by rw [hhandler]) (fun x _ => by rw [hhandler])
    (fun x _ hu => ⟨hu, ha.phase x⟩) ?_ ?_
  · intro x hx hd
    rw [ha.refersTo]
    obtain ⟨id, hid⟩ := Option.ne_none_iff_exists'.mp hx
    exact hb.toasts.referred hid hd
  · intro x h1 h2
    rw [ha.phase] at h1
    rw [ha.refersTo] at h2
    exact ⟨h1, h2⟩

/-- Where there is a doubt about a handler, it is settled by giving up what nobody needs. -/
theorem Sound.reap (hb : b.Sound strict { k with doubtful := h :: k.doubtful } T) :
    (b.reap h).Sound strict k T :=
  hb.sameButToasts (sameButToasts_reap h) hb.toasts.reap rfl rfl

theorem Sound.reapAll {hs : List HandlerId}
    (hb : b.Sound strict { k with doubtful := hs ++ k.doubtful } T) :
    (hs.foldl Board.reap b).Sound strict k T :=
  hb.sameButToasts (sameButToasts_reapAll hs) hb.toasts.reapAll rfl rfl

/-- Order is kept where only references and owners change: no reference to a handler is lost
without a doubt, and none is found to a live handler that had none. -/
theorem Sound.refer (hb : b.Sound strict k T) (hh : b'.handlers = b.handlers)
    (ht : b'.told = b.told) (hs : b'.stations = b.stations) (hsc : b'.screen = b.screen)
    (hr : T'.reported = T.reported) (hrefused : k'.refused = k.refused)
    (hloose : k'.loose = k.loose) (htaken : k'.taken = k.taken)
    (hbooks : b'.Books T'.holders T'.owners (T'.coords ++ T'.founders))
    (htables : ∀ r, (b'.registry r).OnePerName)
    (hfounded : strict = true → ∀ c ∈ T'.coords, c ∈ T'.founders)
    (hagreed : strict = true → b'.Agreed T'.founders T'.ending k'.unsettled)
    (hdoubt : ∀ x ∈ k.doubtful, x ∈ k'.doubtful)
    (hkeep : ∀ x, x ∉ k'.doubtful → b.refersTo x = true → b'.refersTo x = true)
    (hnew : ∀ x, b.phase x = .live → b'.refersTo x = true → b.refersTo x = true)
    (hn : b.coordinators.length ≤ b'.coordinators.length)
    (hc : ∀ c < b.coordinators.length, (b'.coordinator c).registry = (b.coordinator c).registry ∧
      (b'.coordinator c).station = (b.coordinator c).station) : b'.Sound strict k' T' := by
  have hhandler : ∀ x, b'.handler x = b.handler x := fun x => by rw [handler, handler, hh]
  have hphase : ∀ x, b'.phase x = b.phase x := fun x => by rw [phase, phase, hhandler]
  constructor
  · exact hb.jobs.of_phases (fun s => by rw [Board.jobs, Board.jobs, station, station, hs])
      (fun s => by rw [station, station, hs]) (by rw [hsc]) (Nat.le_of_eq (by rw [hh]))
      fun x _ => .inl (hphase x)
  · rw [hrefused, hloose]
    refine hb.toasts.of_refs (by rw [hsc]) (fun x => by rw [hhandler]) (fun x _ => by rw [hhandler])
      (fun x _ hu => ⟨hu, hphase x⟩) ?_ ?_
    · intro x hx hd
      obtain ⟨id, hid⟩ := Option.ne_none_iff_exists'.mp hx
      exact hkeep x hd (hb.toasts.referred hid fun hm => hd (hdoubt x hm))
    · intro x h1 h2
      rw [hphase] at h1
      exact ⟨h1, hnew x h1 h2⟩
  · rw [hr]
    exact hb.notices.same ht hh fun _ => id
  · exact hbooks
  · exact htables
  · exact hfounded
  · exact hagreed
  · intro hstrict
    rw [htaken]
    refine (hb.prospects hstrict).of (fun x _ => by rw [hhandler]) hn hc ?_
    intro x hx ht
    rw [hphase] at hx
    exact ⟨hx, ht, fun s hw => hw.frame hs (by rw [hsc])⟩

/-- Order is kept where only stations change: no handler loses its job without a doubt or something
else that refers to it. -/
theorem Sound.restation (hb : b.Sound strict k T) (hh : b'.handlers = b.handlers)
    (ht : b'.told = b.told) (hr : b'.registries = b.registries)
    (hc : b'.coordinators = b.coordinators) (hheld : b'.held = b.held)
    (htoasts : b'.screen.toasts = b.screen.toasts) (hu : k'.unsettled = k.unsettled)
    (hrefused : k'.refused = k.refused) (hloose : k'.loose = k.loose) (hjobs : b'.Jobs)
    (hprospects : strict = true → b'.Prospects k'.taken)
    (hdoubt : ∀ x ∈ k.doubtful, x ∈ k'.doubtful)
    (hkeep : ∀ x, x ∉ k'.doubtful → b.Busy x → b'.refersTo x = true)
    (hnew : ∀ x, b.phase x = .live → b'.Busy x → b.refersTo x = true) : b'.Sound strict k' T := by
  have hhandler : ∀ x, b'.handler x = b.handler x := fun x => by rw [handler, handler, hh]
  have hphase : ∀ x, b'.phase x = b.phase x := fun x => by rw [phase, phase, hhandler]
  have hregistry : ∀ r, b'.registry r = b.registry r := fun r => by rw [registry, registry, hr]
  refine ⟨hjobs, ?_, hb.notices.same ht hh fun _ => id,
    hb.books.frame (by rw [hheld]; exact hb.books.held) hr hc, ?_, hb.founded, ?_, hprospects⟩
  · rw [hrefused, hloose]
    refine hb.toasts.of_refs htoasts (fun x => by rw [hhandler]) (fun x _ => by rw [hhandler])
      (fun x _ hx => ⟨hx, hphase x⟩) ?_ ?_
    · intro x hx hd
      obtain ⟨id, hid⟩ := Option.ne_none_iff_exists'.mp hx
      rcases refersTo_iff.mp (hb.toasts.referred hid fun hm => hd (hdoubt x hm)) with h1 | h1 | h1
      · exact refersTo_of_held (by rw [hheld]; exact h1)
      · refine refersTo_iff.mpr (.inr (.inl ?_))
        simpa only [hregistry] using h1
      · exact hkeep x hd h1
    · intro x h1 h2
      rw [hphase] at h1
      refine ⟨h1, ?_⟩
      rcases refersTo_iff.mp h2 with h2 | h2 | h2
      · exact refersTo_of_held (by rw [← hheld]; exact h2)
      · refine refersTo_iff.mpr (.inr (.inl ?_))
        simpa only [hregistry] using h2
      · exact hnew x h1 h2
  · intro r
    rw [hregistry]
    exact hb.tables r
  · intro hs
    rw [hu]
    exact (hb.agreed hs).frame hh (fun c _ => registry_coordinator hc (by rw [hr]) c)
      fun r => by rw [hregistry]

/-- Somebody takes a hold on a handler that exists or is not live. -/
theorem Sound.hold (hb : b.Sound strict k T) (hr : b.phase h = .live → b.refersTo h = true) :
    (b.hold h).Sound strict k { T with holders := h :: T.holders } := by
  refine hb.refer rfl rfl rfl rfl rfl rfl rfl rfl
    (hb.books.frame (hb.books.held.cons h) rfl rfl) hb.tables hb.founded
    (fun hs => (hb.agreed hs).frame rfl (fun _ _ => rfl) fun _ => rfl) (fun _ => id) ?_ ?_
    (Nat.le_refl _) fun _ _ => ⟨rfl, rfl⟩
  · intro x _ hx
    exact refersTo_mono hx (fun hm => refersTo_of_held (List.mem_cons_of_mem _ hm))
      (fun he => refersTo_of_entry _ _ he) rfl rfl
  · intro x hp hx
    by_cases he : x = h
    · subst he
      exact hr hp
    · exact refersTo_mono hx
        (fun hm => refersTo_of_held ((List.mem_cons.mp hm).resolve_left he))
        (fun he => refersTo_of_entry _ _ he) rfl rfl

/-- Somebody gives back a hold on a handler. -/
theorem Sound.letGo (hb : b.Sound strict k { T with holders := h :: T.holders }) :
    (b.letGo h).Sound strict k T := by
  have hheld : (b.held.erase h).Perm T.holders := by
    have hp := hb.books.held.erase h
    rwa [List.erase_cons_head] at hp
  have hgone : { b with held := b.held.erase h }.Sound strict
      { k with doubtful := h :: k.doubtful } T := by
    refine hb.refer rfl rfl rfl rfl rfl rfl rfl rfl (hb.books.frame hheld rfl rfl) hb.tables
      hb.founded (fun hs => (hb.agreed hs).frame rfl (fun _ _ => rfl) fun _ => rfl)
      (fun x hx => List.mem_cons_of_mem _ hx) ?_ ?_ (Nat.le_refl _) fun _ _ => ⟨rfl, rfl⟩
    · intro x hd hx
      have hne : x ≠ h := fun hc => hd (by simp [hc])
      exact refersTo_mono hx
        (fun hm => refersTo_of_held ((List.mem_erase_of_ne hne).mpr hm))
        (fun he => refersTo_of_entry _ _ he) rfl rfl
    · intro x _ hx
      exact refersTo_mono hx (fun hm => refersTo_of_held (List.mem_of_mem_erase hm))
        (fun he => refersTo_of_entry _ _ he) rfl rfl
  exact hgone.reap

/-- Somebody gives back holds on some handlers. -/
theorem Sound.letGoAll {hs : List HandlerId}
    (hb : b.Sound strict k { T with holders := hs ++ T.holders }) :
    (b.letGoAll hs).Sound strict k T := by
  induction hs generalizing b with
  | nil => exact hb
  | cons h hs ih =>
    rw [Board.letGoAll, List.foldl_cons]
    exact ih (Sound.letGo (T := { T with holders := hs ++ T.holders }) hb)

end Board

end ToastBoard
