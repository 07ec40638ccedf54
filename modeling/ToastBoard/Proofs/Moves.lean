import ToastBoard.Proofs.Stations

/-!
# Order while handlers move on

How a handler is made, submitted, becomes live, is refused and ends, while the board stays in order.
Becoming live and ending come together with what the listener is told about it.
-/

namespace ToastBoard.Board

variable {b b' : Board} {h : HandlerId} {s : StationId} {strict : Bool} {k : Slack} {T : Terms}
  {toast : ToastId} {f : Handler → Handler}

/-- More was told, which only notices are about. -/
theorem Sound.retell {told : List Telling} (hjobs : b.Jobs)
    (htoasts : b.Toasts k.refused k.loose k.doubtful)
    (hbooks : b.Books T.holders T.owners (T.coords ++ T.founders))
    (htables : ∀ r, (b.registry r).OnePerName)
    (hfounded : strict = true → ∀ c ∈ T.coords, c ∈ T.founders)
    (hagreed : strict = true → b.Agreed T.founders T.ending k.unsettled)
    (hprospects : strict = true → b.Prospects k.taken)
    (hn : { b with told }.Notices T.reported) : { b with told }.Sound strict k T where
  jobs := hjobs.of_phases (fun _ => rfl) (fun _ => rfl) rfl (Nat.le_refl _) fun _ _ => .inl rfl
  toasts := htoasts.of_refs rfl (fun _ => rfl) (fun _ _ => rfl) (fun _ _ hu => ⟨hu, rfl⟩)
    (fun x hx hd => by
      obtain ⟨id, hid⟩ := Option.ne_none_iff_exists'.mp hx
      exact htoasts.referred hid hd)
    fun _ h1 h2 => ⟨h1, h2⟩
  notices := hn
  books := hbooks.frame hbooks.held rfl rfl
  tables := htables
  founded := hfounded
  agreed hs := (hagreed hs).frame rfl (fun _ _ => rfl) fun _ => rfl
  prospects hs := (hprospects hs).frame (fun _ _ => rfl) (fun _ h1 h2 => ⟨h1, h2⟩) rfl rfl rfl rfl

/-- Handlers that are over need not be about to end. -/
theorem Sound.drop {ending : List HandlerId} (hb : b.Sound strict k T)
    (hs : ∀ x ∈ ending, x ∈ T.ending)
    (ho : ∀ x ∈ T.ending, x ∈ ending ∨ b.phase x = .unregistered) :
    b.Sound strict k { T with ending } :=
  ⟨hb.jobs, hb.toasts, hb.notices, hb.books, hb.tables, hb.founded,
    fun hstrict => (hb.agreed hstrict).drop hs ho, hb.prospects⟩

/-- A handler whose job was taken needs no prospect once it is not initializing. -/
theorem Sound.done (hb : b.Sound strict { k with taken := some h } T)
    (hp : b.phase h ≠ .initializing) : b.Sound strict { k with taken := none } T := by
  refine ⟨hb.jobs, hb.toasts, hb.notices, hb.books, hb.tables, hb.founded, hb.agreed, ?_⟩
  intro hs x hx _
  refine hb.prospects hs x hx ?_
  intro hc
  cases hc
  exact hp hx

/-- Nothing changes but what the screen is going to do. -/
theorem Sound.arm (hb : b.Sound strict k T) (faults : Faults) :
    { b with screen := { b.screen with faults } }.Sound strict k T :=
  hb.same rfl ⟨fun _ => .refl _, rfl, rfl, rfl, rfl, rfl, rfl, rfl⟩ rfl

/-- What the screen reports while a handler is being registered is kept for later. -/
theorem Sound.defer (hb : b.Sound strict k T) {o : Outcome} (ho : (h, o) ∈ T.reported) :
    (b.update h fun hd => hd.deferred o).Sound strict k T := by
  have hdeferred : ∀ hd : Handler, hd.deferred o = { hd with pending := (hd.deferred o).pending } ∧
      ∀ p, (hd.deferred o).pending = some p → hd.pending = some p ∨ p = o := by
    intro hd
    unfold Handler.deferred
    split
    · rename_i hn
      exact ⟨rfl, fun p he => .inr (Option.some.inj he).symm⟩
    · exact ⟨rfl, fun p he => .inl he⟩
  have hsame : ∀ x, (b.update h fun hd => hd.deferred o).handler x = { b.handler x with
      pending := ((b.update h fun hd => hd.deferred o).handler x).pending } := by
    intro x
    rw [handler_update]
    split
    · exact (hdeferred _).1
    · rfl
  have hphase : ∀ x, (b.update h fun hd => hd.deferred o).phase x = b.phase x := by
    intro x
    rw [phase, hsame]
    rfl
  refine ⟨hb.jobs.update (.inl (by rw [(hdeferred _).1]; rfl)), ?_, ?_,
    hb.books.frame hb.books.held rfl rfl, hb.tables, hb.founded, ?_, ?_⟩
  · refine hb.toasts.of_refs rfl (fun x => by rw [hsame]) (fun x _ => by rw [hsame])
      (fun x _ hu => ⟨hu, hphase x⟩) ?_ fun x h1 h2 => ⟨by rw [← hphase]; exact h1, h2⟩
    intro x hx hd
    obtain ⟨id, hid⟩ := Option.ne_none_iff_exists'.mp hx
    exact hb.toasts.referred hid hd
  · refine hb.notices.frame rfl (fun x => by rw [hsame]) (fun x => by rw [hsame])
      (fun x => .inl (hphase x)) ?_ fun _ => id
    intro x p hx
    rw [handler_update] at hx
    split at hx
    · rename_i he
      rcases (hdeferred _).2 p hx with h1 | rfl
      · exact .inl h1
      · exact .inr (by rw [he.1]; exact ho)
    · exact .inl hx
  · intro hs
    exact (hb.agreed hs).phases (length_update ..) (fun x => by rw [hsame]) (fun x => by rw [hsame])
      rfl rfl fun x hx => .inl ⟨hx, hphase x⟩
  · intro hs
    exact (hb.prospects hs).frame (fun x _ => by rw [hsame])
      (fun x h1 h2 => ⟨by rw [← hphase]; exact h1, h2⟩) rfl rfl rfl rfl

/-- Jobs stay in order when a handler is made. -/
theorem Jobs.create (hb : b.Jobs) (hd : Handler) : (b.create hd).2.Jobs := by
  refine hb.of_phases (fun _ => rfl) (fun _ => rfl) rfl ?_
    fun x hx => .inl (phase_create_of_ne (Nat.ne_of_lt hx) hd)
  rw [length_create]
  exact Nat.le_succ _

/-- Toasts stay in order when a handler is made that has none and is not live. -/
theorem Toasts.create {unsettled : Option HandlerId} {loose : Option ToastId}
    {doubtful : List HandlerId} (hb : b.Toasts unsettled loose doubtful) {hd : Handler}
    (hp : hd.phase ≠ .live) (hr : hd.registration = none) :
    (b.create hd).2.Toasts unsettled loose doubtful := by
  have hmade : ∀ {x}, (b.handler x).registration ≠ none → x ≠ b.handlers.length := by
    rintro x hx rfl
    obtain ⟨id, hid⟩ := Option.ne_none_iff_exists'.mp hx
    exact Nat.lt_irrefl _ (lt_of_registration hid)
  refine hb.of_refs rfl ?_ (fun x hx => by rw [handler_create_of_ne (hmade hx)])
    (fun x hx hu => ⟨hu, phase_create_of_ne (hmade hx) hd⟩) ?_ ?_
  · intro x
    rw [handler_create]
    split
    · rename_i he
      rw [hr, he, handler_of_le (Nat.le_refl _)]
      rfl
    · rfl
  · intro x hx hdoubt
    obtain ⟨id, hid⟩ := Option.ne_none_iff_exists'.mp hx
    exact refersTo_mono (hb.referred hid hdoubt)
      (fun hm => refersTo_of_held (List.mem_cons_of_mem _ hm))
      (fun he => refersTo_of_entry _ _ he) rfl rfl
  · intro x h1 h2
    have hx : x ≠ b.handlers.length := by
      rintro rfl
      exact hp (phase_create_self b hd ▸ h1)
    rw [phase_create_of_ne hx] at h1
    refine ⟨h1, refersTo_mono h2 ?_ (fun he => refersTo_of_entry _ _ he) rfl rfl⟩
    intro hm
    exact refersTo_of_held ((List.mem_cons.mp hm).resolve_left hx)

/-- Whoever is awaited is so when a handler is made that is not initializing. -/
theorem Prospects.create {taken : Option HandlerId} (hb : b.Prospects taken) {hd : Handler}
    (hp : hd.phase ≠ .initializing) : (b.create hd).2.Prospects taken := by
  refine hb.frame ?_ ?_ rfl rfl rfl rfl
  · intro x hi
    have hlt : x < b.handlers.length := lt_of_phase_ne (by rw [hi]; exact Phase.noConfusion)
    rw [handler_create_of_ne (Nat.ne_of_lt hlt)]
  · intro x h1 h2
    have hx : x ≠ b.handlers.length := by
      rintro rfl
      exact hp (phase_create_self b hd ▸ h1)
    rw [phase_create_of_ne hx] at h1
    exact ⟨h1, h2⟩

/-- A new handler is held by whoever made it, and not settled yet. -/
theorem Sound.create (hb : b.Sound strict k T) {hd : Handler} (hu : k.unsettled = none)
    (hp : hd.phase = .created) (hr : hd.registration = none) (ho : hd.pending = none)
    (hs : strict = true → ∃ c ∈ T.founders, hd.registry = some (b.coordinator c).registry) :
    (b.create hd).2.Sound strict { k with unsettled := some (b.create hd).1 }
      { T with holders := (b.create hd).1 :: T.holders } where
  jobs := hb.jobs.create hd
  toasts := hb.toasts.create (by rw [hp]; exact Phase.noConfusion) hr
  notices := hb.notices.create hp ho rfl rfl
  books := hb.books.frame (hb.books.held.cons _) rfl rfl
  tables := hb.tables
  founded := hb.founded
  agreed hstrict := by
    have ha := hb.agreed hstrict
    rw [hu] at ha
    exact ha.create (hs hstrict) rfl rfl rfl
  prospects hstrict := (hb.prospects hstrict).create (by rw [hp]; exact Phase.noConfusion)

/-- A handler that has no toast to release, is not live and is not over moves on without becoming
live. -/
theorem Sound.rephase (hb : b.Sound strict k T) {unsettled taken : Option HandlerId} {p : Phase}
    (hl : b.phase h ≠ .live) (hu : b.phase h ≠ .unregistered) (hp : p ≠ .live)
    (hr : (b.handler h).registration = none)
    (hjobs : p = .unregistered ∨ (¬b.Busy h ∧ p ≠ .created))
    (hagreed : strict = true → (b.setPhase h p).Agreed T.founders T.ending unsettled)
    (hprospects : strict = true → ∀ x ≠ h, some x ≠ taken → some x ≠ k.taken)
    (htaken : p = .initializing → taken = some h) :
    (b.setPhase h p).Sound strict { k with unsettled, taken } T := by
  have hsame := handler_setPhase b h (p := p)
  have hother : ∀ {x}, x ≠ h → (b.setPhase h p).phase x = b.phase x :=
    fun hx => phase_setPhase_of_ne hx p
  have hself : (b.setPhase h p).phase h = p := phase_setPhase (lt_of_phase_ne hu) p
  have hne : ∀ {x}, (b.handler x).registration ≠ none → x ≠ h := by
    rintro x hx rfl
    exact hx hr
  refine ⟨hb.jobs.update (.inr hjobs), ?_, ?_, hb.books.frame hb.books.held rfl rfl, hb.tables,
    hb.founded, hagreed, ?_⟩
  · refine hb.toasts.of_refs rfl (fun x => by rw [hsame]) (fun x _ => by rw [hsame])
      (fun x hx hu => ⟨hu, hother (hne hx)⟩) ?_ ?_
    · intro x hx hd
      obtain ⟨id, hid⟩ := Option.ne_none_iff_exists'.mp hx
      exact hb.toasts.referred hid hd
    · intro x h1 h2
      have hx : x ≠ h := by
        rintro rfl
        rw [hself] at h1
        exact hp h1
      exact ⟨by rw [← hother hx]; exact h1, h2⟩
  · refine hb.notices.frame rfl (fun x => by rw [hsame]) (fun x => by rw [hsame]) ?_
      (fun x o hx => .inl (by rw [hsame] at hx; exact hx)) fun _ => id
    intro x
    by_cases hx : x = h
    · subst hx
      exact .inr ⟨hl, hu, by rw [hself]; exact hp⟩
    · exact .inl (hother hx)
  · intro hs
    refine (hb.prospects hs).frame (fun x _ => by rw [hsame]) ?_ rfl rfl rfl rfl
    intro x h1 h2
    have hx : x ≠ h := by
      rintro rfl
      rw [hself] at h1
      exact h2 (htaken h1).symm
    rw [hother hx] at h1
    exact ⟨h1, hprospects hs x hx h2⟩

/-- Only live handlers have toasts to release, but for one that was refused. -/
theorem Sound.no_toast (hb : b.Sound strict k T) (hk : k.refused = none) (hp : b.phase h ≠ .live) :
    (b.handler h).registration = none := by
  by_contra hn
  obtain ⟨id, hid⟩ := Option.ne_none_iff_exists'.mp hn
  exact hp (hb.toasts.live hid (by rw [hk]; exact Option.some_ne_none _))

/-- A station that accepts a job was made. -/
theorem lt_of_dispatch {worker : Worker HandlerId}
    (hw : (b.station s).worker.dispatch h = .ok worker) : s < b.stations.length := by
  by_contra hlt
  have hn : b.stations[s]? = none := List.getElem?_eq_none (Nat.le_of_not_lt hlt)
  rw [station, List.getD_eq_getElem?_getD, hn] at hw
  cases hw

/-- A worker that takes a job puts it at the end of its queue. -/
theorem dispatch_eq {w worker : Worker HandlerId} (hw : w.dispatch h = .ok worker) :
    worker = { w with queue := w.queue ++ [.run h] } := by
  unfold Worker.dispatch Worker.send at hw
  split at hw
  · cases hw
  · split at hw
    · cases hw
    · cases hw
      rfl

/-- A handler that has just become initializing is queued at the station of its coordinator. -/
theorem Sound.enqueue (hb : b.Sound strict { k with taken := some h } T)
    {worker : Worker HandlerId} (hw : (b.station s).worker.dispatch h = .ok worker)
    (hbusy : ¬b.Busy h) (htried : h ∉ b.screen.attempts.map (·.handler))
    (hp : b.phase h = .initializing)
    (hs : strict = true → ∃ c < b.coordinators.length,
      (b.handler h).registry = some (b.coordinator c).registry ∧ (b.coordinator c).station = s) :
    (b.setWorker s worker).Sound strict { k with taken := none } T := by
  have hlt := lt_of_dispatch hw
  have hworker := dispatch_eq hw
  have hqueue : worker.queue.flatMap messageHandlers = b.jobs s ++ [h] := by
    rw [hworker]
    simp [Board.jobs, messageHandlers]
  have hn : b.Queues s h (b.setWorker s worker) := queues_updateStation hlt hqueue rfl
  refine hb.restation rfl rfl rfl rfl rfl rfl rfl rfl rfl
    (hn.keeps_jobs hb.jobs hbusy htried hp) ?_ (fun _ => id) ?_ ?_
  · intro hstrict x hx _
    have hothers : (b.setWorker s worker).Prospects (some h) := by
      refine (hb.prospects hstrict).of (fun _ _ => rfl) (Nat.le_refl _)
        (coordinator_of_lt (by rfl)) ?_
      intro y hy hyh
      refine ⟨hy, hyh, ?_⟩
      have hne : y ≠ h := fun hc => hyh (by rw [hc])
      refine fun t hw' => hw'.setWorker (by rw [hworker]) fun u => ?_
      rw [hn.mem_iff]
      exact or_iff_left fun hu => hne hu.2
    by_cases he : x = h
    · obtain ⟨c, hc, hreg, hst⟩ := hs hstrict
      obtain ⟨h1, h2⟩ : ((b.setWorker s worker).coordinator c).registry =
          (b.coordinator c).registry ∧ ((b.setWorker s worker).coordinator c).station =
            (b.coordinator c).station := coordinator_of_lt (by rfl) c hc
      refine ⟨c, hc, ?_, .inl ?_⟩
      · rw [h1, he]
        exact hreg
      · rw [h2]
        exact hn.mem_iff.mpr (.inr ⟨hst, he⟩)
    · exact hothers x hx fun hc => he (Option.some.inj hc)
  · exact fun x _ hx => refersTo_of_busy (hn.busy_iff.mpr (.inl hx))
  · intro x hl hx
    rcases hn.busy_iff.mp hx with hx | rfl
    · exact refersTo_of_busy hx
    · rw [hp] at hl
      cases hl

/-- A handler that stands under its name begins to be registered; its job is awaited then. -/
theorem Sound.initializing (hb : b.Sound strict k T) (hr : k.refused = none) (ht : k.taken = none)
    (hp : b.phase h = .created) {unsettled : Option HandlerId}
    (hs : strict = true → k.unsettled = some h ∧ b.Listed h)
    (hu : strict = true → unsettled = none ∨ unsettled = some h) :
    (b.setPhase h .initializing).Sound strict { k with unsettled, taken := some h } T := by
  have hne : ∀ {p : Phase}, p ≠ .created → b.phase h ≠ p := fun hpc he => hpc (he ▸ hp)
  have hfree := hb.jobs.not_busy (hne Phase.noConfusion) (hne Phase.noConfusion)
  have hself : (b.setPhase h .initializing).phase h = .initializing :=
    phase_setPhase (lt_of_phase_ne (hne Phase.noConfusion)) _
  refine hb.rephase (hne Phase.noConfusion) (hne Phase.noConfusion) Phase.noConfusion
    (hb.no_toast hr (hne Phase.noConfusion)) (.inr ⟨hfree, Phase.noConfusion⟩) (fun hstrict => ?_)
    (fun _ _ _ _ => ht ▸ Option.some_ne_none _) fun _ => rfl
  obtain ⟨hsome, hlisted⟩ := hs hstrict
  exact (hb.agreed hstrict).setPhase (fun x hx _ hc => hx (Option.some.inj (hc.trans hsome)))
    ((hu hstrict).symm.imp_right fun _ => ⟨.inl hself, hlisted⟩)

/-- A handler that was not queued, or no longer is, fails: it is unsettled then. -/
theorem Sound.failed (hb : b.Sound strict k T) (hr : k.refused = none)
    (hp : b.phase h = .initializing) (hfree : ¬b.Busy h) {unsettled : Option HandlerId}
    (hu : strict = true → unsettled = some h ∧ ∀ x ≠ h, some x ≠ k.unsettled)
    (ht : ∀ x ≠ h, some x ≠ k.taken) :
    (b.setPhase h .initFailed).Sound strict { k with unsettled, taken := none } T := by
  have hne : ∀ {p : Phase}, p ≠ .initializing → b.phase h ≠ p := fun hpc he => hpc (he ▸ hp)
  refine hb.rephase (hne Phase.noConfusion) (hne Phase.noConfusion) Phase.noConfusion
    (hb.no_toast hr (hne Phase.noConfusion)) (.inr ⟨hfree, Phase.noConfusion⟩) (fun hstrict => ?_)
    (fun _ x hx _ => ht x hx) Phase.noConfusion
  exact (hb.agreed hstrict).setPhase (fun x hx _ => (hu hstrict).2 x hx) (.inl (hu hstrict).1)

/-- A handler that is submitted is initializing and settled, if the worker takes it. Otherwise its
initialization has failed. -/
theorem Sound.submit (hb : b.Sound strict k T) (hr : k.refused = none) (ht : k.taken = none)
    (hp : b.phase h = .created)
    (hs : strict = true → k.unsettled = some h ∧ b.Listed h ∧ ∃ c < b.coordinators.length,
      (b.handler h).registry = some (b.coordinator c).registry ∧ (b.coordinator c).station = s) :
    ((b.submit s h).1 = .ok () ∧
      (b.submit s h).2.Sound strict { k with unsettled := none } T) ∨
    ((∃ e, (b.submit s h).1 = .error e) ∧ (b.submit s h).2.phase h = .initFailed ∧
      (b.submit s h).2.Sound strict k T) := by
  have hne : ∀ {p : Phase}, p ≠ .created → b.phase h ≠ p := fun hpc he => hpc (he ▸ hp)
  have hlt : h < b.handlers.length := lt_of_phase_ne (hne Phase.noConfusion)
  have hself : (b.setPhase h .initializing).phase h = .initializing := phase_setPhase hlt _
  have hfree : ¬(b.setPhase h .initializing).Busy h :=
    hb.jobs.not_busy (hne Phase.noConfusion) (hne Phase.noConfusion)
  have hstart : ∀ unsettled, (strict = true → unsettled = none ∨ unsettled = some h) →
      (b.setPhase h .initializing).Sound strict { k with unsettled, taken := some h } T :=
    fun _ => hb.initializing hr ht hp fun hstrict => ⟨(hs hstrict).1, (hs hstrict).2.1⟩
  unfold Board.submit
  rw [hp]
  simp only
  obtain ⟨unsettled, refused, loose, doubtful, taken⟩ := k
  cases ht
  split
  · rename_i worker hw
    refine .inl ⟨rfl, ?_⟩
    refine Sound.enqueue (k := { refused, loose, doubtful }) (hstart none fun _ => .inl rfl) hw
      hfree (fun hm => ?_) hself fun hstrict => ?_
    · obtain ⟨a, ha, he⟩ := List.mem_map.mp hm
      exact hb.jobs.submitted a ha (he ▸ hp)
    · obtain ⟨-, -, c, hc, hreg, hst⟩ := hs hstrict
      exact ⟨c, hc, by rw [handler_setPhase]; exact hreg, hst⟩
  · rename_i e hw
    have hfirst := hstart unsettled fun hstrict => .inr (hs hstrict).1
    refine .inr ⟨⟨e, rfl⟩, phase_setPhase (by rwa [setPhase, length_update]) _, ?_⟩
    refine hfirst.failed hr hself hfree (fun hstrict => ⟨(hs hstrict).1, fun x hx hc => ?_⟩)
      fun x hx hc => hx (Option.some.inj hc)
    exact hx (Option.some.inj (hc.trans (hs hstrict).1))

/-- What a handler that ends looks like. -/
theorem handler_retire (x : HandlerId) : (b.retire h).handler x =
    if x = h ∧ h < b.handlers.length then (b.handler x).retired else b.handler x := by
  rw [retire, handler_releaseToast, handler_update]

/-- A handler that ends is over. -/
theorem phase_retire (hp : b.phase h ≠ .unregistered) (x : HandlerId) :
    (b.retire h).phase x = if x = h then .unregistered else b.phase x := by
  rw [phase, handler_retire]
  by_cases hx : x = h
  · rw [if_pos ⟨hx, lt_of_phase_ne hp⟩, if_pos hx]
    rfl
  · rw [if_neg (fun hc => hx hc.1), if_neg hx]
    rfl

/-- An alert keeps its fields and its registry when a handler ends. -/
theorem same_retire (h x : HandlerId) : ((b.retire h).handler x).fields = (b.handler x).fields ∧
    ((b.retire h).handler x).registry = (b.handler x).registry := by
  rw [handler_retire]
  split <;> exact ⟨rfl, rfl⟩

/-- But for a handler and its toast, nothing changes when it ends. -/
theorem sameButToasts_retire (h : HandlerId) :
    (b.update h Handler.retired).SameButToasts (b.retire h) :=
  sameButToasts_releaseToast (b.handler h).registration

theorem registries_retire (h : HandlerId) : (b.retire h).registries = b.registries :=
  (sameButToasts_retire h).registries

theorem length_retire (h : HandlerId) :
    (b.retire h).handlers.length = b.handlers.length :=
  (sameButToasts_retire h).length.trans (length_update ..)

/-- Jobs stay in order when a handler ends. -/
theorem Jobs.retire (hb : b.Jobs) (hp : b.phase h ≠ .unregistered) : (b.retire h).Jobs := by
  have hstation : ∀ s, (b.retire h).station s = b.station s := fun s => by
    rw [station, (sameButToasts_retire h).stations]
    rfl
  refine hb.of_phases (fun s => by rw [Board.jobs, Board.jobs, hstation])
    (fun s => by rw [hstation]) (sameButToasts_retire h).attempts
    (Nat.le_of_eq (length_retire h).symm) ?_
  intro x _
  rw [phase_retire hp]
  split
  · exact .inr (.inl rfl)
  · exact .inl rfl

/-- Registries and handlers agree when a handler ends that has no entry, and all are settled. -/
theorem Agreed.retire {founders : List CoordinatorId} {ending : List HandlerId}
    {unsettled : Option HandlerId} (hb : b.Agreed founders ending unsettled)
    (hp : b.phase h ≠ .unregistered) (hu : unsettled = none ∨ unsettled = some h)
    (hno : ∀ q key, (key, h) ∉ (b.registry q).entries) :
    (b.retire h).Agreed founders ending none := by
  have ha := sameButToasts_retire (b := b) h
  refine hb.phases (length_retire h) (fun x => (same_retire h x).1) (fun x => (same_retire h x).2)
    ha.registries ha.coordinators fun x _ => ?_
  rw [phase_retire hp]
  split
  · rename_i hx
    exact .inr (.inl ⟨rfl, hx ▸ hno⟩)
  · rename_i hx
    refine .inl ⟨fun hc => ?_, rfl⟩
    rcases hu with rfl | rfl
    · cases hc
    · exact hx (Option.some.inj hc)

/-- Whoever is awaited still is when a handler ends. -/
theorem Prospects.retire {taken : Option HandlerId} (hb : b.Prospects taken)
    (hp : b.phase h ≠ .unregistered) : (b.retire h).Prospects taken := by
  have ha := sameButToasts_retire (b := b) h
  refine hb.frame (fun x _ => (same_retire h x).2) ?_ (congrArg List.length ha.registries)
    ha.coordinators ha.stations ha.attempts
  intro x h1 h2
  rw [phase_retire hp] at h1
  split at h1
  · cases h1
  · exact ⟨h1, h2⟩

/-- Order is kept when a handler ends that has no entry, whatever its listener is told. -/
theorem Sound.retire (hb : b.Sound strict k T) (hp : b.phase h ≠ .unregistered)
    (hu : k.unsettled = none ∨ k.unsettled = some h) (hr : k.refused = none ∨ k.refused = some h)
    (hno : strict = true → ∀ q key, (key, h) ∉ (b.registry q).entries) (told : List Telling)
    (hn : { b.retire h with told }.Notices T.reported) :
    { b.retire h with told }.Sound strict { k with unsettled := none, refused := none } T := by
  have hbooks : (b.update h Handler.retired).Books T.holders T.owners (T.coords ++ T.founders) :=
    hb.books.frame hb.books.held rfl rfl
  refine Sound.retell (hb.jobs.retire hp) ?_ (hbooks.sameButToasts (sameButToasts_retire h)) ?_
    hb.founded (fun hs => (hb.agreed hs).retire hp hu (hno hs))
    (fun hs => (hb.prospects hs).retire hp) hn
  · refine hb.toasts.withdraw rfl (fun hc => Phase.noConfusion hc) ?_ fun _ _ => id
    intro g hg _ hc
    rcases hr with hr | hr
    · rw [hr] at hc
      cases hc
    · rw [hr] at hc
      exact hg (Option.some.inj hc)
  · intro r
    rw [registry_of_registries (registries_retire h)]
    exact hb.tables r

theorem told_retire : (b.retire h).told = b.told := (sameButToasts_retire h).told

/-- A handler ends that is not live, and nobody is told. -/
theorem Sound.retire_silent (hb : b.Sound strict k T) (hp : b.phase h ≠ .unregistered)
    (hl : b.phase h ≠ .live) (hu : k.unsettled = none ∨ k.unsettled = some h)
    (hr : k.refused = none ∨ k.refused = some h)
    (hno : strict = true → ∀ q key, (key, h) ∉ (b.registry q).entries) :
    (b.retire h).Sound strict { k with unsettled := none, refused := none } T := by
  refine hb.retire hp hu hr hno (b.retire h).told ?_
  refine hb.notices.frame told_retire ?_ ?_ ?_ ?_ fun _ => id
  · intro x
    change ((b.retire h).handler x).fields = _
    rw [handler_retire]
    split <;> rfl
  · intro x
    change ((b.retire h).handler x).listener = _
    rw [handler_retire]
    split <;> rfl
  · intro x
    change (b.retire h).phase x = _ ∨ _ ∧ _ ∧ (b.retire h).phase x ≠ _
    rw [phase_retire hp]
    split
    · rename_i hx
      exact .inr ⟨by rw [hx]; exact hl, by rw [hx]; exact hp, Phase.noConfusion⟩
    · exact .inl rfl
  · intro x o hx
    change ((b.retire h).handler x).pending = some o at hx
    rw [handler_retire] at hx
    split at hx <;> exact .inl hx

/-- A live handler ends, and its listener is told that it is finished. -/
theorem Sound.retire_live (hb : b.Sound strict k T) (hl : b.phase h = .live)
    (hu : k.unsettled = none ∨ k.unsettled = some h) (hr : k.refused = none ∨ k.refused = some h)
    (hno : strict = true → ∀ q key, (key, h) ∉ (b.registry q).entries) :
    ((b.retire h).announce h .finished none).Sound strict
      { k with unsettled := none, refused := none } T := by
  have hp : b.phase h ≠ .unregistered := by rw [hl]; exact Phase.noConfusion
  have hself : (b.retire h).handler h = (b.handler h).retired := by
    rw [handler_retire, if_pos ⟨rfl, lt_of_phase_ne hp⟩]
  have hn : ((b.retire h).announce h .finished none).Notices T.reported := by
    refine hb.notices.announce told_retire ?_ (by rw [hself]; rfl) (by rw [hself]; rfl) ?_ ?_ ?_
    · intro x hx
      rw [handler_retire, if_neg (fun hc => hx hc.1)]
      exact .refl _
    · intro o ho
      rw [hself] at ho
      exact ho
    · intro topics ht
      rw [phase_retire hp, if_pos rfl]
      rw [hl] at ht
      exact ht.finished
    · rw [hself]
      exact ⟨rfl, fun hc => Topic.noConfusion hc, fun hc => Topic.noConfusion hc, fun _ => rfl⟩
  rw [announce_eq] at hn ⊢
  exact hb.retire hp hu hr hno _ hn

/-- A live handler reports what became of its toast. -/
theorem Sound.report (hb : b.Sound strict k T) (hl : b.phase h = .live) {topic : Topic}
    {action : Option String} (ht : topic.isReport = true)
    (hn : ((b.handler h).notice topic action).Faithful (b.handler h)
      fun o => (h, o) ∈ T.reported) : (b.announce h topic action).Sound strict k T := by
  have hnotices : (b.announce h topic action).Notices T.reported := by
    refine hb.notices.announce rfl (fun _ _ => .refl _) rfl rfl (fun _ => id) ?_ hn
    intro topics htopics
    rw [hl] at htopics ⊢
    exact htopics.report ht
  rw [announce_eq] at hnotices ⊢
  exact Sound.retell hb.jobs hb.toasts hb.books hb.tables hb.founded hb.agreed hb.prospects hnotices

/-- A toast that was recorded for an alert and is not released. -/
def Recorded (b : Board) (toast : ToastId) (fields : Snapshot) : Prop :=
  ∃ t ∈ b.screen.toasts, t.id = toast ∧ t.releases = 0 ∧ t.Shows fields

/-- A handler after it was given a toast in some phase. -/
def settled (b : Board) (h : HandlerId) (p : Phase) (toast : ToastId) : Board :=
  b.update h fun hd => { hd with phase := p, registration := some toast, pending := none }

theorem handler_settled (hlt : h < b.handlers.length) (p : Phase) (toast : ToastId) :
    (b.settled h p toast).handler h =
      { b.handler h with phase := p, registration := some toast, pending := none } :=
  handler_update_self hlt _

theorem phase_settled (hlt : h < b.handlers.length) (p : Phase) (toast : ToastId) :
    (b.settled h p toast).phase h = p := by
  rw [phase, handler_settled hlt]

/-- An alert keeps its fields and its registry when its handler is given a toast. -/
theorem same_settled (h : HandlerId) (p : Phase) (toast : ToastId) (x : HandlerId) :
    ((b.settled h p toast).handler x).fields = (b.handler x).fields ∧
      ((b.settled h p toast).handler x).registry = (b.handler x).registry := by
  rw [settled, handler_update]
  split <;> exact ⟨rfl, rfl⟩

/-- Registries and handlers agree when a handler becomes live, or when it is refused and is not
settled. -/
theorem Agreed.settled {founders : List CoordinatorId} {ending : List HandlerId}
    (hb : b.Agreed founders ending none) (hp : b.phase h = .initializing)
    {unsettled : Option HandlerId} {p : Phase}
    (hcase : p = .live ∧ unsettled = none ∨ p = .initFailed ∧ unsettled = some h) :
    (b.settled h p toast).Agreed founders ending unsettled := by
  have hne : b.phase h ≠ .unregistered := by rw [hp]; exact Phase.noConfusion
  have hself := phase_settled (lt_of_phase_ne hne) p toast
  refine hb.phases (length_update ..) (fun x => (same_settled h p toast x).1)
    (fun x => (same_settled h p toast x).2) rfl rfl fun x hx => ?_
  by_cases he : x = h
  · subst he
    rcases hcase with ⟨rfl, -⟩ | ⟨-, rfl⟩
    · exact .inr (.inr ⟨.inr hself, .inr ⟨hne, Option.some_ne_none _⟩⟩)
    · exact absurd rfl hx
  · exact .inl ⟨Option.some_ne_none _, phase_update_of_ne he _⟩

/-- A handler whose job was taken need not be awaited once it has its toast. -/
theorem Prospects.settled (hb : b.Prospects (some h)) (hlt : h < b.handlers.length) {p : Phase}
    (hp : p ≠ .initializing) : (b.settled h p toast).Prospects none := by
  refine hb.frame (fun x _ => (same_settled h p toast x).2) ?_ rfl rfl rfl rfl
  intro x h1 _
  have hx : x ≠ h := by
    rintro rfl
    rw [phase_settled hlt] at h1
    exact hp h1
  rw [Board.settled, phase_update_of_ne hx] at h1
  exact ⟨h1, fun hc => hx (Option.some.inj hc)⟩

/-- A handler that is no longer queued or under way moves on with its toast: it becomes live, or it
is refused and is not settled. -/
theorem Sound.take (hb : b.Sound strict { k with loose := some toast, taken := some h } T)
    (hp : b.phase h = .initializing) (hbusy : ¬b.Busy h) (hr : b.refersTo h = true)
    (ht : b.Recorded toast (b.handler h).fields) (hu : k.unsettled = none) (hk : k.refused = none)
    {unsettled : Option HandlerId} {p : Phase}
    (hcase : p = .live ∧ unsettled = none ∨ p = .initFailed ∧ unsettled = some h)
    {told : List Telling} (hn : { b.settled h p toast with told }.Notices T.reported) :
    { b.settled h p toast with told }.Sound strict
      { k with unsettled, refused := unsettled, loose := none, taken := none } T := by
  have hlt : h < b.handlers.length := lt_of_phase_ne (by rw [hp]; exact Phase.noConfusion)
  have hpc : p ≠ .created ∧ p ≠ .initializing := by
    rcases hcase with ⟨rfl, -⟩ | ⟨rfl, -⟩ <;> exact ⟨Phase.noConfusion, Phase.noConfusion⟩
  have hnone := hb.no_toast hk (by rw [hp]; exact Phase.noConfusion)
  refine Sound.retell (hb.jobs.update (.inr (.inr ⟨hbusy, hpc.1⟩))) ?_
    (hb.books.frame hb.books.held rfl rfl) hb.tables hb.founded (fun hs => ?_)
    (fun hs => (hb.prospects hs).settled hlt hpc.2) hn
  · have htoasts := hb.toasts
    rw [hk] at htoasts
    refine htoasts.take hlt hr hnone rfl rfl ht ?_
    rcases hcase with ⟨rfl, -⟩ | ⟨-, hc⟩
    · exact .inl rfl
    · exact .inr hc
  · have ha := hb.agreed hs
    rw [hu] at ha
    exact ha.settled hp hcase

/-- How a handler becomes live with its toast. -/
def live (b : Board) (h : HandlerId) (toast : ToastId) : Board :=
  b.update h fun hd => { hd with phase := .live, registration := some toast, pending := none }

/-- How a handler is refused, with a toast that is still to be released. -/
def refuse (b : Board) (h : HandlerId) (toast : ToastId) : Board :=
  b.update h fun hd => { hd with phase := .initFailed, registration := some toast, pending := none }

/-- A handler becomes live, and its listener is told that it is shown. -/
theorem Sound.live (hb : b.Sound strict { loose := some toast, taken := some h } T)
    (hp : b.phase h = .initializing) (hbusy : ¬b.Busy h) (hr : b.refersTo h = true)
    (ht : b.Recorded toast (b.handler h).fields) :
    ((b.live h toast).announce h .shown none).Sound strict {} T := by
  have hlt : h < b.handlers.length := lt_of_phase_ne (by rw [hp]; exact Phase.noConfusion)
  have hself : (b.live h toast).handler h = { b.handler h with
      phase := .live, registration := some toast, pending := none } := handler_settled hlt ..
  have hn : ((b.live h toast).announce h .shown none).Notices T.reported := by
    refine hb.notices.announce rfl ?_ (by rw [hself]) (by rw [hself]) ?_ ?_ ?_
    · intro x hx
      rw [Board.live, handler_update_of_ne hx]
      exact .refl _
    · intro o ho
      rw [hself] at ho
      cases ho
    · intro topics htopics
      rw [Board.phase, hself]
      rw [hp] at htopics
      exact htopics.shown Phase.noConfusion Phase.noConfusion
    · rw [hself]
      exact ⟨rfl, fun hc => Topic.noConfusion hc, fun hc => Topic.noConfusion hc, fun _ => rfl⟩
  rw [announce_eq] at hn ⊢
  exact Sound.take (k := {}) hb hp hbusy hr ht rfl rfl (.inl ⟨rfl, rfl⟩) hn

/-- A handler is refused though it has a toast, and is about to end. -/
theorem Sound.refuse (hb : b.Sound strict { loose := some toast, taken := some h } T)
    (hp : b.phase h = .initializing) (hbusy : ¬b.Busy h) (hr : b.refersTo h = true)
    (ht : b.Recorded toast (b.handler h).fields) :
    (b.refuse h toast).Sound strict { unsettled := some h, refused := some h } T := by
  have hlt : h < b.handlers.length := lt_of_phase_ne (by rw [hp]; exact Phase.noConfusion)
  have hcases : ∀ x, (b.refuse h toast).handler x = if x = h then { b.handler x with
      phase := .initFailed, registration := some toast, pending := none } else b.handler x := by
    intro x
    rw [Board.refuse, handler_update]
    by_cases hx : x = h
    · rw [if_pos ⟨hx, hlt⟩, if_pos hx]
    · rw [if_neg (fun hc => hx hc.1), if_neg hx]
  have hn : { b.refuse h toast with told := b.told }.Notices T.reported := ?_
  · exact Sound.take (k := {}) hb hp hbusy hr ht rfl rfl (.inr ⟨rfl, rfl⟩) hn
  refine Notices.frame (c := b.refuse h toast) hb.notices rfl ?_ ?_ ?_ ?_ fun _ => id
  · intro x
    rw [hcases]
    split <;> rfl
  · intro x
    rw [hcases]
    split <;> rfl
  · intro x
    rw [phase, phase, hcases]
    split
    · rename_i hx
      refine .inr ⟨?_, ?_, Phase.noConfusion⟩ <;>
      · rw [hx]
        change b.phase h ≠ _
        rw [hp]
        exact Phase.noConfusion
    · exact .inl rfl
  · intro x o hx
    rw [hcases] at hx
    split at hx
    · cases hx
    · exact .inl hx

/-- A toast is recorded. -/
theorem Sound.record (hb : b.Sound strict k T) (hl : k.loose = none) (fields : Snapshot) :
    { b with screen := (b.screen.record h fields).2 }.Sound strict
      { k with loose := some (b.screen.record h fields).1 } T ∧
    { b with screen := (b.screen.record h fields).2 }.Recorded (b.screen.record h fields).1
      fields := by
  have htoasts := hb.toasts
  rw [hl] at htoasts
  constructor
  · refine hb.sameButToasts ⟨fun _ => .refl _, rfl, rfl, rfl, rfl, rfl, rfl, rfl⟩ ?_ rfl rfl
    exact htoasts.record (t := ⟨b.screen.toasts.length + 1, fields.name, fields.cookie,
      fields.title, fields.text, 0⟩) rfl rfl rfl rfl
  · exact ⟨_, List.mem_append_right _ (List.mem_singleton.mpr rfl), rfl, rfl, rfl, rfl, rfl, rfl⟩

/-- A toast that has no handler is withdrawn. -/
theorem Sound.discard (hb : b.Sound strict { k with loose := some toast } T) {fields : Snapshot}
    (ht : b.Recorded toast fields) :
    (b.releaseToast (some toast)).Sound strict { k with loose := none } T := by
  obtain ⟨t, hm, hid, h0, -⟩ := ht
  exact hb.sameButToasts (sameButToasts_releaseToast _) (hb.toasts.discard ⟨t, hm, hid, h0⟩) rfl rfl

end ToastBoard.Board
