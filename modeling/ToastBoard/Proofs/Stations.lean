import ToastBoard.Proofs.Owners

/-!
# Order among stations and coordinators

How jobs are taken, attempts begin and end, and stations and coordinators come and go, while the
board stays in order.
-/

namespace ToastBoard.Board

variable {b b' : Board} {h : HandlerId} {s : StationId} {c : CoordinatorId} {strict : Bool}
  {k : Slack} {T : Terms}

/-- Another worker stands inside the same attempt. -/
theorem inside_setWorker (worker : Worker HandlerId) (t : StationId) :
    ((b.setWorker s worker).station t).inside = (b.station t).inside := by
  rw [Board.setWorker, station_updateStation]
  split <;> rfl

theorem inside?_setWorker (worker : Worker HandlerId) (t : StationId) :
    (b.setWorker s worker).inside? t = b.inside? t := by
  rw [inside?, inside?, inside_setWorker]
  rfl

/-- A lost job stays lost when another worker comes, unless that one is there where the last one
was not or has the job. -/
theorem Lost.setWorker {t : StationId} (hl : b.Lost t h) {worker : Worker HandlerId}
    (ha : (b.station s).worker.alive = false → worker.alive = false)
    (hj : ∀ u, h ∉ (b.setWorker s worker).jobs u) : (b.setWorker s worker).Lost t h := by
  refine ⟨?_, ?_, hl.untried, hj⟩
  · rw [Board.setWorker, length_updateStation]
    exact hl.made
  · rw [Board.setWorker, station_updateStation]
    split
    · rename_i hts
      exact ha (hts.1 ▸ hl.dead)
    · exact hl.dead

/-- Who is awaited is awaited after another worker has come, where that one differs only in the
jobs of others. -/
theorem Awaited.setWorker {t : StationId} (hw : b.Awaited t h) {worker : Worker HandlerId}
    (ha : worker.alive = (b.station s).worker.alive)
    (hj : ∀ u, h ∈ (b.setWorker s worker).jobs u ↔ h ∈ b.jobs u) :
    (b.setWorker s worker).Awaited t h := by
  rcases hw with hw | ⟨a, hi, he⟩ | hw | hw
  · exact .inl ((hj t).mpr hw)
  · exact .inr (.inl ⟨a, by rw [inside?_setWorker]; exact hi, he⟩)
  · exact .inr (.inr (.inl hw))
  · exact .inr (.inr (.inr (hw.setWorker ha.trans fun u hu => hw.idle u ((hj u).mp hu))))

/-- A worker that neither gets nor loses a job, and stays there or stays away. -/
theorem Sound.setWorker (hb : b.Sound strict k T) {worker : Worker HandlerId}
    (hq : worker.queue.flatMap messageHandlers = b.jobs s)
    (ha : worker.alive = (b.station s).worker.alive) : (b.setWorker s worker).Sound strict k T := by
  have hstation : ∀ t, (b.setWorker s worker).station t = b.station t ∨
      (t = s ∧ (b.setWorker s worker).station t = { b.station t with worker }) := by
    intro t
    rw [Board.setWorker, station_updateStation]
    split
    · rename_i ht
      exact .inr ⟨ht.1, rfl⟩
    · exact .inl rfl
  have hjobs : ∀ t, (b.setWorker s worker).jobs t = b.jobs t := by
    intro t
    rcases hstation t with he | ⟨rfl, he⟩
    · rw [Board.jobs, Board.jobs, he]
    · rw [Board.jobs, he]
      exact hq
  have hinside? := inside?_setWorker (b := b) (s := s) worker
  have hbusy : ∀ x, (b.setWorker s worker).Busy x ↔ b.Busy x := fun x => by
    simp only [Busy, hjobs, hinside?]
  refine hb.restation rfl rfl rfl rfl rfl rfl rfl rfl rfl ?_ ?_ (fun _ => id) ?_ ?_
  · exact hb.jobs.of_phases hjobs (inside_setWorker worker) rfl (Nat.le_refl _) fun _ _ => .inl rfl
  · intro hs
    refine (hb.prospects hs).of (fun _ _ => rfl) (Nat.le_refl _)
      (coordinator_of_lt (by rfl)) ?_
    exact fun x hx ht => ⟨hx, ht, fun t hw => hw.setWorker ha fun u => by rw [hjobs]⟩
  · intro x _ hx
    exact refersTo_of_busy ((hbusy x).mpr hx)
  · intro x _ hx
    exact refersTo_of_busy ((hbusy x).mp hx)

/-- A worker is told to end after what it has accepted. -/
theorem Sound.stop (hb : b.Sound strict k T) (s : StationId) :
    (b.setWorker s (b.station s).worker.stop).Sound strict k T := by
  refine hb.setWorker ?_ ?_
  · unfold Worker.stop
    split
    · simp [Board.jobs, messageHandlers]
    · rfl
  · unfold Worker.stop
    split <;> rfl

/-- A mark is put into the queue of a worker. -/
theorem Sound.mark (hb : b.Sound strict k T) {worker : Worker HandlerId}
    (hw : (b.station s).worker.send .mark = .ok worker) :
    (b.setWorker s worker).Sound strict k T := by
  unfold Worker.send at hw
  split at hw
  · cases hw
  · split at hw
    · cases hw
    · cases hw
      exact hb.setWorker (by simp [Board.jobs, messageHandlers]) rfl

/-- Nothing is queued at a station whose thread has ended. -/
theorem jobs_finish (t : StationId) : (b.setWorker s (b.station s).worker.finish).jobs t =
    if t = s then [] else b.jobs t := by
  by_cases hlt : s < b.stations.length
  · exact jobs_setWorker hlt _ t
  · -- A station that was not made has no jobs.
    have hnone : b.jobs s = [] := by
      by_contra hne
      obtain ⟨x, hx⟩ := List.exists_mem_of_ne_nil _ hne
      exact hlt (lt_of_mem_jobs hx)
    rw [Board.jobs, Board.setWorker, station_updateStation, if_neg fun hc => hlt hc.2]
    split
    · rename_i hts
      rw [hts]
      exact hnone
    · rfl

/-- Who is awaited at a station is awaited still when its thread has ended: its job is lost. -/
theorem Awaited.finish {t : StationId} (hw : b.Awaited t h) (hb : b.Jobs) :
    (b.setWorker s (b.station s).worker.finish).Awaited t h := by
  have hidle : ∀ {u}, (h ∈ b.jobs u → u = s) →
      h ∉ (b.setWorker s (b.station s).worker.finish).jobs u := by
    intro u himp hm
    rw [jobs_finish] at hm
    split at hm
    · cases hm
    · rename_i hne
      exact hne (himp hm)
  rcases hw with hw | ⟨a, hi, he⟩ | hw | hw
  · by_cases hts : t = s
    · subst hts
      have hlt := lt_of_mem_jobs hw
      refine .inr (.inr (.inr ⟨?_, ?_, ?_, ?_⟩))
      · rw [Board.setWorker, length_updateStation]
        exact hlt
      · rw [Board.setWorker, station_updateStation, if_pos ⟨rfl, hlt⟩]
        rfl
      · exact fun a ha he => hb.untried ha (he ▸ hw)
      · exact fun u => hidle fun hu => hb.apart hu hw
    · exact .inl (by rw [jobs_finish, if_neg hts]; exact hw)
  · exact .inr (.inl ⟨a, by rw [inside?_setWorker]; exact hi, he⟩)
  · exact .inr (.inr (.inl hw))
  · exact .inr (.inr (.inr (hw.setWorker (fun _ => rfl)
      fun u => hidle fun hu => absurd hu (hw.idle u))))

/-- A thread ends, and what was queued for it is lost. -/
theorem Sound.closeStation (hb : b.Sound strict k T) (s : StationId) :
    (b.closeStation s).Sound strict k T := by
  have hinside? := inside?_setWorker (b := b) (s := s) (b.station s).worker.finish
  have hgone : (b.setWorker s (b.station s).worker.finish).Sound strict
      { k with doubtful := b.jobs s ++ k.doubtful } T := by
    refine hb.restation rfl rfl rfl rfl rfl rfl rfl rfl rfl ?_ ?_
      (fun x hx => List.mem_append_right _ hx) ?_ ?_
    · exact hb.jobs.updateStation (List.nil_sublist _) (.inl rfl)
    · intro hs
      exact (hb.prospects hs).of (fun _ _ => rfl) (Nat.le_refl _) (coordinator_of_lt (by rfl))
        fun x hx ht => ⟨hx, ht, fun t hw => hw.finish hb.jobs⟩
    · rintro x hd (⟨t, hx⟩ | ⟨t, a, hi, he⟩)
      · refine refersTo_of_job (s := t) ?_
        rw [jobs_finish]
        split
        · rename_i hts
          subst hts
          exact absurd (List.mem_append_left _ hx) hd
        · exact hx
      · exact refersTo_of_inside (s := t) (by rw [hinside?]; exact hi) he
    · rintro x - (⟨t, hx⟩ | ⟨t, a, hi, he⟩)
      · rw [jobs_finish] at hx
        split at hx
        · cases hx
        · exact refersTo_of_job hx
      · rw [hinside?] at hi
        exact refersTo_of_inside hi he
  exact hgone.reapAll

/-- The queues stay when an attempt is finished. -/
theorem jobs_leave (t : StationId) :
    (b.updateStation s fun st => { st with inside := none }).jobs t = b.jobs t := by
  rw [Board.jobs, station_updateStation]
  split <;> rfl

/-- A station that finishes its attempt is not inside one. -/
theorem inside?_leave (hs : s < b.stations.length) (t : StationId) :
    (b.updateStation s fun st => { st with inside := none }).inside? t =
      if t = s then none else b.inside? t := by
  rw [inside?, station_updateStation]
  by_cases hts : t = s
  · rw [if_pos ⟨hts, hs⟩, if_pos hts]
    rfl
  · rw [if_neg (fun hc => hts hc.1), if_neg hts]
    rfl

/-- A handler whose attempt is finished is neither queued nor under way. -/
theorem Jobs.not_busy_leave (hb : b.Jobs) {a : Attempt} (ha : b.inside? s = some a) :
    ¬(b.updateStation s fun st => { st with inside := none }).Busy a.handler := by
  have hlt : s < b.stations.length := by
    obtain ⟨i, hi, -⟩ := Option.bind_eq_some_iff.mp ha
    exact lt_of_inside hi
  rintro (⟨t, hm⟩ | ⟨t, a', hi, he⟩)
  · rw [jobs_leave] at hm
    exact hb.untried (inside?_mem ha) hm
  · rw [inside?_leave hlt] at hi
    split at hi
    · cases hi
    · rename_i hts
      exact hts (hb.inside_unique hi ha he)

/-- A worker leaves the inside of an attempt. A handler whose attempt goes on is taken then; one
whose attempt came to nothing has no other prospect. -/
theorem Sound.leave (hb : b.Sound strict k T) {a : Attempt} (ha : b.inside? s = some a)
    (hheld : a.handler ∈ b.held) {taken : Option HandlerId}
    (ht : taken = some a.handler ∨ (taken = k.taken ∧ a.fate ≠ .proceeds)) (hk : k.taken = none) :
    (b.updateStation s fun st => { st with inside := none }).Sound strict { k with taken } T := by
  have hstation : ∀ t, (b.updateStation s fun st => { st with inside := none }).station t =
      if t = s ∧ s < b.stations.length then { b.station t with inside := none } else b.station t :=
    fun t => station_updateStation ..
  have hmem : a ∈ b.screen.attempts := inside?_mem ha
  have hlt : s < b.stations.length := by
    obtain ⟨i, hi, -⟩ := Option.bind_eq_some_iff.mp ha
    exact lt_of_inside hi
  have hjobs : ∀ t, (b.updateStation s fun st => { st with inside := none }).jobs t = b.jobs t :=
    jobs_leave
  have hinside? := inside?_leave hlt
  refine hb.restation rfl rfl rfl rfl rfl rfl rfl rfl rfl ?_ ?_ (fun _ => id) ?_ ?_
  · exact hb.jobs.updateStation (.refl _) (.inr rfl)
  · intro hs
    refine (hb.prospects hs).of (fun _ _ => rfl) (Nat.le_refl _) (coordinator_of_lt (by rfl)) ?_
    intro x hx hxt
    refine ⟨hx, by rw [hk]; exact Option.some_ne_none _, ?_⟩
    rintro t (hw | ⟨a', hi, he⟩ | hw | hw)
    · exact .inl (by rw [hjobs]; exact hw)
    · by_cases hts : t = s
      · rw [hts, ha] at hi
        cases hi
        rcases ht with ht | ⟨-, ht⟩
        · exact absurd (by rw [ht, he]) hxt
        · exact .inr (.inr (.inl ⟨a, hmem, he, ht⟩))
      · exact .inr (.inl ⟨a', by rw [hinside?, if_neg hts]; exact hi, he⟩)
    · exact .inr (.inr (.inl hw))
    · refine .inr (.inr (.inr ⟨?_, ?_, hw.untried, fun u => by rw [hjobs]; exact hw.idle u⟩))
      · rw [length_updateStation]
        exact hw.made
      · rw [hstation]
        split <;> exact hw.dead
  · rintro x - (⟨t, hx⟩ | ⟨t, a', hi, he⟩)
    · exact refersTo_of_job (s := t) (by rw [hjobs]; exact hx)
    · by_cases hts : t = s
      · rw [hts, ha] at hi
        cases hi
        rw [← he]
        exact refersTo_of_held hheld
      · refine refersTo_of_inside (s := t) ?_ he
        rw [hinside?, if_neg hts]
        exact hi
  · rintro x - (⟨t, hx⟩ | ⟨t, a', hi, he⟩)
    · rw [hjobs] at hx
      exact refersTo_of_job hx
    · rw [hinside?] at hi
      split at hi
      · cases hi
      · exact refersTo_of_inside hi he

/-- A job is skipped whose handler is over. -/
theorem Sound.skip (hb : b.Sound strict k T) {worker : Worker HandlerId}
    {rest : List (Message HandlerId)} (hq : (b.station s).worker.queue = .run h :: rest)
    (hw : worker.queue = rest) (ha : worker.alive = (b.station s).worker.alive)
    (hp : b.phase h = .unregistered) : ((b.setWorker s worker).reap h).Sound strict k T := by
  have hfirst := hb.jobs.first hq
  have hjobs : ∀ t, (b.setWorker s worker).jobs t =
      if t = s then rest.flatMap messageHandlers else b.jobs t := by
    intro t
    rw [jobs_setWorker hfirst.made, hw]
  have hinside? := inside?_setWorker (b := b) (s := s) worker
  have hsub : ∀ {t x}, x ∈ (b.setWorker s worker).jobs t → x ∈ b.jobs t :=
    fun hx => (hfirst.before hb.jobs hjobs hx).1
  have hkept : ∀ {t x}, x ≠ h → x ∈ b.jobs t → x ∈ (b.setWorker s worker).jobs t :=
    hfirst.stays hjobs
  refine Sound.reap ?_
  refine hb.restation rfl rfl rfl rfl rfl rfl rfl rfl rfl ?_ ?_
    (fun x hx => List.mem_cons_of_mem _ hx) ?_ ?_
  · refine hb.jobs.updateStation ?_ (.inl rfl)
    rw [hfirst.jobs, hw]
    exact List.sublist_cons_self ..
  · intro hstrict
    refine (hb.prospects hstrict).of (fun _ _ => rfl) (Nat.le_refl _)
      (coordinator_of_lt (by rfl)) ?_
    intro x hx ht
    refine ⟨hx, ht, ?_⟩
    have hne : x ≠ h := by
      rintro rfl
      change b.phase x = .initializing at hx
      rw [hp] at hx
      cases hx
    exact fun t hw => hw.setWorker ha fun u => ⟨hsub, hkept hne⟩
  · rintro x hd (⟨t, hx⟩ | ⟨t, a, hi, he⟩)
    · have hne : x ≠ h := fun hc => hd (by simp [hc])
      exact refersTo_of_job (hkept hne hx)
    · exact refersTo_of_inside (s := t) (by rw [hinside?]; exact hi) he
  · rintro x - (⟨t, hx⟩ | ⟨t, a, hi, he⟩)
    · exact refersTo_of_job (hsub hx)
    · rw [hinside?] at hi
      exact refersTo_of_inside hi he

/-- Who was awaited anywhere is awaited once the attempt of somebody else has begun. -/
theorem Begins.awaited {rest : List HandlerId} {a : Attempt} (hn : b.Begins s h rest a b')
    (hb : b.Jobs) (hnone : b.inside? s = none) (hmade : b'.stations.length = b.stations.length)
    (hdead : ∀ t, (b.station t).worker.alive = false → (b'.station t).worker.alive = false)
    {x : HandlerId} (hne : x ≠ h) {t : StationId} (hw : b.Awaited t x) : b'.Awaited t x := by
  rcases hw with hw | ⟨a', hi, he⟩ | ⟨a', hm, he⟩ | hw
  · exact .inl (hn.first.stays hn.jobs hne hw)
  · have hts : t ≠ s := by
      rintro rfl
      rw [hnone] at hi
      cases hi
    exact .inr (.inl ⟨a', by rw [hn.inside? hb, if_neg hts]; exact hi, he⟩)
  · refine .inr (.inr (.inl ⟨a', ?_, he⟩))
    rw [hn.attempts]
    exact List.mem_append_left _ hm
  · refine .inr (.inr (.inr ⟨hmade ▸ hw.made, hdead t hw.dead, ?_,
      fun u hu => hw.idle u (hn.before hb hu).1⟩))
    intro a' hm
    rw [hn.attempts, List.mem_append, List.mem_singleton] at hm
    rcases hm with hm | rfl
    · exact hw.untried a' hm
    · exact fun he => hne (he.symm.trans hn.whose)

/-- Whoever's attempt has begun was awaited in the queue, and is under way where it was queued. -/
theorem Begins.awaited_self {rest : List HandlerId} {a : Attempt} (hn : b.Begins s h rest a b')
    (hb : b.Jobs) {t : StationId} (hw : b.Awaited t h) : b'.Awaited t h := by
  rcases hw with hw | ⟨a', hi, he⟩ | ⟨a', hm, he, -⟩ | hw
  · have hts : t = s := hb.apart hw hn.first.mem
    exact .inr (.inl ⟨a, by rw [hn.inside? hb, if_pos hts], hn.whose⟩)
  · exact absurd hn.first.mem (he ▸ hb.untried (inside?_mem hi))
  · exact absurd hn.first.mem (he ▸ hb.untried hm)
  · exact absurd hn.first.mem (hw.idle s)

theorem toasts_beginAttempt (worker : Worker HandlerId) :
    ((b.setWorker s worker).beginAttempt s h).screen.toasts = b.screen.toasts := by
  change (b.screen.nextFate.2).toasts = b.screen.toasts
  unfold Screen.nextFate
  split
  · rfl
  · split <;> rfl

/-- An attempt begins for the first job in a queue, whose handler is not over. -/
theorem Sound.enter (hb : b.Sound strict k T) {worker : Worker HandlerId}
    {rest : List (Message HandlerId)} (hq : (b.station s).worker.queue = .run h :: rest)
    (hw : worker.queue = rest) (ha : worker.alive = (b.station s).worker.alive)
    (hi : (b.station s).inside = none) (hp : b.phase h ≠ .unregistered) :
    ((b.setWorker s worker).beginAttempt s h).Sound strict k T := by
  obtain ⟨a, hn⟩ := hb.jobs.begins hq hw
  have hnone : b.inside? s = none := by rw [inside?, hi]; rfl
  have hmade : ((b.setWorker s worker).beginAttempt s h).stations.length = b.stations.length :=
    (length_updateStation ..).trans (length_updateStation ..)
  have hdead : ∀ t, (b.station t).worker.alive = false →
      (((b.setWorker s worker).beginAttempt s h).station t).worker.alive = false := by
    intro t hd
    rw [station_beginAttempt hn.first.made]
    split
    · rename_i hts
      rw [ha, ← hts]
      exact hd
    · exact hd
  refine hb.restation rfl rfl rfl rfl rfl (toasts_beginAttempt _) rfl rfl rfl
    (hn.keeps_jobs hb.jobs hp) ?_ (fun _ => id) ?_ ?_
  · intro hstrict
    refine (hb.prospects hstrict).of (fun _ _ => rfl) (Nat.le_refl _)
      (coordinator_of_lt (by rfl)) ?_
    intro x hx ht
    refine ⟨hx, ht, fun t hawaited => ?_⟩
    by_cases hne : x = h
    · subst hne
      exact hn.awaited_self hb.jobs hawaited
    · exact hn.awaited hb.jobs hnone hmade hdead hne hawaited
  · exact fun x _ hx => refersTo_of_busy (hn.still_busy hb.jobs hnone hx)
  · exact fun x _ hx => refersTo_of_busy (hn.busy hb.jobs hx)

/-- A worker takes what is next in its queue. -/
theorem Sound.advance (hb : b.Sound strict k T) (s : StationId) :
    (b.advance s).2.Sound strict k T := by
  unfold Board.advance
  split
  · exact hb
  · rename_i hi
    have hnone : (b.station s).inside = none := by simpa using hi
    split
    · exact hb
    · exact hb.closeStation s
    · rename_i rest hq
      exact hb.setWorker (by simp [Worker.next, hq, Board.jobs, messageHandlers])
        (by simp [Worker.next, hq])
    · rename_i h rest hq
      simp only
      split
      · rename_i hp
        exact hb.skip hq (by simp [Worker.next, hq]) (by simp [Worker.next, hq]) hp
      · rename_i hp
        exact hb.enter hq (by simp [Worker.next, hq]) (by simp [Worker.next, hq]) hnone hp

/-- A station with a worker that has nothing to do yet. -/
theorem Sound.openStation (hb : b.Sound strict k T) {worker : Worker HandlerId}
    (hw : worker.queue = []) : (b.openStation worker).2.Sound strict k T := by
  have hstation : ∀ t, (b.openStation worker).2.station t =
      if t = b.stations.length then { worker } else b.station t := fun t => getD_concat ..
  have hlast : ∀ {t}, t = b.stations.length → b.jobs t = [] ∧ (b.station t).inside = none := by
    rintro t rfl
    simp [Board.jobs, station, List.getD_eq_getElem?_getD]
  have hjobs : ∀ t, (b.openStation worker).2.jobs t = b.jobs t := by
    intro t
    rw [Board.jobs, hstation]
    split
    · rename_i ht
      rw [(hlast ht).1, hw]
      rfl
    · rfl
  have hinside : ∀ t, ((b.openStation worker).2.station t).inside = (b.station t).inside := by
    intro t
    rw [hstation]
    split
    · rename_i ht
      rw [(hlast ht).2]
    · rfl
  have hinside? : ∀ t, (b.openStation worker).2.inside? t = b.inside? t := by
    intro t
    rw [inside?, inside?, hinside]
    rfl
  have hbusy : ∀ x, (b.openStation worker).2.Busy x ↔ b.Busy x := fun x => by
    simp only [Busy, hjobs, hinside?]
  refine hb.restation rfl rfl rfl rfl rfl rfl rfl rfl rfl
    (hb.jobs.of_phases hjobs hinside rfl (Nat.le_refl _) fun _ _ => .inl rfl) ?_ (fun _ => id)
    (fun x _ hx => refersTo_of_busy ((hbusy x).mpr hx))
    fun x _ hx => refersTo_of_busy ((hbusy x).mp hx)
  intro hs
  refine (hb.prospects hs).of (fun _ _ => rfl) (Nat.le_refl _) (coordinator_of_lt (by rfl)) ?_
  intro x hx ht
  refine ⟨hx, ht, ?_⟩
  rintro t (hw' | ⟨a, hi, he⟩ | hw' | hw')
  · exact .inl (by rw [hjobs]; exact hw')
  · exact .inr (.inl ⟨a, by rw [hinside?]; exact hi, he⟩)
  · exact .inr (.inr (.inl hw'))
  · have hlt := hw'.made
    refine .inr (.inr (.inr ⟨?_, ?_, hw'.untried, fun u => by rw [hjobs]; exact hw'.idle u⟩))
    · have hlen : (b.openStation worker).2.stations.length = b.stations.length + 1 :=
        List.length_append
      rw [hlen]
      exact Nat.lt_succ_of_lt hlt
    · rw [hstation, if_neg (Nat.ne_of_lt hlt)]
      exact hw'.dead

/-- The coordinators that computations and people own were set up. -/
theorem Sound.lt_of_owned (hb : b.Sound strict k T) (hc : c ∈ T.coords ++ T.founders) :
    c < b.coordinators.length :=
  lt_of_coordinator_owners (hb.books.pos_of_master hc)

/-- A new registry has one owner. -/
theorem Sound.openRegistry (hb : b.Sound strict k T) : b.openRegistry.2.Sound strict k
    { T with owners := b.openRegistry.1 :: T.owners } := by
  have hregistry : ∀ q, b.openRegistry.2.registry q =
      if q = b.registries.length then {} else b.registry q := fun q => getD_concat ..
  have hentries : ∀ q, (b.openRegistry.2.registry q).entries = (b.registry q).entries := by
    intro q
    rw [hregistry]
    split
    · rename_i hq
      simp [hq, registry, List.getD_eq_getElem?_getD]
    · rfl
  have hrefs : ∀ x, b.openRegistry.2.refersTo x = true ↔ b.refersTo x = true := by
    intro x
    simp only [refersTo_iff, Registry.handlers, hentries]
    rfl
  refine hb.refer rfl rfl rfl rfl rfl rfl rfl rfl hb.books.openRegistry ?_ hb.founded ?_
    (fun _ => id) (fun x _ hx => (hrefs x).mpr hx) (fun x _ hx => (hrefs x).mp hx) (Nat.le_refl _)
    (coordinator_of_lt (by rfl))
  · intro q
    rw [Registry.OnePerName, hentries]
    exact hb.tables q
  · intro hs
    refine (hb.agreed hs).frame rfl ?_ hentries
    intro c hc
    exact (coordinator_of_lt (by rfl) c (hb.lt_of_owned (List.mem_append_right _ hc))).1

/-- What coordinators look like once another one was set up. -/
theorem coordinator_openCoordinator (worker : Worker HandlerId) (identity : Option String)
    (hc : c < b.coordinators.length) :
    ((b.openCoordinator worker identity).2.coordinator c).registry = (b.coordinator c).registry ∧
      ((b.openCoordinator worker identity).2.coordinator c).station =
        (b.coordinator c).station := by
  have hget : ∀ d, (b.openCoordinator worker identity).2.coordinators.getD c d =
      b.coordinators.getD c d := by
    intro d
    refine (getD_concat ..).trans (if_neg (Nat.ne_of_lt hc))
  rw [coordinator, hget, coordinator, List.getD_eq_getElem?_getD, List.getD_eq_getElem?_getD,
    List.getElem?_eq_getElem hc]
  exact ⟨rfl, rfl⟩

/-- A coordinator is set up with a worker that has nothing to do yet. -/
theorem Sound.openCoordinator (hb : b.Sound strict k T) {worker : Worker HandlerId}
    (hw : worker.queue = []) (identity : Option String) :
    (b.openCoordinator worker identity).2.Sound strict k
      { T with founders := (b.openCoordinator worker identity).1 :: T.founders } := by
  have hstation := hb.openStation hw
  have hregistry := hstation.openRegistry
  have hbooks := (hb.books.openCoordinator worker identity).perm (.refl _) (.refl _)
    List.perm_middle.symm
  refine hregistry.refer rfl rfl rfl rfl rfl rfl rfl rfl hbooks hregistry.tables
    (fun hs d hd => List.mem_cons_of_mem _ (hb.founded hs d hd)) ?_ (fun _ => id)
    (fun _ _ hx => hx) (fun _ _ hx => hx) ?_ ?_
  · intro hs
    refine Agreed.found ((hregistry.agreed hs).frame rfl ?_ fun _ => rfl)
      fun d hd => List.mem_cons_of_mem _ hd
    intro d hd
    have hlt := hb.lt_of_owned (List.mem_append_right _ hd)
    rw [(coordinator_openCoordinator worker identity hlt).1]
    exact (coordinator_of_lt (b := b) (by rfl) d hlt).1.symm
  · change b.coordinators.length ≤ (b.coordinators ++ [_]).length
    rw [List.length_append]
    exact Nat.le_add_right ..
  · intro d hd
    have hnew := coordinator_openCoordinator worker identity (b := b) hd
    have hcoordinators : (b.openStation worker).2.openRegistry.2.coordinators = b.coordinators :=
      rfl
    have hold := coordinator_of_lt hcoordinators d hd
    exact ⟨hnew.1.trans hold.1.symm, hnew.2.trans hold.2.symm⟩

/-- Other changes of a coordinator keep its registry and its station. -/
theorem coordinator_update {f : Coordinator → Coordinator}
    (hf : ∀ co, (f co).registry = co.registry ∧ (f co).station = co.station) (d : CoordinatorId) :
    ((b.updateCoordinator c f).coordinator d).registry = (b.coordinator d).registry ∧
      ((b.updateCoordinator c f).coordinator d).station = (b.coordinator d).station := by
  rw [coordinator_updateCoordinator]
  split
  · exact hf _
  · exact ⟨rfl, rfl⟩

/-- A coordinator changes, and its owners with it. -/
theorem Sound.updateCoordinator (hb : b.Sound strict k T) (owners : List RegistryId)
    (coords : List CoordinatorId) {f : Coordinator → Coordinator}
    (hf : ∀ co, (f co).registry = co.registry ∧ (f co).station = co.station)
    (hfounded : strict = true → ∀ d ∈ coords, d ∈ T.founders)
    (hbooks : (b.updateCoordinator c f).Books T.holders owners (coords ++ T.founders)) :
    (b.updateCoordinator c f).Sound strict k { T with owners, coords } := by
  refine hb.refer rfl rfl rfl rfl rfl rfl rfl rfl hbooks hb.tables hfounded ?_ (fun _ => id)
    (fun _ _ hx => hx) (fun _ _ hx => hx) (Nat.le_of_eq (length_updateCoordinator ..).symm)
    fun d _ => coordinator_update hf d
  intro hs
  exact (hb.agreed hs).frame rfl (fun d _ => (coordinator_update hf d).1) fun _ => rfl

/-- Somebody sets whether new alerts are dropped. -/
theorem Sound.setSuppression (hb : b.Sound strict k T) (c : CoordinatorId) (suppressed : Bool) :
    (b.setSuppression c suppressed).Sound strict k T :=
  hb.updateCoordinator _ _ (fun _ => ⟨rfl, rfl⟩) hb.founded
    (hb.books.ofCoordinator fun _ => ⟨rfl, rfl⟩)

/-- A computation becomes another owner of a coordinator. -/
theorem Sound.ownCoordinator (hb : b.Sound strict k T) (hc : 0 < (b.coordinator c).owners) :
    (b.ownCoordinator c).Sound strict k { T with coords := c :: T.coords } := by
  refine hb.updateCoordinator T.owners (c :: T.coords) (fun _ => ⟨rfl, rfl⟩) ?_
    (hb.books.ownCoordinator hc)
  intro hs d hd
  rcases List.mem_cons.mp hd with rfl | hd
  · have hcount := hb.books.mastered d
    have hmem : d ∈ T.coords ++ T.founders := List.count_pos_iff.mp (hcount ▸ hc)
    rcases List.mem_append.mp hmem with hm | hm
    · exact hb.founded hs d hm
    · exact hm
  · exact hb.founded hs d hd

/-- A computation gives a coordinator up; where only coordinators work, somebody still has it. -/
theorem Sound.disownCoordinator (hb : b.Sound strict k { T with coords := c :: T.coords }) :
    (b.disownCoordinator c).Sound strict k T := by
  have hs : strict = true → c ∈ T.founders := fun hs => hb.founded hs c List.mem_cons_self
  have hbooks := hb.books.disownCoordinator (c := c) List.mem_cons_self
  have hpos := hb.books.pos_of_master (c := c) List.mem_cons_self
  have hlt := lt_of_coordinator_owners hpos
  have herase : (c :: T.coords ++ T.founders).erase c = T.coords ++ T.founders :=
    List.erase_cons_head ..
  rw [herase] at hbooks
  have hget : (b.updateCoordinator c fun co => { co with owners := co.owners - 1 }).coordinator c =
      { b.coordinator c with owners := (b.coordinator c).owners - 1 } := by
    rw [coordinator_updateCoordinator, if_pos ⟨rfl, hlt⟩]
  have hgone := hb.updateCoordinator _ T.coords (c := c)
    (f := fun co => { co with owners := co.owners - 1 }) (fun _ => ⟨rfl, rfl⟩)
    (fun hs d hd => hb.founded hs d (List.mem_cons_of_mem _ hd)) hbooks
  unfold Board.disownCoordinator
  simp only [hasCoordinator, hget]
  by_cases h1 : 1 < (b.coordinator c).owners
  · have h2 : 0 < (b.coordinator c).owners - 1 := by omega
    rw [if_pos h1] at hgone
    rw [if_pos (by simpa using h2)]
    exact hgone
  · have h2 : ¬0 < (b.coordinator c).owners - 1 := by omega
    rw [if_neg h1] at hgone
    rw [if_neg (by simpa using h2)]
    refine Sound.stop (Sound.disown hgone ?_) _
    intro hstrict
    exfalso
    have hcount := List.count_pos_iff.mpr (hs hstrict)
    have howners := hb.books.mastered c
    simp only [List.cons_append, List.count_cons_self, List.count_append] at howners
    omega

end ToastBoard.Board
