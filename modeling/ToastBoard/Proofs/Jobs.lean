import ToastBoard.Proofs.Reading

/-!
# Jobs

Each handler is registered at most once: it has one job at most, queued or taken, and while that is
queued or under way it is still initializing or already over. So nothing but a handler that is
initializing can be moved on by its registration.
-/

namespace ToastBoard.Board

variable {b b' : Board} {h : HandlerId} {s : StationId}

/-- Whether the registration of a handler is queued or under way. -/
def Busy (b : Board) (h : HandlerId) : Prop :=
  (∃ s, h ∈ b.jobs s) ∨ ∃ s a, b.inside? s = some a ∧ a.handler = h

/-- Each handler has one job at most, and jobs are those of handlers that are not yet or no longer
on the screen. -/
structure Jobs (b : Board) : Prop where
  /-- No handler is queued twice at a station. -/
  single : ∀ s, (b.jobs s).Nodup
  /-- No handler is queued at two stations. -/
  apart : ∀ {s t h}, h ∈ b.jobs s → h ∈ b.jobs t → s = t
  /-- No handler is attempted twice. -/
  tried : (b.screen.attempts.map (·.handler)).Nodup
  /-- No handler is queued that was attempted. -/
  untried : ∀ {s a}, a ∈ b.screen.attempts → a.handler ∉ b.jobs s
  /-- Stations stand inside attempts that were made. -/
  inside : ∀ {s i}, (b.station s).inside = some i → i < b.screen.attempts.length
  /-- No two stations stand inside the same attempt. -/
  alone : ∀ {s t i}, (b.station s).inside = some i → (b.station t).inside = some i → s = t
  /-- What is queued or under way is initializing or over. -/
  waiting : ∀ {h}, b.Busy h → b.phase h = .initializing ∨ b.phase h = .unregistered
  /-- Jobs are those of handlers that were made. -/
  known : ∀ {h}, b.Busy h ∨ h ∈ b.screen.attempts.map (·.handler) → h < b.handlers.length
  /-- Who was attempted was submitted. -/
  submitted : ∀ a ∈ b.screen.attempts, b.phase a.handler ≠ .created

/-- A handler that was just created, is live or has failed is neither queued nor under way. -/
theorem Jobs.not_busy (hb : b.Jobs) (hi : b.phase h ≠ .initializing)
    (hu : b.phase h ≠ .unregistered) : ¬b.Busy h := by
  intro hbusy
  rcases hb.waiting hbusy with hp | hp
  · exact hi hp
  · exact hu hp

/-- The attempt in which a station stands was made. -/
theorem inside?_mem {a : Attempt} (ha : b.inside? s = some a) : a ∈ b.screen.attempts := by
  obtain ⟨i, -, hi⟩ := Option.bind_eq_some_iff.mp ha
  exact List.mem_of_getElem? hi

/-- Whoever is under way at two stations is so at one. -/
theorem Jobs.inside_unique (hb : b.Jobs) {t : StationId} {a a' : Attempt}
    (ha : b.inside? s = some a) (ha' : b.inside? t = some a') (he : a.handler = a'.handler) :
    s = t := by
  obtain ⟨i, hi, hai⟩ := Option.bind_eq_some_iff.mp ha
  obtain ⟨j, hj, haj⟩ := Option.bind_eq_some_iff.mp ha'
  have hmi : (b.screen.attempts.map (·.handler))[i]? = some a.handler := by simp [hai]
  have hmj : (b.screen.attempts.map (·.handler))[j]? = some a.handler := by simp [haj, he]
  have hlt := (List.getElem?_eq_some_iff.mp hmi).1
  have hij : i = j := (List.getElem?_inj hlt hb.tried).mp (hmi.trans hmj.symm)
  subst hij
  exact hb.alone hi hj

/-- Jobs are left as they are while handlers move on: a handler may end at any time, but only one
that is neither queued nor under way may move elsewhere. -/
theorem Jobs.of_phases (hb : b.Jobs) (hjobs : ∀ s, b'.jobs s = b.jobs s)
    (hs : ∀ s, (b'.station s).inside = (b.station s).inside)
    (ha : b'.screen.attempts = b.screen.attempts) (hn : b.handlers.length ≤ b'.handlers.length)
    (hp : ∀ h < b.handlers.length, b'.phase h = b.phase h ∨ b'.phase h = .unregistered ∨
      (¬b.Busy h ∧ b'.phase h ≠ .created)) : b'.Jobs := by
  have hinside : ∀ s, b'.inside? s = b.inside? s := fun s => by simp only [inside?, hs, ha]
  have hbusy : ∀ h, b'.Busy h ↔ b.Busy h := fun h => by simp only [Busy, hjobs, hinside]
  constructor
  · intro s
    rw [hjobs]
    exact hb.single s
  · intro s t h h1 h2
    rw [hjobs] at h1 h2
    exact hb.apart h1 h2
  · rw [ha]
    exact hb.tried
  · intro s a h1
    rw [ha] at h1
    rw [hjobs]
    exact hb.untried h1
  · intro s i h1
    rw [hs] at h1
    rw [ha]
    exact hb.inside h1
  · intro s t i h1 h2
    rw [hs] at h1 h2
    exact hb.alone h1 h2
  · intro h h1
    rw [hbusy] at h1
    rcases hp h (hb.known (.inl h1)) with he | he | ⟨he, -⟩
    · rw [he]
      exact hb.waiting h1
    · exact .inr he
    · exact absurd h1 he
  · intro h h1
    rw [hbusy, ha] at h1
    exact Nat.lt_of_lt_of_le (hb.known h1) hn
  · intro a h1
    rw [ha] at h1
    have hlt := hb.known (.inr (List.mem_map_of_mem (f := (·.handler)) h1))
    rcases hp _ hlt with he | he | ⟨-, he⟩
    · rw [he]
      exact hb.submitted a h1
    · rw [he]
      exact Phase.noConfusion
    · exact he

/-- Jobs are left as they are when one handler changes. -/
theorem Jobs.update (hb : b.Jobs) {f : Handler → Handler}
    (hp : (f (b.handler h)).phase = b.phase h ∨ (f (b.handler h)).phase = .unregistered ∨
      (¬b.Busy h ∧ (f (b.handler h)).phase ≠ .created)) : (b.update h f).Jobs := by
  refine hb.of_phases (fun _ => rfl) (fun _ => rfl) rfl (Nat.le_of_eq (length_update ..).symm) ?_
  intro x hx
  by_cases he : x = h
  · subst he
    rw [phase, handler_update_self hx]
    exact hp
  · rw [phase, handler_update_of_ne he]
    exact .inl rfl

theorem jobs_updateStation {f : Station → Station} {t : StationId} :
    (b.updateStation s f).jobs t = if t = s ∧ s < b.stations.length then
      (f (b.station t)).worker.queue.flatMap messageHandlers else b.jobs t := by
  rw [jobs, station_updateStation]
  split <;> rfl

/-- A station may lose jobs and leave the inside of an attempt. -/
theorem Jobs.updateStation (hb : b.Jobs) {f : Station → Station}
    (hq : ((f (b.station s)).worker.queue.flatMap messageHandlers).Sublist (b.jobs s))
    (hi : (f (b.station s)).inside = (b.station s).inside ∨ (f (b.station s)).inside = none) :
    (b.updateStation s f).Jobs := by
  have hjobs : ∀ t, ((b.updateStation s f).jobs t).Sublist (b.jobs t) := by
    intro t
    rw [jobs_updateStation]
    split
    · rename_i ht
      obtain ⟨rfl, -⟩ := ht
      exact hq
    · exact .refl _
  have hinside : ∀ {t i}, ((b.updateStation s f).station t).inside = some i →
      (b.station t).inside = some i := by
    intro t i
    rw [station_updateStation]
    split
    · rename_i ht
      obtain ⟨rfl, -⟩ := ht
      intro hf
      rcases hi with he | he
      · rwa [he] at hf
      · rw [he] at hf
        cases hf
    · exact id
  have hbusy : ∀ {h}, (b.updateStation s f).Busy h → b.Busy h := by
    rintro h (⟨t, hm⟩ | ⟨t, a, ha, he⟩)
    · exact .inl ⟨t, (hjobs t).subset hm⟩
    · obtain ⟨i, h1, h2⟩ := Option.bind_eq_some_iff.mp ha
      exact .inr ⟨t, a, Option.bind_eq_some_iff.mpr ⟨i, hinside h1, h2⟩, he⟩
  constructor
  · exact fun t => (hb.single t).sublist (hjobs t)
  · exact fun h1 h2 => hb.apart ((hjobs _).subset h1) ((hjobs _).subset h2)
  · exact hb.tried
  · exact fun h1 h2 => hb.untried h1 ((hjobs _).subset h2)
  · exact fun h1 => hb.inside (hinside h1)
  · exact fun h1 h2 => hb.alone (hinside h1) (hinside h2)
  · exact fun h1 => hb.waiting (hbusy h1)
  · rintro h (h1 | h1)
    · exact hb.known (.inl (hbusy h1))
    · exact hb.known (.inr h1)
  · exact hb.submitted

/-- What a board is once a handler has been queued at a station. -/
structure Queues (s : StationId) (h : HandlerId) (b b' : Board) : Prop where
  /-- Its job is the last one there. -/
  jobs : ∀ t, b'.jobs t = if t = s then b.jobs s ++ [h] else b.jobs t
  /-- Stations stand where they stood. -/
  inside : ∀ t, (b'.station t).inside = (b.station t).inside
  /-- Nothing is attempted. -/
  attempts : b'.screen.attempts = b.screen.attempts
  /-- Handlers are left as they are. -/
  handlers : b'.handlers = b.handlers

/-- A handler is queued when a message to register it is put into the queue of a worker. -/
theorem queues_updateStation {f : Station → Station} (hs : s < b.stations.length)
    (hq : (f (b.station s)).worker.queue.flatMap messageHandlers = b.jobs s ++ [h])
    (hi : (f (b.station s)).inside = (b.station s).inside) :
    b.Queues s h (b.updateStation s f) where
  jobs := fun t => by
    rw [jobs_updateStation]
    by_cases ht : t = s
    · subst ht
      rw [if_pos ⟨rfl, hs⟩, if_pos rfl, hq]
    · rw [if_neg (fun hc => ht hc.1), if_neg ht]
  inside := fun t => by
    rw [station_updateStation]
    split
    · rename_i ht
      obtain ⟨rfl, -⟩ := ht
      exact hi
    · rfl
  attempts := rfl
  handlers := rfl

/-- What is queued afterwards was queued before, or is the new job. -/
theorem Queues.mem_iff (hn : b.Queues s h b') {t : StationId} {x : HandlerId} :
    x ∈ b'.jobs t ↔ x ∈ b.jobs t ∨ (t = s ∧ x = h) := by
  rw [hn.jobs]
  by_cases ht : t = s
  · subst ht
    simp
  · simp [ht]

theorem Queues.inside? (hn : b.Queues s h b') (t : StationId) : b'.inside? t = b.inside? t := by
  rw [Board.inside?, Board.inside?, hn.inside, hn.attempts]

/-- What is queued or under way afterwards was so before, or is the new job. -/
theorem Queues.busy_iff (hn : b.Queues s h b') {x : HandlerId} :
    b'.Busy x ↔ b.Busy x ∨ x = h := by
  constructor
  · rintro (⟨t, hm⟩ | ⟨t, a, ha, he⟩)
    · rcases hn.mem_iff.mp hm with hm | ⟨-, he⟩
      · exact .inl (.inl ⟨t, hm⟩)
      · exact .inr he
    · rw [hn.inside?] at ha
      exact .inl (.inr ⟨t, a, ha, he⟩)
  · rintro ((⟨t, hm⟩ | ⟨t, a, ha, he⟩) | rfl)
    · exact .inl ⟨t, hn.mem_iff.mpr (.inl hm)⟩
    · exact .inr ⟨t, a, by rw [hn.inside?]; exact ha, he⟩
    · exact .inl ⟨s, hn.mem_iff.mpr (.inr ⟨rfl, rfl⟩)⟩

/-- No handler is queued at two stations if the new job was not queued. -/
theorem Queues.apart (hn : b.Queues s h b') (hb : b.Jobs) (hnew : ∀ t, h ∉ b.jobs t)
    {t u : StationId} {x : HandlerId} (ht : x ∈ b'.jobs t) (hu : x ∈ b'.jobs u) : t = u := by
  rcases hn.mem_iff.mp ht with h1 | ⟨rfl, rfl⟩
  · rcases hn.mem_iff.mp hu with h2 | ⟨rfl, rfl⟩
    · exact hb.apart h1 h2
    · exact absurd h1 (hnew t)
  · rcases hn.mem_iff.mp hu with h2 | ⟨rfl, -⟩
    · exact absurd h2 (hnew u)
    · rfl

/-- A handler that is submitted gets a job. -/
theorem Queues.keeps_jobs (hn : b.Queues s h b') (hb : b.Jobs) (hbusy : ¬b.Busy h)
    (htried : h ∉ b.screen.attempts.map (·.handler)) (hp : b.phase h = .initializing) :
    b'.Jobs := by
  have hnew : ∀ t, h ∉ b.jobs t := fun t hm => hbusy (.inl ⟨t, hm⟩)
  have hphase : ∀ x, b'.phase x = b.phase x := fun x => by
    rw [phase, phase, handler, handler, hn.handlers]
  constructor
  · intro t
    rw [hn.jobs]
    split
    · rw [List.nodup_append]
      refine ⟨hb.single s, List.pairwise_singleton .., ?_⟩
      intro x hx y hy he
      exact hnew s (List.mem_singleton.mp hy ▸ he ▸ hx)
    · exact hb.single t
  · exact fun h1 h2 => hn.apart hb hnew h1 h2
  · rw [hn.attempts]
    exact hb.tried
  · intro t a ha hm
    rw [hn.attempts] at ha
    rcases hn.mem_iff.mp hm with h1 | ⟨-, h1⟩
    · exact hb.untried ha h1
    · exact htried (h1 ▸ List.mem_map_of_mem ha)
  · intro t i h1
    rw [hn.inside] at h1
    rw [hn.attempts]
    exact hb.inside h1
  · intro t u i h1 h2
    rw [hn.inside] at h1 h2
    exact hb.alone h1 h2
  · intro x hx
    rw [hphase]
    rcases hn.busy_iff.mp hx with hx | rfl
    · exact hb.waiting hx
    · exact .inl hp
  · intro x hx
    rw [hn.handlers]
    rw [hn.attempts, hn.busy_iff] at hx
    rcases hx with (hx | rfl) | hx
    · exact hb.known (.inl hx)
    · exact lt_of_phase_ne (by rw [hp]; exact Phase.noConfusion)
    · exact hb.known (.inr hx)
  · intro a ha
    rw [hn.attempts] at ha
    rw [hphase]
    exact hb.submitted a ha

theorem attempts_attempt (screen : Screen) (thread : String) : (screen.attempt h thread).attempts =
    screen.attempts ++ [{ handler := h, thread, fate := screen.nextFate.1 }] := by
  by_cases hc : screen.faults.crashAttempt = true
  · simp [Screen.attempt, Screen.nextFate, hc]
  · by_cases hp : screen.faults.panicAttempt = true
    · simp [Screen.attempt, Screen.nextFate, hc, hp]
    · simp [Screen.attempt, Screen.nextFate, hc, hp]

/-- An attempt to register a handler is the last one when it begins. -/
theorem attempts_beginAttempt (worker : Worker HandlerId) : ∃ a : Attempt, a.handler = h ∧
    ((b.setWorker s worker).beginAttempt s h).screen.attempts = b.screen.attempts ++ [a] :=
  ⟨_, rfl, attempts_attempt ..⟩

/-- A station stands inside the attempt that begins there. -/
theorem station_beginAttempt (hs : s < b.stations.length) (worker : Worker HandlerId)
    (t : StationId) : ((b.setWorker s worker).beginAttempt s h).station t =
      if t = s then { worker, inside := some b.screen.attempts.length } else b.station t := by
  have h1 := station_updateStation (b.setWorker s worker) s t
    fun st => { st with inside := some b.screen.attempts.length }
  have h2 := station_updateStation b s t fun st => { st with worker }
  have hlen : (b.setWorker s worker).stations.length = b.stations.length :=
    length_updateStation ..
  refine Eq.trans h1 ?_
  rw [hlen]
  by_cases ht : t = s
  · subst ht
    rw [if_pos ⟨rfl, hs⟩, if_pos rfl, setWorker, h2, if_pos ⟨rfl, hs⟩]
  · rw [if_neg (fun hc => ht hc.1), if_neg ht, setWorker, h2, if_neg (fun hc => ht hc.1)]

/-- The job that is first in a queue is that of nobody else, and its handler is attempted only
once it is taken. -/
structure First (b : Board) (s : StationId) (h : HandlerId) (rest : List HandlerId) : Prop where
  /-- It is first. -/
  jobs : b.jobs s = h :: rest
  /-- Its station was made. -/
  made : s < b.stations.length
  /-- It comes only once. -/
  last : h ∉ rest
  /-- It was not attempted. -/
  untried : h ∉ b.screen.attempts.map (·.handler)

theorem Jobs.first (hb : b.Jobs) {rest : List (Message HandlerId)}
    (hq : (b.station s).worker.queue = .run h :: rest) :
    b.First s h (rest.flatMap messageHandlers) := by
  have hjs : b.jobs s = h :: rest.flatMap messageHandlers := by simp [jobs, hq, messageHandlers]
  have hmem : h ∈ b.jobs s := by rw [hjs]; exact List.mem_cons_self
  refine ⟨hjs, lt_of_mem_jobs hmem, ?_, ?_⟩
  · have hn := hb.single s
    rw [hjs] at hn
    exact (List.nodup_cons.mp hn).1
  · intro hm
    obtain ⟨a, ha, he⟩ := List.mem_map.mp hm
    exact hb.untried ha (he ▸ hmem)

theorem First.mem {rest : List HandlerId} (hf : b.First s h rest) : h ∈ b.jobs s := by
  rw [hf.jobs]
  exact List.mem_cons_self

/-- What is queued once the first job is taken was queued before, and is not that job. -/
theorem First.before {rest : List HandlerId} {x : HandlerId} {t : StationId} (hf : b.First s h rest)
    (hb : b.Jobs) (hj : ∀ t, b'.jobs t = if t = s then rest else b.jobs t)
    (hx : x ∈ b'.jobs t) : x ∈ b.jobs t ∧ x ≠ h := by
  rw [hj] at hx
  split at hx
  · rename_i ht
    subst ht
    rw [hf.jobs]
    exact ⟨List.mem_cons_of_mem _ hx, fun he => hf.last (he ▸ hx)⟩
  · rename_i ht
    exact ⟨hx, fun he => ht (hb.apart (he ▸ hx) hf.mem)⟩

/-- Any other job stays queued. -/
theorem First.stays {rest : List HandlerId} {x : HandlerId} {t : StationId} (hf : b.First s h rest)
    (hj : ∀ t, b'.jobs t = if t = s then rest else b.jobs t) (hne : x ≠ h)
    (hx : x ∈ b.jobs t) : x ∈ b'.jobs t := by
  rw [hj]
  split
  · rename_i ht
    rw [ht, hf.jobs] at hx
    exact (List.mem_cons.mp hx).resolve_left hne
  · exact hx

/-- Where jobs are queued when a station gets another worker. -/
theorem jobs_setWorker (hs : s < b.stations.length) (worker : Worker HandlerId) (t : StationId) :
    (b.setWorker s worker).jobs t =
      if t = s then worker.queue.flatMap messageHandlers else b.jobs t := by
  rw [jobs, setWorker, station_updateStation]
  by_cases ht : t = s
  · rw [if_pos ⟨ht, hs⟩, if_pos ht]
  · rw [if_neg (fun hc => ht hc.1), if_neg ht]
    rfl

/-- What a board is once the first job at a station is under way. -/
structure Begins (s : StationId) (h : HandlerId) (rest : List HandlerId) (a : Attempt)
    (b b' : Board) : Prop where
  /-- The job was the first one. -/
  first : b.First s h rest
  /-- The attempt is that of its handler. -/
  whose : a.handler = h
  /-- The attempt is the last one. -/
  attempts : b'.screen.attempts = b.screen.attempts ++ [a]
  /-- The other jobs are left. -/
  jobs : ∀ t, b'.jobs t = if t = s then rest else b.jobs t
  /-- The station stands inside the attempt, and the others where they stood. -/
  inside : ∀ t, (b'.station t).inside =
    if t = s then some b.screen.attempts.length else (b.station t).inside
  /-- Handlers are left as they are. -/
  handlers : b'.handlers = b.handlers

/-- An attempt begins for the first job in a queue. -/
theorem Jobs.begins (hb : b.Jobs) {worker : Worker HandlerId} {rest : List (Message HandlerId)}
    (hq : (b.station s).worker.queue = .run h :: rest) (hw : worker.queue = rest) :
    ∃ a, b.Begins s h (rest.flatMap messageHandlers) a
      ((b.setWorker s worker).beginAttempt s h) := by
  have hfirst := hb.first hq
  have hstation := station_beginAttempt (b := b) (h := h) hfirst.made worker
  obtain ⟨a, hwhose, hattempts⟩ := attempts_beginAttempt (b := b) (s := s) (h := h) worker
  refine ⟨a, hfirst, hwhose, hattempts, fun t => ?_, fun t => ?_, rfl⟩
  · rw [jobs, hstation]
    split
    · rw [hw]
    · rfl
  · rw [hstation]
    split <;> rfl

variable {rest : List HandlerId} {a : Attempt}

/-- What is queued afterwards was queued before, and is not the job that was taken. -/
theorem Begins.before (hn : b.Begins s h rest a b') (hb : b.Jobs) {t : StationId} {x : HandlerId}
    (hx : x ∈ b'.jobs t) : x ∈ b.jobs t ∧ x ≠ h :=
  hn.first.before hb hn.jobs hx

/-- Where stations stand once an attempt has begun. -/
theorem Begins.inside? (hn : b.Begins s h rest a b') (hb : b.Jobs) (t : StationId) :
    b'.inside? t = if t = s then some a else b.inside? t := by
  rw [Board.inside?, hn.inside, hn.attempts]
  split
  · exact List.getElem?_concat_length
  · rw [Board.inside?]
    cases hi : (b.station t).inside with
    | none => rfl
    | some i => exact List.getElem?_append_left (hb.inside hi)

/-- What is queued or under way afterwards was so before. -/
theorem Begins.busy (hn : b.Begins s h rest a b') (hb : b.Jobs) {x : HandlerId}
    (hx : b'.Busy x) : b.Busy x := by
  rcases hx with ⟨t, hm⟩ | ⟨t, a', ha', he⟩
  · exact .inl ⟨t, (hn.before hb hm).1⟩
  · rw [hn.inside? hb] at ha'
    split at ha'
    · cases ha'
      exact .inl ⟨s, he ▸ hn.whose ▸ hn.first.mem⟩
    · exact .inr ⟨t, a', ha', he⟩

/-- What was queued or under way still is, if the station did not stand inside an attempt. -/
theorem Begins.still_busy (hn : b.Begins s h rest a b') (hb : b.Jobs)
    (hnone : b.inside? s = none) {x : HandlerId} (hx : b.Busy x) : b'.Busy x := by
  rcases hx with ⟨t, hm⟩ | ⟨t, a', ha', he⟩
  · by_cases hne : x = h
    · exact .inr ⟨s, a, by rw [hn.inside? hb, if_pos rfl], hn.whose.trans hne.symm⟩
    · exact .inl ⟨t, hn.first.stays hn.jobs hne hm⟩
  · have hts : t ≠ s := by
      rintro rfl
      rw [hnone] at ha'
      cases ha'
    exact .inr ⟨t, a', by rw [hn.inside? hb, if_neg hts]; exact ha', he⟩

/-- No two stations stand inside the attempt that has begun, or inside another one. -/
theorem Begins.alone (hn : b.Begins s h rest a b') (hb : b.Jobs) {t u : StationId} {i : Nat}
    (ht : (b'.station t).inside = some i) (hu : (b'.station u).inside = some i) : t = u := by
  have hnew : ∀ {v}, (b.station v).inside = some b.screen.attempts.length → False :=
    fun hv => Nat.lt_irrefl _ (hb.inside hv)
  rw [hn.inside] at ht hu
  split at ht <;> split at hu
  · simp_all only
  · cases ht
    exact (hnew hu).elim
  · cases hu
    exact (hnew ht).elim
  · exact hb.alone ht hu

/-- The job that a worker takes is under way until it is finished. -/
theorem Begins.keeps_jobs (hn : b.Begins s h rest a b') (hb : b.Jobs)
    (hp : b.phase h ≠ .unregistered) : b'.Jobs := by
  have hbusy : b.Busy h := .inl ⟨s, hn.first.mem⟩
  have hphase : ∀ x, b'.phase x = b.phase x := fun x => by
    rw [phase, phase, handler, handler, hn.handlers]
  constructor
  · intro t
    rw [hn.jobs]
    split
    · have hnodup := hb.single s
      rw [hn.first.jobs] at hnodup
      exact (List.nodup_cons.mp hnodup).2
    · exact hb.single t
  · exact fun h1 h2 => hb.apart (hn.before hb h1).1 (hn.before hb h2).1
  · rw [hn.attempts, List.map_append, List.map_singleton, hn.whose, List.nodup_append]
    refine ⟨hb.tried, List.pairwise_singleton .., ?_⟩
    intro x hx y hy he
    exact hn.first.untried (List.mem_singleton.mp hy ▸ he ▸ hx)
  · intro t a' h1 h2
    rw [hn.attempts, List.mem_append, List.mem_singleton] at h1
    rcases h1 with h1 | rfl
    · exact hb.untried h1 (hn.before hb h2).1
    · exact (hn.before hb h2).2 hn.whose
  · intro t i h1
    rw [hn.attempts, List.length_append, List.length_singleton]
    rw [hn.inside] at h1
    split at h1
    · cases h1
      exact Nat.lt_succ_self _
    · exact Nat.lt_succ_of_lt (hb.inside h1)
  · exact fun h1 h2 => hn.alone hb h1 h2
  · intro x hx
    rw [hphase]
    exact hb.waiting (hn.busy hb hx)
  · intro x hx
    rw [hn.attempts, List.map_append, List.mem_append, List.map_singleton, hn.whose,
      List.mem_singleton] at hx
    rw [hn.handlers]
    rcases hx with hx | hx | rfl
    · exact hb.known (.inl (hn.busy hb hx))
    · exact hb.known (.inr hx)
    · exact hb.known (.inl hbusy)
  · intro a' h1
    rw [hphase]
    rw [hn.attempts, List.mem_append, List.mem_singleton] at h1
    rcases h1 with h1 | rfl
    · exact hb.submitted a' h1
    · rw [hn.whose, (hb.waiting hbusy).resolve_right hp]
      exact Phase.noConfusion

end ToastBoard.Board
