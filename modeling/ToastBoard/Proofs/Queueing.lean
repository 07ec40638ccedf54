import ToastBoard.Worker.Basic

/-!
# The queue of a worker

What a worker is handed stands in its queue in the order in which it was accepted, and so it is
begun and ended. The marks in the queue tell how many jobs were accepted before them. The order to
stop comes last.
-/

namespace ToastBoard

namespace Worker

variable {Job : Type}

/-- The jobs in a queue. -/
def jobsIn (queue : List (Message Job)) : List Job :=
  queue.filterMap fun
    | .run job => some job
    | _ => none

/-- For each mark in a queue, how many jobs have begun when the worker comes to it, if so many have
begun now. -/
def marksIn : Nat → List (Message Job) → List Nat
  | _, [] => []
  | n, .run _ :: queue => marksIn (n + 1) queue
  | n, .mark :: queue => n :: marksIn n queue
  | n, .stop :: queue => marksIn n queue

theorem jobsIn_append (queue queue' : List (Message Job)) :
    jobsIn (queue ++ queue') = jobsIn queue ++ jobsIn queue' := List.filterMap_append

theorem marksIn_append (n : Nat) (queue queue' : List (Message Job)) :
    marksIn n (queue ++ queue') =
      marksIn n queue ++ marksIn (n + (jobsIn queue).length) queue' := by
  induction queue generalizing n with
  | nil => rfl
  | cons message queue ih =>
    cases message with
    | run job =>
      have hlen : n + (jobsIn (.run job :: queue)).length = n + 1 + (jobsIn queue).length := by
        change n + ((jobsIn queue).length + 1) = _
        omega
      rw [hlen]
      exact ih (n + 1)
    | mark => exact congrArg (n :: ·) (ih n)
    | stop => exact ih n

/-- What a worker has to do and what it has done go together. -/
structure InOrder (w : Worker Job) (current : Option Job) (done accepted : List Job)
    (waits : List Nat) (stopped crashed : Bool) : Prop where
  /-- Jobs are accepted, queued, begun and ended in order; only a crash loses any. -/
  jobs : ∃ lost, accepted = done ++ current.toList ++ jobsIn w.queue ++ lost ∧
    (crashed = false → lost = [])
  /-- So are marks, each with the number of jobs accepted before it. The worker came to a mark when
  these had ended. -/
  marks : ∃ reached lost, waits = reached ++ marksIn (done ++ current.toList).length w.queue ++
    lost ∧ reached.length = w.marks ∧ (∀ n ∈ reached, n ≤ done.length) ∧
    (w.alive = true → lost = [])
  /-- The order to stop is the last in the queue, as soon as nothing is accepted. -/
  last : w.alive = true → ∃ front, .stop ∉ front ∧
    w.queue = front ++ if w.accepting then [] else [.stop]
  /-- A worker that is gone does nothing. -/
  gone : w.alive = false → w.accepting = false ∧ w.queue = [] ∧ current = none
  /-- It goes if it is stopped or if its thread is killed. -/
  ends : w.alive = false → stopped = true ∨ crashed = true
  /-- Its thread is gone if it was killed. -/
  killed : crashed = true → w.alive = false
  /-- Once it is stopped nothing is accepted. -/
  closed : stopped = true → w.accepting = false
  /-- Nothing is accepted only if it is stopped or gone. -/
  opened : w.accepting = false → stopped = true ∨ w.alive = false

variable {w w' : Worker Job} {current : Option Job} {done accepted : List Job} {waits : List Nat}
  {stopped crashed : Bool} {job : Job} {message : Message Job}

theorem inOrder_start {refusal : Option String} {name : String}
    (hw : start refusal name = some (.ok w)) : w.InOrder none [] [] [] false false := by
  have hname : w = { name } := by
    unfold start at hw
    split at hw
    · cases hw
    · split at hw
      · cases hw
      · cases hw
        rfl
  subst hname
  exact ⟨⟨[], rfl, fun _ => rfl⟩, ⟨[], [], rfl, rfl, by simp, fun _ => rfl⟩,
    fun _ => ⟨[], by simp, rfl⟩, nofun, nofun, nofun, nofun, nofun⟩

/-- Whoever accepts puts the message last into the queue. -/
theorem send_eq_ok : w.send message = .ok w' ↔ w.accepting = true ∧ w.alive = true ∧
    w' = { w with queue := w.queue ++ [message] } := by
  unfold send
  split
  · rename_i h
    rw [Bool.not_eq_true'] at h
    simp [h]
  · rename_i h
    rw [Bool.not_eq_true', Bool.not_eq_false] at h
    split
    · rename_i h'
      rw [Bool.not_eq_true'] at h'
      simp [h']
    · rename_i h'
      rw [Bool.not_eq_true', Bool.not_eq_false] at h'
      simp [h, h', eq_comm]

/-- Nothing is accepted by a worker that accepts nothing. -/
theorem send_of_closed (hw : w.accepting = false) :
    w.send message = .error (.dispatch "background dispatcher is stopped") := by
  rw [send, hw]
  rfl

namespace InOrder

theorem not_crashed (h : w.InOrder current done accepted waits stopped crashed)
    (ha : w.alive = true) : crashed = false := by
  cases hc : crashed with
  | false => rfl
  | true => rw [h.killed hc] at ha; cases ha

/-- A worker that accepts has no order to stop. -/
theorem no_stop (h : w.InOrder current done accepted waits stopped crashed)
    (hw : w.accepting = true) (ha : w.alive = true) : .stop ∉ w.queue := by
  obtain ⟨front, hfront, hqueue⟩ := h.last ha
  rw [hqueue, hw, if_pos rfl, List.append_nil]
  exact hfront

/-- A job is accepted. -/
theorem handed (h : w.InOrder current done accepted waits stopped crashed)
    (hw : w.dispatch job = .ok w') :
    w'.InOrder current done (accepted ++ [job]) waits stopped crashed := by
  obtain ⟨hopen, halive, rfl⟩ := send_eq_ok.mp hw
  obtain ⟨lost, hjobs, hlost⟩ := h.jobs
  obtain ⟨reached, lostMarks, hmarks, hrest⟩ := h.marks
  refine ⟨⟨[], ?_, fun _ => rfl⟩, ⟨reached, lostMarks, ?_, hrest⟩, fun _ => ⟨w.queue ++ [.run job],
    ?_, ?_⟩, fun hg => absurd halive (by rw [hg]; exact Bool.noConfusion), h.ends, h.killed,
    h.closed, h.opened⟩
  · rw [hjobs, hlost (h.not_crashed halive), jobsIn_append]
    simp [jobsIn]
  · rw [hmarks, marksIn_append]
    simp [marksIn]
  · simpa using h.no_stop hopen halive
  · simp [hopen]

/-- A mark is accepted. -/
theorem marked (h : w.InOrder current done accepted waits stopped crashed)
    (hw : w.send .mark = .ok w') :
    w'.InOrder current done accepted (waits ++ [accepted.length]) stopped crashed := by
  obtain ⟨hopen, halive, rfl⟩ := send_eq_ok.mp hw
  obtain ⟨lost, hjobs, hlost⟩ := h.jobs
  obtain ⟨reached, lostMarks, hmarks, hlen, hreached, hlostMarks⟩ := h.marks
  refine ⟨⟨lost, ?_, hlost⟩, ⟨reached, [], ?_, hlen, hreached, fun _ => rfl⟩, fun _ =>
    ⟨w.queue ++ [.mark], ?_, ?_⟩, fun hg => absurd halive (by rw [hg]; exact Bool.noConfusion),
    h.ends, h.killed, h.closed, h.opened⟩
  · rw [hjobs, jobsIn_append]
    simp [jobsIn]
  · have hlen : accepted.length = (done ++ current.toList).length + (jobsIn w.queue).length := by
      rw [hjobs, hlost (h.not_crashed halive), List.append_nil, List.length_append]
    rw [hmarks, hlostMarks halive, marksIn_append, hlen]
    simp [marksIn]
  · simpa using h.no_stop hopen halive
  · simp [hopen]

/-- The worker is told to stop. -/
theorem told (h : w.InOrder current done accepted waits stopped crashed) :
    w.stop.InOrder current done accepted waits true crashed := by
  unfold stop
  split
  · rename_i hopen
    refine ⟨?_, ?_, fun ha => ⟨w.queue, h.no_stop hopen ha, rfl⟩, fun hg => ?_,
      fun _ => .inl rfl, h.killed, fun _ => rfl, fun _ => .inl rfl⟩
    · obtain ⟨lost, hjobs, hlost⟩ := h.jobs
      refine ⟨lost, ?_, hlost⟩
      rw [hjobs, jobsIn_append]
      simp [jobsIn]
    · obtain ⟨reached, lost, hmarks, hrest⟩ := h.marks
      refine ⟨reached, lost, ?_, hrest⟩
      rw [hmarks, marksIn_append]
      simp [marksIn]
    · rw [(h.gone hg).1] at hopen
      cases hopen
  · rename_i hclosed
    exact ⟨h.jobs, h.marks, h.last, h.gone, fun _ => .inl rfl, h.killed,
      fun _ => Bool.eq_false_iff.mpr hclosed, fun _ => .inl rfl⟩

/-- What is next in a queue is no order to stop, if something follows or things are accepted. -/
theorem tail_eq {front queue : List (Message Job)} {open' : Bool}
    (hq : message :: queue = front ++ if open' then [] else [.stop]) (hm : message ≠ .stop) :
    ∃ front', front = message :: front' ∧ queue = front' ++ if open' then [] else [.stop] := by
  cases front with
  | nil =>
    cases open' <;> cases hq
    exact absurd rfl hm
  | cons first front =>
    cases hq
    exact ⟨front, rfl, rfl⟩

/-- The worker takes what is next in its queue. -/
theorem taken (h : w.InOrder none done accepted waits stopped crashed) :
    w.next.2.InOrder w.next.1 done accepted waits stopped crashed := by
  unfold next
  cases hq : w.queue with
  | nil => exact h
  | cons message queue =>
    have halive : w.alive = true := by
      cases ha : w.alive with
      | true => rfl
      | false =>
        rw [(h.gone ha).2.1] at hq
        cases hq
    obtain ⟨lost, hjobs, hlost⟩ := h.jobs
    obtain ⟨reached, lostMarks, hmarks, hlen, hreached, hlostMarks⟩ := h.marks
    obtain ⟨front, hfront, hqueue⟩ := h.last halive
    rw [hq] at hjobs hmarks hqueue
    cases message with
    | run job =>
      refine ⟨⟨lost, ?_, hlost⟩, ⟨reached, lostMarks, ?_, hlen, hreached, hlostMarks⟩, fun _ => ?_,
        fun hg => absurd halive (by rw [hg]; exact Bool.noConfusion), h.ends, h.killed, h.closed,
        h.opened⟩
      · rw [hjobs]
        simp [jobsIn]
      · rw [hmarks]
        simp [marksIn]
      · obtain ⟨front, rfl, hrest⟩ := tail_eq hqueue nofun
        exact ⟨front, fun hm => hfront (List.mem_cons_of_mem _ hm), hrest⟩
    | mark =>
      refine ⟨⟨lost, hjobs, hlost⟩, ⟨reached ++ [done.length], lostMarks, ?_, ?_, ?_, hlostMarks⟩,
        fun _ => ?_, fun hg => absurd halive (by rw [hg]; exact Bool.noConfusion), h.ends, h.killed,
        h.closed, h.opened⟩
      · rw [hmarks]
        simp [marksIn]
      · rw [List.length_append, hlen]
        rfl
      · intro n hn
        rcases List.mem_append.mp hn with hn | hn
        · exact hreached n hn
        · exact Nat.le_of_eq (List.mem_singleton.mp hn)
      · obtain ⟨front, rfl, hrest⟩ := tail_eq hqueue nofun
        exact ⟨front, fun hm => hfront (List.mem_cons_of_mem _ hm), hrest⟩
    | stop =>
      obtain ⟨hclosed, rfl⟩ : w.accepting = false ∧ queue = [] := by
        cases front with
        | nil =>
          cases ho : w.accepting <;> rw [ho] at hqueue <;> cases hqueue
          exact ⟨rfl, rfl⟩
        | cons first front =>
          cases hqueue
          exact absurd List.mem_cons_self hfront
      have hstopped : stopped = true := (h.opened hclosed).resolve_right (by rw [halive]; simp)
      exact ⟨⟨lost, hjobs, hlost⟩, ⟨reached, lostMarks, hmarks, hlen, hreached, nofun⟩, nofun,
        fun _ => ⟨rfl, rfl, rfl⟩, fun _ => .inl hstopped, fun _ => rfl, fun _ => rfl,
        fun _ => .inr rfl⟩

/-- The job that runs ends. -/
theorem ended (h : w.InOrder (some job) done accepted waits stopped crashed) :
    w.InOrder none (done ++ [job]) accepted waits stopped crashed := by
  obtain ⟨lost, hjobs, hlost⟩ := h.jobs
  obtain ⟨reached, lostMarks, hmarks, hlen, hreached, hlostMarks⟩ := h.marks
  refine ⟨⟨lost, ?_, hlost⟩, ⟨reached, lostMarks, ?_, hlen, fun n hn => ?_, hlostMarks⟩, h.last,
    fun hg => absurd (h.gone hg).2.2 (Option.some_ne_none job), h.ends, h.killed, h.closed,
    h.opened⟩
  · rw [hjobs]
    simp
  · rw [hmarks]
    simp
  · have := hreached n hn
    rw [List.length_append]
    omega

/-- The thread is killed. -/
theorem finished (h : w.InOrder current done accepted waits stopped crashed) :
    w.finish.InOrder none (done ++ current.toList) accepted waits stopped true := by
  obtain ⟨lost, hjobs, -⟩ := h.jobs
  obtain ⟨reached, lostMarks, hmarks, hlen, hreached, -⟩ := h.marks
  refine ⟨⟨jobsIn w.queue ++ lost, ?_, nofun⟩, ⟨reached, marksIn (done ++ current.toList).length
    w.queue ++ lostMarks, ?_, hlen, fun n hn => ?_, nofun⟩, nofun, fun _ => ⟨rfl, rfl, rfl⟩,
    fun _ => .inr rfl, fun _ => rfl, fun _ => rfl, fun _ => .inr rfl⟩
  · rw [hjobs]
    simp [finish, jobsIn]
  · rw [hmarks]
    simp [finish, marksIn]
  · have := hreached n hn
    rw [List.length_append]
    omega

end InOrder

end Worker

end ToastBoard
