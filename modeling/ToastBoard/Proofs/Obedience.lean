import ToastBoard.Proofs.Shifts

/-!
# Orders are followed

Orders that somebody gives a worker one by one are runs of moves: those outside ask for what the
orders ask for, in order, and apart from that the worker goes on. What the orders answer, and what
the jobs log meanwhile, is what has become of the jobs that the worker was handed and of the calls
to wait for its queue.
-/

namespace ToastBoard

variable {τ : Type}

/-- What the worker has said, if there was a handle to ask it through. -/
def WorkReply.answer? : WorkReply → Option (Except Failure Unit)
  | .done => some (.ok ())
  | .refused (.failure e) => some (.error e)
  | _ => none

/-- What the worker has said to a job that handed it another one, if there was a handle to do that
through. -/
def WorkEntry.answer? : WorkEntry τ → Option (Except Failure Unit)
  | .dispatched (.ok ()) => some (.ok ())
  | .dispatched (.error (.failure e)) => some (.error e)
  | _ => none

namespace WorkRun

variable {r r' : WorkRun τ}

/-- What a job leaves once the thread has seen to its end. -/
def outcome : JobEnd × WorkRun τ → WorkRun τ
  | (.done, r) => r
  | (.crashed, r) => { r with worker := r.worker.finish }

/-- A turn takes what is next, and sees a job to its end. -/
theorem turn_eq (r : WorkRun τ) : r.turn = match r.worker.next.1 with
    | none => { r with worker := r.worker.next.2 }
    | some job => outcome (runJob job { r with worker := r.worker.next.2 }) := by
  unfold turn
  cases r.worker.next with
  | mk job? worker =>
    cases job? with
    | none => rfl
    | some job =>
      dsimp only
      split <;> rename_i h <;> rw [h] <;> rfl

/-- What a queue has left to do, in the weights of its jobs. -/
theorem backlog_eq (r : WorkRun τ) : r.backlog = (r.worker.queue.map Shift.weight).sum := by
  rw [List.sum_eq_foldl, List.foldl_map]
  rfl

theorem one_le_jobWeight (job : List (Step τ)) : 1 ≤ Step.jobWeight job := by
  cases job with
  | nil => exact Nat.le_refl 1
  | cons step rest =>
    rw [Shift.jobWeight_cons]
    exact Nat.le_add_right_of_le (Shift.one_le_weight step)

/-- A job leaves less to do than there was with it. -/
theorem backlog_outcome (job : List (Step τ)) (r : WorkRun τ) :
    (outcome (runJob job r)).backlog < r.backlog + Step.jobWeight job := by
  induction job generalizing r with
  | nil =>
    rw [Step.jobWeight]
    exact Nat.lt_succ_self _
  | cons step rest ih =>
    have hleft := Shift.asks_left { run := r } step
    rw [← Shift.carryOut_worker, ← backlog_eq, ← backlog_eq] at hleft
    have ha : r.worker.accepting.toNat ≤ 1 := Bool.toNat_le _
    have hrest := one_le_jobWeight rest
    rw [runJob_cons, Shift.jobWeight_cons]
    cases hr : r.carryOut step with
    | mk how? r' =>
      rw [hr] at hleft
      dsimp only at hleft
      cases how? with
      | none =>
        have hgoes := ih r'
        dsimp only
        omega
      | some how =>
        cases how with
        | done =>
          change r'.backlog < _
          omega
        | crashed =>
          change 0 < _
          omega

/-- A turn leaves less to do. -/
theorem backlog_turn (hq : r.worker.queue ≠ []) : r.turn.backlog < r.backlog := by
  rw [r.backlog_eq]
  cases hqueue : r.worker.queue with
  | nil => exact absurd hqueue hq
  | cons message queue =>
    rw [List.map_cons, List.sum_cons]
    cases message with
    | run job =>
      have hnext : r.worker.next = (some job, { r.worker with queue }) := by
        rw [Worker.next, hqueue]
      have hout := backlog_outcome job { r with worker := { r.worker with queue } }
      rw [backlog_eq { r with worker := _ }] at hout
      rw [turn_eq, hnext, Nat.add_comm]
      exact hout
    | mark =>
      have hnext : r.worker.next =
          (none, { r.worker with queue, marks := r.worker.marks + 1 }) := by
        rw [Worker.next, hqueue]
      rw [turn_eq, hnext, backlog_eq]
      change (queue.map Shift.weight).sum < 1 + (queue.map Shift.weight).sum
      omega
    | stop =>
      have hnext : r.worker.next = (none, r.worker.finish) := by rw [Worker.next, hqueue]
      rw [turn_eq, hnext, backlog_eq]
      exact Nat.lt_of_lt_of_le Nat.zero_lt_one (Nat.le_add_right _ _)

/-- A queue is empty after as many turns as it has work. -/
theorem queue_turns {n : Nat} (hn : r.backlog ≤ n) : (turns n r).worker.queue = [] := by
  induction n generalizing r with
  | zero =>
    refine Classical.byContradiction fun hq => ?_
    have hless := backlog_turn (r := r) hq
    omega
  | succ n ih =>
    rw [turns]
    split
    · rename_i hq
      exact List.isEmpty_iff.mp hq
    · rename_i hq
      have hless := backlog_turn (r := r) (mt List.isEmpty_iff.mpr hq)
      exact ih (by omega)

/-- The queue is run until it is empty. -/
theorem queue_runQueue (r : WorkRun τ) : r.runQueue.worker.queue = [] :=
  queue_turns (Nat.le_refl _)

/-- Two workers and the handles on them are the same, and what one has logged is what it had logged
before and what the other has. -/
structure SameAfter (before : List (WorkEntry τ)) (r r' : WorkRun τ) : Prop where
  /-- The workers are the same. -/
  worker : r.worker = r'.worker
  /-- So are the handles. -/
  held : r.held = r'.held
  /-- One has logged more. -/
  log : r.log = before ++ r'.log

variable {before : List (WorkEntry τ)}

/-- Runs stay the same after what is recorded in both. -/
theorem SameAfter.record (h : SameAfter before r r') (entry : WorkEntry τ) :
    SameAfter before (r.record entry) (r'.record entry) :=
  ⟨h.worker, h.held, by rw [WorkRun.record, WorkRun.record, h.log, List.append_assoc]⟩

/-- Handing over a job is told the same, and leaves the same. -/
theorem SameAfter.dispatch (h : SameAfter before r r') (job : List (Step τ)) :
    (r.dispatch job).1 = (r'.dispatch job).1 ∧
      SameAfter before (r.dispatch job).2 (r'.dispatch job).2 := by
  rw [WorkRun.dispatch, WorkRun.dispatch, h.held, h.worker]
  split
  · split
    · exact ⟨rfl, rfl, rfl, h.log⟩
    · exact ⟨rfl, h⟩
  · exact ⟨rfl, h⟩

/-- A step is carried out the same way in both. -/
theorem SameAfter.carryOut (h : SameAfter before r r') (step : Step τ) :
    (r.carryOut step).1 = (r'.carryOut step).1 ∧
      SameAfter before (r.carryOut step).2 (r'.carryOut step).2 := by
  cases step with
  | dispatch job =>
    obtain ⟨hreply, hafter⟩ := h.dispatch job
    refine ⟨rfl, ?_⟩
    rw [WorkRun.carryOut, WorkRun.carryOut, hreply]
    exact hafter.record _
  | stop | drop =>
    rw [WorkRun.carryOut, WorkRun.carryOut, h.held, h.worker]
    split
    · exact ⟨rfl, rfl, rfl, (h.record _).log⟩
    · exact ⟨rfl, h.record _⟩
  | thread =>
    refine ⟨rfl, ?_⟩
    rw [WorkRun.carryOut, WorkRun.carryOut, h.worker]
    exact h.record _
  | running =>
    refine ⟨rfl, ?_⟩
    rw [WorkRun.carryOut, WorkRun.carryOut, isRunning, isRunning, h.held, h.worker]
    exact h.record _
  | panic | crash => exact ⟨rfl, h⟩
  | _ => exact ⟨rfl, h.record _⟩

/-- A job comes to the same in both. -/
theorem SameAfter.outcome (h : SameAfter before r r') (job : List (Step τ)) :
    SameAfter before (WorkRun.outcome (runJob job r)) (WorkRun.outcome (runJob job r')) := by
  induction job generalizing r r' with
  | nil => exact h
  | cons step rest ih =>
    obtain ⟨hhow, hsame⟩ := h.carryOut step
    rw [runJob_cons, runJob_cons]
    cases hr : r.carryOut step with
    | mk how? r₁ =>
      cases hr' : r'.carryOut step with
      | mk how?' r₁' =>
        rw [hr, hr'] at hhow hsame
        cases hhow
        match how? with
        | none => exact ih hsame
        | some .done => exact hsame
        | some .crashed => exact ⟨congrArg Worker.finish hsame.worker, hsame.held, hsame.log⟩

/-- A worker takes the same turn in both. -/
theorem SameAfter.turn (h : SameAfter before r r') : SameAfter before r.turn r'.turn := by
  rw [turn_eq, turn_eq, ← h.worker]
  have hnext : SameAfter before { r with worker := r.worker.next.2 }
      { r' with worker := r.worker.next.2 } := ⟨rfl, h.held, h.log⟩
  cases r.worker.next.1 with
  | none => exact hnext
  | some job => exact hnext.outcome job

/-- A worker takes the same turns in both. -/
theorem SameAfter.turns (h : SameAfter before r r') (n : Nat) :
    SameAfter before (WorkRun.turns n r) (WorkRun.turns n r') := by
  induction n generalizing r r' with
  | zero => exact h
  | succ n ih =>
    rw [WorkRun.turns, WorkRun.turns, ← h.worker]
    split
    · exact h
    · exact ih h.turn

/-- A queue is run the same way in both. -/
theorem SameAfter.runQueue (h : SameAfter before r r') :
    SameAfter before r.runQueue r'.runQueue := by
  rw [WorkRun.runQueue, WorkRun.runQueue, backlog, backlog, ← h.worker]
  exact h.turns _

end WorkRun

namespace Shift

variable {s s' : Shift τ} {r : WorkRun τ} {before : List (WorkEntry τ)}

/-- The worker goes on until the job that runs has ended. -/
theorem works_job {job rest : List (Step τ)} (hc : s.current = some (job, rest)) :
    ∃ n, (s.after (List.replicate n .work)).current = none ∧
      (s.after (List.replicate n .work)).run = WorkRun.outcome (WorkRun.runJob rest s.run) := by
  induction rest generalizing s with
  | nil =>
    refine ⟨1, ?_⟩
    change s.work.current = none ∧ s.work.run = s.run
    rw [work, hc]
    exact ⟨rfl, rfl⟩
  | cons step rest ih =>
    have hwork : s.work = s.carry job step rest := by rw [work, hc]
    rw [WorkRun.runJob_cons]
    cases hr : s.run.carryOut step with
    | mk how? run =>
      have hcarry : s.work = { s.asks step with run }.goOn job rest how? := by rw [hwork, carry, hr]
      cases how? with
      | none =>
        obtain ⟨n, hn⟩ := ih (s := s.work) (by rw [hcarry]; rfl)
        rw [hcarry] at hn
        refine ⟨n + 1, ?_⟩
        change (s.work.after (List.replicate n .work)).current = none ∧
          (s.work.after (List.replicate n .work)).run = _
        rw [hcarry]
        exact hn
      | some how =>
        refine ⟨1, ?_⟩
        change s.work.current = none ∧ s.work.run = _
        rw [hcarry]
        cases how with
        | done => exact ⟨rfl, rfl⟩
        | crashed => exact ⟨rfl, rfl⟩

theorem after_append (s : Shift τ) (moves moves' : List (ShiftMove τ)) :
    s.after (moves ++ moves') = (s.after moves).after moves' := List.foldl_append

/-- A turn is what the worker does when it goes on for a while. -/
theorem works_turn (hc : s.current = none) : ∃ n,
    (s.after (List.replicate n .work)).current = none ∧
    (s.after (List.replicate n .work)).run = s.run.turn := by
  have hwork : s.work = { s with
      run := { s.run with worker := s.run.worker.next.2 }
      current := s.run.worker.next.1.map fun job => (job, job) } := by rw [work, hc]
  rw [WorkRun.turn_eq]
  cases hj : s.run.worker.next.1 with
  | none =>
    refine ⟨1, ?_⟩
    change s.work.current = none ∧ s.work.run = _
    rw [hwork, hj]
    exact ⟨rfl, rfl⟩
  | some job =>
    have htaken : s.work.current = some (job, job) := by
      rw [hwork, hj]
      rfl
    obtain ⟨n, hn⟩ := works_job htaken
    refine ⟨n + 1, hn.1, hn.2.trans ?_⟩
    rw [hwork]

/-- So is running the queue. -/
theorem works_runQueue (hc : s.current = none) : ∃ n, (s.after (List.replicate n .work)).Idle ∧
    (s.after (List.replicate n .work)).run = s.run.runQueue := by
  have hturns : ∀ k (s : Shift τ), s.current = none →
      ∃ n, (s.after (List.replicate n .work)).current = none ∧
        (s.after (List.replicate n .work)).run = s.run.turns k := by
    intro k
    induction k with
    | zero => exact fun s hc => ⟨0, hc, rfl⟩
    | succ k ih =>
      intro s hc
      rw [WorkRun.turns]
      split
      · exact ⟨0, hc, rfl⟩
      · obtain ⟨n, hn, hrun⟩ := works_turn hc
        obtain ⟨m, hm, hrun'⟩ := ih _ hn
        refine ⟨n + m, ?_⟩
        rw [← List.replicate_append_replicate, after_append, ← hrun]
        exact ⟨hm, hrun'⟩
  obtain ⟨n, hn, hrun⟩ := hturns s.run.backlog s hc
  refine ⟨n, ⟨?_, hn⟩, hrun⟩
  rw [hrun]
  exact s.run.queue_runQueue

/-- What stands between two orders: no job runs. -/
structure Mirrors (before : List (WorkEntry τ)) (s : Shift τ) (r : WorkRun τ) : Prop where
  /-- No job runs. -/
  current : s.current = none
  /-- The worker and the handle on it are the same, and so is what has been logged since. -/
  same : s.run.SameAfter before r

/-- After some calls from outside the worker was handed jobs only by its jobs, and what they were
told is in the log. -/
def Logs (s s' : Shift τ) (calls : List (List (Step τ) × Except Failure Unit)) : Prop :=
  ∃ own entries, s'.calls = s.calls ++ calls ++ own ∧ s'.run.log = s.run.log ++ entries ∧
    own.map Prod.snd = entries.filterMap WorkEntry.answer?

/-- What is logged may be logged in two parts. -/
theorem Logs.trans {s' s'' : Shift τ} {calls : List (List (Step τ) × Except Failure Unit)}
    (h : s.Logs s' calls) (h' : s'.Logs s'' []) : s.Logs s'' calls := by
  obtain ⟨own, entries, hcalls, hlog, hown⟩ := h
  obtain ⟨own', entries', hcalls', hlog', hown'⟩ := h'
  refine ⟨own ++ own', entries ++ entries', ?_, ?_, ?_⟩
  · rw [hcalls', hcalls, List.append_nil, List.append_assoc _ own]
  · rw [hlog', hlog, List.append_assoc]
  · rw [List.map_append, List.filterMap_append, hown, hown']

/-- What is logged when no job is handed over. -/
theorem Logs.entries (entries : List (WorkEntry τ)) (hcalls : s'.calls = s.calls)
    (hlog : s'.run.log = s.run.log ++ entries)
    (hentries : entries.filterMap WorkEntry.answer? = []) : s.Logs s' [] :=
  ⟨[], entries, by rw [hcalls, List.append_nil, List.append_nil], hlog, hentries.symm⟩

/-- Nothing need be logged then. -/
theorem Logs.nothing (hcalls : s'.calls = s.calls) (hlog : s'.run.log = s.run.log) :
    s.Logs s' [] :=
  .entries [] hcalls (hlog.trans (List.append_nil _).symm) rfl

/-- What a step of a job hands over and what it is told is in the log. -/
theorem logs_asks (s : Shift τ) (step : Step τ) :
    s.Logs { s.asks step with run := (s.run.carryOut step).2 } [] := by
  cases step with
  | dispatch job =>
    rw [asks, dispatch, WorkRun.carryOut, WorkRun.dispatch]
    split
    · cases s.run.worker.dispatch job with
      | ok worker =>
        exact ⟨[(job, .ok ())], [.dispatched (.ok ())], by rw [List.append_nil]; rfl, rfl, rfl⟩
      | error e =>
        exact ⟨[(job, .error e)], [.dispatched (.error (.failure e))],
          by rw [List.append_nil]; rfl, rfl, rfl⟩
    · exact .entries [.dispatched (.error .noWorker)] rfl rfl rfl
  | stop =>
    rw [asks, stop, WorkRun.carryOut]
    split
    · exact .entries [.stopped (.ok ())] rfl rfl rfl
    · exact .entries [.stopped (.error .noWorker)] rfl rfl rfl
  | drop =>
    rw [asks, drop, WorkRun.carryOut]
    split
    · exact .entries [.dropped true] rfl rfl rfl
    · exact .entries [.dropped false] rfl rfl rfl
  | panic | crash => exact .nothing rfl rfl
  | _ => exact .entries _ rfl rfl rfl

/-- A worker logs nothing that was not called. -/
theorem logs_work (s : Shift τ) : s.Logs s.work [] := by
  unfold work
  split
  · exact .nothing rfl rfl
  · exact .nothing rfl rfl
  · rename_i job step rest _
    refine Logs.trans (s.logs_asks step) ?_
    unfold carry goOn
    split <;> exact .nothing rfl rfl

/-- A worker that goes on logs nothing that was not called. -/
theorem logs_works (s : Shift τ) (n : Nat) : s.Logs (s.after (List.replicate n .work)) [] := by
  induction n generalizing s with
  | zero => exact .nothing rfl rfl
  | succ n ih => exact s.logs_work.trans (ih s.work)

/-- Waiting for the queue is logged as no call. -/
theorem logs_flush (s : Shift τ) : s.Logs s.flush [] := by
  unfold flush
  split
  · split <;> exact .nothing rfl rfl
  · exact .nothing rfl rfl

/-- Stopping the worker is logged as no call. -/
theorem logs_stop (s : Shift τ) (asker : Asker) : s.Logs (s.stop asker) [] := by
  unfold stop
  split <;> exact .nothing rfl rfl

/-- Dropping the dispatcher is logged as no call. -/
theorem logs_drop (s : Shift τ) (asker : Asker) : s.Logs (s.drop asker) [] := by
  unfold drop
  split <;> exact .nothing rfl rfl

/-- Dispatching a job answers nobody who waits. -/
@[simp] theorem flushes_dispatch (s : Shift τ) (job : List (Step τ)) :
    (s.dispatch job).flushes = s.flushes := by
  unfold dispatch
  split <;> rfl

@[simp] theorem flushes_stop (s : Shift τ) (asker : Asker) :
    (s.stop asker).flushes = s.flushes := by
  unfold stop
  split <;> rfl

@[simp] theorem flushes_drop (s : Shift τ) (asker : Asker) :
    (s.drop asker).flushes = s.flushes := by
  unfold drop
  split <;> rfl

/-- Jobs do not wait for the queue. -/
@[simp] theorem flushes_work (s : Shift τ) : s.work.flushes = s.flushes := by
  have hgoOn : ∀ (s : Shift τ) job rest how, (s.goOn job rest how).flushes = s.flushes := by
    intro s job rest how
    unfold goOn
    split <;> rfl
  unfold work
  split
  · rfl
  · rfl
  · rename_i job step rest _
    rw [carry, hgoOn]
    cases step <;> simp [asks]

/-- A worker that goes on answers nobody who waits. -/
@[simp] theorem flushes_works (s : Shift τ) (n : Nat) :
    (s.after (List.replicate n .work)).flushes = s.flushes := by
  induction n generalizing s with
  | zero => rfl
  | succ n ih => exact (ih s.work).trans s.flushes_work

end Shift

/-- Whether somebody outside makes the move. -/
def ShiftMove.isAsked : ShiftMove τ → Bool
  | .dispatch _ | .flush | .stop | .drop => true
  | .work => false

namespace WorkOrder

/-- What those outside ask for who give an order. -/
def asks : WorkOrder τ → List (ShiftMove τ)
  | .dispatch job => [.dispatch job]
  | .flush => [.flush]
  | .stop => [.stop]
  | .drop => [.stop, .drop]
  | _ => []

/-- The job that an order hands over and what the worker has said to it, going by the reply. -/
def call : WorkOrder τ → WorkReply → List (List (Step τ) × Except Failure Unit)
  | .dispatch job, reply => (reply.answer?.map fun answer => (job, answer)).toList
  | _, _ => []

/-- What somebody was told who has waited for the queue, going by the reply. -/
def waited : WorkOrder τ → WorkReply → List (Except Failure Unit)
  | .flush, reply => reply.answer?.toList
  | _, _ => []

end WorkOrder

namespace Shift

/-- What those are told who called to wait for the queue: why they were refused, or what becomes of
their mark. -/
def told (s : Shift τ) (k : Nat) : Except Failure Nat → Option (Except Failure Unit)
  | .error e => some (.error e)
  | .ok _ => s.answer k

/-- Some moves are an order that has answered so. -/
structure Follows (s : Shift τ) (order : WorkOrder τ) (reply : WorkReply)
    (moves : List (ShiftMove τ)) : Prop where
  /-- Those outside ask for what the order asks for; apart from that the worker goes on. -/
  asked : moves.filter ShiftMove.isAsked = order.asks
  /-- The job of the order is handed over before any others, and it is accepted if the order says
  so. Which of the others are accepted is in the log. -/
  calls : s.Logs (s.after moves) (order.call reply)
  /-- Whoever waits for the queue is told what the order says. -/
  flushes : ∃ new, (s.after moves).flushes = s.flushes ++ new ∧
    new.map ((s.after moves).told s.waits.length) = (order.waited reply).map some
  /-- If it is told that the queue has been run, everything is done that was accepted before. -/
  done : order.waited reply = [.ok ()] → s.accepted <+: (s.after moves).done

/-- Orders that are followed one by one are runs of moves. -/
inductive Obeys : Shift τ → WorkRun τ → List (WorkOrder τ) → List (ShiftMove τ) → Prop
  /-- There are no orders. -/
  | nil (s : Shift τ) (r : WorkRun τ) : Obeys s r [] []
  /-- An order is followed, and then others are. What the order leaves in the log is what the jobs
  have logged meanwhile. -/
  | cons {s : Shift τ} {r : WorkRun τ} {order : WorkOrder τ} {orders : List (WorkOrder τ)}
      {moves rest : List (ShiftMove τ)} :
    s.Follows order (r.step order).1 moves →
    (s.after moves).Mirrors s.run.log (r.step order).2 →
    Obeys (s.after moves) (r.step order).2 orders rest →
    Obeys s r (order :: orders) (moves ++ rest)

variable {s : Shift τ} {r : WorkRun τ} {before : List (WorkEntry τ)} {order : WorkOrder τ}
  {reply : WorkReply} {moves : List (ShiftMove τ)}

/-- Nothing that a worker does by itself was asked for. -/
@[simp] theorem filter_works (n : Nat) :
    (List.replicate n ShiftMove.work : List (ShiftMove τ)).filter ShiftMove.isAsked = [] :=
  List.filter_eq_nil_iff.mpr fun _ hm => by
    rw [List.eq_of_mem_replicate hm]
    exact Bool.false_ne_true

/-- An order that answers nothing about jobs or marks. -/
theorem Follows.of_logs (hasked : moves.filter ShiftMove.isAsked = order.asks)
    (hcall : order.call reply = []) (hlogs : s.Logs (s.after moves) [])
    (hwaited : order.waited reply = []) (hflushes : (s.after moves).flushes = s.flushes) :
    s.Follows order reply moves :=
  ⟨hasked, by rwa [hcall], ⟨[], by rw [hflushes, List.append_nil], by rw [hwaited]; rfl⟩,
    by rw [hwaited]; nofun⟩

/-- The worker goes on after an order, unless somebody has been told something and all is done. -/
theorem Follows.works (h : s.Follows order reply moves)
    (hw : order.waited reply = [] ∨ (s.after moves).Idle) (n : Nat) :
    s.Follows order reply (moves ++ List.replicate n .work) := by
  obtain ⟨hasked, hcalls, ⟨new, hnew, htold⟩, hdone⟩ := h
  have hfilter : (moves ++ List.replicate n ShiftMove.work).filter ShiftMove.isAsked =
      order.asks := by
    rw [List.filter_append, filter_works, List.append_nil, hasked]
  rcases hw with hw | hw
  · refine ⟨hfilter, ?_, ⟨[], ?_, by rw [hw]; rfl⟩, by rw [hw]; nofun⟩
    · rw [after_append]
      exact hcalls.trans (logs_works _ n)
    · rw [hw] at htold
      rw [after_append, flushes_works, hnew, List.map_eq_nil_iff.mp htold]
  · refine ⟨hfilter, ?_, ⟨new, ?_, ?_⟩, ?_⟩ <;> rw [after_append, after_of_idle hw] <;> assumption

/-- A queue that is run is one that the worker works off by its own moves. -/
theorem Mirrors.runQueue (h : s.Mirrors before r) :
    ∃ n, (s.after (List.replicate n .work)).Mirrors before r.runQueue ∧
      (s.after (List.replicate n .work)).Idle := by
  obtain ⟨n, hidle, hrun⟩ := works_runQueue h.current
  refine ⟨n, ⟨hidle.2, ?_⟩, hidle⟩
  rw [hrun]
  exact h.same.runQueue

/-- A wait that the worker takes on is answered with what was accepted. -/
theorem flush_ok {worker : Worker (List (Step τ))} (hheld : s.run.held = true)
    (hw : s.run.worker.send .mark = .ok worker) : s.flush = { s with
      run := { s.run with worker }, flushes := s.flushes ++ [.ok s.accepted.length] } := by
  rw [flush, if_pos hheld, hw]

/-- A wait that the worker refuses is answered with the failure. -/
theorem flush_error {e : Failure} (hheld : s.run.held = true)
    (hw : s.run.worker.send .mark = .error e) :
    s.flush = { s with flushes := s.flushes ++ [.error e] } := by
  rw [flush, if_pos hheld, hw]

/-- Whoever has put a mark into an empty queue is told in the end whether the worker has come to
it. -/
theorem InOrder.told_of_idle (ho : s.InOrder) (hidle : s.Idle) {worker : Worker (List (Step τ))}
    (hheld : s.run.held = true) (hw : s.run.worker.send .mark = .ok worker) {n k : Nat}
    (hidle' : (s.flush.after (List.replicate n .work)).Idle) :
    (s.flush.after (List.replicate n .work)).told s.waits.length (.ok k) =
      some (if s.run.worker.marks < (s.flush.after (List.replicate n .work)).run.worker.marks
        then .ok () else .error (.other "background worker exited before flush")) := by
  have ho' := ho.flush.after (List.replicate n .work)
  have hflushes : (s.flush.after (List.replicate n .work)).flushes =
      s.flushes ++ [.ok s.accepted.length] := by
    rw [flushes_works, flush_ok hheld hw]
  have hwaits : (s.flush.after (List.replicate n .work)).waits.length = s.waits.length + 1 := by
    rw [waits_ok hflushes, List.length_append, List.length_singleton]
  generalize s.flush.after (List.replicate n .work) = s' at hidle' ho' hwaits ⊢
  rw [told, answer, ho.waits_of_idle hidle (Worker.send_eq_ok.mp hw).2.1]
  split
  · rfl
  · rename_i hless
    rw [if_neg]
    intro halive
    have hmarks := ho.waits_of_idle hidle (Worker.send_eq_ok.mp hw).2.1
    have hmarks' := ho'.waits_of_idle hidle' halive
    omega

/-- Whoever waits for the queue and is told that it is done finds everything done. -/
theorem InOrder.done_of_told (ho : s.InOrder) {late : List (ShiftMove τ)}
    {told : Except Failure Nat}
    (hflushes : s.flush.flushes = s.flushes ++ [told])
    (htold : (s.flush.after late).told s.waits.length told = some (.ok ())) :
    s.accepted <+: (s.flush.after late).done := by
  cases told with
  | error e => cases htold
  | ok n =>
    refine ho.flushed ?_ htold
    rw [waits_ok hflushes]
    simp

/-- A wait is what asking for it and going on are, and it is told the same. -/
theorem Mirrors.awaitMark (h : s.Mirrors before r) (ho : s.InOrder) (hidle : s.Idle)
    (hheld : r.held = true) :
    ∃ n told, (s.flush.after (List.replicate n .work)).Mirrors before r.awaitMark.2 ∧
      (s.flush.after (List.replicate n .work)).Idle ∧
      (s.flush.after (List.replicate n .work)).flushes = s.flushes ++ [told] ∧
      (s.flush.after (List.replicate n .work)).told s.waits.length told = some r.awaitMark.1 := by
  have hheld' : s.run.held = true := h.same.held.trans hheld
  rw [WorkRun.awaitMark, ← h.same.worker]
  cases hw : s.run.worker.send .mark with
  | error e =>
    rw [flush_error hheld' hw]
    exact ⟨0, .error e, ⟨h.current, h.same⟩, hidle, rfl, rfl⟩
  | ok worker =>
    have hm : s.flush.Mirrors before { r with worker := worker } := by
      rw [flush_ok hheld' hw]
      exact ⟨h.current, rfl, h.same.held, h.same.log⟩
    obtain ⟨n, hn, hidle'⟩ := hm.runQueue
    have htold := ho.told_of_idle hidle hheld' hw (k := s.accepted.length) hidle'
    refine ⟨n, .ok s.accepted.length, ?_, hidle', ?_, ?_⟩
    · dsimp only
      split <;> exact hn
    · rw [flushes_works, flush_ok hheld' hw]
    · rw [htold, hn.same.worker]
      dsimp only
      split <;> rfl

/-- Stopping the worker from outside is asking for it and going on. -/
theorem Mirrors.stop (h : s.Mirrors before r) (hheld : r.held = true) :
    ∃ n, ((s.stop .outside).after (List.replicate n .work)).Mirrors before
      { r with worker := r.worker.stop, onHold := false }.runQueue := by
  have hs : (s.stop .outside).Mirrors before
      { r with worker := r.worker.stop, onHold := false } := by
    rw [Shift.stop, if_pos (h.same.held.trans hheld)]
    exact ⟨h.current, congrArg Worker.stop h.same.worker, h.same.held, h.same.log⟩
  obtain ⟨n, hn, -⟩ := hs.runQueue
  exact ⟨n, hn⟩

/-- Without a handle nothing comes of what is asked from outside. -/
theorem act_of_not_held (hheld : s.run.held = false) (move : ShiftMove τ)
    (hm : move.isAsked = true) : s.act move = s := by
  cases move with
  | work => cases hm
  | _ => simp [act, dispatch, flush, stop, drop, hheld]

/-- Dispatching a job is the worker's own dispatch. -/
theorem dispatch_run (s : Shift τ) (job : List (Step τ)) :
    (s.dispatch job).run = (s.run.dispatch job).2 := by
  unfold dispatch WorkRun.dispatch
  split <;> rfl

/-- Dispatching a job leaves the worker inside the job it is at. -/
theorem dispatch_current (s : Shift τ) (job : List (Step τ)) :
    (s.dispatch job).current = s.current := by
  unfold dispatch
  split <;> rfl

/-- Handing over a job logs nothing. -/
theorem logs_dispatch (s : Shift τ) (job : List (Step τ)) :
    s.Logs (s.dispatch job) (if s.run.held then
      [(job, (s.run.worker.dispatch job).map fun _ => ())] else []) := by
  have hlog : (s.dispatch job).run.log = s.run.log ++ [] := by
    rw [dispatch_run, WorkRun.dispatch, List.append_nil]
    split
    · split <;> rfl
    · rfl
  refine ⟨[], [], ?_, hlog, rfl⟩
  rw [dispatch, List.append_nil]
  split
  · rfl
  · exact (List.append_nil _).symm

/-- The reply to an order to hand over a job says what the worker has said. -/
theorem call_dispatch (r : WorkRun τ) (job : List (Step τ)) :
    WorkOrder.call (.dispatch job) (r.follow (.dispatch job)).1 = if r.held then
      [(job, (r.worker.dispatch job).map fun _ => ())] else [] := by
  by_cases hheld : r.held = true
  · cases hw : r.worker.dispatch job <;>
      simp [WorkRun.follow, WorkRun.dispatch, hheld, hw, WorkOrder.call, WorkReply.answer?,
        Except.map]
  · simp [WorkRun.follow, WorkRun.dispatch, hheld, WorkOrder.call, WorkReply.answer?]

/-- To follow an order to dispatch is to dispatch. -/
theorem follow_dispatch (r : WorkRun τ) (job : List (Step τ)) :
    (r.follow (.dispatch job)).2 = (r.dispatch job).2 := by
  rw [WorkRun.follow]
  split <;> rename_i h <;> rw [h]

/-- To hand over a job is one move. -/
theorem Mirrors.followDispatch (h : s.Mirrors before r) (job : List (Step τ)) :
    (s.dispatch job).Mirrors before (r.follow (.dispatch job)).2 ∧
      s.Follows (.dispatch job) (r.follow (.dispatch job)).1 [.dispatch job] := by
  have hlogs := s.logs_dispatch job
  rw [h.same.held, h.same.worker, ← call_dispatch] at hlogs
  refine ⟨⟨?_, ?_⟩, rfl, hlogs, ⟨[], ?_, rfl⟩, nofun⟩
  · rw [dispatch_current, h.current]
  · rw [dispatch_run, follow_dispatch]
    exact (h.same.dispatch job).2
  · rw [List.append_nil]
    exact s.flushes_dispatch job

/-- A wait leaves what running the queue and waiting for a mark leave, and it is answered so. -/
theorem follow_flush (hheld : { r with onHold := false }.runQueue.held = true) :
    (r.follow .flush).2 = { r with onHold := false }.runQueue.awaitMark.2 ∧
      WorkOrder.waited (τ := τ) .flush (r.follow .flush).1 =
        [{ r with onHold := false }.runQueue.awaitMark.1] := by
  simp only [WorkRun.follow]
  rw [if_pos hheld]
  split <;> rename_i h <;> rw [h] <;> exact ⟨rfl, rfl⟩

/-- To wait for the queue is asking for it once everything before is done, and going on. -/
theorem Mirrors.followFlush (h : s.Mirrors before r) (ho : s.InOrder) :
    ∃ moves, (s.after moves).Mirrors before (r.follow .flush).2 ∧
      s.Follows .flush (r.follow .flush).1 moves ∧ (s.after moves).Idle := by
  have hr : s.Mirrors before { r with onHold := false } :=
    ⟨h.current, h.same.worker, h.same.held, h.same.log⟩
  obtain ⟨n, hn, hidle⟩ := hr.runQueue
  have hafter (moves) : s.after (List.replicate n .work ++ .flush :: moves) =
      (s.after (List.replicate n .work)).flush.after moves := s.after_append _ _
  have hlogs : s.Logs (s.after (List.replicate n .work)).flush [] :=
    (s.logs_works n).trans (logs_flush _)
  by_cases hheld : { r with onHold := false }.runQueue.held = true
  · obtain ⟨m, told, hm, hidle', hflushes, htold⟩ :=
      hn.awaitMark (ho.after _) hidle hheld
    have hwaits : (s.after (List.replicate n .work)).waits = s.waits := by
      rw [waits, waits, flushes_works]
    obtain ⟨hstate, hreply⟩ := follow_flush hheld
    refine ⟨List.replicate n .work ++ .flush :: List.replicate m .work, ?_,
      ⟨?_, ?_, ⟨[told], ?_, ?_⟩, fun hdone => ?_⟩, ?_⟩
    · rwa [hafter, hstate]
    · simp [List.filter_cons, ShiftMove.isAsked, WorkOrder.asks]
    · rw [hafter]
      exact hlogs.trans (logs_works _ m)
    · rw [hafter, hflushes, flushes_works]
    · rw [hafter, hreply, ← hwaits, List.map_singleton, htold]
      rfl
    · rw [hafter]
      rw [hreply] at hdone
      rw [List.head_eq_of_cons_eq hdone] at htold
      refine (later_after s _).accepted.trans ((ho.after _).done_of_told ?_ htold)
      rw [← hflushes, flushes_works]
    · rwa [hafter]
  · have hgone : (s.after (List.replicate n .work)).run.held = false :=
      hn.same.held.trans (Bool.eq_false_iff.mpr hheld)
    have hflush : (s.after (List.replicate n .work)).flush = s.after (List.replicate n .work) :=
      act_of_not_held hgone .flush rfl
    have hfollow : r.follow .flush = (.refused .noWorker, { r with onHold := false }.runQueue) := by
      simp only [WorkRun.follow]
      rw [if_neg hheld]
    refine ⟨List.replicate n .work ++ [.flush], ?_, .of_logs ?_ ?_ ?_ ?_ ?_, ?_⟩
    · rw [hafter, hflush, hfollow]
      exact hn
    · simp [List.filter_cons, ShiftMove.isAsked, WorkOrder.asks]
    · rw [hfollow]
      rfl
    · rw [hafter]
      exact hlogs
    · rw [hfollow]
      rfl
    · rw [hafter, hflush]
      exact flushes_works s n
    · rw [hafter, hflush]
      exact hidle

/-- To stop the worker is asking for it and going on. -/
theorem Mirrors.followStop (h : s.Mirrors before r) :
    ∃ moves, (s.after moves).Mirrors before (r.follow .stop).2 ∧
      s.Follows .stop (r.follow .stop).1 moves := by
  have hlogs (n) : s.Logs (s.after (.stop :: List.replicate n .work)) [] :=
    (s.logs_stop .outside).trans (logs_works _ n)
  have hflushes (n) : (s.after (.stop :: List.replicate n .work)).flushes = s.flushes :=
    (flushes_works _ n).trans (s.flushes_stop .outside)
  have hfollows (reply n) : s.Follows .stop reply (.stop :: List.replicate n .work) :=
    .of_logs (by simp [List.filter_cons, ShiftMove.isAsked, WorkOrder.asks]) rfl (hlogs n)
      rfl (hflushes n)
  rw [WorkRun.follow]
  split
  · rename_i hheld
    obtain ⟨n, hn⟩ := h.stop hheld
    exact ⟨.stop :: List.replicate n .work, hn, hfollows _ n⟩
  · rename_i hheld
    have hgone : s.run.held = false := h.same.held.trans (Bool.eq_false_iff.mpr hheld)
    refine ⟨[.stop], ?_, hfollows _ 0⟩
    change (s.act .stop).Mirrors _ _
    rw [act_of_not_held hgone .stop rfl]
    exact ⟨h.current, h.same.worker, h.same.held, h.same.log⟩

/-- To let go of the handle is to stop the worker, to let it go on and to let go of the handle if no
job has done so. -/
theorem Mirrors.followDrop (h : s.Mirrors before r) :
    ∃ moves, (s.after moves).Mirrors before (r.follow .drop).2 ∧
      s.Follows .drop (r.follow .drop).1 moves := by
  have hafter (n) : s.after (.stop :: (List.replicate n .work ++ [.drop])) =
      ((s.stop .outside).after (List.replicate n .work)).drop .outside :=
    after_append (s.stop .outside) _ _
  have hlogs (n) : s.Logs (((s.stop .outside).after (List.replicate n .work)).drop .outside) [] :=
    ((s.logs_stop .outside).trans (logs_works _ n)).trans (logs_drop _ _)
  have hflushes (n) : (((s.stop .outside).after (List.replicate n .work)).drop .outside).flushes =
      s.flushes := by simp
  have hfollows (reply n) : s.Follows .drop reply (.stop :: (List.replicate n .work ++ [.drop])) :=
    .of_logs (by simp [List.filter_cons, ShiftMove.isAsked, WorkOrder.asks])
      rfl (by rw [hafter]; exact hlogs n) rfl
      (by rw [hafter]; exact hflushes n)
  simp only [WorkRun.follow]
  split
  · rename_i hheld
    obtain ⟨n, hn⟩ := h.stop hheld
    refine ⟨.stop :: (List.replicate n .work ++ [.drop]), ?_, hfollows _ n⟩
    have hclosed : ((s.stop .outside).after (List.replicate n .work)).run.worker.accepting =
        false := by
      refine (later_after _ _).accepting ?_
      rw [Shift.stop, if_pos (h.same.held.trans hheld)]
      exact accepting_stop _
    rw [hafter]
    generalize (s.stop .outside).after (List.replicate n .work) = s' at hn hclosed ⊢
    have hstop : s'.run.worker.stop = s'.run.worker := if_neg (by rw [hclosed]; simp)
    unfold Shift.drop
    split
    · exact ⟨hn.current, hstop.trans hn.same.worker, rfl, hn.same.log⟩
    · rename_i hheld'
      exact ⟨hn.current, hn.same.worker, Bool.eq_false_iff.mpr hheld', hn.same.log⟩
  · rename_i hheld
    have hgone : s.run.held = false := h.same.held.trans (Bool.eq_false_iff.mpr hheld)
    refine ⟨[.stop, .drop], ?_, hfollows _ 0⟩
    change ((s.act .stop).act .drop).Mirrors _ _
    rw [act_of_not_held hgone .stop rfl, act_of_not_held hgone .drop rfl]
    exact h

/-- An order is a run of moves. -/
theorem Mirrors.follow (h : s.Mirrors before r) (ho : s.InOrder) (order : WorkOrder τ) :
    ∃ moves, (s.after moves).Mirrors before (r.follow order).2 ∧
      s.Follows order (r.follow order).1 moves ∧
      (order.waited (r.follow order).1 = [] ∨ (s.after moves).Idle) := by
  have hnothing (reply) (hasks : order.asks = []) (hcall : order.call reply = [])
      (hwaited : order.waited reply = []) : s.Follows order reply [] :=
    .of_logs hasks.symm hcall (.nothing rfl rfl) hwaited rfl
  cases order with
  | dispatch job =>
    obtain ⟨hm, hf⟩ := h.followDispatch job
    exact ⟨[.dispatch job], hm, hf, .inl rfl⟩
  | flush =>
    obtain ⟨moves, hm, hf, hidle⟩ := h.followFlush ho
    exact ⟨moves, hm, hf, .inr hidle⟩
  | stop =>
    obtain ⟨moves, hm, hf⟩ := h.followStop
    exact ⟨moves, hm, hf, .inl rfl⟩
  | drop =>
    obtain ⟨moves, hm, hf⟩ := h.followDrop
    exact ⟨moves, hm, hf, .inl rfl⟩
  | hold | run =>
    exact ⟨[], ⟨h.current, h.same.worker, h.same.held, h.same.log⟩, hnothing _ rfl rfl rfl,
      .inl rfl⟩
  | isRunning =>
    refine ⟨[], ?_, hnothing _ rfl rfl rfl, .inl rfl⟩
    rw [WorkRun.follow]
    split <;> exact h
  | unknown => exact ⟨[], h, hnothing _ rfl rfl rfl, .inl rfl⟩

/-- So is an order with what the worker does after it. -/
theorem Mirrors.step (h : s.Mirrors before r) (ho : s.InOrder) (order : WorkOrder τ) :
    ∃ moves, (s.after moves).Mirrors s.run.log (r.step order).2 ∧
      s.Follows order (r.step order).1 moves := by
  have hlog : s.Mirrors s.run.log { r with log := [] } :=
    ⟨h.current, h.same.worker, h.same.held, (List.append_nil _).symm⟩
  obtain ⟨moves, hm, hf, hw⟩ := hlog.follow ho order
  change ∃ moves, (s.after moves).Mirrors s.run.log ({ r with log := [] }.follow order).2.settle ∧
    s.Follows order ({ r with log := [] }.follow order).1 moves
  unfold WorkRun.settle
  split
  · exact ⟨moves, hm, hf⟩
  · obtain ⟨n, hn, -⟩ := hm.runQueue
    refine ⟨moves ++ List.replicate n .work, ?_, hf.works hw n⟩
    rw [after_append]
    exact hn

/-- So are many orders. -/
theorem Mirrors.obeys (h : s.Mirrors before r) (ho : s.InOrder) (orders : List (WorkOrder τ)) :
    ∃ moves, s.Obeys r orders moves ∧ ∃ before,
      (s.after moves).Mirrors before (orders.foldl (fun r order => (r.step order).2) r) := by
  induction orders generalizing s r before with
  | nil => exact ⟨[], .nil s r, before, h⟩
  | cons order orders ih =>
    obtain ⟨moves, hm, hf⟩ := h.step ho order
    obtain ⟨rest, hrest, before', hm'⟩ := ih hm (ho.after moves)
    refine ⟨moves ++ rest, .cons hf hm hrest, before', ?_⟩
    rw [after_append]
    exact hm'

end Shift

end ToastBoard
