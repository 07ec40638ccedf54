import Mathlib.Algebra.GroupWithZero.Nat
import ToastBoard.Proofs.Queueing
import ToastBoard.Worker.Program

/-!
# Shifts of a worker

A worker between the steps of its jobs, and what is asked of it from outside and by its jobs. Every
move keeps the queue in order, what has begun and ended stays so, nothing is accepted once the
worker is stopped or gone, and a worker that goes on comes to rest.
-/

namespace ToastBoard

variable {τ : Type}

namespace WorkRun

/-- Carries out one step of a job; tells how the job ended, if it did with that. -/
def carryOut (r : WorkRun τ) : Step τ → Option JobEnd × WorkRun τ
  | .log text => (none, r.record (.text text))
  | .thread => (none, r.record (.thread r.worker.name))
  | .dispatch job => (none, (r.dispatch job).2.record (.dispatched (r.dispatch job).1))
  | .stop =>
    if r.held then (none, { r with worker := r.worker.stop }.record (.stopped (.ok ())))
    else (none, r.record (.stopped (.error .noWorker)))
  | .drop =>
    if r.held then
      (none, { r with worker := r.worker.stop, held := false }.record (.dropped true))
    else (none, r.record (.dropped false))
  | .running => (none, r.record (.running r.isRunning))
  | .panic => (some .done, r)
  | .crash => (some .crashed, r)
  | .unknown => (none, r.record .unknown)

/-- A job is carried out step by step. -/
theorem runJob_cons (step : Step τ) (rest : List (Step τ)) (r : WorkRun τ) :
    runJob (step :: rest) r = match r.carryOut step with
      | (some how, r) => (how, r)
      | (none, r) => runJob rest r := by
  cases step with
  | stop | drop =>
    simp only [runJob, carryOut]
    split <;> rfl
  | _ => rfl

/-- A job that panics leaves what a job leaves that ends before it. -/
theorem runJob_panic (steps rest : List (Step τ)) (r : WorkRun τ) :
    runJob (steps ++ .panic :: rest) r = runJob steps r := by
  induction steps generalizing r with
  | nil => rfl
  | cons step steps ih =>
    rw [List.cons_append, runJob_cons, runJob_cons]
    split
    · rfl
    · exact ih _

end WorkRun

/-- Who asks a worker to stop. -/
inductive Asker where
  /-- Somebody outside, who waits for the thread to end if nobody has asked before. -/
  | outside
  /-- One of its jobs, which does not wait. -/
  | job
  deriving DecidableEq, Repr

/-- A worker, between the steps of its jobs, and what has been asked of it. -/
structure Shift (τ : Type) where
  /-- The worker and the handle on it. -/
  run : WorkRun τ
  /-- The job that runs, and the steps of it that are left. -/
  current : Option (List (Step τ) × List (Step τ)) := none
  /-- The jobs that have ended, oldest first. -/
  done : List (List (Step τ)) := []
  /-- The jobs it was handed and what the answer was, oldest first. -/
  calls : List (List (Step τ) × Except Failure Unit) := []
  /-- For each call to wait for the queue, how many jobs had been accepted before, or why it was
  refused, oldest first. -/
  flushes : List (Except Failure Nat) := []
  /-- Who has asked it to stop, oldest first. -/
  stops : List Asker := []
  /-- Whether a job has killed the thread. -/
  crashed : Bool := false

namespace Shift

/-- The job of a call, if it was accepted. -/
def taken? : List (Step τ) × Except Failure Unit → Option (List (Step τ))
  | (job, .ok _) => some job
  | (_, .error _) => none

/-- The jobs that were accepted, oldest first. -/
def accepted (s : Shift τ) : List (List (Step τ)) := s.calls.filterMap taken?

/-- For each wait that was not refused, how many jobs had been accepted before. -/
def waits (s : Shift τ) : List Nat := s.flushes.filterMap Except.toOption

/-- The jobs that have begun, oldest first. -/
def begun (s : Shift τ) : List (List (Step τ)) := s.done ++ (s.current.map Prod.fst).toList

/-- Somebody hands the worker a job, if there is a handle to do that through. -/
def dispatch (s : Shift τ) (job : List (Step τ)) : Shift τ :=
  if s.run.held then
    { s with
      run := (s.run.dispatch job).2
      calls := s.calls ++ [(job, (s.run.worker.dispatch job).map fun _ => ())] }
  else s

/-- Somebody outside wants to wait for the queue. -/
def flush (s : Shift τ) : Shift τ :=
  if s.run.held then
    match s.run.worker.send .mark with
    | .ok worker =>
      { s with run := { s.run with worker }, flushes := s.flushes ++ [.ok s.accepted.length] }
    | .error e => { s with flushes := s.flushes ++ [.error e] }
  else s

/-- Somebody asks the worker to stop. -/
def stop (s : Shift τ) (asker : Asker) : Shift τ :=
  if s.run.held then
    { s with run := { s.run with worker := s.run.worker.stop }, stops := s.stops ++ [asker] }
  else s

/-- Somebody lets go of the handle, which stops the worker. -/
def drop (s : Shift τ) (asker : Asker) : Shift τ :=
  if s.run.held then
    { s with
      run := { s.run with worker := s.run.worker.stop, held := false }
      stops := s.stops ++ [asker] }
  else s

/-- What a step of a job asks of the worker. -/
def asks (s : Shift τ) : Step τ → Shift τ
  | .dispatch job => s.dispatch job
  | .stop => s.stop .job
  | .drop => s.drop .job
  | _ => s

/-- A step of a job has been carried out, and the job has ended with that or goes on. -/
def goOn (s : Shift τ) (job rest : List (Step τ)) : Option JobEnd → Shift τ
  | none => { s with current := some (job, rest) }
  | some .done => { s with current := none, done := s.done ++ [job] }
  | some .crashed =>
    { s with
      run := { s.run with worker := s.run.worker.finish }
      current := none
      done := s.done ++ [job]
      crashed := true }

/-- Carries out a step of the job that runs. -/
def carry (s : Shift τ) (job : List (Step τ)) (step : Step τ) (rest : List (Step τ)) : Shift τ :=
  { s.asks step with run := (s.run.carryOut step).2 }.goOn job rest (s.run.carryOut step).1

/-- The worker goes on: it takes what is next in its queue, or it carries out the next step of the
job that runs. -/
def work (s : Shift τ) : Shift τ :=
  match s.current with
  | none =>
    { s with
      run := { s.run with worker := s.run.worker.next.2 }
      current := s.run.worker.next.1.map fun job => (job, job) }
  | some (job, []) => { s with current := none, done := s.done ++ [job] }
  | some (job, step :: rest) => s.carry job step rest

/-- What those are told who have waited for a mark: that the worker has come to it, or that it is
gone; nothing yet if it is neither. -/
def answer (s : Shift τ) (k : Nat) : Option (Except Failure Unit) :=
  if k < s.run.worker.marks then some (.ok ())
  else if s.run.worker.alive then none
  else some (.error (.other "background worker exited before flush"))

/-- The first to ask the worker to stop was outside, and its thread has ended. -/
def Joined (s : Shift τ) : Prop := s.stops.head? = some .outside ∧ s.run.worker.alive = false

/-- Nothing is left to do. -/
def Idle (s : Shift τ) : Prop := s.run.worker.queue = [] ∧ s.current = none

/-- Things go together around a worker. -/
abbrev InOrder (s : Shift τ) : Prop :=
  s.run.worker.InOrder (s.current.map Prod.fst) s.done s.accepted s.waits (!s.stops.isEmpty)
    s.crashed

end Shift

/-- Something that is asked of a worker from outside, or its going on. -/
inductive ShiftMove (τ : Type) where
  /-- Somebody hands it a job. -/
  | dispatch (job : List (Step τ))
  /-- Somebody wants to wait for its queue. -/
  | flush
  /-- Somebody asks it to stop. -/
  | stop
  /-- Somebody lets go of the handle. -/
  | drop
  /-- It goes on. -/
  | work

namespace Shift

/-- What a move leaves. -/
def act (s : Shift τ) : ShiftMove τ → Shift τ
  | .dispatch job => s.dispatch job
  | .flush => s.flush
  | .stop => s.stop .outside
  | .drop => s.drop .outside
  | .work => s.work

/-- What a run of moves leaves. -/
def after (s : Shift τ) (moves : List (ShiftMove τ)) : Shift τ := moves.foldl act s

variable {s s' : Shift τ} {job rest : List (Step τ)} {step : Step τ}

/-- A job that the worker takes is accepted after the others. -/
theorem accepted_ok (h : s'.calls = s.calls ++ [(job, .ok ())]) :
    s'.accepted = s.accepted ++ [job] := by
  rw [accepted, h, List.filterMap_append]
  rfl

/-- A job that the worker refuses is not accepted. -/
theorem accepted_error {e : Failure} (h : s'.calls = s.calls ++ [(job, .error e)]) :
    s'.accepted = s.accepted := by
  rw [accepted, h, List.filterMap_append]
  exact List.append_nil _

/-- A wait that the worker takes on counts the jobs accepted before. -/
theorem waits_ok {n : Nat} (h : s'.flushes = s.flushes ++ [.ok n]) : s'.waits = s.waits ++ [n] := by
  rw [waits, h, List.filterMap_append]
  rfl

/-- A wait that the worker refuses counts nothing. -/
theorem waits_error {e : Failure} (h : s'.flushes = s.flushes ++ [.error e]) :
    s'.waits = s.waits := by
  rw [waits, h, List.filterMap_append]
  exact List.append_nil _

/-- Dispatching a job keeps the order, whether it is accepted or not. -/
theorem InOrder.dispatch (h : s.InOrder) (job : List (Step τ)) : (s.dispatch job).InOrder := by
  unfold Shift.dispatch WorkRun.dispatch
  split
  · cases hw : s.run.worker.dispatch job with
    | ok worker =>
      have hj := h.handed hw
      have ha : Shift.accepted { s with calls := s.calls ++ [(job, .ok ())] } =
        s.accepted ++ [job] := accepted_ok rfl
      rwa [← ha] at hj
    | error e =>
      have ha : Shift.accepted { s with calls := s.calls ++ [(job, .error e)] } = s.accepted :=
        accepted_error rfl
      rw [Shift.InOrder, ← ha] at h
      exact h
  · exact h

/-- Waiting for the queue keeps the order. -/
theorem InOrder.flush (h : s.InOrder) : s.flush.InOrder := by
  unfold Shift.flush
  split
  · cases hw : s.run.worker.send .mark with
    | ok worker =>
      have hm := h.marked hw
      have hs : Shift.waits { s with flushes := s.flushes ++ [.ok s.accepted.length] } = _ :=
        waits_ok rfl
      rwa [← hs] at hm
    | error e =>
      have hs : Shift.waits { s with flushes := s.flushes ++ [.error e] } = s.waits :=
        waits_error rfl
      rw [Shift.InOrder, ← hs] at h
      exact h
  · exact h

/-- Stopping the worker keeps the order. -/
theorem InOrder.stop (h : s.InOrder) (asker : Asker) : (s.stop asker).InOrder := by
  unfold Shift.stop
  split
  · have ht := h.told
    rwa [show true = !(s.stops ++ [asker]).isEmpty by simp] at ht
  · exact h

/-- Dropping the dispatcher keeps the order. -/
theorem InOrder.drop (h : s.InOrder) (asker : Asker) : (s.drop asker).InOrder := by
  unfold Shift.drop
  split
  · have ht := h.told
    rwa [show true = !(s.stops ++ [asker]).isEmpty by simp] at ht
  · exact h

/-- A step of a job keeps the order. -/
theorem InOrder.asks (h : s.InOrder) (step : Step τ) : (s.asks step).InOrder := by
  cases step with
  | dispatch job => exact h.dispatch job
  | stop => exact h.stop .job
  | drop => exact h.drop .job
  | _ => exact h

@[simp] theorem asks_current (s : Shift τ) (step : Step τ) : (s.asks step).current = s.current := by
  cases step with
  | dispatch | stop | drop =>
    simp only [asks, dispatch, stop, drop]
    split <;> rfl
  | _ => rfl

/-- A step does to the worker what it asks of it. -/
theorem carryOut_worker (s : Shift τ) (step : Step τ) :
    (s.run.carryOut step).2.worker = (s.asks step).run.worker := by
  cases step with
  | dispatch job =>
    simp only [asks, dispatch, WorkRun.carryOut, WorkRun.record]
    split
    · rfl
    · rename_i hheld
      rw [WorkRun.dispatch, if_neg hheld]
  | stop | drop =>
    simp only [asks, stop, drop, WorkRun.carryOut, WorkRun.record]
    split <;> rfl
  | _ => rfl

/-- A job that ends or goes on keeps the order. -/
theorem InOrder.goOn (h : s.InOrder) (hc : s.current.map Prod.fst = some job)
    (how : Option JobEnd) : (s.goOn job rest how).InOrder := by
  rw [Shift.InOrder, hc] at h
  match how with
  | none => exact h
  | some .done => exact h.ended
  | some .crashed => exact h.finished

/-- Carrying a step out keeps the order. -/
theorem InOrder.carry (h : s.InOrder) (hc : s.current = some (job, step :: rest)) :
    (s.carry job step rest).InOrder := by
  have ha : ({ s.asks step with run := (s.run.carryOut step).2 } : Shift τ).InOrder := by
    have ha := h.asks step
    rwa [Shift.InOrder, ← s.carryOut_worker step] at ha
  refine ha.goOn ?_ _
  change (s.asks step).current.map Prod.fst = some job
  rw [asks_current, hc]
  rfl

/-- The worker keeps the order, whatever it does next. -/
theorem InOrder.work (h : s.InOrder) : s.work.InOrder := by
  unfold Shift.work
  split
  · rename_i hc
    rw [Shift.InOrder, hc] at h
    have ht := h.taken
    have hmap : (s.run.worker.next.1.map fun job => (job, job)).map Prod.fst =
        s.run.worker.next.1 := by
      rw [Option.map_map]
      exact congrFun Option.map_id _
    rw [← hmap] at ht
    exact ht
  · rename_i job hc
    rw [Shift.InOrder, hc] at h
    exact h.ended
  · rename_i job step rest hc
    exact h.carry hc

/-- One move keeps things in order. -/
theorem InOrder.act (h : s.InOrder) (move : ShiftMove τ) : (s.act move).InOrder := by
  cases move with
  | dispatch job => exact h.dispatch job
  | flush => exact h.flush
  | stop => exact h.stop .outside
  | drop => exact h.drop .outside
  | work => exact h.work

/-- So does a run of moves. -/
theorem InOrder.after (h : s.InOrder) (moves : List (ShiftMove τ)) : (s.after moves).InOrder := by
  induction moves generalizing s with
  | nil => exact h
  | cons move moves ih => exact ih (h.act move)

/-- What a call is told once the worker is stopped or gone. -/
def closed : Failure := .dispatch "background dispatcher is stopped"

/-- How things stand later. -/
structure Later (s s' : Shift τ) : Prop where
  /-- There may have been more calls. They are refused if nothing was accepted any more. -/
  calls : ∃ new, s'.calls = s.calls ++ new ∧
    (s.run.worker.accepting = false → ∀ call ∈ new, call.2 = .error closed)
  /-- So are calls to wait. -/
  flushes : ∃ new, s'.flushes = s.flushes ++ new ∧
    (s.run.worker.accepting = false → ∀ reply ∈ new, reply = .error closed)
  /-- Once nothing is accepted it stays like that. -/
  accepting : s.run.worker.accepting = false → s'.run.worker.accepting = false
  /-- What has begun has begun. -/
  begun : s.begun <+: s'.begun
  /-- What has ended has ended. -/
  done : s.done <+: s'.done

theorem Later.refl (s : Shift τ) : s.Later s :=
  ⟨⟨[], (List.append_nil _).symm, by simp⟩, ⟨[], (List.append_nil _).symm, by simp⟩, id,
    List.prefix_rfl, List.prefix_rfl⟩

theorem Later.trans {s'' : Shift τ} (h : s.Later s') (h' : s'.Later s'') : s.Later s'' := by
  obtain ⟨calls, hcalls, hrefused⟩ := h.calls
  obtain ⟨calls', hcalls', hrefused'⟩ := h'.calls
  obtain ⟨flushes, hflushes, hunwaited⟩ := h.flushes
  obtain ⟨flushes', hflushes', hunwaited'⟩ := h'.flushes
  refine ⟨⟨calls ++ calls', by rw [hcalls', hcalls, List.append_assoc], fun hc call hm => ?_⟩,
    ⟨flushes ++ flushes', by rw [hflushes', hflushes, List.append_assoc], fun hc reply hm => ?_⟩,
    h'.accepting ∘ h.accepting, h.begun.trans h'.begun, h.done.trans h'.done⟩
  · rcases List.mem_append.mp hm with hm | hm
    · exact hrefused hc call hm
    · exact hrefused' (h.accepting hc) call hm
  · rcases List.mem_append.mp hm with hm | hm
    · exact hunwaited hc reply hm
    · exact hunwaited' (h.accepting hc) reply hm

/-- Dispatching a job leads to a later state. -/
theorem later_dispatch (s : Shift τ) (job : List (Step τ)) : s.Later (s.dispatch job) := by
  unfold dispatch WorkRun.dispatch
  split
  · refine ⟨⟨_, rfl, fun hc call hm => ?_⟩, ⟨[], (List.append_nil _).symm, by simp⟩, fun hc => ?_,
      List.prefix_rfl, List.prefix_rfl⟩
    · rw [List.mem_singleton.mp hm, Worker.dispatch, Worker.send_of_closed hc]
      rfl
    · rw [Worker.dispatch, Worker.send_of_closed hc]
      exact hc
  · exact .refl s

/-- Waiting for the queue leads to a later state. -/
theorem later_flush (s : Shift τ) : s.Later s.flush := by
  unfold flush
  split
  · split
    · rename_i worker hw
      obtain ⟨hopen, -, rfl⟩ := Worker.send_eq_ok.mp hw
      refine ⟨⟨[], (List.append_nil _).symm, by simp⟩, ⟨_, rfl, fun hc => ?_⟩, id, List.prefix_rfl,
        List.prefix_rfl⟩
      rw [hopen] at hc
      cases hc
    · rename_i e hw
      refine ⟨⟨[], (List.append_nil _).symm, by simp⟩, ⟨_, rfl, fun hc reply hm => ?_⟩, id,
        List.prefix_rfl, List.prefix_rfl⟩
      rw [Worker.send_of_closed hc] at hw
      cases hw
      exact List.mem_singleton.mp hm
  · exact .refl s

/-- A worker that was stopped accepts nothing. -/
theorem accepting_stop {Job : Type} (w : Worker Job) : w.stop.accepting = false := by
  unfold Worker.stop
  split
  · rfl
  · rename_i h
    exact Bool.eq_false_iff.mpr h

/-- Stopping the worker leads to a later state. -/
theorem later_stop (s : Shift τ) (asker : Asker) : s.Later (s.stop asker) := by
  unfold stop
  split
  · exact ⟨⟨[], (List.append_nil _).symm, by simp⟩, ⟨[], (List.append_nil _).symm, by simp⟩,
      fun _ => accepting_stop _, List.prefix_rfl, List.prefix_rfl⟩
  · exact .refl s

/-- Dropping the dispatcher leads to a later state. -/
theorem later_drop (s : Shift τ) (asker : Asker) : s.Later (s.drop asker) := by
  unfold drop
  split
  · exact ⟨⟨[], (List.append_nil _).symm, by simp⟩, ⟨[], (List.append_nil _).symm, by simp⟩,
      fun _ => accepting_stop _, List.prefix_rfl, List.prefix_rfl⟩
  · exact .refl s

/-- A step of a job leads to a later state. -/
theorem later_asks (s : Shift τ) (step : Step τ) : s.Later (s.asks step) := by
  cases step with
  | dispatch job => exact s.later_dispatch job
  | stop => exact s.later_stop .job
  | drop => exact s.later_drop .job
  | _ => exact .refl s

/-- A job that ends or goes on leads to a later state. -/
theorem later_goOn (hc : s.current.map Prod.fst = some job) (how : Option JobEnd) :
    s.Later (s.goOn job rest how) := by
  have hbegun : s.begun = s.done ++ [job] := by rw [begun, hc]; rfl
  match how with
  | none =>
    exact ⟨⟨[], (List.append_nil _).symm, by simp⟩, ⟨[], (List.append_nil _).symm, by simp⟩, id,
      by rw [hbegun]; exact List.prefix_rfl, List.prefix_rfl⟩
  | some .done =>
    exact ⟨⟨[], (List.append_nil _).symm, by simp⟩, ⟨[], (List.append_nil _).symm, by simp⟩, id,
      by rw [hbegun]; exact List.prefix_append _ _, List.prefix_append _ _⟩
  | some .crashed =>
    exact ⟨⟨[], (List.append_nil _).symm, by simp⟩, ⟨[], (List.append_nil _).symm, by simp⟩,
      fun _ => rfl, by rw [hbegun]; exact List.prefix_append _ _, List.prefix_append _ _⟩

theorem later_next {Job : Type} {w : Worker Job} (hc : w.accepting = false) :
    w.next.2.accepting = false := by
  unfold Worker.next
  split <;> first | exact hc | rfl

/-- The worker leads to a later state. -/
theorem later_work (s : Shift τ) : s.Later s.work := by
  unfold work
  split
  · rename_i hc
    refine ⟨⟨[], (List.append_nil _).symm, by simp⟩, ⟨[], (List.append_nil _).symm, by simp⟩,
      later_next, ?_, List.prefix_rfl⟩
    rw [begun, hc, Option.map_none, Option.toList_none, List.append_nil]
    exact List.prefix_append _ _
  · rename_i job hc
    refine ⟨⟨[], (List.append_nil _).symm, by simp⟩, ⟨[], (List.append_nil _).symm, by simp⟩, id,
      ?_, List.prefix_append _ _⟩
    rw [begun, hc]
    exact List.prefix_append _ _
  · rename_i job step rest hc
    have ha : s.Later { s.asks step with run := (s.run.carryOut step).2 } := by
      obtain ⟨hcalls, hflushes, haccepting, hbegun, hdone⟩ := s.later_asks step
      exact ⟨hcalls, hflushes, fun h => (congrArg Worker.accepting (s.carryOut_worker step)).trans
        (haccepting h), hbegun, hdone⟩
    refine ha.trans (later_goOn ?_ _)
    change (s.asks step).current.map Prod.fst = some job
    rw [asks_current, hc]
    rfl

/-- Every move leads to a later state. -/
theorem later_act (s : Shift τ) (move : ShiftMove τ) : s.Later (s.act move) := by
  cases move with
  | dispatch job => exact s.later_dispatch job
  | flush => exact s.later_flush
  | stop => exact s.later_stop .outside
  | drop => exact s.later_drop .outside
  | work => exact s.later_work

/-- Any moves lead to a later state. -/
theorem later_after (s : Shift τ) (moves : List (ShiftMove τ)) : s.Later (s.after moves) := by
  induction moves generalizing s with
  | nil => exact .refl s
  | cons move moves ih => exact (s.later_act move).trans (ih _)

/-- How many steps a message in the queue stands for. -/
def weight : Message (List (Step τ)) → Nat
  | .run job => Step.jobWeight job
  | _ => 1

/-- The number of steps left to do. -/
def left (s : Shift τ) : Nat :=
  (s.run.worker.queue.map weight).sum + (s.current.map fun c => Step.jobWeight c.2).getD 0

/-- A number that falls whenever the worker goes on: an order to stop may still come, and to take
a job is a step too. -/
def load (s : Shift τ) : Nat :=
  2 * (s.left + s.run.worker.accepting.toNat) + s.current.isNone.toNat

theorem jobWeight_cons (step : Step τ) (rest : List (Step τ)) :
    Step.jobWeight (step :: rest) = step.weight + Step.jobWeight rest := by
  rw [Step.jobWeight]

/-- Every step is some work. -/
theorem one_le_weight (step : Step τ) : 1 ≤ step.weight := by
  cases step <;> simp [Step.weight]

/-- What a step asks for is less than the step. -/
theorem asks_left (s : Shift τ) (step : Step τ) :
    ((s.asks step).run.worker.queue.map weight).sum + (s.asks step).run.worker.accepting.toNat + 1 ≤
      (s.run.worker.queue.map weight).sum + s.run.worker.accepting.toNat + step.weight := by
  have hstop : (s.run.worker.stop.queue.map weight).sum + s.run.worker.stop.accepting.toNat ≤
      (s.run.worker.queue.map weight).sum + s.run.worker.accepting.toNat := by
    unfold Worker.stop
    split
    · rename_i ho
      simp [ho, weight]
    · exact Nat.le_refl _
  cases step with
  | dispatch job =>
    rw [Step.weight]
    simp only [asks, dispatch, WorkRun.dispatch]
    split
    · cases hw : s.run.worker.dispatch job with
      | ok worker =>
        obtain ⟨-, -, rfl⟩ := Worker.send_eq_ok.mp hw
        simp only [List.map_append, List.sum_append, List.map_singleton, List.sum_singleton, weight]
        omega
      | error e =>
        dsimp only
        omega
    · omega
  | stop | drop =>
    rw [Step.weight]
    · simp only [asks, stop, drop]
      split
      · dsimp only
        omega
      · omega
    · nofun
  | _ => exact Nat.add_le_add_left (one_le_weight _) _

/-- A worker that has something to do has less to do when it goes on. -/
theorem load_work (hs : ¬s.Idle) : s.work.load < s.load := by
  unfold work
  split
  · rename_i hc
    have hq : s.run.worker.queue ≠ [] := fun hq => hs ⟨hq, hc⟩
    unfold Worker.next
    split
    · contradiction
    · rename_i job queue hqueue
      simp [load, left, hqueue, hc, weight]
      omega
    · rename_i queue hqueue
      simp [load, left, hqueue, hc, weight]
    · rename_i queue hqueue
      simp only [load, left, hqueue, hc, weight, Worker.finish, List.map_cons, List.map_nil,
        List.sum_cons, List.sum_nil, Option.map_none, Option.getD_none, Option.isNone_none,
        Bool.toNat_true, Bool.toNat_false]
      omega
  · rename_i job hc
    simp [load, left, hc, Step.jobWeight]
    omega
  · rename_i job step rest hc
    have hleft := s.asks_left step
    rw [← s.carryOut_worker step] at hleft
    have hstep := one_le_weight step
    have hload : s.load = 2 * ((s.run.worker.queue.map weight).sum +
        (step.weight + Step.jobWeight rest) + s.run.worker.accepting.toNat) := by
      rw [load, left, hc, ← jobWeight_cons]
      rfl
    rw [hload, carry]
    generalize (s.run.carryOut step).2 = run at hleft ⊢
    cases (s.run.carryOut step).1 with
    | none =>
      change 2 * ((run.worker.queue.map weight).sum + Step.jobWeight rest +
        run.worker.accepting.toNat) + 0 < _
      omega
    | some how =>
      cases how with
      | done =>
        change 2 * ((run.worker.queue.map weight).sum + 0 + run.worker.accepting.toNat) + 1 < _
        omega
      | crashed =>
        change 2 * (0 + 0 + 0) + 1 < _
        omega

/-- A worker that is idle does nothing. -/
theorem work_of_idle (hs : s.Idle) : s.work = s := by
  obtain ⟨hq, hc⟩ := hs
  rw [work, hc, Worker.next, hq]
  obtain ⟨⟨worker, held, onHold, log⟩, current, done, calls, flushes, stops, crashed⟩ := s
  cases hc
  rfl

theorem after_of_idle (hs : s.Idle) (n : Nat) : s.after (List.replicate n .work) = s := by
  induction n with
  | zero => rfl
  | succ n ih =>
    change s.work.after (List.replicate n .work) = s
    rw [work_of_idle hs, ih]

/-- A worker that goes on comes to rest. -/
theorem idle_after {n : Nat} (hn : s.load ≤ n) : (s.after (List.replicate n .work)).Idle := by
  induction n generalizing s with
  | zero =>
    refine Classical.byContradiction fun hs => ?_
    have hless := load_work (s := s) hs
    omega
  | succ n ih =>
    by_cases hs : s.Idle
    · rw [after_of_idle hs]
      exact hs
    · have hless := load_work hs
      exact ih (s := s.work) (by omega)

/-- What is done is a first part of what was accepted. -/
theorem InOrder.done_prefix (h : s.InOrder) : s.done <+: s.accepted := by
  obtain ⟨lost, hjobs, -⟩ := h.jobs
  rw [hjobs, List.append_assoc, List.append_assoc]
  exact List.prefix_append _ _

/-- What was accepted stays accepted, in the same order. -/
theorem Later.accepted {s' : Shift τ} (h : s.Later s') : s.accepted <+: s'.accepted := by
  obtain ⟨calls, hcalls, -⟩ := h.calls
  rw [Shift.accepted, Shift.accepted, hcalls, List.filterMap_append]
  exact List.prefix_append _ _

/-- What was waited for stays waited for, in the same order. -/
theorem Later.waits {s' : Shift τ} (h : s.Later s') : s.waits <+: s'.waits := by
  obtain ⟨flushes, hflushes, -⟩ := h.flushes
  rw [Shift.waits, Shift.waits, hflushes, List.filterMap_append]
  exact List.prefix_append _ _

/-- Whoever is told that the worker has come to a mark finds everything done that was accepted
before. -/
theorem InOrder.waited (h : s.InOrder) {k n : Nat} (hk : s.waits[k]? = some n)
    (ha : s.answer k = some (.ok ())) : s.accepted.take n <+: s.done := by
  obtain ⟨reached, lost, hmarks, hlen, hreached, -⟩ := h.marks
  have hlt : k < reached.length := by
    rw [hlen]
    unfold answer at ha
    split at ha
    · assumption
    · split at ha <;> cases ha
  have hn : n ≤ s.done.length := by
    rw [hmarks, List.append_assoc, List.getElem?_append_left hlt] at hk
    exact hreached n (List.mem_of_getElem? hk)
  exact List.prefix_of_prefix_length_le (List.take_prefix _ _) h.done_prefix
    (Nat.le_trans (List.length_take_le _ _) hn)

/-- Whoever waits does so for all jobs accepted so far. -/
theorem flush_waits (hs : s.flush.waits ≠ s.waits) :
    s.flush.waits = s.waits ++ [s.accepted.length] := by
  unfold flush at hs ⊢
  split at hs
  · rename_i hheld
    rw [if_pos hheld]
    split at hs
    · exact waits_ok rfl
    · exact absurd (waits_error rfl) hs
  · exact absurd rfl hs

/-- Whoever waits for what was accepted before, and is told that it is done, finds it done. -/
theorem InOrder.flushed (h : s.InOrder) (hs : s.flush.waits ≠ s.waits) {late : List (ShiftMove τ)}
    (ha : (s.flush.after late).answer s.waits.length = some (.ok ())) :
    s.accepted <+: (s.flush.after late).done := by
  have hlater := later_after s.flush late
  have hk : (s.flush.after late).waits[s.waits.length]? = some s.accepted.length := by
    obtain ⟨new, hnew⟩ := hlater.waits
    rw [← hnew, flush_waits hs, List.append_assoc, List.getElem?_append_right (Nat.le_refl _),
      Nat.sub_self]
    rfl
  have hdone := (h.flush.after late).waited hk ha
  have hprefix : s.accepted <+: (s.flush.after late).accepted :=
    (later_flush s).accepted.trans hlater.accepted
  rwa [← List.prefix_iff_eq_take.mp hprefix] at hdone

/-- A worker with nothing left to do has come to every mark. -/
theorem InOrder.waits_of_idle (h : s.InOrder) (hidle : s.Idle) (ha : s.run.worker.alive = true) :
    s.waits.length = s.run.worker.marks := by
  obtain ⟨reached, lost, hmarks, hlen, -, hlost⟩ := h.marks
  rw [hmarks, hidle.1, hlost ha, ← hlen]
  simp [Worker.marksIn]

end Shift

end ToastBoard
