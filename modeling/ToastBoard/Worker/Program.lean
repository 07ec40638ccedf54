import ToastBoard.Worker.Basic

/-!
# Programs on a worker

Jobs as lists of steps that a worker carries out with a log: steps may hand it further jobs, stop
it, let go of the handle on it, panic, which ends the job, or kill its thread. The owner of the
handle gives orders in between, may hold the worker still and let it go on.
-/

namespace ToastBoard

/-- A step of a job; texts to log are of type `τ`. -/
inductive Step (τ : Type) where
  /-- Log a text. -/
  | log (text : τ)
  /-- Log the name of the thread. -/
  | thread
  /-- Hand a job to the worker. -/
  | dispatch (job : List (Step τ))
  /-- Stop the worker. -/
  | stop
  /-- Let go of the handle. -/
  | drop
  /-- Ask whether the worker accepts jobs. -/
  | running
  /-- Panic. -/
  | panic
  /-- Kill the thread. -/
  | crash
  /-- Something that is no step. -/
  | unknown

namespace Step

variable {τ : Type}

mutual

/-- The number of steps in a step, those of the jobs in it included. -/
def weight : Step τ → Nat
  | .dispatch job => 1 + jobWeight job
  | _ => 1

/-- The number of steps in a job, and one for the job itself. -/
def jobWeight : List (Step τ) → Nat
  | [] => 1
  | step :: rest => step.weight + jobWeight rest

end

end Step

/-- Why an order or a step could not be followed. -/
inductive WorkRefusal where
  /-- The worker did not take the job. -/
  | failure (e : Failure)
  /-- There is no handle on a worker. -/
  | noWorker
  deriving DecidableEq, Repr

/-- What a step leaves in the log. -/
inductive WorkEntry (τ : Type) where
  /-- A text. -/
  | text (text : τ)
  /-- The name of the thread. -/
  | thread (name : String)
  /-- What came of handing over a job. -/
  | dispatched (r : Except WorkRefusal Unit)
  /-- The worker was told to stop, if there was a handle on it. -/
  | stopped (r : Except WorkRefusal Unit)
  /-- Whether there was a handle to let go of. -/
  | dropped (held : Bool)
  /-- Whether the worker accepts jobs; nothing if there is no handle. -/
  | running (accepting : Option Bool)
  /-- It was no step. -/
  | unknown

/-- A worker, the handle on it and the log of its jobs. -/
structure WorkRun (τ : Type) where
  /-- The worker. -/
  worker : Worker (List (Step τ))
  /-- Whether somebody has a handle on it. -/
  held : Bool := true
  /-- Whether it is kept from running its queue. -/
  onHold : Bool := false
  /-- What its jobs have logged, oldest first. -/
  log : List (WorkEntry τ) := []

/-- How a job ended. -/
inductive JobEnd where
  /-- It came to its end, or a panic ended it. -/
  | done
  /-- It killed the thread. -/
  | crashed
  deriving DecidableEq, Repr

/-- An order to the worker. -/
inductive WorkOrder (τ : Type) where
  /-- Hand it a job. -/
  | dispatch (job : List (Step τ))
  /-- Hold it still. -/
  | hold
  /-- Let it go on. -/
  | run
  /-- Let it go on, and wait until it has run its queue. -/
  | flush
  /-- Stop it. -/
  | stop
  /-- Stop it and let go of the handle. -/
  | drop
  /-- Ask whether it accepts jobs. -/
  | isRunning
  /-- Something that is no order. -/
  | unknown

/-- What an order answers. -/
inductive WorkReply where
  /-- Nothing in particular. -/
  | done
  /-- Yes or no. -/
  | truth (b : Bool)
  /-- It could not be followed. -/
  | refused (r : WorkRefusal)
  /-- It was no order. -/
  | unknown
  deriving DecidableEq, Repr

namespace WorkRun

variable {τ : Type}

/-- Appends to the log. -/
def record (r : WorkRun τ) (entry : WorkEntry τ) : WorkRun τ := { r with log := r.log ++ [entry] }

/-- Hands a job to the worker, if there is a handle on it. -/
def dispatch (r : WorkRun τ) (job : List (Step τ)) : Except WorkRefusal Unit × WorkRun τ :=
  if r.held then
    match r.worker.dispatch job with
    | .ok worker => (.ok (), { r with worker })
    | .error e => (.error (.failure e), r)
  else (.error .noWorker, r)

/-- Whether the worker accepts jobs, if there is a handle to ask through. -/
def isRunning (r : WorkRun τ) : Option Bool := if r.held then some r.worker.accepting else none

/-- Carries out the steps of a job. -/
def runJob : List (Step τ) → WorkRun τ → JobEnd × WorkRun τ
  | [], r => (.done, r)
  | .log text :: rest, r => runJob rest (r.record (.text text))
  | .thread :: rest, r => runJob rest (r.record (.thread r.worker.name))
  | .dispatch job :: rest, r =>
    runJob rest ((r.dispatch job).2.record (.dispatched (r.dispatch job).1))
  | .stop :: rest, r =>
    if r.held then runJob rest ({ r with worker := r.worker.stop }.record (.stopped (.ok ())))
    else runJob rest (r.record (.stopped (.error .noWorker)))
  | .drop :: rest, r =>
    if r.held then
      runJob rest ({ r with worker := r.worker.stop, held := false }.record (.dropped true))
    else runJob rest (r.record (.dropped false))
  | .running :: rest, r => runJob rest (r.record (.running r.isRunning))
  | .panic :: _, r => (.done, r)
  | .crash :: _, r => (.crashed, r)
  | .unknown :: rest, r => runJob rest (r.record .unknown)

/-- One turn of the worker: what is next in its queue. -/
def turn (r : WorkRun τ) : WorkRun τ :=
  match r.worker.next with
  | (none, worker) => { r with worker }
  | (some job, worker) =>
    match runJob job { r with worker } with
    | (.done, r) => r
    | (.crashed, r) => { r with worker := r.worker.finish }

/-- The number of turns that the queue can take at most. -/
def backlog (r : WorkRun τ) : Nat :=
  r.worker.queue.foldl
    (fun n message => n + match message with
      | .run job => Step.jobWeight job
      | _ => 1) 0

/-- So many turns, or until the queue is empty. -/
def turns : Nat → WorkRun τ → WorkRun τ
  | 0, r => r
  | n + 1, r => if r.worker.queue.isEmpty then r else turns n r.turn

/-- Runs the queue until it is empty. -/
def runQueue (r : WorkRun τ) : WorkRun τ := r.turns r.backlog

/-- Runs the queue unless the worker is held still. -/
def settle (r : WorkRun τ) : WorkRun τ := if r.onHold then r else r.runQueue

/-- Puts a mark into the queue, runs the queue and tells whether the mark was reached. -/
def awaitMark (r : WorkRun τ) : Except Failure Unit × WorkRun τ :=
  match r.worker.send .mark with
  | .error e => (.error e, r)
  | .ok worker =>
    let after := { r with worker }.runQueue
    if r.worker.marks < after.worker.marks then (.ok (), after)
    else (.error (.other "background worker exited before flush"), after)

/-- Follows an order. An order that lets the queue run finds things as its jobs leave them: one of
them may have let go of the handle. -/
def follow (r : WorkRun τ) : WorkOrder τ → WorkReply × WorkRun τ
  | .dispatch job =>
    match r.dispatch job with
    | (.ok (), r) => (.done, r)
    | (.error e, r) => (.refused e, r)
  | .hold => (.done, { r with onHold := true })
  | .run => (.done, { r with onHold := false })
  | .flush =>
    let r := { r with onHold := false }.runQueue
    if r.held then
      match r.awaitMark with
      | (.ok (), r) => (.done, r)
      | (.error e, r) => (.refused (.failure e), r)
    else (.refused .noWorker, r)
  | .stop =>
    if r.held then (.done, { r with worker := r.worker.stop, onHold := false }.runQueue)
    else (.done, { r with onHold := false })
  | .drop =>
    if r.held then
      let r := { r with worker := r.worker.stop, onHold := false }.runQueue
      (.truth r.held, { r with held := false })
    else (.truth false, r)
  | .isRunning =>
    match r.isRunning with
    | some b => (.truth b, r)
    | none => (.done, r)
  | .unknown => (.unknown, r)

/-- Follows an order and lets the worker go on as far as it may. The log starts afresh. -/
def step (r : WorkRun τ) (order : WorkOrder τ) : WorkReply × WorkRun τ :=
  match { r with log := [] }.follow order with
  | (reply, r) => (reply, r.settle)

end WorkRun

end ToastBoard
