import ToastBoard.Failure

/-!
# Workers

One background worker with a queue of jobs, run in the order in which they were accepted. Once it
is told to stop it accepts nothing more, runs what it had accepted and ends; if its thread is
killed, what was queued is lost. Waiting for the queue is a mark in the queue that somebody waits
for.
-/

namespace ToastBoard

/-- What stands in the queue of a worker. -/
inductive Message (Job : Type) where
  /-- A job to run. -/
  | run (job : Job)
  /-- A mark that somebody waits for. -/
  | mark
  /-- The end of the worker. -/
  | stop

/-- A background worker. -/
structure Worker (Job : Type) where
  /-- The name of its thread. -/
  name : String
  /-- Whether it accepts jobs. -/
  accepting : Bool := true
  /-- Whether its thread is still there. -/
  alive : Bool := true
  /-- What it has to do, next first. -/
  queue : List (Message Job) := []
  /-- The number of marks it has come to. -/
  marks : Nat := 0

namespace Worker

variable {Job : Type}

/-- Starts a worker. Nothing comes back if that panics, which a name with a NUL makes it do;
`refusal` is the reason the system gives for not making a thread, if it does not. -/
def start (refusal : Option String) (name : String) : Option (Except Failure (Worker Job)) :=
  if name.toList.contains '\x00' then none
  else
    match refusal with
    | some reason => some (.error (.workerCreation reason))
    | none => some (.ok { name })

/-- Puts a message into the queue of a worker that accepts it. -/
def send (w : Worker Job) (message : Message Job) : Except Failure (Worker Job) :=
  if !w.accepting then .error (.dispatch "background dispatcher is stopped")
  else if !w.alive then .error (.dispatch "background worker exited")
  else .ok { w with queue := w.queue ++ [message] }

/-- Hands a job to the worker. -/
def dispatch (w : Worker Job) (job : Job) : Except Failure (Worker Job) := w.send (.run job)

/-- Tells the worker to end after what it has accepted so far. -/
def stop (w : Worker Job) : Worker Job :=
  if w.accepting then { w with accepting := false, queue := w.queue ++ [.stop] } else w

/-- The thread ends; what was queued is lost. -/
def finish (w : Worker Job) : Worker Job :=
  { w with accepting := false, alive := false, queue := [] }

/-- Takes the next job. Marks on the way are counted, and the order to stop ends the worker. -/
def next (w : Worker Job) : Option Job × Worker Job :=
  match w.queue with
  | [] => (none, w)
  | .run job :: queue => (some job, { w with queue })
  | .mark :: queue => (none, { w with queue, marks := w.marks + 1 })
  | .stop :: _ => (none, w.finish)

end Worker

end ToastBoard
