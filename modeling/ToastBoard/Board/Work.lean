import ToastBoard.Board.Life

/-!
# The work of a station

The steps of a worker that registers handlers. A job starts with a look at its handler: if that is
over, the job is skipped. Otherwise an attempt to register begins, and the worker stands inside it
until it is finished. A panic ends a job and not the worker.
-/

namespace ToastBoard

/-- What a worker came to. -/
inductive Progress where
  /-- There is nothing to do, or an attempt is under way. -/
  | idle
  /-- A job whose handler is over. -/
  | skipped (h : HandlerId)
  /-- The inside of an attempt. -/
  | entered (h : HandlerId)
  /-- A mark. -/
  | passed
  /-- Its end. -/
  | ended
  deriving DecidableEq, Repr

namespace Board

/-- The attempt to register in the middle of which a station stands. -/
def inside? (b : Board) (s : StationId) : Option Attempt :=
  (b.station s).inside.bind (b.screen.attempts[·]?)

/-- A thread ends, and what was queued for it is lost. -/
def closeStation (b : Board) (s : StationId) : Board :=
  let queued := (b.station s).worker.queue.flatMap messageHandlers
  queued.foldl reap (b.setWorker s (b.station s).worker.finish)

/-- An attempt to register a handler begins. -/
def beginAttempt (b : Board) (s : StationId) (h : HandlerId) : Board :=
  { b with screen := b.screen.attempt h (b.station s).worker.name }.updateStation s fun st =>
    { st with inside := some b.screen.attempts.length }

/-- The worker takes what is next in its queue, unless an attempt is under way. -/
def advance (b : Board) (s : StationId) : Progress × Board :=
  if (b.station s).inside.isSome then (.idle, b)
  else
    match (b.station s).worker.queue with
    | [] => (.idle, b)
    | .stop :: _ => (.ended, b.closeStation s)
    | .mark :: _ => (.passed, b.setWorker s (b.station s).worker.next.2)
    | .run h :: _ =>
      let b := b.setWorker s (b.station s).worker.next.2
      if b.phase h = .unregistered then (.skipped h, b.reap h)
      else (.entered h, b.beginAttempt s h)

/-- The worker finishes the attempt that is under way and the job around it, and tells whose it
was. -/
def finish (s : StationId) : Act (Option HandlerId) := do
  let attempt ← Action.ask (·.inside? s)
  match attempt with
  | none => pure none
  | some attempt =>
    let h := attempt.handler
    Act.holding h do
      Action.change (·.updateStation s fun st => { st with inside := none })
      match attempt.fate with
      | .proceeds => (register h).caught
      | .panics => pure ()
      | .crashes => Action.change (·.closeStation s)
    pure (some h)

/-- Whether a station has nothing to do. -/
def isIdle (b : Board) (s : StationId) : Bool :=
  (b.station s).inside.isNone && (b.station s).worker.queue.isEmpty

end Board

end ToastBoard
