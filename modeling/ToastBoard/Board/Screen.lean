import ToastBoard.Markup
import ToastBoard.Notice

/-!
# Screens

A screen on which nothing is shown: it records the toasts that are registered with it, remembers
whom to tell about each until it is released, and can be made to fail in several ways. Each call
to register is an attempt; some are over before the screen itself sees them, because the attempt
panics or takes its thread with it.
-/

namespace ToastBoard

/-- The number of a toast; the first is 1. -/
abbrev ToastId := Nat

/-- The number of a handler, in the order of creation, from 0. -/
abbrev HandlerId := Nat

/-- A toast as the screen recorded it. -/
structure Toast where
  /-- Its number. -/
  id : ToastId
  /-- The name of its alert. -/
  name : String
  /-- The cookie of its alert. -/
  cookie : String
  /-- The title of its alert. -/
  title : String
  /-- The text of its alert. -/
  text : String
  /-- How often it was released. -/
  releases : Nat := 0
  deriving DecidableEq, Repr

/-- What comes of an attempt to register. -/
inductive Fate where
  /-- The screen gets to see it. -/
  | proceeds
  /-- It panics. -/
  | panics
  /-- It kills the thread it runs on. -/
  | crashes
  deriving DecidableEq, Repr

/-- A call to register. -/
structure Attempt where
  /-- Whom to tell about the toast. -/
  handler : HandlerId
  /-- The thread it was made on. -/
  thread : String
  /-- What comes of it. -/
  fate : Fate
  deriving DecidableEq, Repr

/-- What is going to go wrong, once each. -/
structure Faults where
  /-- The next registration fails for this reason. -/
  register : Option String := none
  /-- The next registration that does not fail reports this before it returns. -/
  early : Option Outcome := none
  /-- The next attempt panics. -/
  panicAttempt : Bool := false
  /-- The next attempt kills its thread. -/
  crashAttempt : Bool := false
  /-- The next rendering fails for this reason. -/
  render : Option String := none
  /-- The next release reports an error, though it is done. -/
  release : Bool := false
  deriving DecidableEq, Repr

/-- A screen. -/
structure Screen where
  /-- Every toast that was ever registered, oldest first. -/
  toasts : List Toast := []
  /-- Whom to tell about each toast that is not released. -/
  sinks : List (ToastId × HandlerId) := []
  /-- Every call to register, oldest first. -/
  attempts : List Attempt := []
  /-- What is going to go wrong. -/
  faults : Faults := {}
  deriving DecidableEq, Repr

namespace Screen

/-- The fate of the next attempt: a killed thread goes before a panic, and only one of them is used
up. -/
def nextFate (s : Screen) : Fate × Screen :=
  if s.faults.crashAttempt then (.crashes, { s with faults.crashAttempt := false })
  else if s.faults.panicAttempt then (.panics, { s with faults.panicAttempt := false })
  else (.proceeds, s)

/-- A call to register comes in. -/
def attempt (s : Screen) (handler : HandlerId) (thread : String) : Screen :=
  let (fate, s) := s.nextFate
  { s with attempts := s.attempts ++ [{ handler, thread, fate }] }

/-- Records a toast and whom to tell about it. -/
def record (s : Screen) (handler : HandlerId) (fields : Snapshot) : ToastId × Screen :=
  let id := s.toasts.length + 1
  let toast : Toast :=
    { id, name := fields.name, cookie := fields.cookie, title := fields.title, text := fields.text }
  (id, { s with toasts := s.toasts ++ [toast], sinks := s.sinks ++ [(id, handler)] })

/-- Registers a toast, or fails as it was told to. -/
def register (s : Screen) (handler : HandlerId) (fields : Snapshot) :
    Except Failure ToastId × Screen :=
  match s.faults.register with
  | some reason => (.error (.platform reason), { s with faults.register := none })
  | none =>
    let (id, s) := s.record handler fields
    (.ok id, s)

/-- What the registration under way reports before it returns. -/
def takeEarly (s : Screen) : Option Outcome × Screen :=
  (s.faults.early, { s with faults.early := none })

/-- Withdraws a toast; an error that is reported about this has no effect. -/
def release (s : Screen) (id : ToastId) : Screen :=
  { s with
    toasts := s.toasts.map fun t => if t.id = id then { t with releases := t.releases + 1 } else t
    sinks := s.sinks.filter fun sink => sink.1 ≠ id
    faults.release := false }

/-- The newest toast of this name that is not released. -/
def newest? (s : Screen) (name : String) : Option Toast :=
  s.toasts.reverse.find? fun t => t.name == name && t.releases == 0

/-- Whom to tell about the newest toast of this name that is not released. -/
def sinkOf? (s : Screen) (name : String) : Option HandlerId :=
  (s.newest? name).bind fun t => s.sinks.lookup t.id

/-- The toasts that are not released. -/
def unreleased (s : Screen) : List Toast := s.toasts.filter fun t => t.releases == 0

/-- The payload for an alert, or a failure as it was told to. -/
def render (s : Screen) (fields : Snapshot) (imageUrl : String) : Except Failure String × Screen :=
  match s.faults.render with
  | some reason => (.error (.platform reason), { s with faults.render := none })
  | none => (.ok (Markup.toast fields imageUrl), s)

end Screen

end ToastBoard
