import ToastBoard.Board.Handler
import ToastBoard.Board.Registry
import ToastBoard.Signal.Basic
import ToastBoard.Talk
import ToastBoard.Worker.Basic

/-!
# Boards

Everything that coordinators work on: handlers, registries, workers, the screen and the signal.

A handler exists as long as something refers to it: an entry of a registry, a job in a queue, the
registration under way, or somebody who holds it, which is a caller who keeps it or an operation
that is working on it. `held` lists these holders, with a handler once for each. What gives a
handler out leaves it held by whoever asked, and `letGo` gives one hold back; when nothing refers
to a handler any more, what it still has on the screen is released without a word to anybody.
-/

namespace ToastBoard

/-- The number of a station. -/
abbrev StationId := Nat

/-- The number of a coordinator. -/
abbrev CoordinatorId := Nat

/-- A worker for registrations, and the attempt it stands inside. -/
structure Station where
  /-- The worker; its jobs are the handlers to register. -/
  worker : Worker HandlerId
  /-- The attempt to register that is under way, counted from 0. -/
  inside : Option Nat := none

/-- What a coordinator consists of. -/
structure Coordinator where
  /-- Its registry. -/
  registry : RegistryId
  /-- Its worker. -/
  station : StationId
  /-- Whether new alerts are dropped. -/
  suppressed : Bool := false
  /-- The application identity it found out. -/
  identity : Option String := none
  /-- How many owners it has. -/
  owners : Nat := 1

/-- A notice to the listener of a handler. -/
structure Telling where
  /-- Whose listener is told. -/
  handler : HandlerId
  /-- What it is told. -/
  notice : Notice
  deriving DecidableEq, Repr

/-- The state that all coordinators share. -/
structure Board where
  /-- Every handler ever made, in the order of creation. -/
  handlers : List Handler := []
  /-- Every registry ever made. -/
  registries : List Registry := []
  /-- Every worker ever started. -/
  stations : List Station := []
  /-- Every coordinator ever set up. -/
  coordinators : List Coordinator := []
  /-- The screen. -/
  screen : Screen := {}
  /-- The shutdown signal, observed by coordinators. -/
  signal : Signal CoordinatorId := {}
  /-- Handlers that somebody holds, once for each holder. -/
  held : List HandlerId := []
  /-- What listeners were told so far, oldest first. -/
  told : List Telling := []

/-- A computation on a board that tells listeners. -/
abbrev Act := Action Board Telling

namespace Board

/-- The handler of a number. -/
def handler (b : Board) (h : HandlerId) : Handler := b.handlers.getD h default

/-- Changes a handler. -/
def update (b : Board) (h : HandlerId) (f : Handler → Handler) : Board :=
  { b with handlers := b.handlers.modify h f }

/-- Where a handler stands. -/
def phase (b : Board) (h : HandlerId) : Phase := (b.handler h).phase

/-- Moves a handler to a phase. -/
def setPhase (b : Board) (h : HandlerId) (phase : Phase) : Board :=
  b.update h fun hd => { hd with phase }

/-- The handlers that a message in a queue refers to. -/
def messageHandlers : Message HandlerId → List HandlerId
  | .run h => [h]
  | _ => []

/-- The handlers that a station refers to: those queued and the one being registered. -/
def stationHandlers (b : Board) (s : Station) : List HandlerId :=
  s.worker.queue.flatMap messageHandlers ++
    ((s.inside.bind (b.screen.attempts[·]?)).map (·.handler)).toList

/-- Whether anything refers to a handler, so that it exists. -/
def refersTo (b : Board) (h : HandlerId) : Bool :=
  b.held.contains h || b.registries.any (·.handlers.contains h) ||
    b.stations.any (fun s => (b.stationHandlers s).contains h)

/-- Somebody holds a handler. -/
def hold (b : Board) (h : HandlerId) : Board := { b with held := h :: b.held }

/-- Withdraws a toast from the screen. -/
def releaseToast (b : Board) (toast : Option ToastId) : Board :=
  match toast with
  | none => b
  | some id => { b with screen := b.screen.release id }

/-- A handler to which nothing refers any more withdraws its toast. -/
def reap (b : Board) (h : HandlerId) : Board :=
  if b.refersTo h then b
  else
    (b.update h fun hd => { hd with registration := none }).releaseToast
      (b.handler h).registration

/-- Gives back one hold on a handler. -/
def letGo (b : Board) (h : HandlerId) : Board := { b with held := b.held.erase h }.reap h

/-- Gives back one hold on each of some handlers. -/
def letGoAll (b : Board) (hs : List HandlerId) : Board := hs.foldl letGo b

/-- Gives back the hold on a handler that may not be there. -/
def letGoIf (b : Board) (h : Option HandlerId) : Board := b.letGoAll h.toList

/-- Makes a handler, held by whoever asked for it. -/
def create (b : Board) (handler : Handler) : HandlerId × Board :=
  (b.handlers.length, { b with handlers := b.handlers ++ [handler] }.hold b.handlers.length)

/-- The registry of a number; one that was never made is empty and has no owner. -/
def registry (b : Board) (r : RegistryId) : Registry := b.registries.getD r { owners := 0 }

/-- Changes a registry. -/
def updateRegistry (b : Board) (r : RegistryId) (f : Registry → Registry) : Board :=
  { b with registries := b.registries.modify r f }

/-- Whether a registry still exists. -/
def hasRegistry (b : Board) (r : RegistryId) : Bool := 0 < (b.registry r).owners

/-- Makes a registry with one owner. -/
def openRegistry (b : Board) : RegistryId × Board :=
  (b.registries.length, { b with registries := b.registries ++ [{}] })

/-- A registry gets another owner. -/
def ownRegistry (b : Board) (r : RegistryId) : Board :=
  b.updateRegistry r fun reg => { reg with owners := reg.owners + 1 }

/-- A registry loses an owner; with the last one it goes, and with it its entries. -/
def disownRegistry (b : Board) (r : RegistryId) : Board :=
  let b := b.updateRegistry r fun reg => { reg with owners := reg.owners - 1 }
  if b.hasRegistry r then b
  else
    (b.registry r).handlers.foldl reap (b.updateRegistry r fun reg => { reg with entries := [] })

/-- The handler under a name. -/
def current? (b : Board) (r : RegistryId) (name : String) : Option HandlerId :=
  (b.registry r).get? name

/-- Whether a handler is the very one under a name. -/
def isCurrent (b : Board) (r : RegistryId) (name : String) (h : HandlerId) : Bool :=
  b.current? r name == some h

/-- Takes a hold on the handler under a name. -/
def lookUp (b : Board) (r : RegistryId) (name : String) : Option HandlerId × Board :=
  match b.current? r name with
  | none => (none, b)
  | some h => (some h, b.hold h)

/-- Puts a handler under a name and hands out the one it displaces. -/
def install (b : Board) (r : RegistryId) (name : String) (h : HandlerId) :
    Option HandlerId × Board :=
  let (displaced, b) := b.lookUp r name
  (displaced, b.updateRegistry r fun reg => reg.insert name h)

/-- Takes out the entry of a name and hands its handler out. -/
def takeEntry (b : Board) (r : RegistryId) (name : String) : Option HandlerId × Board :=
  let (removed, b) := b.lookUp r name
  (removed, b.updateRegistry r fun reg => reg.erase name)

/-- Takes out all entries and hands their handlers out. -/
def takeAll (b : Board) (r : RegistryId) : List HandlerId × Board :=
  let hs := (b.registry r).handlers
  (hs, { b with held := hs ++ b.held }.updateRegistry r fun reg => { reg with entries := [] })

/-- Undoes an install that displaced `previous`, whose hold it takes: if `current` is still the
handler under the name, `previous` is put back if it is active, and otherwise the name is taken
out. -/
def restore (b : Board) (r : RegistryId) (name : String) (current : HandlerId)
    (previous : Option HandlerId) : Bool × Board :=
  if b.isCurrent r name current then
    match previous.filter fun h => (b.phase h).isActive with
    | some h => (true, ((b.updateRegistry r fun reg => reg.insert name h).reap current).letGo h)
    | none => (true, ((b.updateRegistry r fun reg => reg.erase name).reap current).letGoIf previous)
  else (false, b.letGoIf previous)

/-- The station of a number; one that was never made has no worker to speak of. -/
def station (b : Board) (s : StationId) : Station :=
  b.stations.getD s { worker := { name := "", accepting := false, alive := false } }

/-- Changes a station. -/
def updateStation (b : Board) (s : StationId) (f : Station → Station) : Board :=
  { b with stations := b.stations.modify s f }

/-- Puts another worker at a station. -/
def setWorker (b : Board) (s : StationId) (worker : Worker HandlerId) : Board :=
  b.updateStation s fun st => { st with worker }

/-- Makes a station for a worker. -/
def openStation (b : Board) (worker : Worker HandlerId) : StationId × Board :=
  (b.stations.length, { b with stations := b.stations ++ [{ worker }] })

end Board

end ToastBoard
