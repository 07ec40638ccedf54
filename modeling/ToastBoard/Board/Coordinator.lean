import ToastBoard.Board.Life
import ToastBoard.Settings.Basic

/-!
# Coordinators

A coordinator shows alerts by name. An alert whose name is already taken supersedes the older one:
the new handler is put under the name and submitted first, and the older one ends afterwards, so a
name with an alert to show never leads to nothing. When the shutdown signal fires, every
coordinator that observed it and still exists ends all of its handlers.
-/

namespace ToastBoard

/-- What a platform answers when a coordinator is set up on it. -/
structure Host where
  /-- Whether it has toasts. -/
  supported : Bool
  /-- The application identity, or why there is none. -/
  identity : Except Failure String
  /-- Why it makes no thread, if it does not. -/
  threadRefusal : Option String := none

namespace Host

/-- A platform without toasts and without an identity. -/
def bare : Host where
  supported := false
  identity := .error (.identityUnavailable "no application identity")

/-- The failure to find out an identity is passed on under one heading. -/
def identityFailure : Failure → Failure
  | .identityUnavailable reason => .identityUnavailable reason
  | e => .identityUnavailable e.message

/-- What a platform is asked when a coordinator is set up, in this order. -/
def questions : List String := ["supported", "identity"]

/-- Finds out the identity a coordinator works under. Test mode waives the platform and the
identity. -/
def identityFor (host : Host) (testMode : Bool) : Reading (Option String) := do
  let supported ← .call "supported" host.supported
  if !supported && !testMode then .fail .unsupportedPlatform
  else
    let identity ← .call "identity" host.identity
    match identity with
    | .ok identity => .done (some identity)
    | .error e => if testMode then .done none else .fail (identityFailure e)

end Host

/-- An order in which the handlers that were taken out of a registry are visited. A table has no
order of its own, so it may be any. -/
structure Visit where
  /-- In which order the handlers of a registry are visited. -/
  order : RegistryId → List HandlerId → List HandlerId
  /-- Each of them is visited once. -/
  fair : ∀ r hs, (order r hs).Perm hs

namespace Visit

instance : CoeFun Visit fun _ => RegistryId → List HandlerId → List HandlerId := ⟨Visit.order⟩

/-- The order in which handlers got into the table. -/
def inTurn : Visit := ⟨fun _ hs => hs, fun _ hs => .refl hs⟩

end Visit

namespace Board

/-- The coordinator of a number; one that was never set up has no owner. -/
def coordinator (b : Board) (c : CoordinatorId) : Coordinator :=
  b.coordinators.getD c
    { registry := b.registries.length, station := b.stations.length, owners := 0 }

/-- Changes a coordinator. -/
def updateCoordinator (b : Board) (c : CoordinatorId) (f : Coordinator → Coordinator) : Board :=
  { b with coordinators := b.coordinators.modify c f }

/-- Whether a coordinator still exists. -/
def hasCoordinator (b : Board) (c : CoordinatorId) : Bool := 0 < (b.coordinator c).owners

/-- A worker, a registry and the coordinator around them, which observes the signal. -/
def openCoordinator (b : Board) (worker : Worker HandlerId) (identity : Option String) :
    CoordinatorId × Board :=
  let (station, b) := b.openStation worker
  let (registry, b) := b.openRegistry
  let c := b.coordinators.length
  (c, { b with
    coordinators := b.coordinators ++ [{ registry, station, identity }]
    signal := (b.signal.subscribe c).2 })

/-- Sets up a coordinator on a platform, with what the platform was asked. Nothing comes back if
that panics. -/
def setUp (b : Board) (settings : Settings) (host : Host) :
    Option (Reading CoordinatorId) × Board :=
  match host.identityFor settings.testMode with
  | ⟨.error e, asked⟩ => (some ⟨.error e, asked⟩, b)
  | ⟨.ok identity, asked⟩ =>
    match Worker.start host.threadRefusal settings.dispatcherThreadName with
    | none => (none, b)
    | some (.error e) => (some ⟨.error e, asked⟩, b)
    | some (.ok worker) =>
      let (c, b) := b.openCoordinator worker identity
      (some ⟨.ok c, asked⟩, b)

/-- A coordinator gets another owner. -/
def ownCoordinator (b : Board) (c : CoordinatorId) : Board :=
  b.updateCoordinator c fun co => { co with owners := co.owners + 1 }

/-- A coordinator loses an owner; with the last one it goes: its registry is given up and its
worker stopped. -/
def disownCoordinator (b : Board) (c : CoordinatorId) : Board :=
  let b := b.updateCoordinator c fun co => { co with owners := co.owners - 1 }
  if b.hasCoordinator c then b
  else
    let co := b.coordinator c
    let b := b.disownRegistry co.registry
    b.setWorker co.station (b.station co.station).worker.stop

/-- Owns a coordinator for the time of a computation. -/
def withCoordinator {α : Type} (c : CoordinatorId) (act : Coordinator → Act α) : Act α := do
  let co ← Action.ask (·.coordinator c)
  Action.change (·.ownCoordinator c)
  (act co).ensuring (·.disownCoordinator c)

/-- Whether new alerts are dropped. -/
def suppression (b : Board) (c : CoordinatorId) : Bool := (b.coordinator c).suppressed

/-- Sets whether new alerts are dropped. -/
def setSuppression (b : Board) (c : CoordinatorId) (suppressed : Bool) : Board :=
  b.updateCoordinator c fun co => { co with suppressed }

/-- The new handler could not be submitted: the older one is put back, and the new one ends. -/
def rollBack (r : RegistryId) (name : String) (h : HandlerId) (old : Option HandlerId) :
    Act Unit := do
  let _ ← Action.step (·.restore r name h old)
  unregister h

/-- The new handler is submitted: the older one ends. -/
def supersede (old : Option HandlerId) : Act Unit :=
  match old with
  | none => pure ()
  | some old => Act.thenLetGo old (unregister old)

/-- Puts a handler under its name and submits it, and deals with the one it displaces. -/
def present (co : Coordinator) (h : HandlerId) : Act (Except Failure Unit) := do
  let name ← Action.ask fun b => (b.handler h).name
  let old ← Action.step (·.install co.registry name h)
  let submitted ← Action.step (·.submit co.station h)
  match submitted with
  | .error e =>
    rollBack co.registry name h old
    pure (.error e)
  | .ok () =>
    supersede old
    pure (.ok ())

/-- Shows an alert, in place of an older one of the same name, and tells which of its getters were
called for that: none while alerts are dropped. -/
def showAlert (c : CoordinatorId) (source : Source) (listener : Option ListenerId) :
    Act (Reading Unit) :=
  withCoordinator c fun co => do
    if co.suppressed then pure (.done ())
    else
      match source.read with
      | ⟨.error e, called⟩ => pure ⟨.error e, called⟩
      | ⟨.ok fields, called⟩ =>
        let h ← Action.step (·.create { fields, listener, registry := some co.registry })
        let shown ← Act.thenLetGo h (present co h)
        pure ⟨shown, called⟩

/-- The payload for what was read from an alert. -/
def render (b : Board) (fields : Snapshot) (imageUrl : String) : Except Failure String × Board :=
  let (result, screen) := b.screen.render fields imageUrl
  (result, { b with screen })

/-- The payload for an alert, without showing it. -/
def renderOnly (b : Board) (source : Source) : Except Failure String × Board :=
  match source.read.result with
  | .error e => (.error e, b)
  | .ok fields => b.render fields fields.imageUrl

/-- Closes the alert of a name, if there is one. -/
def closeAlert (c : CoordinatorId) (name : String) : Act Unit :=
  withCoordinator c fun co => do
    let h ← Action.step (·.takeEntry co.registry name)
    match h with
    | none => pure ()
    | some h => Act.thenLetGo h (unregister h)

/-- Whether the user asked not to be disturbed. -/
def manualDoNotDisturb : Except Failure Bool := .error (.notImplemented "manual do-not-disturb")

/-- Sets whether the user asked not to be disturbed. -/
def setManualDoNotDisturb (_ : Bool) : Except Failure Unit :=
  .error (.notImplemented "manual do-not-disturb")

/-- Takes a handler out and ends it, if it is the very one under the name. -/
def removeHandler (c : CoordinatorId) (name : String) (h : HandlerId) : Act Bool :=
  withCoordinator c fun co => removeIfCurrent co.registry name h

/-- The names of all alerts of a coordinator, in order. -/
def activeNames (b : Board) (c : CoordinatorId) : List String :=
  (b.registry (b.coordinator c).registry).names

/-- Ends all handlers of a registry, in some order. The table is emptied first. -/
def drain (visit : Visit) (r : RegistryId) : Act Unit := do
  let hs ← Action.step (·.takeAll r)
  (Action.forEach (visit r hs) unregister).ensuring (·.letGoAll (visit r hs))

/-- What a coordinator does when the signal fires, if it still exists. -/
def shutDown (visit : Visit) (c : CoordinatorId) : Act Unit := do
  let here ← Action.ask (·.hasCoordinator c)
  if here then withCoordinator c fun co => drain visit co.registry else pure ()

/-- Fires the signal and tells how many observers it ran. -/
def fire (visit : Visit) : Act Nat := do
  let observers ← Action.step fun b =>
    let (observers, signal) := b.signal.fire
    (observers, { b with signal })
  Action.forEach observers (shutDown visit)
  pure observers.length

/-- The screen reports something about the newest toast of a name; tells whether there is one. -/
def emit (name : String) (outcome : Outcome) : Act Bool := do
  let sink ← Action.ask fun b => b.screen.sinkOf? name
  match sink with
  | none => pure false
  | some h =>
    hear h outcome
    pure true

end Board

end ToastBoard
