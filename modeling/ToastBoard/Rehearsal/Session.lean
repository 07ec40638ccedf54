import ToastBoard.Rehearsal.Perform

/-!
# Sessions

A rehearsal from outside: the worker is held still while a command is performed, and then runs its
queue until that is empty, unless it is kept from that. After each command a scene shows what it
answered, what listeners have recorded meanwhile, and how things stand.
-/

namespace ToastBoard

namespace Rehearsal

/-- A bound on how deep reactions can go from here. -/
def depth (r : Rehearsal) : Nat := r.pending + 1

/-- A bound on the number of steps the worker can take from here: each job is entered and
finished, and each command that is left can bring one job more. -/
def backlog (r : Rehearsal) (s : StationId) : Nat :=
  2 * ((r.board.station s).worker.queue.length + r.pending) + 2

/-- The worker finishes the attempt it stands inside. -/
def finish (s : StationId) : Play (Option HandlerId) := fun r =>
  r.act (hear r.depth) (Board.finish s)

/-- So many steps of the worker, or until it stands inside an attempt or has nothing to do. -/
def advanceUntilInside (s : StationId) : Nat → Rehearsal → Rehearsal
  | 0, r => r
  | n + 1, r =>
    match r.step (·.advance s) with
    | (.idle, r) => r
    | (.entered _, r) => r
    | (_, r) => advanceUntilInside s n r

/-- The worker, left to itself, finishes the attempt it stands inside. If that kills it, the
handler it was working on is remembered. -/
def finishAlone (s : StationId) (attempt : Attempt) (r : Rehearsal) : Rehearsal :=
  match attempt.fate with
  | .crashes => { (finish s r).2 with lost := some attempt.handler }
  | _ => (finish s r).2

/-- So many steps of the worker, or until it has nothing to do. -/
def turns (s : StationId) : Nat → Rehearsal → Rehearsal
  | 0, r => r
  | n + 1, r =>
    if r.board.isIdle s then r
    else
      match r.board.inside? s with
      | some attempt => turns s n (finishAlone s attempt r)
      | none => turns s n (r.step (·.advance s)).2

/-- Runs the queue until it is empty. -/
def runQueue (r : Rehearsal) : Rehearsal :=
  match r.station with
  | none => r
  | some s => turns s (r.backlog s) r

/-- Runs the queue unless the worker is kept from it. -/
def settle (r : Rehearsal) : Rehearsal := if r.onHold then r else r.runQueue

/-- Lets the worker go on. -/
def unhold (r : Rehearsal) : Rehearsal := { r with onHold := false }

/-- The name of a handler that may not be there. -/
def nameReply (h : Option HandlerId) (r : Rehearsal) : Reply :=
  .text (h.map fun h => (r.board.handler h).name)

/-- Lets the worker go on up to the inside of its next attempt. -/
def enter (s : StationId) : Play Reply := fun r =>
  let r := advanceUntilInside s (r.backlog s) { r with onHold := true }
  (some (r.nameReply ((r.board.inside? s).map (·.handler))), r)

/-- Lets the worker finish the attempt it stands inside. A worker that was killed on its own never
left its last attempt, and is found there once. -/
def leave (s : StationId) : Play Reply := fun r =>
  match r.board.inside? s with
  | some _ =>
    let (h, r) := finish s r
    (h.map r.nameReply, r)
  | none => answer (r.nameReply r.lost) { r with lost := none }

/-- Runs the queue, puts a mark into it and runs it up to the mark. -/
def flush (s : StationId) : Play Reply := fun r =>
  let r := r.unhold.runQueue
  match (r.board.station s).worker.send .mark with
  | .error e => answer (.failed e) r
  | .ok worker =>
    let before := worker.marks
    let r := { r with board := r.board.setWorker s worker }.runQueue
    if before < (r.board.station s).worker.marks then answer .done r
    else answer (.failed (.other "background worker exited before flush")) r

/-- Stops the worker, which runs its queue before it ends. -/
def stop (s : StationId) : Play Reply := fun r =>
  let board := r.board.setWorker s (r.board.station s).worker.stop
  answer .done { r with board }.unhold.runQueue

/-- Runs the queue and gives the coordinator up, if there is one. -/
def withoutCoordinator (r : Rehearsal) : Rehearsal :=
  let r := r.runQueue
  match r.coordinator with
  | none => r
  | some c =>
    let r := { r with board := r.board.disownCoordinator c }.runQueue
    { r with coordinator := none, station := none, lost := none }

/-- Lets the worker go on and gives the coordinator up; answers whether there was one. -/
def giveUp : Play Reply := fun r =>
  answer (.truth r.coordinator.isSome) r.unhold.withoutCoordinator

/-- Sets up a coordinator in place of the one there is. A worker that was kept from running its
queue runs it before it goes, and the new one is kept from it in turn. -/
def setUp (settings : Option Settings) (host : Host) : Play Reply := fun r =>
  let r := r.withoutCoordinator
  match settings with
  | none => answer .undecodable r
  | some settings =>
    match r.step (·.setUp settings host) with
    | (none, r) => (none, r)
    | (some ⟨.error e, _⟩, r) => answer (.failed e) r
    | (some ⟨.ok c, _⟩, r) =>
      let co := r.board.coordinator c
      answer (.identity co.identity)
        { r with coordinator := some c, station := some co.station }

/-- What a command that is given from outside does and answers. -/
def direct : Command → Play Reply
  | .hold => fun r => answer .done { r with onHold := true }
  | .run => fun r => answer .done r.unhold
  | .enter => withStation enter
  | .finish => withStation leave
  | .flush => withStation flush
  | .stop => withStation stop
  | .setUp settings host => setUp settings host
  | .giveUp => giveUp
  | command => fun r => perform (hear (r.depth + command.weight)) command r

/-- How things stand after a command. -/
structure Scene where
  /-- What the command answered; nothing if it panicked. -/
  reply : Option Reply
  /-- What listeners have recorded since the command before. -/
  records : List Record
  /-- The alerts of the coordinator in the order of their names, with phase and cookie. -/
  active : Option (List (String × Phase × String))
  /-- The entries of the registry in the order of their names, with label and phase. -/
  registry : Option (List (String × String × Phase))
  /-- The kept handlers in the order of their labels, with their phases. -/
  kept : List (String × Phase)
  /-- Every toast there ever was. -/
  toasts : List Toast

/-- How things stand, after a command has answered. -/
def scene (r : Rehearsal) (reply : Option Reply) : Scene where
  reply := reply
  records := r.records
  active := r.coordinator.map fun c =>
    (r.board.registry (r.board.coordinator c).registry).sorted.map fun (name, h) =>
      (name, r.board.phase h, (r.board.handler h).fields.cookie)
  registry := r.registry.map fun reg =>
    (r.board.registry reg).sorted.map fun (name, h) => (name, r.labelOf h, r.board.phase h)
  kept := r.sortedKept.map fun (label, h) => (label, r.board.phase h)
  toasts := r.board.screen.toasts

/-- Performs a command and lets the worker go on as far as it may. -/
def next (r : Rehearsal) (command : Command) : Scene × Rehearsal :=
  let (reply, r) := direct command { r with records := [] }
  let r := r.settle
  (r.scene reply, r)

/-- The scenes of a script. -/
def scenes : List Command → Rehearsal → List Scene
  | [], _ => []
  | command :: rest, r => (r.next command).1 :: scenes rest (r.next command).2

/-- A platform that has toasts and an identity. -/
def exampleHost : Host where
  supported := true
  identity := .ok "com.example.test"

/-- A session on one coordinator. Unless the script starts with setting one up, there is one. -/
def onCoordinator : List Command → List Scene
  | .setUp settings host :: rest => scenes (.setUp settings host :: rest) {}
  | script => scenes script (({} : Rehearsal).next (.setUp (some {}) exampleHost)).2

/-- A session on handlers, a registry and a worker; nothing if starting the worker panics. -/
def onHandlers (thread : String) (script : List Command) : Option (Except Failure (List Scene)) :=
  match Worker.start none thread with
  | none => none
  | some (.error e) => some (.error e)
  | some (.ok worker) =>
    let (station, board) := ({} : Board).openStation worker
    let (registry, board) := board.openRegistry
    some (.ok (scenes script { board, registry := some registry, station := some station }))

end Rehearsal

end ToastBoard
