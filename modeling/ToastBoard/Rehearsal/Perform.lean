import ToastBoard.Board.Description
import ToastBoard.Board.Work
import ToastBoard.Rehearsal.Basic

/-!
# Performing commands

What a command does and answers wherever it is given, and what listeners do when they hear
something: they record it and, the first time they hear of a topic, perform their commands one by
one. Commands that concern the worker or the coordinator itself make no sense inside a listener.
-/

namespace ToastBoard

namespace Rehearsal

/-- An answer without a panic. -/
def answer (reply : Reply) : Play Reply := fun r => (some reply, r)

/-- Does something on the board and answers with what came of it. -/
def actReply {α : Type} (hear : Hearing) (a : Act α) (reply : α → Reply) : Play Reply := fun r =>
  let (result, r) := r.act hear a
  (result.map reply, r)

/-- Does something on the board that tells nobody, and answers with what came of it. -/
def stepReply {α : Type} (f : Board → α × Board) (reply : α → Reply) : Play Reply := fun r =>
  let (result, r) := r.step f
  (some (reply result), r)

/-- Asks something about the board. -/
def ask (reply : Board → Reply) : Play Reply := fun r => (some (reply r.board), r)

/-- Sets what is going to go wrong on the screen. -/
def arm (f : Faults → Faults) : Play Reply := fun r =>
  let screen := r.board.screen
  (some .done, { r with board.screen := { screen with faults := f screen.faults } })

/-- Needs the coordinator. -/
def withCoordinator (play : CoordinatorId → Play Reply) : Play Reply := fun r =>
  match r.coordinator with
  | none => answer (.misused .noCoordinator) r
  | some c => play c r

/-- Needs the registry. -/
def withRegistry (play : RegistryId → Play Reply) : Play Reply := fun r =>
  match r.registry with
  | none => answer (.misused .noRegistry) r
  | some reg => play reg r

/-- Needs the worker. -/
def withStation (play : StationId → Play Reply) : Play Reply := fun r =>
  match r.station with
  | none => answer (.misused .noCoordinator) r
  | some s => play s r

/-- Needs the handler under a label. -/
def withKept (label : String) (play : HandlerId → Play Reply) : Play Reply := fun r =>
  match r.keptAs? label with
  | none => answer (.misused .handler) r
  | some h => play h r

/-- Answers with the label of a handler that was handed out, and gives it back. -/
def labelReply (f : Board → Option HandlerId × Board) : Play Reply := fun r =>
  let (h, r) := r.step f
  (some (.text (h.map r.labelOf)), { r with board := r.board.letGoIf h })

/-- The screen reports something about an attempt. -/
def deliver (hear : Hearing) (attempt : Option Nat) (outcome : Option Outcome) : Play Reply :=
  fun r =>
    let found := attempt.bind fun n => if n = 0 then none else r.board.screen.attempts[n - 1]?
    match found, outcome with
    | some attempt, some outcome =>
      r.actReply hear (Board.hear attempt.handler outcome) fun _ => .done
    | _, _ => answer (.misused .attempt) r

/-- Sorts records by whose they are; those of one listener keep their order. -/
def sortRecords (records : List Record) : List Record :=
  records.mergeSort fun a b => decide (a.label ≤ b.label)

/-- Fires the signal. Handlers are ended in no particular order, so what listeners record
meanwhile is put into the order of their labels, also if one of them panics. -/
def fire (hear : Hearing) : Play Reply := fun r =>
  let before := r.records
  let (count, r) := { r with records := [] }.act hear (Board.fire .inTurn)
  (count.map .count, { r with records := before ++ sortRecords r.records })

/-- Shows an alert. -/
def showAlert (hear : Hearing) (c : CoordinatorId) (source : Option Source)
    (listener : Option (Script Command)) : Play Reply := fun r =>
  match source with
  | none => answer .undecodable r
  | some source =>
    let (l, r) := r.addListener listener
    r.actReply hear (Board.showAlert c source l) fun shown => .ofUnit shown.result

/-- Renders an alert without showing it. -/
def renderAlert (source : Option Source) : Play Reply :=
  match source with
  | none => answer .undecodable
  | some source => stepReply (·.renderOnly source) .ofText

/-- Keeps the handler of a name under a label. -/
def grab (c : CoordinatorId) (name label : String) : Play Reply := fun r =>
  let (h, r) := r.step fun b => b.lookUp (b.coordinator c).registry name
  match h with
  | none => (some (.truth false), r)
  | some h => (some (.truth true), r.keep label h)

/-- Makes a handler and keeps it; answers whether the label was taken. -/
def create (label : String) (source : Option Source) (listener : Option (Script Command))
    (registered : Bool) : Play Reply := fun r =>
  match source with
  | none => answer .undecodable r
  | some source =>
    match source.read.result with
    | .error e => answer (.failed e) r
    | .ok fields =>
      let (l, r) := r.addListener listener
      let registry := if registered then r.registry else none
      let (h, r) := r.step (·.create { fields, listener := l, registry })
      let taken := (r.keptAs? label).isSome
      (some (.truth taken), { r with labels := r.labels ++ [label] }.keep label h)

/-- Undoes an insert; an unknown label of a previous handler counts as none. -/
def restore (reg : RegistryId) (name : String) (h : HandlerId) (previous : String) : Play Reply :=
  fun r =>
    let previous := r.keptAs? previous
    let board := previous.toList.foldl Board.hold r.board
    { r with board }.stepReply (·.restore reg name h previous) .truth

/-- Takes out all entries and lets their handlers go. -/
def takeAll (reg : RegistryId) : Play Reply := fun r =>
  let entries := (r.board.registry reg).sorted
  let (hs, r) := r.step (·.takeAll reg)
  (some (.entries (entries.map fun (name, h) => (name, r.labelOf h))),
    { r with board := r.board.letGoAll hs })

/-- Gives the registry up; answers whether there was one. -/
def dropRegistry : Play Reply := fun r =>
  match r.registry with
  | none => (some (.truth false), r)
  | some reg =>
    (some (.truth true), { r with registry := none, board := r.board.disownRegistry reg })

/-- What a command does and answers, wherever it is given. -/
def perform (hear : Hearing) : Command → Play Reply
  | .hold | .run | .enter | .finish | .flush | .stop | .setUp .. | .giveUp =>
    answer (.misused .insideListener)
  | .emit name (some outcome) => actReply hear (Board.emit name outcome) .truth
  | .emit _ none => answer (.misused .outcome)
  | .deliver attempt outcome => deliver hear attempt outcome
  | .failRegister reason => arm fun f => { f with register := some reason }
  | .reportEarly (some outcome) => arm fun f => { f with early := some outcome }
  | .reportEarly none => answer (.misused .outcome)
  | .panicAttempt => arm fun f => { f with panicAttempt := true }
  | .crashAttempt => arm fun f => { f with crashAttempt := true }
  | .failRender reason => arm fun f => { f with render := some reason }
  | .failRelease => arm fun f => { f with release := true }
  | .workerName => ask fun b => .text (b.screen.attempts.getLast?.map (·.thread))
  | .toasts => ask fun b => .toasts b.screen.toasts
  | .unreleased => ask fun b => .toasts b.screen.unreleased
  | .panic => fun r => (none, r)
  | .fire => fire hear
  | .isFired => ask fun b => .truth b.signal.fired
  | .showAlert source listener => withCoordinator fun c => showAlert hear c source listener
  | .renderAlert source => withCoordinator fun _ => renderAlert source
  | .close name => withCoordinator fun c => actReply hear (Board.closeAlert c name) fun _ => .done
  | .suppress on =>
    withCoordinator fun c => stepReply (fun b => ((), b.setSuppression c on)) fun _ => .done
  | .suppression => withCoordinator fun c => ask fun b => .truth (b.suppression c)
  | .doNotDisturb =>
    withCoordinator fun _ => answer
      (match Board.manualDoNotDisturb with
        | .ok on => .truth on
        | .error e => .failed e)
  | .setDoNotDisturb on =>
    withCoordinator fun _ => answer (.ofUnit (Board.setManualDoNotDisturb on))
  | .activeNames => withCoordinator fun c => ask fun b => .texts (b.activeNames c)
  | .identity => withCoordinator fun c => ask fun b => .text (b.coordinator c).identity
  | .grab name label => withCoordinator fun c => grab c name label
  | .isActive name label =>
    withCoordinator fun c => withKept label fun h =>
      ask fun b => .truth (b.isCurrent (b.coordinator c).registry name h)
  | .removeHandler name label =>
    withCoordinator fun c => withKept label fun h =>
      actReply hear (Act.holding h (Board.removeHandler c name h)) .truth
  | .letGo label => fun r => (some (.truth (r.keptAs? label).isSome), r.letGo label)
  | .details label => withKept label fun h => ask fun b => .details (b.handler h)
  | .unregister label =>
    withKept label fun h => actReply hear (Act.holding h (Board.unregister h)) fun _ => .done
  | .create label source listener registered => create label source listener registered
  | .submit label =>
    withKept label fun h => withStation fun s => stepReply (·.submit s h) .ofUnit
  | .render label imageUrl =>
    withKept label fun h => stepReply (fun b => b.render (b.handler h).fields imageUrl) .ofText
  | .describe label =>
    withKept label fun h => ask fun b => .text (some ((b.handler h).description "ID"))
  | .compare label other =>
    withKept label fun h => withKept other fun g =>
      answer (.comparison (decide (h = g)) (decide (h ≤ g)))
  | .insert name label =>
    withRegistry fun reg => withKept label fun h => labelReply (·.install reg name h)
  | .lookUp name => withRegistry fun reg => labelReply (·.lookUp reg name)
  | .remove name => withRegistry fun reg => labelReply (·.takeEntry reg name)
  | .isCurrent name label =>
    withRegistry fun reg => withKept label fun h => ask fun b => .truth (b.isCurrent reg name h)
  | .removeIfCurrent name label =>
    withRegistry fun reg => withKept label fun h =>
      actReply hear (Act.holding h (Act.owning reg (Board.removeIfCurrent reg name h))) .truth
  | .restore name label previous =>
    withRegistry fun reg => withKept label fun h => restore reg name h previous
  | .takeAll => withRegistry takeAll
  | .size => withRegistry fun reg => ask fun b => .size (b.registry reg).entries.length
  | .names => withRegistry fun reg => ask fun b => .texts (b.registry reg).names
  | .dropRegistry => dropRegistry
  | .isRunning => withStation fun s => ask fun b => .truth (b.station s).worker.accepting
  | .unknown => answer (.misused .command)

/-- Performs commands one by one and records what they answer, until one panics. -/
def react (hear : Hearing) (label : String) (topic : Topic) :
    List Command → Rehearsal → Bool × Rehearsal
  | [], r => (true, r)
  | command :: rest, r =>
    match perform hear command r with
    | (none, r) => (false, r)
    | (some reply, r) => react hear label topic rest (r.record (.performed label topic reply))

/-- What a listener does when it hears something. Each reaction is used up when it starts, so
reactions inside reactions end; the number bounds how deep they go. -/
def hear : Nat → Hearing
  | depth, telling, r =>
    match (r.board.handler telling.handler).listener with
    | none => (true, r)
    | some l =>
      match r.listeners[l]? with
      | none => (true, r)
      | some script =>
        let (commands, script) := takeReaction script telling.notice.topic
        let r := { r with listeners := r.listeners.set l script }.record
          (.heard script.label telling.notice)
        match depth, commands with
        | depth + 1, some commands =>
          react (hear depth) script.label telling.notice.topic commands r
        | _, _ => (true, r)

end Rehearsal

end ToastBoard
