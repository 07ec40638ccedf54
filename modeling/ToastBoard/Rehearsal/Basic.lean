import ToastBoard.Rehearsal.Command
import ToastBoard.Rehearsal.Reply

/-!
# Rehearsals

The state of a rehearsal: a board, what the commands refer to by default, the handlers that are
kept under labels, the scripts of the listeners with what is left of them, and the records since
the last command was given from outside.
-/

namespace ToastBoard

/-- The state of a rehearsal. -/
structure Rehearsal where
  /-- The board. -/
  board : Board := {}
  /-- The coordinator, if there is one. -/
  coordinator : Option CoordinatorId := none
  /-- The registry that is worked on by hand, if there is one. -/
  registry : Option RegistryId := none
  /-- The worker, if there is one. -/
  station : Option StationId := none
  /-- The handlers that are kept, by label. -/
  kept : List (String × HandlerId) := []
  /-- The labels of the handlers that were made by hand, in the order of creation. -/
  labels : List String := []
  /-- The listeners, in the order of creation, with the reactions they have left. -/
  listeners : List (Script Command) := []
  /-- The handler whose attempt killed the worker, unless somebody has asked since. -/
  lost : Option HandlerId := none
  /-- Whether the worker is kept from running its queue. -/
  onHold : Bool := false
  /-- What listeners have recorded. -/
  records : List Record := []

/-- What those who are told do, with whether they return. -/
abbrev Hearing : Type := Telling → Rehearsal → Bool × Rehearsal

/-- Something done in a rehearsal; no result means a panic. -/
abbrev Play (α : Type) : Type := Rehearsal → Option α × Rehearsal

namespace Rehearsal

/-- Appends to the records. -/
def record (r : Rehearsal) (entry : Record) : Rehearsal :=
  { r with records := r.records ++ [entry] }

/-- Does something on the board. -/
def act {α : Type} (hear : Hearing) (a : Act α) : Play α := fun r =>
  (a r.board).run (·.board) (fun board r => { r with board }) hear r

/-- Does something on the board that tells nobody. -/
def step {α : Type} (f : Board → α × Board) (r : Rehearsal) : α × Rehearsal :=
  ((f r.board).1, { r with board := (f r.board).2 })

/-- The handler under a label. -/
def keptAs? (r : Rehearsal) (label : String) : Option HandlerId := r.kept.lookup label

/-- Lets go of the handler under a label, if there is one. -/
def letGo (r : Rehearsal) (label : String) : Rehearsal :=
  { r with
    kept := r.kept.filter fun k => k.1 ≠ label
    board := r.board.letGoIf (r.keptAs? label) }

/-- Keeps a handler that was just handed out under a label, in place of what was there. -/
def keep (r : Rehearsal) (label : String) (h : HandlerId) : Rehearsal :=
  { r.letGo label with kept := (r.letGo label).kept ++ [(label, h)] }

/-- The label under which a handler was made. -/
def labelOf (r : Rehearsal) (h : HandlerId) : String := r.labels.getD h ""

/-- The kept handlers in the order of their labels. -/
def sortedKept (r : Rehearsal) : List (String × HandlerId) :=
  r.kept.mergeSort fun a b => decide (a.1 ≤ b.1)

/-- A listener comes in. -/
def addListener (r : Rehearsal) (listener : Option (Script Command)) :
    Option ListenerId × Rehearsal :=
  match listener with
  | none => (none, r)
  | some script => (some r.listeners.length, { r with listeners := r.listeners ++ [script] })

/-- The commands a script performs when it hears of a topic, and what is left of it then. -/
def takeReaction (script : Script Command) (topic : Topic) :
    Option (List Command) × Script Command :=
  (script.reactions.lookup topic,
    { script with reactions := script.reactions.filter fun reaction => reaction.1 ≠ topic })

/-- The number of commands that listeners have left, with one more for each reaction. -/
def pending (r : Rehearsal) : Nat :=
  r.listeners.foldl (fun n script => n + Command.scriptWeight script) 0

end Rehearsal

end ToastBoard
