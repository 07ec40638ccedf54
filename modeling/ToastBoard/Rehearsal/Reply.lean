import ToastBoard.Board.Screen
import ToastBoard.Board.Handler

/-!
# Replies and records

What a command in a rehearsal answers, and what listeners leave in the records.
-/

namespace ToastBoard

/-- A command that makes no sense where it stands. -/
inductive Misuse where
  /-- It needs an outcome and has none. -/
  | outcome
  /-- There was no such attempt, or there is no outcome to deliver to it. -/
  | attempt
  /-- Nobody keeps a handler under that label. -/
  | handler
  /-- There is no coordinator. -/
  | noCoordinator
  /-- There is no registry. -/
  | noRegistry
  /-- Listeners cannot do this. -/
  | insideListener
  /-- There is no such command. -/
  | command
  deriving DecidableEq, Repr

/-- The word for a misuse. -/
def Misuse.word : Misuse → String
  | .outcome => "event"
  | .attempt => "sink"
  | .handler => "handler"
  | .noCoordinator => "no coordinator"
  | .noRegistry => "no registry"
  | .insideListener => "not inside a listener"
  | .command => "op"

/-- What a command answers. -/
inductive Reply where
  /-- Nothing in particular. -/
  | done
  /-- Yes or no. -/
  | truth (b : Bool)
  /-- A number. -/
  | count (n : Nat)
  /-- A text that may not be there. -/
  | text (t : Option String)
  /-- Some texts. -/
  | texts (ts : List String)
  /-- Names with the labels of their handlers. -/
  | entries (es : List (String × String))
  /-- Some toasts. -/
  | toasts (ts : List Toast)
  /-- The identity of a new coordinator. -/
  | identity (id : Option String)
  /-- A handler. -/
  | details (h : Handler)
  /-- Whether two handlers are the same, and whether the first is not the younger one. -/
  | comparison (same ordered : Bool)
  /-- The number of entries of a registry. -/
  | size (n : Nat)
  /-- It failed. -/
  | failed (e : Failure)
  /-- It made no sense. -/
  | misused (m : Misuse)
  /-- An argument could not be decoded. -/
  | undecodable

namespace Reply

/-- The reply to what may fail and has no value. -/
def ofUnit : Except Failure Unit → Reply
  | .ok () => .done
  | .error e => .failed e

/-- The reply to what may fail and results in a text. -/
def ofText : Except Failure String → Reply
  | .ok t => .text (some t)
  | .error e => .failed e

end Reply

/-- What a listener leaves in the records. -/
inductive Record where
  /-- It heard a notice. -/
  | heard (label : String) (notice : Notice)
  /-- It performed a command, because it had heard of a topic. -/
  | performed (label : String) (topic : Topic) (reply : Reply)

/-- The label of the listener whose record it is. -/
def Record.label : Record → String
  | .heard label _ => label
  | .performed label _ _ => label

end ToastBoard
