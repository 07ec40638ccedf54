import ToastBoard.Notice

/-!
# Mailboxes

A listener that puts every notice it hears into a mailbox, and the receiver that takes them out in
order. Notices told after the receiver is gone are discarded; what is in the box when the listener
goes can still be taken.
-/

namespace ToastBoard

/-- A mailbox between a listener and a receiver. -/
structure Mailbox where
  /-- The notices not taken yet, oldest first. -/
  notices : List Notice := []
  /-- Whether the listener is still there. -/
  hasListener : Bool := true
  /-- Whether the receiver is still there. -/
  hasReceiver : Bool := true
  deriving DecidableEq, Repr

/-- What a receiver finds. -/
inductive Delivery where
  /-- A notice. -/
  | notice (n : Notice)
  /-- Nothing yet. -/
  | empty
  /-- Nothing, and nothing will come. -/
  | disconnected
  deriving DecidableEq, Repr

namespace Mailbox

/-- The listener hears a notice. -/
def observe (m : Mailbox) (n : Notice) : Mailbox :=
  if m.hasReceiver then { m with notices := m.notices ++ [n] } else m

/-- The receiver takes the oldest notice. -/
def receive (m : Mailbox) : Delivery × Mailbox :=
  match m.notices with
  | n :: rest => (.notice n, { m with notices := rest })
  | [] => (if m.hasListener then .empty else .disconnected, m)

/-- The listener goes. -/
def dropListener (m : Mailbox) : Mailbox := { m with hasListener := false }

/-- The receiver goes, and what is in the box with it. -/
def dropReceiver (m : Mailbox) : Mailbox := { m with hasReceiver := false, notices := [] }

end Mailbox

end ToastBoard
