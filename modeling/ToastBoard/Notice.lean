import ToastBoard.Json.Record

/-!
# Notices and outcomes

An outcome is what the platform reports about a shown toast, and ends it. A notice is what the
listener of an alert is told: its topic, the cookie of the alert and, for a button, the action of
the button.
-/

namespace ToastBoard

/-- What the platform reports about a toast. -/
inductive Outcome where
  /-- The body was activated, or the button with this action. -/
  | activated (action : Option String)
  /-- The toast was dismissed, timed out or was hidden. -/
  | dismissed
  /-- The platform could not go on showing the toast. -/
  | failed (reason : String)
  deriving DecidableEq, Repr

/-- What a notice is about. -/
inductive Topic where
  /-- The toast is on the screen. -/
  | shown
  /-- The body was clicked. -/
  | clicked
  /-- A button was activated. -/
  | actionTaken
  /-- The toast is gone. -/
  | finished
  deriving DecidableEq, Repr

namespace Topic

/-- The name of a topic. -/
def name : Topic → String
  | .shown => "alertshow"
  | .clicked => "alertclickcallback"
  | .actionTaken => "alertactioncallback"
  | .finished => "alertfinished"

/-- The topic with this name. -/
def ofName? (s : String) : Option Topic :=
  [shown, clicked, actionTaken, finished].find? (·.name == s)

/-- A topic as a value of the interchange format. -/
def toJson (t : Topic) : Json := .string t.name

/-- The topic in a value: its name, or a record with its name as only key and nothing under it. -/
def ofJson? : Json → Option Topic
  | .text l => l.text?.bind ofName?
  | .record [(key, .null)] => key.text?.bind ofName?
  | _ => none

theorem ofName?_name (t : Topic) : ofName? t.name = some t := by
  cases t <;> rfl

end Topic

/-- What a listener is told. -/
structure Notice where
  /-- What happened. -/
  topic : Topic
  /-- The cookie of the alert it happened to. -/
  cookie : String
  /-- The action of the button, for a button. -/
  action : Option String := none
  deriving DecidableEq, Repr

namespace Notice

/-- The members of a notice, in declaration order. -/
def keys : List String := ["topic", "cookie", "action"]

/-- A notice as a value of the interchange format; an action that is not there is left out. -/
def toJson (n : Notice) : Json :=
  .object ([("topic", n.topic.toJson), ("cookie", .string n.cookie)] ++
    match n.action with
    | none => []
    | some a => [("action", .string a)])

/-- A list gives a notice only if it has all three members. -/
def isShortList : Json → Bool
  | .list items => items.length < keys.length
  | _ => false

/-- The notice in a value. Topic and cookie are required, the action may be left out of a
record. -/
def ofJson? (v : Json) : Option Notice :=
  if isShortList v then none
  else do
    let given ← v.given? keys
    let topic ← Json.required? Topic.ofJson? (given "topic")
    let cookie ← Json.required? Json.asText? (given "cookie")
    let action ← Json.orDefault? none Json.asOptionalText? (given "action")
    some { topic, cookie, action }

end Notice

end ToastBoard
