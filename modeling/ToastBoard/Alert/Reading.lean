import ToastBoard.Alert.Basic
import ToastBoard.Failure

/-!
# Reading an alert

An alert is read once, through nine getters that may each fail, into a snapshot; what is shown
keeps the snapshot and never asks again. The getters are called in a fixed order, the first
failure ends the reading, and an empty name ends it right after the name was read.
-/

namespace ToastBoard

/-- What a getter answers. -/
abbrev Answer (α : Type) := Except ErrorChain α

/-- An alert that is asked for its fields one by one. -/
structure Source where
  /-- The cookie. -/
  cookie : Answer String
  /-- The name. -/
  name : Answer String
  /-- The title. -/
  title : Answer String
  /-- The text. -/
  text : Answer String
  /-- Whether a click on the body is reported. -/
  textClickable : Answer Bool
  /-- The source. -/
  source : Answer String
  /-- Whether the toast stays until somebody interacts with it. -/
  requireInteraction : Answer Bool
  /-- The buttons. -/
  actions : Answer (List Button)
  /-- The address of the picture. -/
  imageUrl : Answer String

/-- A plain alert answers every getter. -/
def Alert.asSource (a : Alert) : Source where
  cookie := .ok a.cookie
  name := .ok a.name
  title := .ok a.title
  text := .ok a.text
  textClickable := .ok a.textClickable
  source := .ok a.source
  requireInteraction := .ok a.requireInteraction
  actions := .ok a.actions
  imageUrl := .ok a.imageUrl

/-- Everything that was read from an alert. -/
structure Snapshot where
  /-- The value that travels with every notice about the alert. -/
  cookie : String
  /-- The name that identifies the toast. -/
  name : String
  /-- The first line. -/
  title : String
  /-- The second line. -/
  text : String
  /-- Whether a click on the body is reported. -/
  textClickable : Bool
  /-- Where the alert came from. -/
  source : String
  /-- Whether the toast stays until somebody interacts with it. -/
  requireInteraction : Bool
  /-- The buttons, in order. -/
  actions : List Button
  /-- The address of the picture. -/
  imageUrl : String
  deriving DecidableEq, Repr

/-- A snapshot as a value of the interchange format. -/
def Snapshot.toJson (s : Snapshot) : Json :=
  .object
    [("cookie", .string s.cookie), ("name", .string s.name), ("title", .string s.title),
      ("text", .string s.text), ("textClickable", .bool s.textClickable),
      ("source", .string s.source), ("requireInteraction", .bool s.requireInteraction),
      ("actions", .list (s.actions.map Button.toJson)), ("imageUrl", .string s.imageUrl)]

/-- What came of a reading, and which getters were called for it. -/
structure Reading (α : Type) where
  /-- The value, or the failure that ended the reading. -/
  result : Except Failure α
  /-- The fields whose getters were called, in the order of the calls. -/
  called : List String

namespace Reading

/-- The number of getters called. -/
def reads {α : Type} (r : Reading α) : Nat := r.called.length

/-- A reading that calls no getter. -/
def done {α : Type} (a : α) : Reading α := ⟨.ok a, []⟩

/-- A reading that ends with a failure and calls no getter. -/
def fail {α : Type} (e : Failure) : Reading α := ⟨.error e, []⟩

/-- Makes one call, whatever it answers. -/
def call {α : Type} (name : String) (answer : α) : Reading α := ⟨.ok answer, [name]⟩

/-- Calls one getter, whose failure is told with the name of its field. -/
def field {α : Type} (name : String) (answer : Answer α) : Reading α :=
  ⟨answer.mapError (Failure.ofField name), [name]⟩

/-- Goes on reading unless the reading has ended; what is called then comes after what was called
before. -/
def andThen {α β : Type} (r : Reading α) (next : α → Reading β) : Reading β :=
  match r.result with
  | .ok a => ⟨(next a).result, r.called ++ (next a).called⟩
  | .error e => ⟨.error e, r.called⟩

instance : Monad Reading where
  pure := done
  bind := andThen

end Reading

namespace Source

/-- Reads every field, in the fixed order, stopping at the first failure. -/
def read (s : Source) : Reading Snapshot := do
  let cookie ← .field "cookie" s.cookie
  let name ← .field "name" s.name
  if name.isEmpty then
    .fail (.invalidArgument "alert name is empty")
  else
    let title ← .field "title" s.title
    let text ← .field "text" s.text
    let textClickable ← .field "textClickable" s.textClickable
    let source ← .field "source" s.source
    let requireInteraction ← .field "requireInteraction" s.requireInteraction
    let actions ← .field "actions" s.actions
    let imageUrl ← .field "imageURL" s.imageUrl
    .done { cookie, name, title, text, textClickable, source, requireInteraction, actions,
            imageUrl }

end Source

end ToastBoard
