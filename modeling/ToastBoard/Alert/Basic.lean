import ToastBoard.Json.Record

/-!
# Alerts

The plain value that a caller hands in to have a toast shown, its builders, and its form as a
text. Every member of an alert may be left out; a button needs both of its members.
-/

namespace ToastBoard

/-- A button shown on a toast. -/
structure Button where
  /-- The identifier reported back when the button is activated. -/
  action : String
  /-- The label of the button. -/
  title : String
  deriving DecidableEq, Repr

namespace Button

/-- The members of a button, in declaration order. -/
def keys : List String := ["action", "title"]

/-- A button as a value of the interchange format. -/
def toJson (b : Button) : Json :=
  .object [("action", .string b.action), ("title", .string b.title)]

/-- The button in a value; both members are required. -/
def ofJson? (v : Json) : Option Button := do
  let given ← v.given? keys
  let action ← Json.required? Json.asText? (given "action")
  let title ← Json.required? Json.asText? (given "title")
  some { action, title }

end Button

/-- An alert as a caller writes it down. -/
structure Alert where
  /-- The name that identifies the toast; a newer alert of the same name replaces it. -/
  name : String := ""
  /-- The value that travels with every notice about the alert. -/
  cookie : String := ""
  /-- The first line. -/
  title : String := ""
  /-- The second line. -/
  text : String := ""
  /-- Where the alert came from. -/
  source : String := ""
  /-- Whether a click on the body is reported. -/
  textClickable : Bool := false
  /-- Whether the toast stays until somebody interacts with it. -/
  requireInteraction : Bool := false
  /-- The buttons, in order. -/
  actions : List Button := []
  /-- The address of the picture. -/
  imageUrl : String := ""
  deriving DecidableEq, Repr

namespace Alert

/-- An alert with these three texts and nothing else. -/
def new (name title text : String) : Alert := { name, title, text }

/-- Sets the cookie. -/
def withCookie (a : Alert) (cookie : String) : Alert := { a with cookie }

/-- Sets the source. -/
def withSource (a : Alert) (source : String) : Alert := { a with source }

/-- Sets the address of the picture. -/
def withImageUrl (a : Alert) (imageUrl : String) : Alert := { a with imageUrl }

/-- Appends a button. -/
def withAction (a : Alert) (button : Button) : Alert :=
  { a with actions := a.actions ++ [button] }

/-- Sets whether a click on the body is reported. -/
def withTextClickable (a : Alert) (textClickable : Bool) : Alert := { a with textClickable }

/-- Sets whether the toast stays until somebody interacts with it. -/
def withRequireInteraction (a : Alert) (requireInteraction : Bool) : Alert :=
  { a with requireInteraction }

/-- The members of an alert, in declaration order. -/
def keys : List String :=
  ["name", "cookie", "title", "text", "source", "textClickable", "requireInteraction", "actions",
    "imageUrl"]

/-- An alert as a value of the interchange format. -/
def toJson (a : Alert) : Json :=
  .object
    [("name", .string a.name), ("cookie", .string a.cookie), ("title", .string a.title),
      ("text", .string a.text), ("source", .string a.source),
      ("textClickable", .bool a.textClickable),
      ("requireInteraction", .bool a.requireInteraction),
      ("actions", .list (a.actions.map Button.toJson)), ("imageUrl", .string a.imageUrl)]

/-- The buttons in a value. -/
def buttonsOfJson? (v : Json) : Option (List Button) := do
  let items ← v.asList?
  items.mapM Button.ofJson?

/-- The alert in a value; members that are not given are empty. -/
def ofJson? (v : Json) : Option Alert := do
  let given ← v.given? keys
  let name ← Json.orDefault? "" Json.asText? (given "name")
  let cookie ← Json.orDefault? "" Json.asText? (given "cookie")
  let title ← Json.orDefault? "" Json.asText? (given "title")
  let text ← Json.orDefault? "" Json.asText? (given "text")
  let source ← Json.orDefault? "" Json.asText? (given "source")
  let textClickable ← Json.orDefault? false Json.asBool? (given "textClickable")
  let requireInteraction ← Json.orDefault? false Json.asBool? (given "requireInteraction")
  let actions ← Json.orDefault? [] buttonsOfJson? (given "actions")
  let imageUrl ← Json.orDefault? "" Json.asText? (given "imageUrl")
  some { name, cookie, title, text, source, textClickable, requireInteraction, actions, imageUrl }

end Alert

end ToastBoard
