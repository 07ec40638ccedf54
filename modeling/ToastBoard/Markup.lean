import ToastBoard.Alert.Reading

/-!
# Toast markup

The payload that describes a toast to the platform: title, text and attribution line, the picture
cut to a circle, a long duration and the reminder scenario if the alert requires interaction, and
one button per action. The payload is first laid out as tags and texts and then written, so that
what the tags are and how texts are escaped can be told apart.
-/

namespace ToastBoard

namespace Markup

/-- A piece of markup. -/
inductive Part where
  /-- An opening tag with its attributes. -/
  | opening (name : String) (attributes : List (String × String))
  /-- A tag without content. -/
  | empty (name : String) (attributes : List (String × String))
  /-- A closing tag. -/
  | closing (name : String)
  /-- The text inside an element. -/
  | text (s : String)
  deriving DecidableEq, Repr

/-- The written form of a character: the five characters with a meaning in markup are named. -/
def escapeChar : Char → List Char
  | '&' => "&amp;".toList
  | '<' => "&lt;".toList
  | '>' => "&gt;".toList
  | '"' => "&quot;".toList
  | '\'' => "&apos;".toList
  | c => [c]

/-- The written form of a text, in content and in attributes alike. -/
def escape (s : String) : List Char := s.toList.flatMap escapeChar

/-- The written form of an attribute, with the blank before it. -/
def writeAttribute (a : String × String) : List Char :=
  ' ' :: (a.1.toList ++ ['=', '"'] ++ escape a.2 ++ ['"'])

/-- The written form of a part. -/
def Part.write : Part → List Char
  | .opening name attributes =>
    '<' :: (name.toList ++ attributes.flatMap writeAttribute ++ ['>'])
  | .empty name attributes =>
    '<' :: (name.toList ++ attributes.flatMap writeAttribute ++ ['/', '>'])
  | .closing name => '<' :: '/' :: (name.toList ++ ['>'])
  | .text s => escape s

/-- An element that holds a text. -/
def textLine (s : String) : List Part := [.opening "text" [], .text s, .closing "text"]

/-- The line that names where an alert came from, if it says so. -/
def attribution (s : Snapshot) : Option String :=
  if s.source.isEmpty then none else some ("via " ++ s.source)

/-- The tag around everything. -/
def toastTag (s : Snapshot) : Part :=
  .opening "toast"
    (if s.requireInteraction then [("duration", "long"), ("scenario", "reminder")]
      else [("duration", "short")])

/-- The picture, if it has an address. -/
def picture (s : Snapshot) (imageUrl : String) : List Part :=
  if imageUrl.isEmpty then []
  else
    [.empty "image"
      [("placement", "appLogoOverride"), ("hint-crop", "circle"), ("src", imageUrl),
        ("alt", s.source)]]

/-- One button. -/
def buttonTag (b : Button) : Part :=
  .empty "action"
    [("content", b.title), ("arguments", b.action), ("activationType", "foreground")]

/-- The buttons, if there are any. -/
def buttons (s : Snapshot) : List Part :=
  if s.actions.isEmpty then []
  else .opening "actions" [] :: (s.actions.map buttonTag ++ [.closing "actions"])

/-- The parts of the payload for an alert with a picture at `imageUrl`. -/
def parts (s : Snapshot) (imageUrl : String) : List Part :=
  [toastTag s, .opening "visual" [], .opening "binding" [("template", "ToastGeneric")]] ++
    picture s imageUrl ++ textLine s.title ++ textLine s.text ++
    ((attribution s).map textLine).getD [] ++ [.closing "binding", .closing "visual"] ++
    buttons s ++ [.closing "toast"]

/-- The payload for an alert with a picture at `imageUrl`. -/
def toast (s : Snapshot) (imageUrl : String) : String :=
  String.ofList ((parts s imageUrl).flatMap Part.write)

end Markup

end ToastBoard
