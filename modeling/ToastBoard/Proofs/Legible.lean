import ToastBoard.Markup

/-!
# Markup can be read back

Whoever reads a payload cuts it at the characters that only tags have as they are: at angle brackets
into tags and the texts after them, and inside of tags at quotes. In a text between quotes or after
a tag the five entities are undone. What is read in this way is what was written, whatever
characters the texts have, so no text makes or hides a tag, and different payloads have different
markup.
-/

namespace ToastBoard.Markup

/-- Undoes the five entities; everything else stands for itself. -/
def unescape : List Char → List Char
  | '&' :: 'a' :: 'm' :: 'p' :: ';' :: rest => '&' :: unescape rest
  | '&' :: 'l' :: 't' :: ';' :: rest => '<' :: unescape rest
  | '&' :: 'g' :: 't' :: ';' :: rest => '>' :: unescape rest
  | '&' :: 'q' :: 'u' :: 'o' :: 't' :: ';' :: rest => '"' :: unescape rest
  | '&' :: 'a' :: 'p' :: 'o' :: 's' :: ';' :: rest => '\'' :: unescape rest
  | c :: rest => c :: unescape rest
  | [] => []

/-- The text that is written in this way. -/
def plain (written : List Char) : String := String.ofList (unescape written)

/-- A tag as it is read, with the text from there to the next one. -/
structure Tag where
  /-- What stands in the tag outside of quotes. -/
  labels : List String
  /-- What stands in the tag between quotes. -/
  values : List String
  /-- The text after the tag. -/
  text : String
  deriving DecidableEq, Repr

/-- Deals items out by turns. -/
def deal {α : Type} : List α → List α × List α
  | [] => ([], [])
  | a :: rest => (a :: (deal rest).2, (deal rest).1)

namespace Tag

/-- Reads a tag without the bracket in front, and the text after it. -/
def read? (piece : List Char) : Option Tag :=
  match piece.splitOn '>' with
  | [inside, text] =>
    some { labels := (deal (inside.splitOn '"')).1.map String.ofList
           values := (deal (inside.splitOn '"')).2.map plain
           text := plain text }
  | _ => none

/-- Whether a tag begins with a name. -/
def isNamed (t : Tag) (name : String) : Bool :=
  t.labels.head?.any fun l => l.toList.takeWhile (· ≠ ' ') == name.toList

/-- The value of an attribute. -/
def value? (t : Tag) (key : String) : Option String :=
  ((t.labels.zip t.values).find? fun p => (' ' :: (key.toList ++ ['='])).isSuffixOf p.1.toList).map
    (·.2)

end Tag

/-- Reads all tags. -/
def readTags? (markup : String) : Option (List Tag) :=
  match markup.toList.splitOn '<' with
  | [] :: pieces => pieces.mapM Tag.read?
  | _ => none

/-- The tags of some markup without their values and texts. -/
def outline? (markup : String) : Option (List (List String)) :=
  (readTags? markup).map fun tags => tags.map (·.labels)

/-- What a payload says. -/
structure Payload where
  /-- Whether the toast stays until somebody interacts with it. -/
  requireInteraction : Bool
  /-- The picture, by its address and what to read for it. -/
  picture : Option (String × String)
  /-- The first line. -/
  title : String
  /-- The second line. -/
  text : String
  /-- The line that names where the alert came from. -/
  attribution : Option String
  /-- The buttons, by label and action. -/
  buttons : List (String × String)
  deriving DecidableEq, Repr

namespace Payload

/-- What an alert with a picture at `imageUrl` is to say. -/
def of (s : Snapshot) (imageUrl : String) : Payload where
  requireInteraction := s.requireInteraction
  picture := if imageUrl = "" then none else some (imageUrl, s.source)
  title := s.title
  text := s.text
  attribution := if s.source = "" then none else some ("via " ++ s.source)
  buttons := s.actions.map fun b => (b.title, b.action)

/-- The picture that a tag shows. -/
def picture? (t : Tag) : Option (String × String) := do
  some (← t.value? "src", ← t.value? "alt")

/-- The button that a tag makes. -/
def button? (t : Tag) : Option (String × String) := do
  some (← t.value? "content", ← t.value? "arguments")

/-- The lines of text: two, and the attribution if there is one. -/
def lines? : List String → Option (String × String × Option String)
  | [title, text] => some (title, text, none)
  | [title, text, attribution] => some (title, text, some attribution)
  | _ => none

/-- Reads what some tags say. -/
def ofTags? (tags : List Tag) : Option Payload := do
  let toast ← tags.find? (·.isNamed "toast")
  let picture ← (tags.find? (·.isNamed "image")).mapM picture?
  let (title, text, attribution) ← lines? ((tags.filter (·.isNamed "text")).map (·.text))
  let buttons ← (tags.filter (·.isNamed "action")).mapM button?
  some { requireInteraction := toast.value? "scenario" == some "reminder"
         picture, title, text, attribution, buttons }

/-- Reads what some markup says. -/
def read? (markup : String) : Option Payload := (readTags? markup).bind ofTags?

end Payload

theorem unescape_cons {c : Char} (hc : c ≠ '&') (rest : List Char) :
    unescape (c :: rest) = c :: unescape rest := by
  rw [unescape] <;> simp_all

/-- A character that is named in markup is read back, and any other stands for itself. -/
theorem unescape_escapeChar (c : Char) (rest : List Char) :
    unescape (escapeChar c ++ rest) = c :: unescape rest := by
  unfold escapeChar
  split
  case h_6 hamp _ _ _ _ => exact unescape_cons hamp rest
  all_goals rfl

/-- A text is read back. -/
theorem plain_escape (s : String) : plain (escape s) = s := by
  have hall : ∀ cs : List Char, unescape (cs.flatMap escapeChar) = cs := by
    intro cs
    induction cs with
    | nil => rfl
    | cons c cs ih => rw [List.flatMap_cons, unescape_escapeChar, ih]
  rw [plain, escape, hall, String.ofList_toList]

/-- The characters at which markup is cut. -/
def marks : List Char := ['<', '>', '"']

/-- No text has any of the characters at which markup is cut. -/
theorem not_mem_escape {c : Char} (hc : c ∈ marks) (s : String) : c ∉ escape s := by
  intro hm
  obtain ⟨d, -, hd⟩ := List.mem_flatMap.mp hm
  unfold escapeChar at hd
  simp only [marks, List.mem_cons, List.not_mem_nil, or_false] at hc
  split at hd
  case h_6 hlt hgt hquot _ =>
    obtain rfl := List.mem_singleton.mp hd
    simp_all
  all_goals rcases hc with rfl | rfl | rfl <;> revert hd <;> decide

/-- What stands in a tag outside of quotes. -/
def labels (start : String) (attributes : List (String × String)) (last : String) : List String :=
  match attributes with
  | [] => [start ++ last]
  | (key, _) :: rest => (start ++ " " ++ key ++ "=") :: labels "" rest last

/-- Whether markup is not cut in a name. -/
def isWhole (name : String) : Bool := name.toList.all fun c => !marks.contains c

theorem not_mem_of_isWhole {name : String} (hn : isWhole name = true) {c : Char}
    (hc : c ∈ marks) : c ∉ name.toList := fun hm => by
  simpa [hc] using List.all_eq_true.mp hn c hm

namespace Part

/-- What stands between the brackets of a tag. -/
def inside : Part → List Char
  | .opening name attributes => name.toList ++ attributes.flatMap writeAttribute
  | .empty name attributes => name.toList ++ attributes.flatMap writeAttribute ++ ['/']
  | .closing name => '/' :: name.toList
  | .text _ => []

/-- What is to be read of a tag with a text after it. -/
def tag (p : Part) (text : String) : Tag :=
  match p with
  | .opening name attributes => ⟨labels name attributes "", attributes.map (·.2), text⟩
  | .empty name attributes => ⟨labels name attributes "/", attributes.map (·.2), text⟩
  | .closing name => ⟨["/" ++ name], [], text⟩
  | .text _ => ⟨[""], [], text⟩

/-- Whether a part is a tag in whose names markup is not cut. -/
def isClear : Part → Bool
  | .opening name attributes | .empty name attributes =>
    isWhole name && attributes.all (isWhole ·.1)
  | .closing name => isWhole name
  | .text _ => false

end Part

/-- Inside of a tag markup is cut before and after each value. -/
theorem splitOn_attributes (attributes : List (String × String)) (start last : String)
    (hs : '"' ∉ start.toList) (hl : '"' ∉ last.toList)
    (hk : ∀ a ∈ attributes, '"' ∉ a.1.toList) :
    (deal ((start.toList ++ attributes.flatMap writeAttribute ++ last.toList).splitOn '"')).1.map
        String.ofList = labels start attributes last ∧
      (deal ((start.toList ++ attributes.flatMap writeAttribute ++ last.toList).splitOn '"')).2.map
        plain = attributes.map (·.2) := by
  induction attributes generalizing start with
  | nil =>
    have hone : '"' ∉ start.toList ++ last.toList := by simp [hs, hl]
    simp [List.splitOn_eq_singleton hone, deal, labels, String.ofList_append]
  | cons a rest ih =>
    obtain ⟨key, value⟩ := a
    have hlabel : '"' ∉ start.toList ++ ' ' :: (key.toList ++ ['=']) := by
      simpa [hs] using hk _ List.mem_cons_self
    have hvalue : '"' ∉ escape value := not_mem_escape (by decide) value
    have hcut : start.toList ++ ((key, value) :: rest).flatMap writeAttribute ++ last.toList =
        (start.toList ++ ' ' :: (key.toList ++ ['='])) ++ '"' :: (escape value ++
          '"' :: ("".toList ++ rest.flatMap writeAttribute ++ last.toList)) := by
      simp [writeAttribute]
    obtain ⟨hlabels, hvalues⟩ := ih "" (by simp) fun a ha => hk a (List.mem_cons_of_mem _ ha)
    rw [hcut, List.splitOn_append_cons_self_of_not_mem hlabel,
      List.splitOn_append_cons_self_of_not_mem hvalue]
    simp only [deal, List.map_cons, hlabels, hvalues, plain_escape, labels, and_true]
    congr 1
    simp [← String.toList_inj]

/-- Markup is not cut inside of a clear tag. -/
theorem Part.not_mem_inside {p : Part} (hp : p.isClear = true) {c : Char}
    (hc : c = '<' ∨ c = '>') : c ∉ p.inside := by
  have hm : c ∈ marks := by
    rcases hc with rfl | rfl <;> decide
  have hnot : c ≠ ' ' ∧ c ≠ '=' ∧ c ≠ '"' ∧ c ≠ '/' := by
    rcases hc with rfl | rfl <;> decide
  have hattributes : ∀ {attributes : List (String × String)},
      (attributes.all (isWhole ·.1)) = true → c ∉ attributes.flatMap writeAttribute := by
    intro attributes hk hin
    obtain ⟨a, ha, hin⟩ := List.mem_flatMap.mp hin
    have hvalue := not_mem_escape hm a.2
    have hkey := not_mem_of_isWhole (List.all_eq_true.mp hk a ha) hm
    simp_all [writeAttribute]
  cases p with
  | opening name attributes =>
    obtain ⟨hname, hkeys⟩ := Bool.and_eq_true_iff.mp hp
    simp [Part.inside, not_mem_of_isWhole hname hm, hattributes hkeys]
  | empty name attributes =>
    obtain ⟨hname, hkeys⟩ := Bool.and_eq_true_iff.mp hp
    simp [Part.inside, not_mem_of_isWhole hname hm, hattributes hkeys, hnot]
  | closing name => simp [Part.inside, not_mem_of_isWhole hp hm, hnot]
  | text s => cases hp

/-- A clear tag is read as it was written, and so is the text after it. -/
theorem Part.read?_inside {p : Part} (hp : p.isClear = true) (text : String) :
    Tag.read? (p.inside ++ '>' :: escape text) = some (p.tag text) := by
  have hquot : '"' ∈ marks := by decide
  have hkeys : ∀ {attributes : List (String × String)},
      (attributes.all (isWhole ·.1)) = true → ∀ a ∈ attributes, '"' ∉ a.1.toList :=
    fun hk a ha => not_mem_of_isWhole (List.all_eq_true.mp hk a ha) hquot
  have hdeal : (deal (p.inside.splitOn '"')).1.map String.ofList = (p.tag text).labels ∧
      (deal (p.inside.splitOn '"')).2.map plain = (p.tag text).values := by
    cases p with
    | opening name attributes =>
      obtain ⟨hname, hk⟩ := Bool.and_eq_true_iff.mp hp
      have hall := splitOn_attributes attributes name "" (not_mem_of_isWhole hname hquot) (by simp)
        (hkeys hk)
      simpa [Part.inside, Part.tag] using hall
    | empty name attributes =>
      obtain ⟨hname, hk⟩ := Bool.and_eq_true_iff.mp hp
      exact splitOn_attributes attributes name "/" (not_mem_of_isWhole hname hquot) (by simp)
        (hkeys hk)
    | closing name =>
      have hone : '"' ∉ '/' :: name.toList := by simpa using not_mem_of_isWhole hp hquot
      simp [Part.inside, Part.tag, List.splitOn_eq_singleton hone, deal]
    | text s => cases hp
  have htext : '>' ∉ escape text := not_mem_escape (by decide) text
  rw [Tag.read?, List.splitOn_append_cons_self_of_not_mem (not_mem_inside hp (.inr rfl)),
    List.splitOn_eq_singleton htext]
  simp only [hdeal.1, hdeal.2, plain_escape]
  cases p <;> rfl

/-- Tags and the texts after them, as they are written. -/
def writeTags (ls : List (Part × String)) : String :=
  String.ofList (ls.flatMap fun l => l.1.write ++ escape l.2)

/-- What is written behind the opening bracket of a tag, up to the next one. -/
def piece (l : Part × String) : List Char := l.1.inside ++ '>' :: escape l.2

/-- A clear tag and the text after it begin with an opening bracket. -/
theorem write_eq_piece {l : Part × String} (hl : l.1.isClear = true) :
    l.1.write ++ escape l.2 = '<' :: piece l := by
  obtain ⟨p, text⟩ := l
  cases p with
  | opening name attributes => simp [Part.write, Part.inside, piece]
  | empty name attributes => simp [Part.write, Part.inside, piece]
  | closing name => simp [Part.write, Part.inside, piece]
  | text s => cases hl

/-- No other opening bracket comes before the next tag. -/
theorem not_mem_piece {l : Part × String} (hl : l.1.isClear = true) : '<' ∉ piece l := by
  have hinside := Part.not_mem_inside hl (.inl rfl)
  have htext : '<' ∉ escape l.2 := not_mem_escape (by decide) l.2
  simp [piece, hinside, htext]

/-- Markup is cut in front of each clear tag. -/
theorem splitOn_flatMap {ls : List (Part × String)} (hls : ∀ l ∈ ls, l.1.isClear = true)
    {before : List Char} (hb : '<' ∉ before) :
    (before ++ ls.flatMap fun l => l.1.write ++ escape l.2).splitOn '<' =
      before :: ls.map piece := by
  induction ls generalizing before with
  | nil => simpa using List.splitOn_eq_singleton hb
  | cons l rest ih =>
    have hl := hls l List.mem_cons_self
    rw [List.flatMap_cons, write_eq_piece hl, List.cons_append,
      List.splitOn_append_cons_self_of_not_mem hb,
      ih (fun x hx => hls x (List.mem_cons_of_mem _ hx)) (not_mem_piece hl), List.map_cons]

/-- Clear tags are read as they were written, with the texts after them. -/
theorem readTags?_writeTags {ls : List (Part × String)} (hls : ∀ l ∈ ls, l.1.isClear = true) :
    readTags? (writeTags ls) = some (ls.map fun l => l.1.tag l.2) := by
  have hcut := splitOn_flatMap hls List.not_mem_nil
  rw [List.nil_append] at hcut
  rw [readTags?, writeTags, String.toList_ofList, hcut]
  simp only
  clear hcut
  induction ls with
  | nil => rfl
  | cons l rest ih =>
    rw [List.map_cons, List.mapM_cons, piece, Part.read?_inside (hls l List.mem_cons_self),
      ih fun x hx => hls x (List.mem_cons_of_mem _ hx)]
    rfl

/-- A line of text. -/
def textTags (s : String) : List (Part × String) :=
  [(.opening "text" [], s), (.closing "text", "")]

/-- The tags of the payload for an alert, with the texts after them. -/
def tags (s : Snapshot) (imageUrl : String) : List (Part × String) :=
  [(toastTag s, ""), (.opening "visual" [], ""),
      (.opening "binding" [("template", "ToastGeneric")], "")] ++
    (picture s imageUrl).map (·, "") ++ textTags s.title ++ textTags s.text ++
    ((attribution s).map textTags).getD [] ++ [(.closing "binding", ""), (.closing "visual", "")] ++
    (buttons s).map (·, "") ++ [(.closing "toast", "")]

variable (s : Snapshot) (imageUrl : String)

/-- A payload is written tag by tag. -/
theorem toast_eq : toast s imageUrl = writeTags (tags s imageUrl) := by
  have hempty : escape "" = [] := rfl
  have hline : ∀ t, (textTags t).flatMap (fun l => l.1.write ++ escape l.2) =
      (textLine t).flatMap Part.write := by
    intro t
    simp [textTags, textLine, hempty, Part.write]
  have hbare : ∀ ps : List Part, (ps.map (·, "")).flatMap (fun l => l.1.write ++ escape l.2) =
      ps.flatMap Part.write := by
    intro ps
    simp [List.flatMap_map, hempty]
  have hattribution : (((attribution s).map textTags).getD []).flatMap
      (fun l => l.1.write ++ escape l.2) =
        (((attribution s).map textLine).getD []).flatMap Part.write := by
    cases attribution s with
    | none => rfl
    | some t => exact hline t
  unfold toast writeTags tags parts
  simp only [List.flatMap_append, hline, hbare, hattribution]
  simp [hempty]

/-- The tags of a payload are clear. -/
theorem isClear_of_tags : ∀ l ∈ tags s imageUrl, l.1.isClear = true := by
  have htoast : (toastTag s).isClear = true := by
    unfold toastTag
    cases s.requireInteraction <;> decide
  have hpicture : (picture s imageUrl).all (·.isClear) = true := by
    have hkeys : isWhole "image" = true ∧ isWhole "placement" = true ∧
        isWhole "hint-crop" = true ∧ isWhole "src" = true ∧ isWhole "alt" = true := by decide
    unfold picture
    split
    · rfl
    · simp [Part.isClear, hkeys]
  have hattribution : (((attribution s).map textTags).getD []).all (·.1.isClear) = true := by
    cases attribution s <;> rfl
  have hbuttons : (buttons s).all (·.isClear) = true := by
    have hkeys : isWhole "actions" = true ∧ isWhole "action" = true ∧ isWhole "content" = true ∧
        isWhole "arguments" = true ∧ isWhole "activationType" = true := by decide
    unfold buttons
    split
    · rfl
    · simp [buttonTag, Part.isClear, hkeys]
  have hall : (tags s imageUrl).all (·.1.isClear) = true := by
    simp only [tags, List.all_append, List.all_map, Function.comp_def, List.all_cons, htoast,
      hpicture, hattribution, hbuttons]
    rfl
  exact List.all_eq_true.mp hall

/-- The tags of a payload are read, whatever the alert says. -/
theorem readTags?_toast :
    readTags? (toast s imageUrl) = some ((tags s imageUrl).map fun l => l.1.tag l.2) := by
  rw [toast_eq, readTags?_writeTags (isClear_of_tags s imageUrl)]

/-- What a picture is read as. -/
def pictureRead : Tag where
  labels := ["image placement=", " hint-crop=", " src=", " alt=", "/"]
  values := ["appLogoOverride", "circle", imageUrl, s.source]
  text := ""

/-- What a button is read as. -/
def buttonRead (b : Button) : Tag where
  labels := ["action content=", " arguments=", " activationType=", "/"]
  values := [b.title, b.action, "foreground"]
  text := ""

/-- What a line of text is read as. -/
def lineRead (t : String) : List Tag := [⟨["text"], [], t⟩, ⟨["/text"], [], ""⟩]

/-- What the tag around everything is read as. -/
def toastRead : Tag :=
  if s.requireInteraction then
    ⟨["toast duration=", " scenario=", ""], ["long", "reminder"], ""⟩
  else ⟨["toast duration=", ""], ["short"], ""⟩

/-- What the payload for an alert is read as. -/
def tagsRead : List Tag :=
  [toastRead s, ⟨["visual"], [], ""⟩, ⟨["binding template=", ""], ["ToastGeneric"], ""⟩] ++
    (if imageUrl = "" then [] else [pictureRead s imageUrl]) ++
    lineRead s.title ++ lineRead s.text ++
    (if s.source = "" then [] else lineRead ("via " ++ s.source)) ++
    [⟨["/binding"], [], ""⟩, ⟨["/visual"], [], ""⟩] ++
    (if s.actions = [] then [] else
      ⟨["actions"], [], ""⟩ :: (s.actions.map buttonRead ++ [⟨["/actions"], [], ""⟩])) ++
    [⟨["/toast"], [], ""⟩]

/-- Part by part, the tags of a payload are what they are read as. -/
theorem map_tag_tags : ((tags s imageUrl).map fun l => l.1.tag l.2) = tagsRead s imageUrl := by
  have htoast : (toastTag s).tag "" = toastRead s := by
    unfold toastTag toastRead
    cases s.requireInteraction <;> rfl
  have hpicture : ((picture s imageUrl).map (·, "")).map (fun l => l.1.tag l.2) =
      if imageUrl = "" then [] else [pictureRead s imageUrl] := by
    unfold picture
    simp only [String.isEmpty_iff]
    split <;> rfl
  have hline : ∀ t, (textTags t).map (fun l => l.1.tag l.2) = lineRead t := fun _ => rfl
  have hattribution : (((attribution s).map textTags).getD []).map (fun l => l.1.tag l.2) =
      if s.source = "" then [] else lineRead ("via " ++ s.source) := by
    unfold attribution
    simp only [String.isEmpty_iff]
    split <;> rfl
  have hbutton : ∀ b, (buttonTag b).tag "" = buttonRead b := fun _ => rfl
  have hbuttons : ((buttons s).map (·, "")).map (fun l => l.1.tag l.2) =
      if s.actions = [] then [] else
        ⟨["actions"], [], ""⟩ :: (s.actions.map buttonRead ++ [⟨["/actions"], [], ""⟩]) := by
    have hopening : (Part.opening "actions" []).tag "" = ⟨["actions"], [], ""⟩ := rfl
    have hclosing : (Part.closing "actions").tag "" = ⟨["/actions"], [], ""⟩ := rfl
    unfold buttons
    simp only [List.isEmpty_iff]
    split
    · rfl
    · simp [hbutton, hopening, hclosing]
  have hbinding : (Part.opening "binding" [("template", "ToastGeneric")]).tag "" =
      ⟨["binding template=", ""], ["ToastGeneric"], ""⟩ := rfl
  have hvisual : (Part.opening "visual" []).tag "" = ⟨["visual"], [], ""⟩ := rfl
  have hends : ∀ name ∈ ["binding", "visual", "toast"],
      (Part.closing name).tag "" = ⟨["/" ++ name], [], ""⟩ := fun _ _ => rfl
  simp only [tags, List.map_append, hpicture, hline, hattribution, hbuttons, tagsRead,
    List.map_cons, List.map_nil, htoast, hvisual, hbinding]
  rfl

/-- The lines of text of a payload. -/
def textLines : List String :=
  [s.title, s.text] ++ if s.source = "" then [] else ["via " ++ s.source]

/-- Tags are looked for among pictures, lines and buttons; the other tags only hold these. -/
theorem filter_tagsRead {f : Tag → Bool} {image line button : Bool}
    (htoast : f (toastRead s) = false)
    (hbinding : f ⟨["binding template=", ""], ["ToastGeneric"], ""⟩ = false)
    (hends : ∀ name ∈ ["visual", "actions", "/text", "/binding", "/visual", "/actions", "/toast"],
      f ⟨[name], [], ""⟩ = false)
    (himage : f (pictureRead s imageUrl) = image) (hline : ∀ t, f ⟨["text"], [], t⟩ = line)
    (hbutton : ∀ b, f (buttonRead b) = button) :
    (tagsRead s imageUrl).filter f =
      (if image && imageUrl ≠ "" then [pictureRead s imageUrl] else []) ++
        (if line then (textLines s).map fun t => ⟨["text"], [], t⟩ else []) ++
        if button then s.actions.map buttonRead else [] := by
  simp only [List.forall_mem_cons, List.not_mem_nil, false_imp_iff, implies_true, and_true] at hends
  obtain ⟨hvisual, hactions, htext, hbinding', hvisual', hactions', htoast'⟩ := hends
  have hpicture : (if imageUrl = "" then [] else [pictureRead s imageUrl]).filter f =
      if image && imageUrl ≠ "" then [pictureRead s imageUrl] else [] := by
    by_cases hu : imageUrl = "" <;> cases image <;> simp [hu, himage]
  have hlines : ((lineRead s.title ++ lineRead s.text ++
      if s.source = "" then [] else lineRead ("via " ++ s.source)).filter f) =
        if line then (textLines s).map fun t => ⟨["text"], [], t⟩ else [] := by
    by_cases hs : s.source = "" <;> cases line <;> simp [lineRead, textLines, hs, htext, hline]
  have hall : (s.actions.map buttonRead).filter f =
      if button then s.actions.map buttonRead else [] := by
    cases button
    · rw [if_neg Bool.false_ne_true, List.filter_eq_nil_iff]
      simp [hbutton]
    · rw [if_pos rfl, List.filter_eq_self]
      simp [hbutton]
  have hbuttons : (if s.actions = [] then [] else
      ⟨["actions"], [], ""⟩ :: (s.actions.map buttonRead ++ [⟨["/actions"], [], ""⟩])).filter f =
        if button then s.actions.map buttonRead else [] := by
    by_cases hs : s.actions = []
    · simp [hs]
    · rw [if_neg hs, List.filter_cons_of_neg (by simp [hactions]), List.filter_append, hall]
      simp [hactions']
  rw [← hpicture, ← hlines, ← hbuttons]
  simp [tagsRead, htoast, hbinding, hvisual, hbinding', hvisual', htoast']

/-- What is read of a payload is what the alert was to say. -/
theorem ofTags?_tagsRead :
    Payload.ofTags? (tagsRead s imageUrl) = some (Payload.of s imageUrl) := by
  have hother : ∀ name ∈ ["image", "text", "action"], (toastRead s).isNamed name = false := by
    unfold toastRead
    cases s.requireInteraction <;> decide
  have htoast : (tagsRead s imageUrl).find? (·.isNamed "toast") = some (toastRead s) := by
    have hfirst : (toastRead s).isNamed "toast" = true := by
      unfold toastRead
      cases s.requireInteraction <;> decide
    simp [tagsRead, hfirst]
  have himage : (tagsRead s imageUrl).find? (·.isNamed "image") =
      if imageUrl = "" then none else some (pictureRead s imageUrl) := by
    have hyes : (pictureRead s imageUrl).isNamed "image" = true := rfl
    rw [← List.head?_filter, filter_tagsRead s imageUrl (hother _ (by decide)) rfl (by decide) hyes
      (fun _ => rfl) fun _ => rfl]
    by_cases hu : imageUrl = "" <;> simp [hu]
  have htexts : (tagsRead s imageUrl).filter (·.isNamed "text") =
      (textLines s).map fun t => ⟨["text"], [], t⟩ := by
    have hno : (pictureRead s imageUrl).isNamed "text" = false := rfl
    rw [filter_tagsRead s imageUrl (hother _ (by decide)) rfl (by decide) hno
      (fun _ => rfl) fun _ => rfl]
    simp
  have hactions : (tagsRead s imageUrl).filter (·.isNamed "action") = s.actions.map buttonRead := by
    have hno : (pictureRead s imageUrl).isNamed "action" = false := rfl
    rw [filter_tagsRead s imageUrl (hother _ (by decide)) rfl (by decide) hno
      (fun _ => rfl) fun _ => rfl]
    simp
  have hreminder : ((toastRead s).value? "scenario" == some "reminder") = s.requireInteraction := by
    unfold toastRead
    cases s.requireInteraction <;> decide
  have hpicture : Payload.picture? (pictureRead s imageUrl) = some (imageUrl, s.source) := by
    simp [Payload.picture?, Tag.value?, pictureRead, List.isSuffixOf]
  have hlines :
      Payload.lines? (((textLines s).map fun t => (⟨["text"], [], t⟩ : Tag)).map (·.text)) =
        some (s.title, s.text, if s.source = "" then none else some ("via " ++ s.source)) := by
    by_cases hs : s.source = "" <;> simp [textLines, hs, Payload.lines?]
  have hbutton : ∀ b, Payload.button? (buttonRead b) = some (b.title, b.action) := by
    intro b
    simp [Payload.button?, Tag.value?, buttonRead, List.isSuffixOf]
  have hbuttons : ∀ bs : List Button, (bs.map buttonRead).mapM Payload.button? =
      some (bs.map fun b => (b.title, b.action)) := by
    intro bs
    induction bs with
    | nil => rfl
    | cons b bs ih =>
      rw [List.map_cons, List.mapM_cons, ih, hbutton]
      rfl
  simp only [Payload.ofTags?, htoast, himage, htexts, hactions, hlines, hbuttons, Payload.of,
    ← hreminder]
  by_cases hu : imageUrl = "" <;> simp [hu, hpicture]

/-- The tags of a payload with their attributes, by what the alert asks for. -/
def outline (requireInteraction picture attribution : Bool) (buttons : Nat) : List (List String) :=
  [(if requireInteraction then ["toast duration=", " scenario=", ""] else ["toast duration=", ""]),
      ["visual"], ["binding template=", ""]] ++
    (if picture then [["image placement=", " hint-crop=", " src=", " alt=", "/"]] else []) ++
    (List.replicate (if attribution then 3 else 2) [["text"], ["/text"]]).flatten ++
    [["/binding"], ["/visual"]] ++
    (if buttons = 0 then [] else ["actions"] ::
      (List.replicate buttons ["action content=", " arguments=", " activationType=", "/"] ++
        [["/actions"]])) ++
    [["/toast"]]

/-- No text of an alert has a part in the tags. -/
theorem outline?_toast :
    outline? (toast s imageUrl) =
      some (outline s.requireInteraction (imageUrl ≠ "") (s.source ≠ "") s.actions.length) := by
  have hbuttons : s.actions.map ((·.labels) ∘ buttonRead) = List.replicate s.actions.length
      ["action content=", " arguments=", " activationType=", "/"] := by
    rw [List.eq_replicate_iff]
    simp [buttonRead]
  rw [outline?, readTags?_toast, map_tag_tags, Option.map_some]
  congr 1
  by_cases hu : imageUrl = "" <;> by_cases hs : s.source = "" <;> by_cases ha : s.actions = [] <;>
    cases hr : s.requireInteraction <;>
    simp [tagsRead, outline, toastRead, pictureRead, lineRead, hu, hs, ha, hr, hbuttons]

/-- Payloads say the same if and only if the alerts agree on everything that is to be written. -/
theorem Payload.of_eq_iff {s t : Snapshot} {imageUrl otherUrl : String} :
    Payload.of s imageUrl = Payload.of t otherUrl ↔
      imageUrl = otherUrl ∧ s.requireInteraction = t.requireInteraction ∧ s.title = t.title ∧
        s.text = t.text ∧ s.source = t.source ∧ s.actions = t.actions := by
  constructor
  · intro h
    simp only [Payload.of, Payload.mk.injEq] at h
    obtain ⟨hinteraction, hpicture, htitle, htext, hattribution, hbuttons⟩ := h
    have hurl : imageUrl = otherUrl := by
      split at hpicture <;> split at hpicture <;> simp_all
    have hsource : s.source = t.source := by
      have hvia : ∀ a b : String, "via " ++ a = "via " ++ b → a = b := by
        intro a b hab
        simpa [← String.toList_inj] using hab
      split at hattribution <;> split at hattribution
      case isFalse.isFalse => exact hvia _ _ (Option.some_inj.mp hattribution)
      all_goals simp_all
    have hinjective : ∀ b c : Button, (b.title, b.action) = (c.title, c.action) → b = c := by
      rintro ⟨action, title⟩ ⟨action', title'⟩ hb
      simp_all
    have hactions := (List.map_inj_right hinjective).mp hbuttons
    exact ⟨hurl, hinteraction, htitle, htext, hsource, hactions⟩
  · rintro ⟨rfl, hinteraction, htitle, htext, hsource, hactions⟩
    simp only [Payload.of, hinteraction, htitle, htext, hsource, hactions]

/-- What a payload says is read back from its markup, its tags depend on nothing but whether
interaction is required, whether there are a picture and an attribution, and the number of buttons,
and two payloads are the same markup if and only if the alerts agree on everything that is
written. -/
theorem payload_read_back :
    (∀ (s : Snapshot) (imageUrl : String),
      Payload.read? (toast s imageUrl) = some (Payload.of s imageUrl)) ∧
    (∀ (s : Snapshot) (imageUrl : String),
      outline? (toast s imageUrl) =
        some (outline s.requireInteraction (imageUrl ≠ "") (s.source ≠ "") s.actions.length)) ∧
    ∀ (s t : Snapshot) (imageUrl otherUrl : String),
      toast s imageUrl = toast t otherUrl ↔
        imageUrl = otherUrl ∧ s.requireInteraction = t.requireInteraction ∧ s.title = t.title ∧
          s.text = t.text ∧ s.source = t.source ∧ s.actions = t.actions := by
  have hread : ∀ (s : Snapshot) (imageUrl : String),
      Payload.read? (toast s imageUrl) = some (Payload.of s imageUrl) := by
    intro s imageUrl
    rw [Payload.read?, readTags?_toast, Option.bind_some, map_tag_tags, ofTags?_tagsRead]
  refine ⟨hread, outline?_toast, fun s t imageUrl otherUrl => ⟨fun h => ?_, ?_⟩⟩
  · have hof := hread t otherUrl
    rw [← h, hread, Option.some_inj] at hof
    exact Payload.of_eq_iff.mp hof
  · rintro ⟨rfl, hinteraction, htitle, htext, hsource, hactions⟩
    have hparts : parts s imageUrl = parts t imageUrl := by
      simp only [parts, toastTag, picture, attribution, buttons, hinteraction, htitle, htext,
        hsource, hactions]
    rw [toast, toast, hparts]

/-- Texts that look like tags, attributes or entities stay texts. -/
example :
    Payload.read? (toast
      { cookie := "", name := "", title := "</text><action/>", text := "&lt;b&gt; &amp;",
        textClickable := false, source := "a\" b='c'", requireInteraction := true,
        actions := [⟨"\"/>", "&quot"⟩], imageUrl := "" } "x?a=1&b=2") =
    some
      { requireInteraction := true, picture := some ("x?a=1&b=2", "a\" b='c'"),
        title := "</text><action/>", text := "&lt;b&gt; &amp;",
        attribution := some "via a\" b='c'", buttons := [("&quot", "\"/>")] } := by
  rw [Payload.read?, readTags?_toast, Option.bind_some, map_tag_tags, ofTags?_tagsRead]
  rfl

end ToastBoard.Markup
