import ToastBoard.Proofs.Received

/-!
# Payloads as XML

A payload is a document for every reader of XML as long as its texts have only characters that XML
allows. Such a reader takes from it what the alert was to say, if there are neither tabs nor line
ends in what is written as the value of an attribute, and no carriage returns in what is written as
a line of text. Otherwise it takes blanks for the former and line feeds for the latter.
-/

namespace ToastBoard.Markup

open Xml (received folded blanked isAllowed isChar)

/-- The attributes of an element with a name. -/
def attributes? (name : String) : Part → Option (List (String × String))
  | .opening name' attributes | .empty name' attributes =>
    if name' = name then some attributes else none
  | _ => none

/-- The elements with a name, by their attributes, and with the text they begin with. -/
def elements (name : String) (tags : List (Part × String)) :
    List (List (String × String) × String) :=
  tags.filterMap fun l => (attributes? name l.1).map (·, l.2)

namespace Payload

/-- The values of two attributes. -/
def pair? (key key' : String) (attributes : List (String × String)) : Option (String × String) := do
  some (← attributes.lookup key, ← attributes.lookup key')

/-- What some elements say. -/
def ofElements? (tags : List (Part × String)) : Option Payload := do
  let (toast, _) ← (elements "toast" tags).head?
  let picture ← (elements "image" tags).head?.mapM (pair? "src" "alt" ·.1)
  let (title, text, attribution) ← lines? ((elements "text" tags).map (·.2))
  let buttons ← (elements "action" tags).mapM (pair? "content" "arguments" ·.1)
  some { requireInteraction := toast.lookup "scenario" == some "reminder"
         picture, title, text, attribution, buttons }

/-- What a reader of XML takes from some markup. -/
def receive? (markup : String) : Option Payload := (Xml.read? markup).bind ofElements?

/-- What is taken from the payload for an alert with a picture at `imageUrl`. -/
def changed (s : Snapshot) (imageUrl : String) : Payload where
  requireInteraction := s.requireInteraction
  picture := if imageUrl = "" then none
    else some (blanked (folded imageUrl), blanked (folded s.source))
  title := folded s.title
  text := folded s.text
  attribution := if s.source = "" then none else some (folded ("via " ++ s.source))
  buttons := s.actions.map fun b => (blanked (folded b.title), blanked (folded b.action))

end Payload

variable (s : Snapshot) (imageUrl : String)

/-- The texts that every payload has are received as they are. -/
theorem blanked_folded_fixed : ∀ t ∈ ["appLogoOverride", "circle", "foreground", "ToastGeneric",
    "long", "short", "reminder"], blanked (folded t) = t := by
  decide +kernel

theorem folded_empty : folded "" = "" := rfl

theorem elements_toast : (elements "toast" ((tags s imageUrl).map received)).head? =
    some (if s.requireInteraction then [("duration", "long"), ("scenario", "reminder")]
      else [("duration", "short")], "") := by
  have hfixed := blanked_folded_fixed
  simp only [List.forall_mem_cons] at hfixed
  cases hr : s.requireInteraction <;>
    simp [elements, tags, toastTag, received, Xml.mapValues, attributes?, hr, hfixed, folded_empty]

theorem elements_image : elements "image" ((tags s imageUrl).map received) =
    if imageUrl = "" then [] else
      [([("placement", "appLogoOverride"), ("hint-crop", "circle"),
        ("src", blanked (folded imageUrl)), ("alt", blanked (folded s.source))], "")] := by
  have hfixed := blanked_folded_fixed
  simp only [List.forall_mem_cons] at hfixed
  by_cases hu : imageUrl = "" <;> by_cases hs : s.source = "" <;> by_cases ha : s.actions = [] <;>
    simp [elements, tags, picture, attribution, buttons, textTags, buttonTag, toastTag, received,
      Xml.mapValues, attributes?, hu, hs, ha, Function.comp_def, hfixed, folded_empty]

theorem elements_text : (elements "text" ((tags s imageUrl).map received)).map (·.2) =
    (textLines s).map folded := by
  by_cases hu : imageUrl = "" <;> by_cases hs : s.source = "" <;> by_cases ha : s.actions = [] <;>
    simp [elements, tags, picture, attribution, buttons, textTags, buttonTag, toastTag, received,
      Xml.mapValues, attributes?, textLines, hu, hs, ha, Function.comp_def]

theorem elements_action : elements "action" ((tags s imageUrl).map received) =
    s.actions.map fun b => ([("content", blanked (folded b.title)),
      ("arguments", blanked (folded b.action)), ("activationType", "foreground")], "") := by
  have hfixed := blanked_folded_fixed
  simp only [List.forall_mem_cons] at hfixed
  by_cases hu : imageUrl = "" <;> by_cases hs : s.source = "" <;> by_cases ha : s.actions = [] <;>
    simp [elements, tags, picture, attribution, buttons, textTags, buttonTag, toastTag, received,
      Xml.mapValues, attributes?, hu, hs, ha, Function.comp_def, hfixed, folded_empty]

/-- What is taken from the tags as they are received. -/
theorem ofElements?_received :
    Payload.ofElements? ((tags s imageUrl).map received) = some (Payload.changed s imageUrl) := by
  have hbuttons : ∀ bs : List Button, (bs.map fun b => ([("content", blanked (folded b.title)),
      ("arguments", blanked (folded b.action)), ("activationType", "foreground")], "")).mapM
        (Payload.pair? "content" "arguments" ·.1) =
          some (bs.map fun b => (blanked (folded b.title), blanked (folded b.action))) := by
    intro bs
    induction bs with
    | nil => rfl
    | cons b bs ih =>
      rw [List.map_cons, List.mapM_cons, ih]
      rfl
  have hlines : Payload.lines? ((textLines s).map folded) = some (folded s.title, folded s.text,
      if s.source = "" then none else some (folded ("via " ++ s.source))) := by
    by_cases hs : s.source = "" <;> simp [textLines, hs, Payload.lines?]
  have htoast : ((if s.requireInteraction then [("duration", "long"), ("scenario", "reminder")]
      else [("duration", "short")]).lookup "scenario" == some "reminder") =
        s.requireInteraction := by
    cases s.requireInteraction <;> decide
  rw [Payload.ofElements?, elements_toast, elements_image, elements_text, elements_action]
  simp only [hbuttons, hlines]
  by_cases hu : imageUrl = ""
  · simp [hu, Payload.changed, htoast]
  · simp [hu, Payload.changed, htoast, Payload.pair?, List.lookup_cons]

/-- What is written as the values of attributes. -/
def attributeTexts : List String :=
  (if imageUrl = "" then [] else [imageUrl, s.source]) ++
    s.actions.flatMap fun b => [b.title, b.action]

/-- The names in a payload are names, and no attribute comes twice in a tag. -/
theorem isRegular_of_tags : ∀ l ∈ tags s imageUrl, Xml.isRegular l.1 = true := by
  have hnames : ∀ n ∈ ["image", "placement", "hint-crop", "src", "alt", "actions", "action",
      "content", "arguments", "activationType"], Xml.isName n = true := by decide
  simp only [List.forall_mem_cons] at hnames
  have htoast : Xml.isRegular (toastTag s) = true := by
    unfold toastTag
    cases s.requireInteraction <;> decide
  have hpicture : (picture s imageUrl).all Xml.isRegular = true := by
    unfold picture
    split
    · rfl
    · simp [Xml.isRegular, Xml.areRegular, hnames]
  have hattribution : (((attribution s).map textTags).getD []).all (Xml.isRegular ·.1) = true := by
    cases attribution s <;> rfl
  have hbuttons : (buttons s).all Xml.isRegular = true := by
    unfold buttons
    split
    · rfl
    · simp [buttonTag, Xml.isRegular, Xml.areRegular, hnames]
  have hall : (tags s imageUrl).all (Xml.isRegular ·.1) = true := by
    simp only [tags, List.all_append, List.all_map, Function.comp_def, List.all_cons, htoast,
      hpicture, hattribution, hbuttons]
    rfl
  exact List.all_eq_true.mp hall

/-- Buttons are elements of their own. -/
theorem nests_buttons (name : String) (within : List String) (bs : List Button)
    (rest : List (Part × String)) :
    Xml.nests (name :: within) ((bs.map buttonTag).map (·, "") ++ rest) =
      Xml.nests (name :: within) rest := by
  induction bs with
  | nil => rfl
  | cons b bs ih => exact ih

/-- The tags of a payload are nested in one element. -/
theorem nests_tags : Xml.nests [] (tags s imageUrl) = true := by
  obtain ⟨attributes, htoast⟩ : ∃ attributes, toastTag s = .opening "toast" attributes := ⟨_, rfl⟩
  have hbuttons : Xml.nests ["toast"] ((buttons s).map (·, "") ++ [(.closing "toast", "")]) =
      true := by
    unfold buttons
    split
    · rfl
    · rw [List.map_cons, List.map_append, List.cons_append, List.append_assoc, Xml.nests,
        nests_buttons]
      rfl
  by_cases hu : imageUrl = "" <;> by_cases hs : s.source = "" <;>
    simp [tags, picture, attribution, textTags, htoast, Xml.nests, hu, hs, hbuttons]

/-- XML allows a payload if it allows the texts in it. -/
theorem isAllowed_toast :
    isAllowed (toast s imageUrl) = (attributeTexts s imageUrl ++ textLines s).all isAllowed := by
  rw [toast_eq, Xml.isAllowed_writeTags (isRegular_of_tags s imageUrl)]
  have hfixed : ∀ t ∈ ["appLogoOverride", "circle", "foreground", "ToastGeneric", ""],
      isAllowed t = true := by decide
  simp only [List.forall_mem_cons] at hfixed
  have htoast : (Xml.values (toastTag s)).all isAllowed = true := by
    unfold toastTag
    cases s.requireInteraction <;> decide
  have hbuttons : ((buttons s).map (·, "")).all (fun l : Part × String =>
      (Xml.values l.1).all isAllowed && isAllowed l.2) =
        (s.actions.flatMap fun b => [b.title, b.action]).all isAllowed := by
    by_cases ha : s.actions = [] <;>
      simp [buttons, buttonTag, ha, hfixed, List.all_flatMap, Function.comp_def]
  simp only [tags, List.all_append, hbuttons]
  by_cases hu : imageUrl = "" <;> by_cases hs : s.source = "" <;>
    simp [picture, attribution, textTags, attributeTexts, textLines, htoast, hu, hs, hfixed,
      Bool.and_assoc, Bool.and_comm, Bool.and_left_comm]

/-- A payload is read, and what is taken from it is what it says but for some white space, if XML
allows it; and nothing is read otherwise. -/
theorem receive?_toast : Payload.receive? (toast s imageUrl) =
    if isAllowed (toast s imageUrl) then some (Payload.changed s imageUrl) else none := by
  rw [Payload.receive?, toast_eq, Xml.read?_writeTags (isRegular_of_tags s imageUrl)
    (nests_tags s imageUrl)]
  split
  · rw [Option.bind_some, ofElements?_received]
  · rfl

theorem folded_eq_iff {t : String} : folded t = t ↔ '\r' ∉ t.toList := by
  rw [folded, ← String.toList_inj, String.toList_ofList, Xml.foldLines_eq_self_iff]

theorem blanked_eq_iff {t : String} : blanked t = t ↔ ∀ c ∈ t.toList, c ∉ ['\t', '\n', '\r'] := by
  rw [blanked, ← String.toList_inj, String.toList_ofList]
  simp only [← Xml.blank_eq_self_iff]
  simpa using List.map_inj_left (f := Xml.blank) (g := id) (l := t.toList)

/-- The value of an attribute is received as it is if its only white space is blanks. -/
theorem blanked_folded_eq_iff {t : String} :
    blanked (folded t) = t ↔ ∀ c ∈ t.toList, c ∉ ['\t', '\n', '\r'] := by
  rw [← blanked_eq_iff]
  constructor
  · intro h
    rw [← h, Xml.blanked_blanked]
  · intro h
    have hreturn : '\r' ∉ t.toList := fun hm => blanked_eq_iff.mp h _ hm (by decide)
    rw [folded_eq_iff.mpr hreturn, h]

/-- What is taken from a payload is what it says if none of its texts changes on the way. -/
theorem Payload.changed_eq_iff : changed s imageUrl = of s imageUrl ↔
    (∀ t ∈ attributeTexts s imageUrl, blanked (folded t) = t) ∧
      ∀ t ∈ textLines s, folded t = t := by
  have hbuttons : (∀ t ∈ s.actions.flatMap fun b => [b.title, b.action], blanked (folded t) = t) ↔
      ∀ b ∈ s.actions,
        blanked (folded b.title) = b.title ∧ blanked (folded b.action) = b.action := by
    simp only [List.forall_mem_flatMap, List.forall_mem_cons]
    simp
  unfold attributeTexts
  rw [List.forall_mem_append, hbuttons]
  by_cases hu : imageUrl = "" <;> by_cases hs : s.source = "" <;>
    simp [changed, of, textLines, hu, hs, and_assoc, and_comm, and_left_comm]

/-- A payload is XML, and readers take from it what the alert was to say. -/
structure Conforms : Prop where
  /-- XML allows its characters. -/
  characters : ∀ c ∈ (toast s imageUrl).toList, isChar c = true
  /-- It is read, and nothing has changed on the way. -/
  received : Payload.receive? (toast s imageUrl) = some (Payload.of s imageUrl)

/-- XML allows the characters of a payload exactly if it allows those of the texts in it. -/
theorem characters_iff : (∀ c ∈ (toast s imageUrl).toList, isChar c = true) ↔
    ∀ t ∈ attributeTexts s imageUrl ++ textLines s, ∀ c ∈ t.toList, isChar c = true := by
  rw [← Xml.isAllowed_iff, isAllowed_toast, List.all_eq_true]
  simp only [Xml.isAllowed_iff]

/-- A payload conforms to XML exactly if its texts have only characters that XML allows, with no
white space but blanks in the values of attributes, and no carriage returns in the lines of text. In
any case, what readers take from it is what the alert was to say with white space changed, or they
take nothing because of a character that is not allowed. -/
theorem payload_conforms_iff :
    (Conforms s imageUrl ↔
      (∀ t ∈ attributeTexts s imageUrl ++ textLines s, ∀ c ∈ t.toList, isChar c = true) ∧
      (∀ t ∈ attributeTexts s imageUrl, ∀ c ∈ t.toList, c ∉ ['\t', '\n', '\r']) ∧
      ∀ t ∈ textLines s, '\r' ∉ t.toList) ∧
    Payload.receive? (toast s imageUrl) =
      if isAllowed (toast s imageUrl) then some (Payload.changed s imageUrl) else none := by
  have hchanged : Payload.changed s imageUrl = Payload.of s imageUrl ↔
      (∀ t ∈ attributeTexts s imageUrl, ∀ c ∈ t.toList, c ∉ ['\t', '\n', '\r']) ∧
        ∀ t ∈ textLines s, '\r' ∉ t.toList := by
    simp only [Payload.changed_eq_iff, blanked_folded_eq_iff, folded_eq_iff]
  refine ⟨⟨fun h => ?_, fun ⟨hallowed, hsame⟩ => ?_⟩, receive?_toast s imageUrl⟩
  · have hsame := h.received
    rw [receive?_toast, if_pos (Xml.isAllowed_iff.mpr h.characters), Option.some.injEq] at hsame
    exact ⟨(characters_iff s imageUrl).mp h.characters, hchanged.mp hsame⟩
  · have hcharacters := (characters_iff s imageUrl).mpr hallowed
    refine ⟨hcharacters, ?_⟩
    rw [receive?_toast, if_pos (Xml.isAllowed_iff.mpr hcharacters), hchanged.mpr hsame]

/-- The action of a button is received on one line if it was on two, and a payload with a control
character in its title is not received. -/
theorem payload_not_conforming :
    let alert (title action : String) : Snapshot :=
      { cookie := "", name := "n", title, text := "", textClickable := false, source := "",
        requireInteraction := false, actions := [⟨action, "B"⟩], imageUrl := "" }
    ((Payload.receive? (toast (alert "t" "a\nb") "")).map (·.buttons) = some [("B", "a b")] ∧
      ¬Conforms (alert "t" "a\nb") "") ∧
    (¬(∀ c ∈ (toast (alert "\x01" "a") "").toList, isChar c = true) ∧
      ¬Conforms (alert "\x01" "a") "") := by
  intro alert
  have hbuttons : (Payload.receive? (toast (alert "t" "a\nb") "")).map (·.buttons) =
      some [("B", "a b")] := by
    rw [receive?_toast, isAllowed_toast]
    decide
  have hcharacters : ¬∀ c ∈ (toast (alert "\x01" "a") "").toList, isChar c = true := by
    rw [characters_iff]
    exact fun hall => absurd (hall "\x01" (by simp [textLines, alert]) '\x01' (by simp)) (by decide)
  refine ⟨⟨hbuttons, fun h => ?_⟩, hcharacters, fun h => hcharacters h.characters⟩
  rw [h.received] at hbuttons
  revert hbuttons
  decide

end ToastBoard.Markup
