import ToastBoard.Proofs.Encodings
import ToastBoard.Proofs.Members

/-!
# Drafts

An alert may be told in part. Which alert a text is read as depends on what it tells of the nine
members and on nothing else: not on their order, not on other members, not on blanks and not on how
strings are spelled; what is not told is empty. If one member is told wrongly, no alert is read,
whatever the rest is.
-/

namespace ToastBoard

open Json (Field Fault Kind Tells)

namespace Json

variable {α : Type} {read : Json → Option α} {given : Option Json}

/-- A value is the string literal of a text, in one of its spellings. -/
def IsText (s : String) (v : Json) : Prop := ∃ l, v = .text l ∧ l.text? = some s

theorem isText_string (s : String) : (string s).IsText s := ⟨_, rfl, Literal.text?_ofString s⟩

/-- A member whose key is written as it is tells the declared member of that key. -/
theorem tellsField_ofString {key : String} {v : Json} {P : Json → Prop} (hv : P v) :
    TellsField (Literal.ofString key, v) (key, some P) :=
  ⟨Literal.text?_ofString key, P, rfl, hv⟩

theorem asText?_of_isText {s : String} {v : Json} (h : v.IsText s) : v.asText? = some s := by
  obtain ⟨l, rfl, hl⟩ := h
  exact hl

/-- A member that has to be there is read, if what is told of it is. -/
theorem required?_of_rel {a : α} {P : Json → Prop} (hread : ∀ w, P w → read w = some a)
    (h : Option.Rel (fun w P => P w) given (some P)) : required? read given = some a := by
  cases h with
  | some hw => exact hread _ hw

/-- A member that may be left out is read as what is told of it, and else as its default. -/
theorem orDefault?_of_rel {told : Option α} {P : α → Json → Prop} (default : α)
    (hread : ∀ a w, P a w → read w = some a)
    (h : Option.Rel (fun w P => P w) given (told.map P)) :
    orDefault? default read given = some (told.getD default) := by
  cases told with
  | none =>
    cases h
    rfl
  | some a =>
    cases h with
    | some hw => exact hread a _ hw

/-- A member is read only if it is of the type that is read. -/
theorem kind_of_orDefault? {default a : α} {kind : Kind} {w : Json}
    (hread : ∀ w a, read w = some a → w.kind = kind)
    (h : orDefault? default read given = some a) (hw : given = some w) : w.kind = kind := by
  subst hw
  exact hread w a h

end Json

namespace Button

/-- The members of a button and their types. -/
def kinds : List (String × Kind) := [("action", .text), ("title", .text)]

/-- What has to be told of a button. -/
def told (b : Button) : List Field :=
  [("action", some (Json.IsText b.action)), ("title", some (Json.IsText b.title))]

/-- A value tells both members of a button. -/
def IsToldBy (b : Button) (v : Json) : Prop := Tells b.told v

/-- A value with a fault, or one that leaves a member of a button out. -/
def IsMistoldBy (v : Json) : Prop := Fault kinds v ∨ ∃ key ∈ keys, ∀ w, ¬v.Bears keys key w

theorem ofJson?_of_isToldBy {b : Button} {v : Json} (h : b.IsToldBy v) : ofJson? v = some b := by
  have hkeys : (b.told.map (·.1)).Nodup := (by decide : keys.Nodup)
  obtain ⟨given, hgiven, hfits⟩ := h.exists_given hkeys
  replace hgiven : v.given? keys = some given := hgiven
  have hread := fun s w => Json.asText?_of_isText (s := s) (v := w)
  have haction := Json.required?_of_rel (hread b.action)
    (hfits ("action", some (Json.IsText b.action)) (by simp [told]))
  have htitle := Json.required?_of_rel (hread b.title)
    (hfits ("title", some (Json.IsText b.title)) (by simp [told]))
  rw [ofJson?, hgiven]
  simp [haction, htitle]

/-- Of a value that is read as a button both members are given, and they are strings. -/
theorem exists_given_of_ofJson? {v : Json} {b : Button} (h : ofJson? v = some b) :
    ∃ given, v.given? keys = some given ∧
      ∀ key kind, (key, kind) ∈ kinds → ∃ w, given key = some w ∧ w.kind = kind := by
  simp only [ofJson?, Option.bind_eq_bind, Option.bind_eq_some_iff] at h
  obtain ⟨given, hgiven, action, haction, title, htitle, -⟩ := h
  refine ⟨given, hgiven, fun key kind hkey => ?_⟩
  have hread : ∀ {given : Option Json} {s : String}, Json.required? Json.asText? given = some s →
      ∃ w, given = some w ∧ w.kind = .text := by
    intro given s hs
    obtain ⟨w, hw, hs⟩ := Option.bind_eq_some_iff.mp hs
    exact ⟨w, hw, Json.kind_of_asText? hs⟩
  simp only [kinds, List.mem_cons, Prod.mk.injEq, List.not_mem_nil, or_false] at hkey
  obtain ⟨rfl, rfl⟩ | ⟨rfl, rfl⟩ := hkey
  · exact hread haction
  · exact hread htitle

theorem ofJson?_of_isMistoldBy {v : Json} (h : IsMistoldBy v) : ofJson? v = none := by
  by_contra hsome
  obtain ⟨b, hb⟩ := Option.ne_none_iff_exists'.mp hsome
  obtain ⟨given, hgiven, hkinds⟩ := exists_given_of_ofJson? hb
  have hkeys : (kinds.map (·.1)).Nodup := by decide
  rcases h with hfault | ⟨key, hkey, hleft⟩
  · obtain ⟨key, kind, w, hkey, hw, hkind⟩ := hfault.exists_mistyped hkeys hgiven
    obtain ⟨w', hw', hkind'⟩ := hkinds key kind hkey
    cases hw.symm.trans hw'
    exact hkind hkind'
  · obtain ⟨⟨_, kind⟩, hmem, rfl⟩ := List.mem_map.mp (show key ∈ kinds.map (·.1) from hkey)
    obtain ⟨w, hw, -⟩ := hkinds _ kind hmem
    exact hleft w ((Json.given_eq_some_iff hkeys hgiven hkey).mp hw)

end Button

/-- What is told of an alert; nothing has to be. -/
structure Draft where
  /-- The name, if it is told. -/
  name : Option String := none
  /-- The cookie, if it is told. -/
  cookie : Option String := none
  /-- The title, if it is told. -/
  title : Option String := none
  /-- The text, if it is told. -/
  text : Option String := none
  /-- The source, if it is told. -/
  source : Option String := none
  /-- Whether a click on the body is reported, if it is told. -/
  textClickable : Option Bool := none
  /-- Whether the toast stays, if it is told. -/
  requireInteraction : Option Bool := none
  /-- The buttons, if they are told. -/
  actions : Option (List Button) := none
  /-- The address of the picture, if it is told. -/
  imageUrl : Option String := none

namespace Draft

/-- The alert with what is told; the rest is empty. -/
def alert (d : Draft) : Alert where
  name := d.name.getD ""
  cookie := d.cookie.getD ""
  title := d.title.getD ""
  text := d.text.getD ""
  source := d.source.getD ""
  textClickable := d.textClickable.getD false
  requireInteraction := d.requireInteraction.getD false
  actions := d.actions.getD []
  imageUrl := d.imageUrl.getD ""

/-- A value is the list of some buttons, each told in its own way. -/
def TellsButtons (bs : List Button) (v : Json) : Prop :=
  ∃ items, v = .list items ∧ List.Forall₂ (fun v b => Button.IsToldBy b v) items bs

/-- A value is the truth value `b`. -/
def TellsBool (b : Bool) (v : Json) : Prop := v = .bool b

/-- What has to be told of an alert. -/
def told (d : Draft) : List Field :=
  [("name", d.name.map Json.IsText), ("cookie", d.cookie.map Json.IsText),
    ("title", d.title.map Json.IsText), ("text", d.text.map Json.IsText),
    ("source", d.source.map Json.IsText), ("textClickable", d.textClickable.map TellsBool),
    ("requireInteraction", d.requireInteraction.map TellsBool),
    ("actions", d.actions.map TellsButtons), ("imageUrl", d.imageUrl.map Json.IsText)]

/-- A value tells just this of an alert. -/
def IsToldBy (d : Draft) (v : Json) : Prop := Tells d.told v

theorem buttonsOfJson?_of_tellsButtons {bs : List Button} {v : Json} (h : TellsButtons bs v) :
    Alert.buttonsOfJson? v = some bs := by
  obtain ⟨items, rfl, hitems⟩ := h
  exact Json.mapM_eq_some_iff.mpr (hitems.imp fun _ _ => Button.ofJson?_of_isToldBy)

theorem ofJson?_of_isToldBy {d : Draft} {v : Json} (h : d.IsToldBy v) :
    Alert.ofJson? v = some d.alert := by
  have hkeys : (d.told.map (·.1)).Nodup := (by decide : Alert.keys.Nodup)
  obtain ⟨given, hgiven, hfits⟩ := h.exists_given hkeys
  replace hgiven : v.given? Alert.keys = some given := hgiven
  simp only [told, List.forall_mem_cons] at hfits
  obtain ⟨hname, hcookie, htitle, htext, hsource, hclickable, hinteraction, hactions, himage, -⟩ :=
    hfits
  have htexts {told : Option String} {given : Option Json}
      (h : Option.Rel (fun w P => P w) given (told.map Json.IsText)) :
      Json.orDefault? "" Json.asText? given = some (told.getD "") :=
    Json.orDefault?_of_rel "" (fun _ _ => Json.asText?_of_isText) h
  have hbools {told : Option Bool} {given : Option Json}
      (h : Option.Rel (fun w P => P w) given (told.map TellsBool)) :
      Json.orDefault? false Json.asBool? given = some (told.getD false) :=
    Json.orDefault?_of_rel false (fun _ _ hb => congrArg Json.asBool? hb) h
  have hbuttons : Json.orDefault? [] Alert.buttonsOfJson? (given "actions") =
      some (d.actions.getD []) :=
    Json.orDefault?_of_rel [] (fun _ _ => buttonsOfJson?_of_tellsButtons) hactions
  rw [Alert.ofJson?, hgiven]
  simp [htexts hname, htexts hcookie, htexts htitle, htexts htext, htexts hsource,
    hbools hclickable, hbools hinteraction, hbuttons, htexts himage, alert]

end Draft

namespace Alert

/-- The members of an alert and their types. -/
def kinds : List (String × Kind) :=
  [("name", .text), ("cookie", .text), ("title", .text), ("text", .text), ("source", .text),
    ("textClickable", .bool), ("requireInteraction", .bool), ("actions", .list),
    ("imageUrl", .text)]

/-- A value with a fault, or one that tells a button wrongly. -/
def IsMistoldBy (v : Json) : Prop :=
  Fault kinds v ∨
    ∃ items item, v.Bears keys "actions" (.list items) ∧ item ∈ items ∧ Button.IsMistoldBy item

theorem kind_of_buttonsOfJson? {v : Json} {bs : List Button} (h : buttonsOfJson? v = some bs) :
    v.kind = .list := by
  cases v with
  | list items => rfl
  | _ => cases h

/-- What is given of a value that is read as an alert has the declared types, and every button is
read. -/
theorem exists_given_of_ofJson? {v : Json} {a : Alert} (h : ofJson? v = some a) :
    ∃ given, v.given? keys = some given ∧
      (∀ key kind w, (key, kind) ∈ kinds → given key = some w → w.kind = kind) ∧
      ∀ items, given "actions" = some (.list items) → (items.mapM Button.ofJson?).isSome := by
  simp only [ofJson?, Option.bind_eq_bind, Option.bind_eq_some_iff] at h
  obtain ⟨given, hgiven, _, hname, _, hcookie, _, htitle, _, htext, _, hsource, _, hclickable, _,
    hinteraction, buttons, hactions, _, himage, -⟩ := h
  refine ⟨given, hgiven, fun key kind w hkey => ?_, fun items hitems => ?_⟩
  · simp only [kinds, List.mem_cons, Prod.mk.injEq, List.not_mem_nil, or_false] at hkey
    have htexts {given : Option Json} {s : String}
        (h : Json.orDefault? "" Json.asText? given = some s) (hw : given = some w) :=
      Json.kind_of_orDefault? (fun _ _ => Json.kind_of_asText?) h hw
    have hbools {given : Option Json} {b : Bool}
        (h : Json.orDefault? false Json.asBool? given = some b) (hw : given = some w) :=
      Json.kind_of_orDefault? (fun _ _ => Json.kind_of_asBool?) h hw
    rcases hkey with ⟨rfl, rfl⟩ | ⟨rfl, rfl⟩ | ⟨rfl, rfl⟩ | ⟨rfl, rfl⟩ | ⟨rfl, rfl⟩ | ⟨rfl, rfl⟩ |
      ⟨rfl, rfl⟩ | ⟨rfl, rfl⟩ | ⟨rfl, rfl⟩
    · exact htexts hname
    · exact htexts hcookie
    · exact htexts htitle
    · exact htexts htext
    · exact htexts hsource
    · exact hbools hclickable
    · exact hbools hinteraction
    · exact Json.kind_of_orDefault? (fun _ _ => kind_of_buttonsOfJson?) hactions
    · exact htexts himage
  · rw [hitems] at hactions
    exact Option.isSome_iff_exists.mpr ⟨buttons, hactions⟩

theorem ofJson?_of_isMistoldBy {v : Json} (h : IsMistoldBy v) : ofJson? v = none := by
  by_contra hsome
  obtain ⟨a, ha⟩ := Option.ne_none_iff_exists'.mp hsome
  obtain ⟨given, hgiven, hkinds, hbuttons⟩ := exists_given_of_ofJson? ha
  have hkeys : (kinds.map (·.1)).Nodup := by decide
  rcases h with hfault | ⟨items, item, hitems, hitem, hmistold⟩
  · obtain ⟨key, kind, w, hkey, hw, hkind⟩ := hfault.exists_mistyped hkeys hgiven
    exact hkind (hkinds key kind w hkey hw)
  · have hlist := (Json.given_eq_some_iff hkeys hgiven (by decide)).mpr hitems
    obtain ⟨bs, hbs⟩ := Option.isSome_iff_exists.mp (hbuttons items hlist)
    obtain ⟨b, -, hb⟩ := Json.exists_mem_of_forall₂ (Json.mapM_eq_some_iff.mp hbs) hitem
    rw [Button.ofJson?_of_isMistoldBy hmistold] at hb
    cases hb

end Alert

/-- Every text of a value that tells some members of an alert, in whatever order and among whatever
others, is read as the alert with these members and nothing else; no text of a value that tells one
of them wrongly is read as an alert. -/
theorem Draft.read_of_told :
    (∀ (d : Draft) (v : Json) (text : String), d.IsToldBy v → v.IsSpelledBy text →
      Alert.encoding.read? text = some d.alert) ∧
    ∀ (v : Json) (text : String), Alert.IsMistoldBy v → v.IsSpelledBy text →
      Alert.encoding.read? text = none := by
  constructor
  · intro d v text htold htext
    rw [Encoding.read?, htext.read_eq, Option.bind_some]
    exact ofJson?_of_isToldBy htold
  · intro v text hmistold htext
    rw [Encoding.read?, htext.read_eq, Option.bind_some]
    exact Alert.ofJson?_of_isMistoldBy hmistold

/-- The members of an alert and of a button come in another order than they are declared in, with
one that nobody knows among them, another button is a list, and there are blanks everywhere. Where
the name is the absent value instead of a text, nothing is read. -/
theorem Draft.read_of_told_shuffled :
    Alert.encoding.read? (" \x7b \"actions\" : [ \x7b \"title\" : \"t\" , \"action\" : \"a\" , " ++
        "\"hint\" : false \x7d , [ \"b\" , \"u\" ] ] , \"name\" : \"n\" , " ++
        "\"note\" : [ [ ] , null ] \x7d ") =
      some { name := "n", actions := [⟨"a", "t"⟩, ⟨"b", "u"⟩] } ∧
    Alert.encoding.read? "\x7b\"note\":[[],null],\"name\":null\x7d" = none := by
  have htext := Json.isText_string
  have hother : ∀ (key : String) (v : Json) (keys : List String), key ∉ keys →
      ∀ m ∈ [(Literal.ofString key, v)], ∃ key, m.1.text? = some key ∧ key ∉ keys := by
    rintro key v keys hkey m hm
    rw [List.mem_singleton.mp hm]
    exact ⟨key, Literal.text?_ofString key, hkey⟩
  have hrecord : Button.IsToldBy ⟨"a", "t"⟩
      (.object [("title", .string "t"), ("action", .string "a"), ("hint", .bool false)]) :=
    @Tells.record _ _ [_, _] [_] (.swap _ _ _)
      (.cons (Json.tellsField_ofString (htext _))
        (.cons (Json.tellsField_ofString (htext _)) .nil))
      (hother _ _ _ (by decide))
  have hlist : Button.IsToldBy ⟨"b", "u"⟩ (.list [.string "b", .string "u"]) :=
    .list (List.append_nil _).symm
      (.cons ⟨_, rfl, htext _⟩ (.cons ⟨_, rfl, htext _⟩ .nil)) (List.forall_mem_nil _)
  constructor
  · refine read_of_told.1 ⟨some "n", none, none, none, none, none, none,
      some [⟨"a", "t"⟩, ⟨"b", "u"⟩], none⟩
      (.object [("actions", .list [.object [("title", .string "t"), ("action", .string "a"),
        ("hint", .bool false)], .list [.string "b", .string "u"]]), ("name", .string "n"),
        ("note", .list [.list [], .null])]) _ ?_ ?_
    · exact @Tells.record _ _ [_, _] [_] (.swap _ _ _)
        (.cons (Json.tellsField_ofString (htext _))
          (.cons (Json.tellsField_ofString ⟨_, rfl, .cons hrecord (.cons hlist .nil)⟩) .nil))
        (hother _ _ _ (by decide))
    · exact @Json.isSpelledBy_blanks _ [' '] _ (Json.IsNumberless.isSpelled (by decide +kernel))
        (List.forall_mem_singleton.mpr rfl) (by decide +kernel)
  · refine read_of_told.2 (.object [("note", .list [.list [], .null]), ("name", .null)]) _
      (.inl (@Fault.mistyped _ _ .null "name" .text (by decide) ?_ nofun)) ?_
    · exact ⟨_, .tail _ (.head _), Literal.text?_ofString _, rfl⟩
    · exact @Json.isSpelledBy_blanks _ [] _ (Json.IsNumberless.isSpelled (by decide +kernel))
        (List.forall_mem_nil _) (by decide +kernel)

end ToastBoard
