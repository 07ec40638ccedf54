import Mathlib.Data.List.Nodup
import ToastBoard.Alert.Basic
import ToastBoard.Notice
import ToastBoard.Proofs.Compact
import ToastBoard.Settings.Load

/-!
# Encodings

Alerts, buttons, topics, notices and settings are written as compact texts and read from texts. What
is written is read back as the same value, so no two values share a text, and writing what was read
gives a text that stays as it is. Every value can be written but settings with a path that is no
text, and such settings are never read.
-/

namespace ToastBoard

namespace Json

/-- A text that was written is read back. -/
theorem asText?_string (s : String) : (string s).asText? = some s := Literal.text?_ofString s

/-- A text that may be missing is read back if it is there. -/
theorem asOptionalText?_string (s : String) : (string s).asOptionalText? = some (some s) := by
  change (string s).asText?.map some = some (some s)
  rw [asText?_string, Option.map_some]

/-- A text that may be missing is read back, or is missing. -/
theorem asOptionalText?_optional (s : Option String) : (optional s).asOptionalText? = some s := by
  cases s with
  | none => rfl
  | some s => exact asOptionalText?_string s

theorem isNumberless_string (s : String) : (string s).IsNumberless := isNumberless_text _

theorem isNumberless_optional : ∀ s : Option String, (optional s).IsNumberless
  | none => isNumberless_null
  | some s => isNumberless_string s

/-- An object has no numbers if its members have none. -/
theorem isNumberless_object {members : List (String × Json)}
    (h : ∀ m ∈ members, m.2.IsNumberless) : (object members).IsNumberless := by
  refine isNumberless_record fun m hm => ?_
  obtain ⟨⟨key, v⟩, hv, rfl⟩ := List.mem_map.mp hm
  exact h (key, v) hv

/-- Members whose keys are texts are all readable. -/
theorem readableMembers?_ofString (members : List (String × Json)) :
    readableMembers? (members.map fun (key, value) => (Literal.ofString key, value)) =
      some members := by
  induction members with
  | nil => rfl
  | cons m rest ih =>
    obtain ⟨key, v⟩ := m
    rw [readableMembers?] at ih ⊢
    rw [List.map_cons, List.mapM_cons, ih]
    simp only [Literal.text?_ofString, Option.map_some]
    rfl

/-- Where no key comes twice, none of the known keys does. -/
theorem noneRepeated_of_nodup {members : List (String × Json)}
    (h : (members.map (·.1)).Nodup) (keys : List String) : noneRepeated keys members = true := by
  rw [noneRepeated, List.all_eq_true]
  intro key _
  have hcount := List.nodup_iff_count_le_one.mp h key
  rw [List.count, List.countP_map, List.countP_eq_length_filter] at hcount
  exact decide_eq_true hcount

/-- What is given by a record with readable keys is what stands under them. -/
theorem given?_object {members : List (String × Json)} (h : (members.map (·.1)).Nodup)
    (keys : List String) : (object members).given? keys = some fun key => members.lookup key := by
  simp [object, given?, readableMembers?_ofString, noneRepeated_of_nodup h]

theorem lookup_cons_of_ne {key k : String} {v : Json} {rest : List (String × Json)} (h : key ≠ k) :
    List.lookup key ((k, v) :: rest) = List.lookup key rest := by
  rw [List.lookup_cons, beq_false_of_ne h]

theorem required?_some {α : Type} (read : Json → Option α) (v : Json) :
    required? read (some v) = read v := rfl

theorem orDefault?_some {α : Type} (default : α) (read : Json → Option α) (v : Json) :
    orDefault? default read (some v) = read v := rfl

end Json

/-- How values of a type are written and read. -/
structure Encoding (α : Type) where
  /-- What a value is written as, if it can be. -/
  encode? : α → Option Json
  /-- The value that is read. -/
  decode? : Json → Option α

namespace Encoding

variable {α : Type}

/-- The compact text of a value. -/
def write? (f : Encoding α) (a : α) : Option String := (f.encode? a).map Json.write

/-- The value in a text. -/
def read? (f : Encoding α) (text : String) : Option α := (Json.read text).bind f.decode?

/-- Reading undoes writing. -/
structure Faithful (f : Encoding α) (Writable : α → Prop) : Prop where
  /-- These are the values that have a text. -/
  writable : ∀ a, Writable a ↔ ∃ text, f.write? a = some text
  /-- The text of a value is read as this value. -/
  read_write : ∀ a text, f.write? a = some text → f.read? text = some a
  /-- Different values have different texts. -/
  injective : ∀ a b text, f.write? a = some text → f.write? b = some text → a = b
  /-- What was read is written as a text that is read as the same and written as it is. -/
  rewrite : ∀ text a, f.read? text = some a → ∃ settled, f.write? a = some settled ∧
    f.read? settled = some a ∧ (f.read? settled).bind f.write? = some settled

/-- A value that is decoded from what it is encoded as is read from the text of that. -/
theorem read?_write {f : Encoding α} {v : Json} {a : α} (hnumbers : v.IsNumberless)
    (hdecode : f.decode? v = some a) : f.read? v.write = some a := by
  rw [read?, Json.read_write hnumbers.isSpelled, Option.bind_some, hdecode]

/-- It is enough that values are read back before they are written as texts, and that only what can
be written is read. -/
theorem Faithful.of_decode {f : Encoding α} {Writable : α → Prop}
    (hdecode : ∀ a v, f.encode? a = some v → v.IsNumberless ∧ f.decode? v = some a)
    (hwritable : ∀ a, Writable a ↔ (f.encode? a).isSome)
    (hread : ∀ v a, f.decode? v = some a → Writable a) : f.Faithful Writable := by
  have hback : ∀ a text, f.write? a = some text → f.read? text = some a := by
    intro a text h
    obtain ⟨v, hv, rfl⟩ := Option.map_eq_some_iff.mp h
    obtain ⟨hnumbers, hdecoded⟩ := hdecode a v hv
    exact read?_write hnumbers hdecoded
  have htext : ∀ a, Writable a ↔ ∃ text, f.write? a = some text := by
    intro a
    rw [hwritable, ← Option.isSome_iff_exists, write?, Option.isSome_map]
  refine ⟨htext, hback, fun a b text ha hb => ?_, fun text a h => ?_⟩
  · have hsame := (hback a text ha).symm.trans (hback b text hb)
    exact Option.some.inj hsame
  · obtain ⟨v, -, hv⟩ := Option.bind_eq_some_iff.mp h
    obtain ⟨settled, hsettled⟩ := (htext a).mp (hread v a hv)
    have hagain := hback a settled hsettled
    exact ⟨settled, hsettled, hagain, by rw [hagain, Option.bind_some, hsettled]⟩

/-- Where every value is written, it is enough that every value is read back. -/
theorem Faithful.of_total {encode : α → Json} {decode? : Json → Option α}
    (hnumbers : ∀ a, (encode a).IsNumberless) (hdecode : ∀ a, decode? (encode a) = some a) :
    Faithful ⟨fun a => some (encode a), decode?⟩ fun _ => True := by
  refine .of_decode (fun a v h => ?_) (fun _ => ⟨fun _ => rfl, fun _ => trivial⟩)
    fun _ _ _ => trivial
  cases h
  exact ⟨hnumbers a, hdecode a⟩

end Encoding

/-- How buttons are written and read. -/
def Button.encoding : Encoding Button := ⟨fun b => some b.toJson, ofJson?⟩

/-- A button is written without numbers. -/
theorem Button.isNumberless_toJson (b : Button) : b.toJson.IsNumberless := by
  refine Json.isNumberless_object ?_
  simp [Json.isNumberless_string]

/-- A button is read back from what was written. -/
theorem Button.ofJson?_toJson (b : Button) : ofJson? b.toJson = some b := by
  have hgiven : b.toJson.given? keys = some _ := Json.given?_object (by simp) keys
  rw [ofJson?, hgiven]
  simp [Json.lookup_cons_of_ne, Json.required?_some, Json.asText?_string]

namespace Alert

/-- How alerts are written and read. -/
def encoding : Encoding Alert := ⟨fun a => some a.toJson, ofJson?⟩

/-- An alert is written without numbers. -/
theorem isNumberless_toJson (a : Alert) : a.toJson.IsNumberless := by
  refine Json.isNumberless_object ?_
  have hbuttons : (Json.list (a.actions.map Button.toJson)).IsNumberless :=
    Json.isNumberless_list fun v hv => by
      obtain ⟨b, -, rfl⟩ := List.mem_map.mp hv
      exact b.isNumberless_toJson
  simp [Json.isNumberless_string, Json.isNumberless_bool, hbuttons]

/-- Buttons are read back in their order. -/
theorem buttonsOfJson?_toJson (bs : List Button) :
    buttonsOfJson? (.list (bs.map Button.toJson)) = some bs := by
  change (bs.map Button.toJson).mapM Button.ofJson? = some bs
  induction bs with
  | nil => rfl
  | cons b bs ih =>
    rw [List.map_cons, List.mapM_cons, Button.ofJson?_toJson, ih]
    rfl

/-- An alert is read back from what was written. -/
theorem ofJson?_toJson (a : Alert) : ofJson? a.toJson = some a := by
  have hgiven : a.toJson.given? keys = some _ := Json.given?_object (by simp) keys
  have hbool : ∀ b, (Json.bool b).asBool? = some b := fun _ => rfl
  rw [ofJson?, hgiven]
  simp [Json.lookup_cons_of_ne, Json.orDefault?_some, Json.asText?_string,
    hbool, buttonsOfJson?_toJson]

end Alert

/-- How topics are written and read. -/
def Topic.encoding : Encoding Topic := ⟨fun t => some t.toJson, ofJson?⟩

theorem Topic.isNumberless_toJson (t : Topic) : t.toJson.IsNumberless :=
  Json.isNumberless_string t.name

/-- A topic is read back from what was written. -/
theorem Topic.ofJson?_toJson (t : Topic) : ofJson? t.toJson = some t := by
  change (Literal.ofString t.name).text?.bind ofName? = some t
  rw [Literal.text?_ofString, Option.bind_some, ofName?_name]

namespace Notice

/-- How notices are written and read. -/
def encoding : Encoding Notice := ⟨fun n => some n.toJson, ofJson?⟩

/-- A notice is written without numbers. -/
theorem isNumberless_toJson (n : Notice) : n.toJson.IsNumberless := by
  refine Json.isNumberless_object ?_
  cases n.action <;> simp [Json.isNumberless_string, n.topic.isNumberless_toJson]

/-- A notice is read back from what was written. -/
theorem ofJson?_toJson (n : Notice) : ofJson? n.toJson = some n := by
  have hshort : isShortList n.toJson = false := rfl
  obtain ⟨topic, cookie, action⟩ := n
  cases action with
  | none =>
    have hgiven : (toJson ⟨topic, cookie, none⟩).given? keys = some _ :=
      Json.given?_object (by simp) keys
    simp [ofJson?, hshort, hgiven, Json.lookup_cons_of_ne, Json.required?_some, Json.orDefault?,
      Json.asText?_string, Topic.ofJson?_toJson]
  | some action =>
    have hgiven : (toJson ⟨topic, cookie, some action⟩).given? keys = some _ :=
      Json.given?_object (by simp) keys
    simp [ofJson?, hshort, hgiven, Json.lookup_cons_of_ne, Json.required?_some,
      Json.orDefault?_some, Json.asText?_string, Json.asOptionalText?_string, Topic.ofJson?_toJson]

end Notice

/-- Bytes spell a text if they are the bytes of that text. -/
theorem fromUTF8?_eq_some_iff {bytes : ByteArray} {s : String} :
    String.fromUTF8? bytes = some s ↔ bytes = s.toUTF8 := by
  unfold String.fromUTF8?
  constructor
  · intro h
    split at h
    · cases h
      rfl
    · cases h
  · rintro rfl
    exact dif_pos s.isValidUTF8

/-- A path that is a text is the path spelled by that text. -/
theorem Path.ofString_of_text? {p : Path} {s : String} (h : p.text? = some s) :
    Path.ofString s = p :=
  congrArg Path.mk (fromUTF8?_eq_some_iff.mp h).symm

namespace Settings

/-- Every path that is set is a text. -/
def PathsAreTexts (s : Settings) : Prop :=
  ∀ p, s.testProfileDir = some p ∨ s.appIconPath = some p → p.text?.isSome

/-- How settings are written and read. -/
def encoding : Encoding Settings := ⟨toJson?, ofJson?⟩

/-- A path is read back, if it can be written. -/
theorem pathOfJson?_of_pathToJson? {p : Option Path} {v : Json} (h : pathToJson? p = some v) :
    v.IsNumberless ∧ pathOfJson? v = some p := by
  cases p with
  | none =>
    cases h
    exact ⟨Json.isNumberless_null, rfl⟩
  | some p =>
    obtain ⟨s, hs, rfl⟩ := Option.map_eq_some_iff.mp h
    refine ⟨Json.isNumberless_string s, ?_⟩
    rw [pathOfJson?, Json.asOptionalText?_string, Option.map_some, Option.map_some,
      Path.ofString_of_text? hs]

/-- A path can be written if it is a text, or missing. -/
theorem isSome_pathToJson? {p : Option Path} :
    (pathToJson? p).isSome ↔ ∀ q, p = some q → q.text?.isSome := by
  cases p with
  | none => simp [pathToJson?]
  | some p => simp [pathToJson?]

/-- A path that is read is a text. -/
theorem isSome_text?_of_pathOfJson? {v : Json} {p : Path} (h : pathOfJson? v = some (some p)) :
    p.text?.isSome := by
  obtain ⟨s, -, hs⟩ := Option.map_eq_some_iff.mp h
  obtain ⟨s, -, rfl⟩ := Option.map_eq_some_iff.mp hs
  rw [Path.text?_ofString]
  rfl

/-- Settings are read back from what was written, which has no numbers. -/
theorem ofJson?_of_toJson? {s : Settings} {v : Json} (h : s.toJson? = some v) :
    v.IsNumberless ∧ ofJson? v = some s := by
  simp only [toJson?, Option.bind_eq_bind, Option.bind_eq_some_iff, Option.some.injEq] at h
  obtain ⟨dir, hdir, icon, hicon, rfl⟩ := h
  obtain ⟨hdirNumbers, hdir⟩ := pathOfJson?_of_pathToJson? hdir
  obtain ⟨hiconNumbers, hicon⟩ := pathOfJson?_of_pathToJson? hicon
  constructor
  · refine Json.isNumberless_object ?_
    simp [Json.isNumberless_string, Json.isNumberless_optional, hdirNumbers, hiconNumbers]
  · rw [ofJson?, Json.given?_object (by simp)]
    simp [Json.lookup_cons_of_ne, Json.orDefault?_some, hdir, hicon,
      Json.asText?_string, Json.asOptionalText?_optional]

/-- Settings can be written if their paths are texts. -/
theorem isSome_toJson? (s : Settings) : s.PathsAreTexts ↔ s.toJson?.isSome := by
  have hboth : s.toJson?.isSome ↔
      (pathToJson? s.testProfileDir).isSome ∧ (pathToJson? s.appIconPath).isSome := by
    cases hd : pathToJson? s.testProfileDir <;> cases hi : pathToJson? s.appIconPath <;>
      simp [toJson?, hd, hi]
  rw [hboth, isSome_pathToJson?, isSome_pathToJson?, PathsAreTexts]
  simp only [or_imp, forall_and]

/-- Settings that are read have texts for paths, whether they are given or not. -/
theorem pathsAreTexts_of_ofJson? {v : Json} {s : Settings} (h : ofJson? v = some s) :
    s.PathsAreTexts := by
  have hpath : ∀ {given : Option Json} {p : Path},
      Json.orDefault? none pathOfJson? given = some (some p) → p.text?.isSome := by
    intro given p hp
    cases given with
    | none => cases hp
    | some v => exact isSome_text?_of_pathOfJson? hp
  simp only [ofJson?, Option.bind_eq_bind, Option.bind_eq_some_iff, Option.some.injEq] at h
  obtain ⟨given, -, dir, hdir, -, -, -, -, icon, hicon, -, -, rfl⟩ := h
  rintro p (rfl | rfl)
  · exact hpath hdir
  · exact hpath hicon

/-- The encoding of settings is faithful where their paths are texts. -/
theorem encoding_faithful : encoding.Faithful PathsAreTexts :=
  .of_decode (fun _ _ => ofJson?_of_toJson?) isSome_toJson? fun _ _ => pathsAreTexts_of_ofJson?

end Settings

/-- Alerts, buttons, topics and notices can all be written, and settings if their paths are texts;
what is written is read back as it was, different values have different texts, and writing what was
read gives a text that is read as the same and written as it is. -/
theorem encodings_faithful :
    Alert.encoding.Faithful (fun _ => True) ∧ Button.encoding.Faithful (fun _ => True) ∧
      Notice.encoding.Faithful (fun _ => True) ∧ Topic.encoding.Faithful (fun _ => True) ∧
        Settings.encoding.Faithful Settings.PathsAreTexts := by
  refine ⟨?_, ?_, ?_, ?_, Settings.encoding_faithful⟩
  · exact .of_total Alert.isNumberless_toJson Alert.ofJson?_toJson
  · exact .of_total Button.isNumberless_toJson Button.ofJson?_toJson
  · exact .of_total Notice.isNumberless_toJson Notice.ofJson?_toJson
  · exact .of_total Topic.isNumberless_toJson Topic.ofJson?_toJson

/-- Quotes, backslashes and control characters are escaped and read back, and settings with a path
that is no text have no text themselves. -/
theorem encodings_faithful_escaped :
    Button.encoding.write? ⟨"\"\\\n\x01", "é😀\x7f"⟩ =
        some "\x7b\"action\":\"\\\"\\\\\\n\\u0001\",\"title\":\"é😀\x7f\"\x7d" ∧
      Button.encoding.read?
          "\x7b\"action\":\"\\\"\\\\\\n\\u0001\",\"title\":\"é😀\x7f\"\x7d" =
        some ⟨"\"\\\n\x01", "é😀\x7f"⟩ ∧
      ∀ text, Settings.encoding.write? { appIconPath := some ⟨⟨#[0xff]⟩⟩ } ≠ some text := by
  have hwrite : Button.encoding.write? ⟨"\"\\\n\x01", "é😀\x7f"⟩ =
      some "\x7b\"action\":\"\\\"\\\\\\n\\u0001\",\"title\":\"é😀\x7f\"\x7d" := by
    decide +kernel
  obtain ⟨-, hbutton, -, -, hsettings⟩ := encodings_faithful
  refine ⟨hwrite, hbutton.read_write _ _ hwrite, fun text htext => ?_⟩
  have hpaths := (hsettings.writable _).mpr ⟨text, htext⟩
  have hicon := hpaths ⟨⟨#[0xff]⟩⟩ (.inr rfl)
  revert hicon
  decide +kernel

end ToastBoard
