import Mathlib.Data.List.Nodup
import ToastBoard.Alert.Reading

/-!
# Getters

The getters of an alert are called one after the other, each at most once. A failing getter ends the
reading, with the outermost text of its error, and so does an empty name as soon as it was read;
what the getters after that would answer makes no difference. An alert whose getters all answer, and
which has a name, is read as what they answer.
-/

namespace ToastBoard

/-- The error of a getter, if it fails. -/
def Answer.error? {α : Type} : Answer α → Option ErrorChain
  | .ok _ => none
  | .error e => some e

theorem Answer.eq_ok_of_error? {α : Type} {answer : Answer α} (h : answer.error? = none) (d : α) :
    answer = .ok (answer.toOption.getD d) := by
  cases answer with
  | ok a => rfl
  | error e => cases h

/-- The outermost text of an error is that of the last context put around it, if there is one. -/
theorem ErrorChain.text_eq_getLast (e : ErrorChain) :
    e.text = (e.cause :: e.contexts).getLast (List.cons_ne_nil _ _) := by
  rw [text, List.getLast_eq_getLastD, List.getLastD_eq_getLast?]

namespace Reading

variable {α β : Type}

/-- Getters that are called one after the other, each with the error of it if it fails, and how the
reading goes on if none does. -/
def through : List (String × Option ErrorChain) → Reading α → Reading α
  | [], r => r
  | (field, none) :: rest, r => ⟨(through rest r).result, field :: (through rest r).called⟩
  | (field, some e) :: _, _ => ⟨.error (.ofField field e), [field]⟩

variable {before gs : List (String × Option ErrorChain)} {r : Reading α} {field : String}
  {e : ErrorChain}

/-- The first getter that fails is the last one that is called. -/
theorem through_failed (hbefore : ∀ g ∈ before, g.2 = none) :
    through (before ++ (field, some e) :: gs) r =
      ⟨.error (.ofField field e), before.map (·.1) ++ [field]⟩ := by
  induction before with
  | nil => rfl
  | cons g before ih =>
    obtain ⟨other, error⟩ := g
    rw [List.forall_mem_cons] at hbefore
    obtain rfl : error = none := hbefore.1
    simp [through, ih hbefore.2]

/-- Getters that do not fail are all called. -/
theorem through_answered (hgs : ∀ g ∈ gs, g.2 = none) :
    through gs r = ⟨r.result, gs.map (·.1) ++ r.called⟩ := by
  induction gs with
  | nil => rfl
  | cons g gs ih =>
    obtain ⟨other, error⟩ := g
    rw [List.forall_mem_cons] at hgs
    obtain rfl : error = none := hgs.1
    simp [through, ih hgs.2]

/-- No getter is called but these and those by which the reading goes on, in this order. -/
theorem called_through_prefix : (through gs r).called <+: gs.map (·.1) ++ r.called := by
  induction gs with
  | nil => exact List.prefix_refl _
  | cons g gs ih =>
    obtain ⟨field, _ | e⟩ := g
    · exact (List.prefix_cons_inj field).mpr ih
    · exact (List.prefix_cons_inj field).mpr (List.nil_prefix)

/-- A reading that calls a getter and goes on is one that goes through it. -/
theorem andThen_field {answer : Answer α} {next : α → Reading β} {r : Reading β}
    (hnext : ∀ a, answer = .ok a → next a = through gs r) :
    Reading.andThen (.field field answer) next = through ((field, answer.error?) :: gs) r := by
  cases answer with
  | error e => rfl
  | ok a =>
    change (⟨(next a).result, field :: (next a).called⟩ : Reading β) = _
    rw [hnext a rfl]
    rfl

end Reading

namespace Source

open Reading (through)

/-- The getters in the order in which they are called, by their fields, each with its error if it
fails. -/
def getters (s : Source) : List (String × Option ErrorChain) :=
  [("cookie", s.cookie.error?), ("name", s.name.error?), ("title", s.title.error?),
    ("text", s.text.error?), ("textClickable", s.textClickable.error?),
    ("source", s.source.error?), ("requireInteraction", s.requireInteraction.error?),
    ("actions", s.actions.error?), ("imageURL", s.imageUrl.error?)]

/-- An alert answers with these values. -/
structure Answers (s : Source) (fields : Snapshot) : Prop where
  /-- The cookie. -/
  cookie : s.cookie = .ok fields.cookie
  /-- The name. -/
  name : s.name = .ok fields.name
  /-- The title. -/
  title : s.title = .ok fields.title
  /-- The text. -/
  text : s.text = .ok fields.text
  /-- Whether a click on the body is reported. -/
  textClickable : s.textClickable = .ok fields.textClickable
  /-- The source. -/
  source : s.source = .ok fields.source
  /-- Whether the toast stays until somebody interacts with it. -/
  requireInteraction : s.requireInteraction = .ok fields.requireInteraction
  /-- The buttons. -/
  actions : s.actions = .ok fields.actions
  /-- The address of the picture. -/
  imageUrl : s.imageUrl = .ok fields.imageUrl

/-- What the getters answer, with nothing in place of what is not answered. -/
def heard (s : Source) : Snapshot where
  cookie := s.cookie.toOption.getD ""
  name := s.name.toOption.getD ""
  title := s.title.toOption.getD ""
  text := s.text.toOption.getD ""
  textClickable := s.textClickable.toOption.getD false
  source := s.source.toOption.getD ""
  requireInteraction := s.requireInteraction.toOption.getD false
  actions := s.actions.toOption.getD []
  imageUrl := s.imageUrl.toOption.getD ""

variable {s : Source}

theorem answers_heard (h : ∀ g ∈ s.getters, g.2 = none) : s.Answers s.heard := by
  simp only [getters, List.forall_mem_cons, List.not_mem_nil, false_imp_iff, implies_true,
    and_true] at h
  obtain ⟨hcookie, hname, htitle, htext, hclickable, hsource, hinteraction, hactions, himage⟩ := h
  exact ⟨Answer.eq_ok_of_error? hcookie _, Answer.eq_ok_of_error? hname _,
    Answer.eq_ok_of_error? htitle _, Answer.eq_ok_of_error? htext _,
    Answer.eq_ok_of_error? hclickable _, Answer.eq_ok_of_error? hsource _,
    Answer.eq_ok_of_error? hinteraction _, Answer.eq_ok_of_error? hactions _,
    Answer.eq_ok_of_error? himage _⟩

/-- An alert that does not say an empty name is read through all getters. -/
theorem read_eq_through (h : s.name ≠ .ok "") : s.read = through s.getters (.done s.heard) := by
  refine Reading.andThen_field fun cookie hcookie => Reading.andThen_field fun name hname => ?_
  have hfull : ¬name.isEmpty = true := by
    rw [String.isEmpty_iff]
    rintro rfl
    exact h hname
  rw [if_neg hfull]
  refine Reading.andThen_field fun title htitle => Reading.andThen_field fun text htext =>
    Reading.andThen_field fun clickable hclickable => Reading.andThen_field fun source hsource =>
      Reading.andThen_field fun interaction hinteraction =>
        Reading.andThen_field fun actions hactions =>
          Reading.andThen_field fun image himage => ?_
  rw [heard, hcookie, hname, htitle, htext, hclickable, hsource, hinteraction, hactions, himage]
  rfl

/-- An alert that says an empty name is read through the first two getters only. -/
theorem read_eq_through_of_nameless (h : s.name = .ok "") :
    s.read = through (s.getters.take 2) (.fail (.invalidArgument "alert name is empty")) := by
  refine Reading.andThen_field fun cookie _ => Reading.andThen_field fun name hname => ?_
  obtain rfl : name = "" := Except.ok.inj (hname.symm.trans h)
  rfl

/-- The fields in the order in which they are read. -/
def fieldOrder : List String :=
  ["cookie", "name", "title", "text", "textClickable", "source", "requireInteraction", "actions",
    "imageURL"]

/-- The getters are called in their order, each at most once. The first one that fails ends the
reading with the outermost text of its error, unless the name was read as empty before; an empty
name ends the reading after two calls; and otherwise every getter is called, and what it answers is
what was read. -/
theorem getters_called_in_order (s : Source) :
    (fieldOrder.Nodup ∧ s.getters.map (·.1) = fieldOrder ∧ s.read.called <+: fieldOrder) ∧
    (∀ before field e after, s.getters = before ++ (field, some e) :: after →
      (∀ g ∈ before, g.2 = none) → (before.length < 2 ∨ s.name ≠ .ok "") →
        s.read.result =
          .error (.fieldRead field ((e.cause :: e.contexts).getLast (List.cons_ne_nil _ _))) ∧
        s.read.called = before.map (·.1) ++ [field]) ∧
    (∀ cookie, s.cookie = .ok cookie → s.name = .ok "" →
      s.read.result = .error (.invalidArgument "alert name is empty") ∧
      s.read.called = ["cookie", "name"]) ∧
    ((∀ g ∈ s.getters, g.2 = none) → s.name ≠ .ok "" →
      ∃ fields, s.read.result = .ok fields ∧ s.Answers fields ∧ s.read.called = fieldOrder) := by
  refine ⟨⟨by decide, rfl, ?_⟩, fun before field e after hfailed hbefore hname => ?_,
    fun cookie hcookie hname => ?_, fun hanswered hname => ⟨s.heard, ?_⟩⟩
  · by_cases hname : s.name = .ok ""
    · rw [read_eq_through_of_nameless hname]
      exact Reading.called_through_prefix.trans ⟨fieldOrder.drop 2, rfl⟩
    · rw [read_eq_through hname]
      exact Reading.called_through_prefix
  · have hread : s.read = ⟨.error (.ofField field e), before.map (·.1) ++ [field]⟩ := by
      by_cases hempty : s.name = .ok ""
      · -- The failing getter is one of the first two, which are all that is called.
        obtain ⟨n, hn⟩ : ∃ n, 2 - before.length = n + 1 :=
          Nat.exists_eq_add_one_of_ne_zero (by have := hname.resolve_right (absurd hempty); omega)
        rw [read_eq_through_of_nameless hempty, hfailed, List.take_append,
          List.take_of_length_le (by omega), hn, List.take_succ_cons,
          Reading.through_failed hbefore]
      · rw [read_eq_through hempty, hfailed, Reading.through_failed hbefore]
    rw [hread, ← ErrorChain.text_eq_getLast]
    exact ⟨rfl, rfl⟩
  · have hanswered : ∀ g ∈ s.getters.take 2, g.2 = none := by
      simp [getters, Answer.error?, hcookie, hname]
    rw [read_eq_through_of_nameless hname, Reading.through_answered hanswered]
    exact ⟨rfl, rfl⟩
  · rw [read_eq_through hname, Reading.through_answered hanswered]
    exact ⟨rfl, answers_heard hanswered, rfl⟩

/-- An alert whose text and buttons cannot be read. -/
def troubled : Source :=
  { Alert.asSource { name := "n", title := "t" } with
    text := .error { cause := "lost", contexts := ["inner", "outer"] }
    actions := .error { cause := "late" } }

/-- Of two failing getters the first one ends the reading, and neither is called for an empty
name. -/
theorem getters_called_in_order_troubled :
    (troubled.read.result = .error (.fieldRead "text" "outer") ∧
      troubled.read.called = ["cookie", "name", "title", "text"]) ∧
    ({ troubled with name := .ok "" } : Source).read.result =
        .error (.invalidArgument "alert name is empty") ∧
      ({ troubled with name := .ok "" } : Source).read.called = ["cookie", "name"] := by
  have hname : troubled.name ≠ .ok "" := fun h => absurd (Except.ok.inj h) (by decide)
  obtain ⟨-, hfailed, -, -⟩ := getters_called_in_order troubled
  obtain ⟨-, -, hnameless, -⟩ := getters_called_in_order { troubled with name := .ok "" }
  exact ⟨hfailed [("cookie", none), ("name", none), ("title", none)] "text" _ _ rfl (by simp)
    (.inr hname), hnameless "" rfl rfl⟩

end Source

end ToastBoard
