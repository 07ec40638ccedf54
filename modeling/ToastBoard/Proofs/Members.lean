import Mathlib.Data.List.Count
import Mathlib.Data.List.Forall2
import Mathlib.Data.List.Nodup
import ToastBoard.Json.Record
import ToastBoard.Proofs.Compact

/-!
# Members

A record tells its declared members in any order and among others with readable keys; a list tells
the first of them in the order of their declaration. What is given for a key is exactly what stands
under it, so it depends neither on the order nor on the other members. Nothing is taken out of a
value with a fault: a declared key that comes twice, a list that is too long, or neither record nor
list.
-/

namespace ToastBoard

namespace Json

/-- The types of the interchange format. -/
inductive Kind where
  /-- The type of the absent value. -/
  | null
  /-- The type of truth values. -/
  | bool
  /-- The type of numbers. -/
  | number
  /-- The type of strings. -/
  | text
  /-- The type of lists. -/
  | list
  /-- The type of records. -/
  | record
  deriving DecidableEq

/-- The type of a value. -/
def kind : Json → Kind
  | .null => .null
  | .bool _ => .bool
  | .number _ => .number
  | .text _ => .text
  | .list _ => .list
  | .record _ => .record

theorem kind_of_asText? {v : Json} {s : String} (h : v.asText? = some s) : v.kind = .text := by
  cases v with
  | text l => rfl
  | _ => cases h

theorem kind_of_asBool? {v : Json} {b : Bool} (h : v.asBool? = some b) : v.kind = .bool := by
  cases v with
  | bool b => rfl
  | _ => cases h

variable {keys : List String} {key : String} {v w : Json} {members : List (Literal × Json)}
  {items : List Json} {given : String → Option Json}

/-- A value stands under a key, by name in a record or by place in a list. -/
def Bears (v : Json) (keys : List String) (key : String) (w : Json) : Prop :=
  match v with
  | .record members => ∃ m ∈ members, m.1.text? = some key ∧ m.2 = w
  | .list items => ∃ i : Nat, keys[i]? = some key ∧ items[i]? = some w
  | _ => False

/-- How often a key comes among some members. -/
def occurrences (key : String) (members : List (Literal × Json)) : Nat :=
  members.countP fun m => m.1.text? = some key

theorem occurrences_eq_count (key : String) (members : List (Literal × Json)) :
    occurrences key members = (members.map (·.1.text?)).count (some key) := by
  simp [occurrences, List.count, List.countP_map, Function.comp_def, beq_eq_decide]

/-- The keys of some members are readable, and these are their texts. -/
def Reads (members : List (Literal × Json)) (readable : List (String × Json)) : Prop :=
  members.map (fun m => (m.1.text?, m.2)) = readable.map fun m => (some m.1, m.2)

theorem readableMembers?_cons (l : Literal) (v : Json) :
    readableMembers? ((l, v) :: members) =
      l.text?.bind fun key => (readableMembers? members).map ((key, v) :: ·) := by
  simp only [readableMembers?, List.mapM_cons]
  cases l.text? with
  | none => rfl
  | some key => cases members.mapM fun m => m.1.text?.map (·, m.2) <;> rfl

theorem readableMembers?_eq_some_iff {readable : List (String × Json)} :
    readableMembers? members = some readable ↔ Reads members readable := by
  induction members generalizing readable with
  | nil => cases readable <;> simp [readableMembers?, Reads]
  | cons m members ih =>
    obtain ⟨l, v⟩ := m
    rw [readableMembers?_cons, Option.bind_eq_some_iff]
    simp only [Option.map_eq_some_iff, ih, Reads]
    cases readable with
    | nil => simp
    | cons n readable =>
      obtain ⟨key, w⟩ := n
      simp only [List.map_cons, List.cons.injEq, Prod.mk.injEq]
      constructor
      · rintro ⟨_, hl, _, hrest, ⟨rfl, rfl⟩, rfl⟩
        exact ⟨⟨hl, rfl⟩, hrest⟩
      · rintro ⟨⟨hl, rfl⟩, hrest⟩
        exact ⟨key, hl, readable, hrest, ⟨rfl, rfl⟩, rfl⟩

/-- Members can be read if their keys are readable. -/
theorem exists_reads (h : ∀ m ∈ members, m.1.text?.isSome) :
    ∃ readable, Reads members readable := by
  induction members with
  | nil => exact ⟨[], rfl⟩
  | cons m members ih =>
    rw [List.forall_mem_cons] at h
    obtain ⟨key, hkey⟩ := Option.isSome_iff_exists.mp h.1
    obtain ⟨readable, hreads⟩ := ih h.2
    exact ⟨(key, m.2) :: readable, by simpa [Reads, hkey] using hreads⟩

theorem Reads.mem_iff {readable : List (String × Json)} (h : Reads members readable) :
    (key, w) ∈ readable ↔ (record members).Bears keys key w := by
  have hmem : (some key, w) ∈ members.map (fun m => (m.1.text?, m.2)) ↔
      (some key, w) ∈ readable.map fun m => (some m.1, m.2) := by rw [h]
  simpa [Bears] using hmem.symm

theorem Reads.length_filter {readable : List (String × Json)} (h : Reads members readable)
    (key : String) : (readable.filter (·.1 == key)).length = occurrences key members := by
  have hcount := congrArg (List.countP fun m => m.1 = some key) h
  simp only [List.countP_map, Function.comp_def, Option.some.injEq] at hcount
  rw [← List.countP_eq_length_filter, occurrences, hcount]
  simp only [beq_eq_decide]

/-- A member whose key comes once is found. -/
theorem lookup_eq_some_iff {readable : List (String × Json)}
    (honce : (readable.filter (·.1 == key)).length ≤ 1) :
    readable.lookup key = some w ↔ (key, w) ∈ readable := by
  rw [List.lookup_eq_some_iff]
  constructor
  · rintro ⟨before, after, rfl, -⟩
    simp
  · intro hmem
    obtain ⟨before, after, rfl⟩ := List.append_of_mem hmem
    refine ⟨before, after, rfl, fun m hm => bne_iff_ne.mpr ?_⟩
    -- A member before the one that was found would be a second one.
    rintro rfl
    have hbefore : 0 < (before.filter (·.1 == m.1)).length :=
      List.length_filter_pos_iff.mpr ⟨m, hm, beq_self_eq_true m.1⟩
    rw [List.filter_append, List.length_append, List.filter_cons, if_pos (beq_self_eq_true m.1),
      List.length_cons] at honce
    omega

/-- What is taken out of a record: its keys are readable, no declared key comes twice, and what is
given for a key stands under it. -/
theorem given?_record_eq_some_iff :
    (record members).given? keys = some given ↔ ∃ readable, Reads members readable ∧
      (∀ key ∈ keys, occurrences key members ≤ 1) ∧ (fun key => readable.lookup key) = given := by
  simp only [given?, Option.bind_eq_bind, Option.bind_eq_some_iff, readableMembers?_eq_some_iff]
  refine exists_congr fun readable => and_congr_right fun hreads => ?_
  simp [noneRepeated, hreads.length_filter]

/-- The place of a key among declared keys is the only one at which it stands. -/
theorem idxOf?_eq_some_iff (hkeys : keys.Nodup) {i : Nat} :
    keys.idxOf? key = some i ↔ keys[i]? = some key := by
  rw [List.idxOf?_eq_some_iff, List.getElem?_eq_some_iff]
  refine exists_congr fun hi => and_iff_left_of_imp ?_
  rintro rfl j hj heq
  exact absurd (hkeys.getElem_inj_iff.mp heq) (Nat.ne_of_lt hj)

/-- What is given for a declared key is what stands under it. -/
theorem given_eq_some_iff (hkeys : keys.Nodup) (h : v.given? keys = some given)
    (hkey : key ∈ keys) : given key = some w ↔ v.Bears keys key w := by
  cases v with
  | record members =>
    obtain ⟨readable, hreads, honce, rfl⟩ := given?_record_eq_some_iff.mp h
    rw [← hreads.mem_iff, lookup_eq_some_iff]
    rw [hreads.length_filter]
    exact honce key hkey
  | list items =>
    simp only [given?, Option.ite_none_right_eq_some, Option.some.injEq] at h
    obtain ⟨-, rfl⟩ := h
    simp only [Option.bind_eq_some_iff, idxOf?_eq_some_iff hkeys, Bears]
  | _ => cases h

/-- A declared member: its key, and what has to hold of its value if it is told. -/
abbrev Field := String × Option (Json → Prop)

/-- A member of a record tells a declared member. -/
def TellsField (m : Literal × Json) (f : Field) : Prop :=
  m.1.text? = some f.1 ∧ ∃ P, f.2 = some P ∧ P m.2

/-- A value tells some declared members: a record tells them in any order, among members with other
keys; a list tells the first of them in order. -/
inductive Tells (fields : List Field) : Json → Prop
  | record {members told others : List (Literal × Json)}
    (hperm : members.Perm (told ++ others))
    (htold : List.Forall₂ TellsField told (fields.filter (·.2.isSome)))
    (hothers : ∀ m ∈ others, ∃ key, m.1.text? = some key ∧ key ∉ fields.map (·.1)) :
    Tells fields (.record members)
  | list {items : List Json} {told silent : List Field} (hfields : fields = told ++ silent)
    (htold : List.Forall₂ (fun v f => ∃ P, f.2 = some P ∧ P v) items told)
    (hsilent : ∀ f ∈ silent, f.2 = none) : Tells fields (.list items)

/-- Two lists that go together item by item go together at every place. -/
theorem getElem?_of_forall₂ {α β : Type} {R : α → β → Prop} {l : List α} {m : List β}
    (h : List.Forall₂ R l m) {i : Nat} {a : α} (ha : l[i]? = some a) :
    ∃ b, m[i]? = some b ∧ R a b := by
  induction h generalizing i with
  | nil => cases ha
  | cons hab _ ih =>
    cases i with
    | zero =>
      cases ha
      exact ⟨_, rfl, hab⟩
    | succ i => exact ih ha

theorem exists_mem_of_forall₂ {α β : Type} {R : α → β → Prop} {l : List α} {m : List β}
    (h : List.Forall₂ R l m) {a : α} (ha : a ∈ l) : ∃ b ∈ m, R a b := by
  obtain ⟨i, hi⟩ := List.mem_iff_getElem?.mp ha
  obtain ⟨b, hb, hab⟩ := getElem?_of_forall₂ h hi
  exact ⟨b, List.mem_of_getElem? hb, hab⟩

/-- Every item is read, and what it is read as goes together with it. -/
theorem mapM_eq_some_iff {α β : Type} {read : α → Option β} {l : List α} {m : List β} :
    l.mapM read = some m ↔ List.Forall₂ (fun a b => read a = some b) l m := by
  induction l generalizing m with
  | nil => simp [eq_comm]
  | cons a l ih =>
    simp only [List.mapM_cons, Option.bind_eq_bind, Option.pure_def, Option.bind_eq_some_iff, ih,
      Option.some.injEq, List.forall₂_cons_left_iff]
    constructor
    · rintro ⟨b, hb, m, hm, rfl⟩
      exact ⟨b, m, hb, hm, rfl⟩
    · rintro ⟨b, m, hb, hm, rfl⟩
      exact ⟨b, hb, m, hm, rfl⟩

section Telling

variable {fields : List Field} {f : Field}

/-- Where the keys differ, a declared member is found by its key. -/
theorem eq_of_key (hkeys : (fields.map (·.1)).Nodup) {g : Field} (hf : f ∈ fields) (hg : g ∈ fields)
    (h : f.1 = g.1) : f = g :=
  List.inj_on_of_nodup_map hkeys hf hg h

/-- Under a declared key there stands what had to be told of it. -/
theorem Tells.exists_bears (h : Tells fields v) (hf : f ∈ fields) {P : Json → Prop}
    (hP : f.2 = some P) : ∃ w, v.Bears (fields.map (·.1)) f.1 w ∧ P w := by
  cases h with
  | record hperm htold hothers =>
    have hmem : f ∈ fields.filter (·.2.isSome) := List.mem_filter.mpr ⟨hf, by rw [hP]; rfl⟩
    obtain ⟨m, hm, hkey, Q, hQ, hvalue⟩ := exists_mem_of_forall₂ htold.flip hmem
    cases hP.symm.trans hQ
    exact ⟨m.2, ⟨m, hperm.mem_iff.mpr (List.mem_append_left _ hm), hkey, rfl⟩, hvalue⟩
  | list hfields htold hsilent =>
    subst hfields
    rcases List.mem_append.mp hf with hf | hf
    · obtain ⟨i, hi⟩ := List.mem_iff_getElem?.mp hf
      obtain ⟨w, hw, Q, hQ, hvalue⟩ := getElem?_of_forall₂ htold.flip hi
      cases hP.symm.trans hQ
      refine ⟨w, ⟨i, ?_, hw⟩, hvalue⟩
      rw [List.getElem?_map, List.getElem?_append_left (List.getElem?_eq_some_iff.mp hi).1, hi]
      rfl
    · rw [hsilent f hf] at hP
      cases hP

/-- Nothing but what had to be told stands under a declared key. -/
theorem Tells.of_bears (hkeys : (fields.map (·.1)).Nodup) (h : Tells fields v) (hf : f ∈ fields)
    (hw : v.Bears (fields.map (·.1)) f.1 w) : ∃ P, f.2 = some P ∧ P w := by
  cases h with
  | record hperm htold hothers =>
    obtain ⟨m, hm, hkey, rfl⟩ := hw
    rcases List.mem_append.mp (hperm.mem_iff.mp hm) with hm | hm
    · obtain ⟨g, hg, hgkey, hvalue⟩ := exists_mem_of_forall₂ htold hm
      rw [hkey, Option.some.injEq] at hgkey
      rwa [eq_of_key hkeys hf (List.mem_of_mem_filter hg) hgkey]
    · obtain ⟨key, hother, hnot⟩ := hothers m hm
      rw [hkey, Option.some.injEq] at hother
      exact absurd (List.mem_map.mpr ⟨f, hf, hother⟩) hnot
  | list hfields htold hsilent =>
    obtain ⟨i, hkey, hw⟩ := hw
    obtain ⟨g, hg, hvalue⟩ := getElem?_of_forall₂ htold hw
    have hplace : fields[i]? = some g := by
      rw [hfields, List.getElem?_append_left (List.getElem?_eq_some_iff.mp hg).1, hg]
    rw [List.getElem?_map, hplace, Option.map_some, Option.some.injEq] at hkey
    rwa [eq_of_key hkeys hf (List.mem_of_getElem? hplace) hkey.symm]

/-- No declared key comes twice in a record that tells its members. -/
theorem occurrences_le_one (hkeys : (fields.map (·.1)).Nodup) {told others : List (Literal × Json)}
    (hperm : members.Perm (told ++ others))
    (htold : List.Forall₂ TellsField told (fields.filter (·.2.isSome)))
    (hothers : ∀ m ∈ others, ∃ key, m.1.text? = some key ∧ key ∉ fields.map (·.1))
    (hkey : key ∈ fields.map (·.1)) : occurrences key members ≤ 1 := by
  have hother : occurrences key others = 0 := by
    refine List.countP_eq_zero.mpr fun m hm heq => ?_
    obtain ⟨other, hother, hnot⟩ := hothers m hm
    rw [hother, decide_eq_true_eq, Option.some.injEq] at heq
    exact hnot (heq ▸ hkey)
  have htold : occurrences key told ≤ (fields.map (·.1)).count key := by
    have hnames : told.map (·.1.text?) = ((fields.filter (·.2.isSome)).map (·.1)).map some := by
      rw [List.map_map, ← List.forall₂_eq_eq_eq, List.forall₂_map_left_iff,
        List.forall₂_map_right_iff]
      exact htold.imp fun _ _ h => h.1
    rw [occurrences_eq_count, hnames,
      List.count_map_of_injective _ _ fun _ _ h => Option.some.inj h]
    exact (List.filter_sublist.map _).count_le key
  rw [occurrences, hperm.countP_eq, List.countP_append, ← occurrences, ← occurrences, hother]
  exact htold.trans (List.nodup_iff_count_le_one.mp hkeys key)

/-- What is given for the declared members of a value that tells them is what had to be told. -/
theorem Tells.exists_given (hkeys : (fields.map (·.1)).Nodup) (h : Tells fields v) :
    ∃ given, v.given? (fields.map (·.1)) = some given ∧
      ∀ f ∈ fields, Option.Rel (fun w P => P w) (given f.1) f.2 := by
  have hsome : ∃ given, v.given? (fields.map (·.1)) = some given := by
    cases h with
    | @record members _ _ hperm htold hothers =>
      have hreadable : ∀ m ∈ members, m.1.text?.isSome := by
        intro m hm
        rcases List.mem_append.mp (hperm.mem_iff.mp hm) with hm | hm
        · obtain ⟨f, -, hkey, -⟩ := exists_mem_of_forall₂ htold hm
          rw [hkey]
          rfl
        · obtain ⟨key, hkey, -⟩ := hothers m hm
          rw [hkey]
          rfl
      obtain ⟨readable, hreads⟩ := exists_reads hreadable
      exact ⟨_, given?_record_eq_some_iff.mpr ⟨readable, hreads,
        fun key => occurrences_le_one hkeys hperm htold hothers, rfl⟩⟩
    | list hfields htold hsilent =>
      refine ⟨_, if_pos ?_⟩
      rw [hfields, List.length_map, List.length_append, htold.length_eq]
      omega
  obtain ⟨given, hgiven⟩ := hsome
  refine ⟨given, hgiven, fun f hf => ?_⟩
  have hiff := fun w => given_eq_some_iff hkeys hgiven (List.mem_map_of_mem hf) (w := w)
  cases hP : f.2 with
  | none =>
    cases hw : given f.1 with
    | none => exact .none
    | some w =>
      obtain ⟨P, hQ, -⟩ := h.of_bears hkeys hf ((hiff w).mp hw)
      rw [hP] at hQ
      cases hQ
  | some P =>
    obtain ⟨w, hw, hvalue⟩ := h.exists_bears hf hP
    rw [(hiff w).mpr hw]
    exact .some hvalue

end Telling

/-- What is wrong with a value, whatever else it tells: a declared key comes twice, a declared
member is of another type, a list is too long, or there is neither record nor list. -/
inductive Fault (kinds : List (String × Kind)) : Json → Prop
  | repeated {members : List (Literal × Json)} {key : String} (hkey : key ∈ kinds.map (·.1))
    (htwice : 1 < occurrences key members) : Fault kinds (.record members)
  | mistyped {v w : Json} {key : String} {kind : Kind} (hkey : (key, kind) ∈ kinds)
    (hw : v.Bears (kinds.map (·.1)) key w) (hkind : w.kind ≠ kind) : Fault kinds v
  | tooLong {items : List Json} (hlong : kinds.length < items.length) : Fault kinds (.list items)
  | shapeless {v : Json} (hlist : v.kind ≠ .list) (hrecord : v.kind ≠ .record) : Fault kinds v

/-- If anything is taken out of a value with a fault, then a declared member is of another type. -/
theorem Fault.exists_mistyped {kinds : List (String × Kind)} (hkeys : (kinds.map (·.1)).Nodup)
    (h : Fault kinds v) (hgiven : v.given? (kinds.map (·.1)) = some given) :
    ∃ key kind w, (key, kind) ∈ kinds ∧ given key = some w ∧ w.kind ≠ kind := by
  cases h with
  | repeated hkey htwice =>
    obtain ⟨readable, -, honce, -⟩ := given?_record_eq_some_iff.mp hgiven
    exact absurd (honce _ hkey) (Nat.not_le_of_lt htwice)
  | mistyped hkey hw hkind =>
    have hmem := List.mem_map_of_mem (f := (·.1)) hkey
    exact ⟨_, _, _, hkey, (given_eq_some_iff hkeys hgiven hmem).mpr hw, hkind⟩
  | tooLong hlong =>
    rw [given?, if_neg (by rw [List.length_map]; omega)] at hgiven
    cases hgiven
  | shapeless hlist hrecord =>
    cases v with
    | list items => exact absurd rfl hlist
    | record members => exact absurd rfl hrecord
    | _ => cases hgiven

end Json

end ToastBoard
