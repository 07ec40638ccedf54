import ToastBoard.Proofs.Xml

/-!
# What XML readers receive

What is written as tags and texts is read as tags and texts, if all characters are allowed. Named
characters come back as they were. The other characters are changed on the way: the line ends of
every text are folded, and white space in the value of an attribute becomes blanks.
-/

namespace ToastBoard.Xml

open Markup (Part escape escapeChar writeAttribute writeTags piece)

section Folding

variable {a b cs : List Char}

theorem foldLines_cons {c : Char} (hc : c ≠ '\r') (rest : List Char) :
    foldLines (c :: rest) = c :: foldLines rest := by
  rw [foldLines] <;> simp_all

/-- A text is folded by itself if what follows does not begin with a line feed. -/
theorem foldLines_append (hb : b.head? ≠ some '\n') :
    foldLines (a ++ b) = foldLines a ++ foldLines b := by
  fun_induction foldLines a with
  | case1 rest ih => simp [foldLines, ih]
  | case2 rest hrest ih =>
    -- What follows the carriage return is what follows it in the text, or what comes behind that.
    have hnext : ∀ r, rest ++ b ≠ '\n' :: r := by
      intro r heq
      cases rest with
      | nil => exact hb (by rw [← List.nil_append b, heq]; rfl)
      | cons c rest => exact hrest rest (by rw [List.head_eq_of_cons_eq heq])
    rw [List.cons_append, foldLines, ih, List.cons_append]
    exact hnext
  | case3 c rest hpair hreturn ih =>
    rw [List.cons_append, foldLines_cons hreturn, ih, List.cons_append]
  | case4 => rfl

/-- What has no carriage return is not changed in front of anything. -/
theorem foldLines_append_of_not_mem (ha : '\r' ∉ a) : foldLines (a ++ b) = a ++ foldLines b := by
  induction a with
  | nil => rfl
  | cons c a ih =>
    rw [List.mem_cons, not_or] at ha
    rw [List.cons_append, foldLines_cons (Ne.symm ha.1), ih ha.2, List.cons_append]

/-- No carriage return is left. -/
theorem not_mem_foldLines (cs : List Char) : '\r' ∉ foldLines cs := by
  fun_induction foldLines cs with
  | case1 rest ih => simpa using ih
  | case2 rest hrest ih => simpa using ih
  | case3 c rest hpair hreturn ih => simpa [ih, eq_comm] using hreturn
  | case4 => exact List.not_mem_nil

/-- Only texts with a carriage return change. -/
theorem foldLines_eq_self_iff : foldLines cs = cs ↔ '\r' ∉ cs := by
  constructor
  · intro h
    rw [← h]
    exact not_mem_foldLines cs
  · intro h
    have hall := foldLines_append_of_not_mem (b := []) h
    rwa [List.append_nil, foldLines, List.append_nil] at hall

/-- The written form of a character begins with this character or with the sign of a reference. -/
theorem head_of_escapeChar (c : Char) : ∃ d r, escapeChar c = d :: r ∧ (d = c ∨ d = '&') := by
  unfold escapeChar
  split
  case h_6 => exact ⟨c, [], rfl, .inl rfl⟩
  all_goals exact ⟨'&', _, rfl, .inr rfl⟩

/-- Naming makes no carriage returns. -/
theorem not_mem_escapeChar {c : Char} (hc : c ≠ '\r') : '\r' ∉ escapeChar c := by
  unfold escapeChar
  split
  case h_6 => simpa [eq_comm] using hc
  all_goals decide

/-- It makes no difference whether characters are named before or after. -/
theorem foldLines_flatMap_escapeChar (cs : List Char) :
    foldLines (cs.flatMap escapeChar) = (foldLines cs).flatMap escapeChar := by
  have hnone : escapeChar '\r' = ['\r'] ∧ escapeChar '\n' = ['\n'] := by decide
  fun_induction foldLines cs with
  | case1 rest ih => simp [List.flatMap_cons, hnone, foldLines, ih]
  | case2 rest hrest ih =>
    have hnext : ∀ r, rest.flatMap escapeChar ≠ '\n' :: r := by
      intro r heq
      cases rest with
      | nil => cases heq
      | cons c rest =>
        obtain ⟨d, s, hd, hdc⟩ := head_of_escapeChar c
        rw [List.flatMap_cons, hd, List.cons_append] at heq
        obtain rfl := List.head_eq_of_cons_eq heq
        rcases hdc with rfl | hdc
        · exact hrest rest rfl
        · cases hdc
    rw [List.flatMap_cons, hnone.1, List.singleton_append, foldLines, ih, List.flatMap_cons,
      hnone.2, List.singleton_append]
    exact hnext
  | case3 c rest hpair hreturn ih =>
    rw [List.flatMap_cons, foldLines_append_of_not_mem (not_mem_escapeChar hreturn), ih,
      List.flatMap_cons]
  | case4 => rfl

end Folding

/-- Whether the five characters with a name are left as they are. -/
def KeepsNamed (change : Char → Char) : Prop := ∀ c ∈ ['&', '<', '>', '"', '\''], change c = c

/-- A reading that changes nothing keeps named references. -/
theorem keepsNamed_id : KeepsNamed id := fun _ _ => rfl

/-- Turning a character into a blank keeps named references. -/
theorem keepsNamed_blank : KeepsNamed blank := by
  simp [KeepsNamed, blank, isSpace]

/-- A character with a name is written as a reference to itself. -/
theorem exists_name_of_mem {c : Char} (hc : c ∈ ['&', '<', '>', '"', '\'']) : ∃ name,
    escapeChar c = '&' :: (name ++ [';']) ∧ ';' ∉ name ∧ reference? name = some c := by
  simp only [List.mem_cons, List.not_mem_nil, or_false] at hc
  rcases hc with rfl | rfl | rfl | rfl | rfl
  · exact ⟨['a', 'm', 'p'], rfl, by decide, rfl⟩
  · exact ⟨['l', 't'], rfl, by decide, rfl⟩
  · exact ⟨['g', 't'], rfl, by decide, rfl⟩
  · exact ⟨['q', 'u', 'o', 't'], rfl, by decide, rfl⟩
  · exact ⟨['a', 'p', 'o', 's'], rfl, by decide, rfl⟩

/-- A reference is resolved at its end. -/
theorem expand_reference (change : Char → Char) {name : List Char} (hn : ';' ∉ name)
    (pending rest : List Char) : expand change (some pending) (name ++ ';' :: rest) =
      (reference? (pending.reverse ++ name)).bind fun c =>
        (expand change none rest).map (c :: ·) := by
  induction name generalizing pending with
  | nil =>
    rw [List.append_nil, List.nil_append, expand]
    cases expand change none rest <;> rfl
  | cons c name ih =>
    rw [List.mem_cons, not_or] at hn
    rw [List.cons_append, expand]
    simp only [if_neg (Ne.symm hn.1), ih hn.2, List.reverse_cons, List.append_assoc,
      List.singleton_append]

-- A line feed that is written as a reference comes through where a literal one does not.
example : expand blank none "a&#10;b\nc".toList = some "a\nb c".toList := by decide

/-- Named characters are resolved, and the others are changed. -/
theorem expand_flatMap_escapeChar {change : Char → Char} (hchange : KeepsNamed change)
    (cs : List Char) : expand change none (cs.flatMap escapeChar) = some (cs.map change) := by
  induction cs with
  | nil => rfl
  | cons c cs ih =>
    rw [List.flatMap_cons, List.map_cons]
    by_cases hc : c ∈ ['&', '<', '>', '"', '\'']
    · obtain ⟨name, hname, hend, hreference⟩ := exists_name_of_mem hc
      rw [hchange c hc, hname, List.cons_append, List.append_assoc, List.singleton_append, expand]
      simp only [if_true, expand_reference change hend, List.reverse_nil, List.nil_append,
        hreference, ih, Option.bind_some, Option.map_some]
    · simp only [List.mem_cons, List.not_mem_nil, or_false, not_or] at hc
      have hself : escapeChar c = [c] := by
        unfold escapeChar
        split <;> simp_all
      rw [hself, List.singleton_append, expand]
      simp [hc, ih]

/-- A blank stays a blank. -/
theorem blank_blank (c : Char) : blank (blank c) = blank c := by
  by_cases hc : isSpace c = true <;> simp [blank, hc]

/-- Tabs and line ends are all that turns into blanks. -/
theorem blank_eq_self_iff {c : Char} : blank c = c ↔ c ∉ ['\t', '\n', '\r'] := by
  by_cases hb : c = ' '
  · subst hb
    decide
  · simp [blank, isSpace, hb, Ne.symm hb, and_assoc]

/-- Blanks for white space. -/
def blanked (t : String) : String := String.ofList (t.toList.map blank)

/-- A text with blanks for tabs and line ends stays so. -/
theorem blanked_blanked (t : String) : blanked (blanked t) = blanked t := by
  simp [blanked, Function.comp_def, blank_blank]

/-- A text that was escaped is read back from an attribute with blanks for tabs and line ends. -/
theorem value?_escape (t : String) : value? (escape t) = some (blanked t) := by
  rw [value?, escape, expand_flatMap_escapeChar keepsNamed_blank]
  rfl

/-- A text that was escaped is read back from content. -/
theorem content?_escape (t : String) : content? (escape t) = some t := by
  have hno : ¬[']', ']', '>'] <:+: escape t := by
    rintro ⟨before, after, h⟩
    have hmem : '>' ∈ escape t := by
      rw [← h]
      simp
    exact Markup.not_mem_escape (by decide) t hmem
  rw [content?, if_neg hno, escape, expand_flatMap_escapeChar keepsNamed_id, List.map_id,
    Option.map_some, String.ofList_toList]

/-- Whether a text is a name. -/
def isName (name : String) : Bool :=
  name.toList.head?.any isNameStart && name.toList.all isNameChar

/-- A name is read up to what it cannot go on with. -/
theorem readName?_append {name : String} (hn : isName name = true) {c : Char}
    (hc : isNameChar c = false) (rest : List Char) :
    readName? (name.toList ++ c :: rest) = some (name, c :: rest) := by
  obtain ⟨hstart, hall⟩ := Bool.and_eq_true_iff.mp hn
  have htake : (name.toList ++ c :: rest).takeWhile isNameChar = name.toList := by
    rw [List.takeWhile_append_of_pos (List.all_eq_true.mp hall)]
    simp [hc]
  have hdrop : (name.toList ++ c :: rest).dropWhile isNameChar = c :: rest := by
    rw [List.dropWhile_append_of_pos (List.all_eq_true.mp hall)]
    simp [hc]
  rw [readName?, htake, hdrop, if_pos hstart, String.ofList_toList]

/-- A name begins with nothing that stands between names. -/
theorem head_of_isName {name : String} (hn : isName name = true) : ∃ c r, name.toList = c :: r ∧
    isSpace c = false ∧ c ≠ '>' ∧ c ≠ '/' := by
  obtain ⟨hstart, -⟩ := Bool.and_eq_true_iff.mp hn
  cases hs : name.toList with
  | nil =>
    rw [hs] at hstart
    cases hstart
  | cons c r =>
    rw [hs] at hstart
    have hne : ∀ d, isNameStart d = false → c ≠ d := by
      rintro d hd rfl
      exact Bool.false_ne_true (hd.symm.trans hstart)
    refine ⟨c, r, rfl, ?_, hne _ (by decide), hne _ (by decide)⟩
    simp [isSpace, hne ' ' (by decide), hne '\t' (by decide), hne '\n' (by decide),
      hne '\r' (by decide)]

/-- The value of an attribute is read up to the quotation mark that ends it. -/
theorem readValue?_escape (t : String) (rest : List Char) :
    readValue? '"' (escape t ++ '"' :: rest) = some (blanked t, rest) := by
  have hquote : ∀ c ∈ escape t, decide (c ≠ '"') = true := by
    intro c hc
    refine decide_eq_true ?_
    rintro rfl
    exact Markup.not_mem_escape (by decide) t hc
  have htake : (escape t ++ '"' :: rest).takeWhile (· ≠ '"') = escape t := by
    rw [List.takeWhile_append_of_pos hquote]
    simp
  have hdrop : (escape t ++ '"' :: rest).dropWhile (· ≠ '"') = '"' :: rest := by
    rw [List.dropWhile_append_of_pos hquote]
    simp
  rw [readValue?, hdrop, htake]
  simp only
  rw [value?_escape]
  rfl

/-- An attribute that was written is read back, whatever follows. -/
theorem readAttribute?_write {key : String} (hk : isName key = true) (value : String)
    (rest : List Char) :
    readAttribute? (key.toList ++ '=' :: '"' :: (escape value ++ '"' :: rest)) =
      some ((key, blanked value), rest) := by
  have hspace : isSpace '=' = false ∧ isSpace '"' = false := by decide
  simp [readAttribute?, readName?_append hk (by decide : isNameChar '=' = false), hspace,
    readValue?_escape]

/-- There are no attributes where a tag ends. -/
theorem readAttributes?_end {c : Char} (hc : c = '>' ∨ c = '/') (rest : List Char) :
    readAttributes? (c :: rest) = some ([], c :: rest) := by
  have hspace : isSpace c = false := by
    rcases hc with rfl | rfl <;> decide
  have hdrop : (c :: rest).dropWhile isSpace = c :: rest := by simp [hspace]
  rw [readAttributes?, hdrop]
  simp [hc]

/-- An attribute behind a blank is followed by the other attributes. -/
theorem readAttributes?_cons {key : String} (hk : isName key = true) (value : String)
    (rest : List Char) :
    readAttributes? (writeAttribute (key, value) ++ rest) =
      (readAttributes? rest).bind fun r =>
        if key ∈ r.1.map (·.1) then none else some ((key, blanked value) :: r.1, r.2) := by
  obtain ⟨c, r, hname, hspace, hgt, hslash⟩ := head_of_isName hk
  have hwrite : writeAttribute (key, value) ++ rest =
      ' ' :: c :: (r ++ '=' :: '"' :: (escape value ++ '"' :: rest)) := by
    simp [writeAttribute, hname]
  have hread := readAttribute?_write hk value rest
  rw [hname, List.cons_append] at hread
  have hdrop : (' ' :: c :: (r ++ '=' :: '"' :: (escape value ++ '"' :: rest))).dropWhile isSpace =
      c :: (r ++ '=' :: '"' :: (escape value ++ '"' :: rest)) := by
    simp [hspace, show isSpace ' ' = true by decide]
  rw [hwrite, readAttributes?, hdrop]
  simp only [hgt, hslash, decide_false, Bool.or_self, Bool.false_eq_true, if_false]
  rw [if_neg (by simp [isSpace])]
  split
  · rename_i hnone
    rw [hread] at hnone
    cases hnone
  · rename_i hsome
    rw [hread] at hsome
    cases hsome
    rfl

/-- Attributes with different names are read up to the end of their tag. -/
theorem readAttributes?_write {attributes : List (String × String)}
    (hkeys : ∀ a ∈ attributes, isName a.1 = true) (hnodup : (attributes.map (·.1)).Nodup) {c : Char}
    (hc : c = '>' ∨ c = '/') (rest : List Char) :
    readAttributes? (attributes.flatMap writeAttribute ++ c :: rest) =
      some (attributes.map fun a => (a.1, blanked a.2), c :: rest) := by
  induction attributes with
  | nil => exact readAttributes?_end hc rest
  | cons a attributes ih =>
    rw [List.forall_mem_cons] at hkeys
    rw [List.map_cons, List.nodup_cons] at hnodup
    have hnew : a.1 ∉ (attributes.map fun a => (a.1, blanked a.2)).map (·.1) := by
      rw [List.map_map]
      exact hnodup.1
    rw [List.flatMap_cons, List.append_assoc, readAttributes?_cons hkeys.1, ih hkeys.2 hnodup.2,
      Option.bind_some, if_neg hnew, List.map_cons]

/-- What follows a name does not go on with it. -/
theorem head_of_attributes (attributes : List (String × String)) {c : Char}
    (hc : c = '>' ∨ c = '/') (rest : List Char) :
    ∃ d r, attributes.flatMap writeAttribute ++ c :: rest = d :: r ∧ isNameChar d = false := by
  cases attributes with
  | nil =>
    refine ⟨c, rest, rfl, ?_⟩
    rcases hc with rfl | rfl <;> decide
  | cons a attributes => exact ⟨' ', _, rfl, by decide⟩

/-- Changes the values in a tag. -/
def mapValues (f : String → String) : Part → Part
  | .opening name attributes => .opening name (attributes.map fun a => (a.1, f a.2))
  | .empty name attributes => .empty name (attributes.map fun a => (a.1, f a.2))
  | .closing name => .closing name
  | .text t => .text t

/-- Whether some attributes have names, and no two of them the same. -/
def areRegular (attributes : List (String × String)) : Bool :=
  attributes.all (isName ·.1) && decide (attributes.map (·.1)).Nodup

/-- Whether a part is a tag with names in it. -/
def isRegular : Part → Bool
  | .opening name attributes | .empty name attributes => isName name && areRegular attributes
  | .closing name => isName name
  | .text _ => false

/-- Markup is not cut in a name. -/
theorem isWhole_of_isName {name : String} (hn : isName name = true) :
    Markup.isWhole name = true := by
  have hmarks : ∀ c ∈ Markup.marks, isNameChar c = false := by
    simp only [Markup.marks, List.forall_mem_cons, List.not_mem_nil, false_imp_iff, implies_true,
      and_true]
    decide
  refine List.all_eq_true.mpr fun c hc => ?_
  have hchar := List.all_eq_true.mp (Bool.and_eq_true_iff.mp hn).2 c hc
  cases hm : Markup.marks.contains c with
  | false => rfl
  | true =>
    rw [hmarks c (List.contains_iff_mem.mp hm)] at hchar
    cases hchar

/-- Names and keys hold nothing that could end a tag. -/
theorem isClear_of_isRegular {p : Part} (hp : isRegular p = true) : p.isClear = true := by
  have htag : ∀ {name : String} {attributes : List (String × String)},
      (isName name && areRegular attributes) = true →
        (Markup.isWhole name && attributes.all (Markup.isWhole ·.1)) = true := by
    intro name attributes h
    obtain ⟨hn, ha⟩ := Bool.and_eq_true_iff.mp h
    have hkeys := List.all_eq_true.mp (Bool.and_eq_true_iff.mp ha).1
    exact Bool.and_eq_true_iff.mpr ⟨isWhole_of_isName hn,
      List.all_eq_true.mpr fun a ha => isWhole_of_isName (hkeys a ha)⟩
  cases p with
  | opening name attributes => exact htag hp
  | empty name attributes => exact htag hp
  | closing name => exact isWhole_of_isName hp
  | text t => cases hp

/-- A tag that begins with a name goes on with its attributes. -/
theorem readTag?_name {name : String} (hn : isName name = true)
    {attributes : List (String × String)} (ha : areRegular attributes = true) {c : Char}
    (hc : c = '>' ∨ c = '/') (rest : List Char) :
    readTag? (name.toList ++ (attributes.flatMap writeAttribute ++ c :: rest)) =
      readEnd? name (attributes.map fun a => (a.1, blanked a.2)) (c :: rest) := by
  obtain ⟨hkeys, hnodup⟩ := Bool.and_eq_true_iff.mp ha
  have hread := readAttributes?_write (List.all_eq_true.mp hkeys) (of_decide_eq_true hnodup) hc rest
  obtain ⟨d, r, hd, hend⟩ := head_of_attributes attributes hc rest
  rw [hd] at hread ⊢
  have hname := readName?_append hn hend r
  obtain ⟨k, s, hk, -, -, hslash⟩ := head_of_isName hn
  rw [hk, List.cons_append] at hname ⊢
  rw [readTag?, hname]
  · simp only [Option.bind_eq_bind, Option.bind_some, hread]
  · exact fun _ heq => hslash (List.head_eq_of_cons_eq heq)

/-- A tag is read up to the bracket that closes it. -/
theorem readTag?_inside {p : Part} (hp : isRegular p = true) (rest : List Char) :
    readTag? (p.inside ++ '>' :: rest) = some (mapValues blanked p, rest) := by
  cases p with
  | opening name attributes =>
    obtain ⟨hn, ha⟩ := Bool.and_eq_true_iff.mp hp
    rw [Part.inside, List.append_assoc, readTag?_name hn ha (.inl rfl)]
    rfl
  | empty name attributes =>
    obtain ⟨hn, ha⟩ := Bool.and_eq_true_iff.mp hp
    rw [Part.inside, List.append_assoc, List.append_assoc, List.singleton_append,
      readTag?_name hn ha (.inr rfl)]
    rfl
  | closing name =>
    have hname := readName?_append (show isName name = true from hp)
      (show isNameChar '>' = false by decide) rest
    have hspace : isSpace '>' = false := by decide
    rw [Part.inside, List.cons_append, readTag?, hname]
    simp [hspace, mapValues]
  | text t => cases hp

/-- A tag and the text after it are read. -/
theorem readPiece?_piece {l : Part × String} (hl : isRegular l.1 = true) :
    readPiece? (piece l) = some (mapValues blanked l.1, l.2) := by
  rw [readPiece?, piece, readTag?_inside hl]
  simp only [Option.bind_eq_bind, Option.bind_some, content?_escape]

/-- A text with its line ends folded. -/
def folded (t : String) : String := String.ofList (foldLines t.toList)

/-- What comes of a tag and the text after it. -/
def received (l : Part × String) : Part × String :=
  (mapValues (fun t => blanked (folded t)) l.1, folded l.2)

/-- The values of the attributes in a tag. -/
def values : Part → List String
  | .opening _ attributes | .empty _ attributes => attributes.map (·.2)
  | _ => []

@[simp] theorem values_opening (name : String) (attributes : List (String × String)) :
    values (.opening name attributes) = attributes.map (·.2) := rfl

@[simp] theorem values_empty (name : String) (attributes : List (String × String)) :
    values (.empty name attributes) = attributes.map (·.2) := rfl

@[simp] theorem values_closing (name : String) : values (.closing name) = [] := rfl

/-- Whether XML allows all characters of a text. -/
def isAllowed (t : String) : Bool := t.toList.all isChar

/-- A text is allowed if each of its characters is. -/
theorem isAllowed_iff {t : String} : isAllowed t = true ↔ ∀ c ∈ t.toList, isChar c = true :=
  List.all_eq_true

/-- Folding line ends before a text is escaped is folding them afterwards. -/
theorem escape_folded (t : String) : escape (folded t) = foldLines (escape t) := by
  rw [escape, folded, String.toList_ofList, escape, foldLines_flatMap_escapeChar]

/-- A name has no carriage return. -/
theorem not_mem_of_isName {name : String} (hn : isName name = true) : '\r' ∉ name.toList := by
  intro hm
  have hall := List.all_eq_true.mp (Bool.and_eq_true_iff.mp hn).2 _ hm
  revert hall
  decide

/-- Folding goes through the attributes of a tag. -/
theorem foldLines_attributes {attributes : List (String × String)}
    (hkeys : ∀ a ∈ attributes, isName a.1 = true) (rest : List Char) :
    foldLines (attributes.flatMap writeAttribute ++ rest) =
      (attributes.map fun a => (a.1, folded a.2)).flatMap writeAttribute ++ foldLines rest := by
  induction attributes with
  | nil => rfl
  | cons a attributes ih =>
    obtain ⟨key, value⟩ := a
    rw [List.forall_mem_cons] at hkeys
    have hstart : '\r' ∉ ' ' :: (key.toList ++ ['=', '"']) := by
      simpa using not_mem_of_isName hkeys.1
    have hcut : ∀ value, writeAttribute (key, value) =
        (' ' :: (key.toList ++ ['=', '"'])) ++ (escape value ++ ['"']) := by
      intro value
      simp [writeAttribute]
    rw [List.flatMap_cons, List.append_assoc, hcut, List.append_assoc,
      foldLines_append_of_not_mem hstart, List.append_assoc, List.singleton_append,
      foldLines_append (by simp), foldLines_cons (by decide), ih hkeys.2, ← escape_folded,
      List.map_cons, List.flatMap_cons, hcut]
    simp

/-- Line ends are folded only in the values of a tag. -/
theorem foldLines_tag {name : String} (hn : isName name = true)
    {attributes : List (String × String)} (ha : areRegular attributes = true) {last : List Char}
    (hl : '\r' ∉ last) (rest : List Char) :
    foldLines ('<' :: (name.toList ++ attributes.flatMap writeAttribute ++ last) ++ rest) =
      '<' :: (name.toList ++ (attributes.map fun a => (a.1, folded a.2)).flatMap writeAttribute ++
        last) ++ foldLines rest := by
  have hkeys := List.all_eq_true.mp (Bool.and_eq_true_iff.mp ha).1
  have hstart : '\r' ∉ '<' :: name.toList := by simpa using not_mem_of_isName hn
  have hcut : '<' :: (name.toList ++ attributes.flatMap writeAttribute ++ last) ++ rest =
      ('<' :: name.toList) ++ (attributes.flatMap writeAttribute ++ (last ++ rest)) := by simp
  rw [hcut, foldLines_append_of_not_mem hstart, foldLines_attributes hkeys,
    foldLines_append_of_not_mem hl]
  simp

/-- Folding goes through a tag. -/
theorem foldLines_write {p : Part} (hp : isRegular p = true) (rest : List Char) :
    foldLines (p.write ++ rest) = (mapValues folded p).write ++ foldLines rest := by
  cases p with
  | opening name attributes =>
    obtain ⟨hn, ha⟩ := Bool.and_eq_true_iff.mp hp
    exact foldLines_tag hn ha (by decide) rest
  | empty name attributes =>
    obtain ⟨hn, ha⟩ := Bool.and_eq_true_iff.mp hp
    exact foldLines_tag hn ha (by decide) rest
  | closing name =>
    have hname : '\r' ∉ '<' :: '/' :: (name.toList ++ ['>']) := by
      simpa using not_mem_of_isName (show isName name = true from hp)
    exact foldLines_append_of_not_mem hname
  | text t => cases hp

/-- What is written begins with a bracket. -/
theorem head_of_flatMap_write {ls : List (Part × String)}
    (hls : ∀ l ∈ ls, isRegular l.1 = true) :
    (ls.flatMap fun l => l.1.write ++ escape l.2).head? ≠ some '\n' := by
  cases ls with
  | nil => nofun
  | cons l ls =>
    obtain ⟨p, t⟩ := l
    have hp := hls _ List.mem_cons_self
    cases p with
    | text t => cases hp
    | _ => simp [Part.write]

/-- Folding goes through a document. -/
theorem foldLines_flatMap_write {ls : List (Part × String)}
    (hls : ∀ l ∈ ls, isRegular l.1 = true) :
    foldLines (ls.flatMap fun l => l.1.write ++ escape l.2) =
      (ls.map fun l => (mapValues folded l.1, folded l.2)).flatMap fun l =>
        l.1.write ++ escape l.2 := by
  induction ls with
  | nil => rfl
  | cons l ls ih =>
    rw [List.forall_mem_cons] at hls
    rw [List.flatMap_cons, List.append_assoc, foldLines_write hls.1,
      foldLines_append (head_of_flatMap_write hls.2), ih hls.2, ← escape_folded, List.map_cons,
      List.flatMap_cons, List.append_assoc]

/-- Naming characters neither makes nor hides one that is not allowed. -/
theorem all_isChar_escape (t : String) : (escape t).all isChar = isAllowed t := by
  have hchar : ∀ c, (escapeChar c).all isChar = isChar c := by
    intro c
    unfold escapeChar
    split
    case h_6 => simp
    all_goals decide
  rw [escape, isAllowed]
  induction t.toList with
  | nil => rfl
  | cons c cs ih => rw [List.flatMap_cons, List.all_append, hchar, ih, List.all_cons]

/-- What a name may have is a character. -/
theorem isChar_of_isNameChar {c : Char} (hc : isNameChar c = true) : isChar c = true := by
  obtain ⟨r, hr, hbounds⟩ := List.any_eq_true.mp hc
  have hranges : ∀ r ∈ nameStarts ++ nameFollowers,
      0x20 ≤ r.1 ∧ r.2 < 0xFFFE ∨ 0xFFFF < r.1 := by decide
  have hrange := hranges r hr
  simp only [Bool.and_eq_true, decide_eq_true_eq] at hbounds
  simp only [isChar, Bool.or_eq_true, Bool.and_eq_true, decide_eq_true_eq]
  omega

/-- A name is allowed anywhere. -/
theorem isAllowed_of_isName {name : String} (hn : isName name = true) : isAllowed name = true :=
  List.all_eq_true.mpr fun c hc =>
    isChar_of_isNameChar (List.all_eq_true.mp (Bool.and_eq_true_iff.mp hn).2 c hc)

/-- Attributes have only characters if their values do. -/
theorem all_isChar_attributes {attributes : List (String × String)}
    (hkeys : ∀ a ∈ attributes, isName a.1 = true) :
    (attributes.flatMap writeAttribute).all isChar = (attributes.map (·.2)).all isAllowed := by
  have hmarks : isChar ' ' = true ∧ isChar '=' = true ∧ isChar '"' = true := by decide
  induction attributes with
  | nil => rfl
  | cons a attributes ih =>
    rw [List.forall_mem_cons] at hkeys
    have hkey : a.1.toList.all isChar = true := isAllowed_of_isName hkeys.1
    rw [List.flatMap_cons, List.all_append, ih hkeys.2, List.map_cons, List.all_cons]
    simp only [writeAttribute, List.all_cons, List.all_append, List.all_nil, hmarks, hkey,
      all_isChar_escape, Bool.and_true, Bool.true_and]

/-- A tag is allowed if its values are. -/
theorem all_isChar_write {p : Part} (hp : isRegular p = true) :
    p.write.all isChar = (values p).all isAllowed := by
  have hmarks : isChar '<' = true ∧ isChar '>' = true ∧ isChar '/' = true := by decide
  have htag : ∀ {name : String} {attributes : List (String × String)}, isName name = true →
      areRegular attributes = true →
      (name.toList.all isChar = true ∧
        (attributes.flatMap writeAttribute).all isChar = (attributes.map (·.2)).all isAllowed) :=
    fun hn ha => ⟨isAllowed_of_isName hn,
      all_isChar_attributes (List.all_eq_true.mp (Bool.and_eq_true_iff.mp ha).1)⟩
  cases p with
  | opening name attributes =>
    obtain ⟨hn, ha⟩ := Bool.and_eq_true_iff.mp hp
    simp only [Part.write, List.all_cons, List.all_append, List.all_nil, hmarks, htag hn ha, values,
      Bool.and_true, Bool.true_and]
  | empty name attributes =>
    obtain ⟨hn, ha⟩ := Bool.and_eq_true_iff.mp hp
    simp only [Part.write, List.all_cons, List.all_append, List.all_nil, hmarks, htag hn ha, values,
      Bool.and_true, Bool.true_and]
  | closing name =>
    have hname : name.toList.all isChar = true := isAllowed_of_isName hp
    simp only [Part.write, List.all_cons, List.all_append, List.all_nil, hmarks, hname, values,
      Bool.and_true]
  | text t => cases hp

/-- A document is allowed if its values and texts are. -/
theorem isAllowed_writeTags {ls : List (Part × String)} (hls : ∀ l ∈ ls, isRegular l.1 = true) :
    isAllowed (writeTags ls) = ls.all fun l => (values l.1).all isAllowed && isAllowed l.2 := by
  rw [isAllowed, writeTags, String.toList_ofList]
  induction ls with
  | nil => rfl
  | cons l ls ih =>
    rw [List.forall_mem_cons] at hls
    rw [List.flatMap_cons, List.all_append, List.all_append, all_isChar_write hls.1,
      all_isChar_escape, ih hls.2, List.all_cons]

/-- Names and keys are not values. -/
theorem isRegular_mapValues (f : String → String) (p : Part) :
    isRegular (mapValues f p) = isRegular p := by
  cases p <;> simp [mapValues, isRegular, areRegular, List.all_map, Function.comp_def]

/-- Values may be changed in two steps. -/
theorem mapValues_mapValues (f g : String → String) (p : Part) :
    mapValues f (mapValues g p) = mapValues (fun t => f (g t)) p := by
  cases p <;> simp [mapValues]

/-- A text of nothing but space is one after its line ends are folded, and was one before. -/
theorem all_isSpace_folded (t : String) : (folded t).toList.all isSpace = t.toList.all isSpace := by
  rw [folded, String.toList_ofList]
  have hspace : isSpace '\r' = true ∧ isSpace '\n' = true := by decide
  fun_induction foldLines t.toList <;> simp_all

/-- Tags are nested as they were. -/
theorem nests_map_received (within : List String) (ls : List (Part × String)) :
    nests within (ls.map received) = nests within ls := by
  fun_induction nests within ls <;> simp_all [received, mapValues, nests, all_isSpace_folded]

/-- The pieces of a document are read one by one. -/
theorem mapM_readPiece? {ls : List (Part × String)} (hls : ∀ l ∈ ls, isRegular l.1 = true) :
    (ls.map piece).mapM readPiece? = some (ls.map fun l => (mapValues blanked l.1, l.2)) := by
  induction ls with
  | nil => rfl
  | cons l ls ih =>
    rw [List.forall_mem_cons] at hls
    rw [List.map_cons, List.mapM_cons, readPiece?_piece hls.1, ih hls.2]
    rfl

/-- What is written as tags and texts is read as tags and texts, with their values as they are
received, if all characters are allowed; and nothing is read otherwise. -/
theorem read?_writeTags {ls : List (Part × String)} (hregular : ∀ l ∈ ls, isRegular l.1 = true)
    (hnests : nests [] ls = true) :
    read? (writeTags ls) =
      if isAllowed (writeTags ls) then some (ls.map received) else none := by
  rw [read?, isAllowed]
  congr 1
  -- The line ends are folded first, so it is the folded document that is cut and read.
  have hfolded : ∀ l ∈ ls.map fun l => (mapValues folded l.1, folded l.2),
      isRegular l.1 = true := by
    intro l hl
    obtain ⟨x, hx, rfl⟩ := List.mem_map.mp hl
    exact (isRegular_mapValues _ _).trans (hregular x hx)
  have hcut := Markup.splitOn_flatMap (fun l hl => isClear_of_isRegular (hfolded l hl))
    List.not_mem_nil
  have hread := mapM_readPiece? hfolded
  rw [List.nil_append, ← foldLines_flatMap_write hregular] at hcut
  rw [writeTags, String.toList_ofList, hcut]
  have hreceived : ((ls.map fun l => (mapValues folded l.1, folded l.2)).map fun l =>
      (mapValues blanked l.1, l.2)) = ls.map received := by
    simp [received, mapValues_mapValues]
  rw [hreceived] at hread
  simp only [hread, Option.bind_eq_bind, Option.bind_some, List.all_nil, nests_map_received, hnests,
    Bool.and_self, if_true]

end ToastBoard.Xml
