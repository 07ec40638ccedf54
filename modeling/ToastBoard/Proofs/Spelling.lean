import Mathlib.Data.List.Chain
import ToastBoard.Json.Value
import ToastBoard.Proofs.Numerals

/-!
# Spelling

A character may stand for itself or be escaped, so literals have many spellings; the written form is
one of them. A piece of a literal, a literal and a token are each read from any of their spellings
with whatever follows them; only a number has to be followed by something that does not go on with
it. So a text is cut into the tokens that are spelled in it, with any blanks after each of them, as
long as only one of two neighbours is a number. But for numbers, nothing that is written has a
control character.
-/

namespace ToastBoard

theorem hexDigit?_hexDigit {n : Nat} (hn : n < 16) : hexDigit? (hexDigit n) = some n := by
  have hall : ∀ m : Fin 16, hexDigit? (hexDigit m) = some m.val := by decide
  exact hall ⟨n, hn⟩

theorem le_toNat_hexDigit {n : Nat} (hn : n < 16) : 0x20 ≤ (hexDigit n).toNat := by
  have hall : ∀ m : Fin 16, 0x20 ≤ (hexDigit m).toNat := by decide
  exact hall ⟨n, hn⟩

namespace Piece

/-- Four digits are read as the unit they were written for. -/
theorem ofHex?_hexDigit {n : Nat} (hn : n < 0x10000) :
    ofHex? (hexDigit (n / 4096 % 16)) (hexDigit (n / 256 % 16)) (hexDigit (n / 16 % 16))
      (hexDigit (n % 16)) = some (ofUnit n) := by
  have hdigit : ∀ m, hexDigit? (hexDigit (m % 16)) = some (m % 16) := fun m =>
    hexDigit?_hexDigit (Nat.mod_lt m (by decide))
  have hsum : ((n / 4096 % 16 * 16 + n / 256 % 16) * 16 + n / 16 % 16) * 16 + n % 16 = n := by
    omega
  simp only [ofHex?, hdigit, Option.bind_eq_bind, Option.bind_some, hsum]

/-- A control character is the piece of its own number. -/
theorem ofUnit_control {c : Char} (hc : c.toNat < 0x20) : ofUnit c.toNat = .char c := by
  rw [ofUnit, if_neg (by omega), if_neg (by omega), Char.ofNat_toNat]

/-- Half a pair is the piece of the number it is escaped by. -/
theorem ofUnit_half (high : Bool) (bits : Fin 1024) :
    ofUnit ((if high then 0xD800 else 0xDC00) + bits.val) = .half high bits := by
  have hbits := bits.isLt
  have hsame : ∀ base : Nat, Fin.ofNat 1024 (base + bits.val - base) = bits := by
    intro base
    ext
    rw [Nat.add_sub_cancel_left]
    exact Nat.mod_eq_of_lt hbits
  cases high
  · rw [if_neg Bool.false_ne_true, ofUnit, if_neg (by omega), if_pos (by omega), hsame]
  · rw [if_pos rfl, ofUnit, if_pos (by omega), hsame]

/-- How a piece may be spelled: a character as itself, unless it has to be escaped, or by its short
escape, and any piece by the four digits of its unit, in either case. -/
inductive Spells : List Char → Piece → Prop
  | self {c : Char} (hquote : c ≠ '"') (hslash : c ≠ '\\') (hc : 0x20 ≤ c.toNat) :
    Spells [c] (.char c)
  | short {e c : Char} (he : shortEscape? e = some c) : Spells ['\\', e] (.char c)
  | digits {a b c d : Char} {p : Piece} (hp : ofHex? a b c d = some p) :
    Spells ['\\', 'u', a, b, c, d] p

theorem spells_escapeUnit {n : Nat} (hn : n < 0x10000) : Spells (escapeUnit n) (ofUnit n) :=
  .digits (ofHex?_hexDigit hn)

/-- The written form of a piece is a spelling of it. -/
theorem spells_write (p : Piece) : Spells p.write p := by
  cases p with
  | half high bits =>
    have hbits := bits.isLt
    rw [write, ← ofUnit_half]
    exact spells_escapeUnit (by split <;> omega)
  | char c =>
    simp only [write]
    -- The seven short escapes come first, then the other control characters.
    split_ifs with hquote hslash hback hfeed hline hreturn htab hcontrol
    iterate 7
      · subst_vars
        exact .short rfl
    · rw [← ofUnit_control hcontrol]
      exact spells_escapeUnit (by omega)
    · exact .self hquote hslash (by omega)

/-- Control characters are never written as they are. -/
theorem toNat_of_mem_write {p : Piece} {c : Char} (hc : c ∈ p.write) : 0x20 ≤ c.toNat := by
  have hunit : ∀ {n : Nat}, c ∈ escapeUnit n → 0x20 ≤ c.toNat := by
    intro n hn
    have hdigit : ∀ m, 0x20 ≤ (hexDigit (m % 16)).toNat := fun m =>
      le_toNat_hexDigit (Nat.mod_lt m (by decide))
    simp only [escapeUnit, List.mem_cons, List.not_mem_nil, or_false] at hn
    rcases hn with rfl | rfl | rfl | rfl | rfl | rfl
    · decide
    · decide
    all_goals exact hdigit _
  have hpair : ∀ {d e : Char}, 0x20 ≤ d.toNat → 0x20 ≤ e.toNat → c ∈ [d, e] → 0x20 ≤ c.toNat := by
    intro d e hd he hc
    rcases List.mem_pair.mp hc with rfl | rfl
    · exact hd
    · exact he
  cases p with
  | half high bits => exact hunit hc
  | char d =>
    simp only [write] at hc
    split_ifs at hc
    iterate 7 exact hpair (by decide) (by decide) hc
    · exact hunit hc
    · rw [List.mem_singleton.mp hc]
      omega

end Piece

namespace Literal

/-- How a literal may be spelled between its quotes. -/
inductive Spells : List Char → Literal → Prop
  | nil : Spells [] []
  | cons {s rest : List Char} {p : Piece} {l : Literal} (hp : Piece.Spells s p)
    (hl : Spells rest l) : Spells (s ++ rest) (p :: l)

/-- The written form of a literal is a spelling of it. -/
theorem spells_flatMap_write (l : Literal) : Spells (l.flatMap Piece.write) l := by
  induction l with
  | nil => exact .nil
  | cons p l ih => exact .cons p.spells_write ih

/-- The escape of a unit is read as its piece. -/
theorem readBody_digits {a b c d : Char} {p : Piece} (hp : Piece.ofHex? a b c d = some p)
    (rest : List Char) :
    readBody ('\\' :: 'u' :: a :: b :: c :: d :: rest) =
      (readBody rest).map fun r => (p :: r.1, r.2) := by
  simp only [readBody, hp, Option.bind_eq_bind, Option.bind_some]
  cases readBody rest <;> rfl

/-- The escape with one letter is read as the character it stands for. -/
theorem readBody_shortEscape {e c : Char} (he : Piece.shortEscape? e = some c)
    (rest : List Char) :
    readBody ('\\' :: e :: rest) = (readBody rest).map fun r => (.char c :: r.1, r.2) := by
  have hu : e ≠ 'u' := by
    rintro rfl
    cases he
  rw [readBody]
  · rw [he]
    cases readBody rest <;> rfl
  · exact fun _ _ _ _ _ heq => absurd heq hu

/-- A character that needs no escape is read as itself. -/
theorem readBody_self {c : Char} (hquote : c ≠ '"') (hslash : c ≠ '\\') (hc : ¬c.toNat < 0x20)
    (rest : List Char) :
    readBody (c :: rest) = (readBody rest).map fun r => (.char c :: r.1, r.2) := by
  rw [readBody]
  · rw [if_neg (by simp [hslash, hc])]
    cases readBody rest <;> rfl
  · rintro rfl
    exact hquote rfl
  · rintro _ _ _ _ _ rfl
    exact absurd rfl hslash
  · rintro _ _ rfl
    exact absurd rfl hslash

/-- A piece is read from any spelling, whatever follows it. -/
theorem readBody_of_spells {s : List Char} {p : Piece} (hp : Piece.Spells s p)
    (rest : List Char) :
    readBody (s ++ rest) = (readBody rest).map fun r => (p :: r.1, r.2) := by
  cases hp with
  | self hquote hslash hc => exact readBody_self hquote hslash (by omega) rest
  | short he => exact readBody_shortEscape he rest
  | digits hp => exact readBody_digits hp rest

/-- A literal is read from any spelling up to its closing quote. -/
theorem Spells.readBody_append {s : List Char} {l : Literal} (hl : Spells s l)
    (rest : List Char) : readBody (s ++ '"' :: rest) = some (l, rest) := by
  induction hl with
  | nil => rfl
  | cons hp _ ih => rw [List.append_assoc, readBody_of_spells hp, ih, Option.map_some]

end Literal

namespace Token

/-- Whether a token is a number. -/
def isNumber : Token → Bool
  | .number _ => true
  | _ => false

/-- A number has to be spelled as one; every other token is spelled in its own way. -/
def IsSpelled : Token → Prop
  | .number spelling => readNumber spelling = some (spelling, [])
  | _ => True

/-- How a token may be spelled. -/
inductive Spells : List Char → Token → Prop
  | openList : Spells ['['] .openList
  | closeList : Spells [']'] .closeList
  | openRecord : Spells ['\x7b'] .openRecord
  | closeRecord : Spells ['\x7d'] .closeRecord
  | comma : Spells [','] .comma
  | colon : Spells [':'] .colon
  | null : Spells ['n', 'u', 'l', 'l'] .null
  | true : Spells ['t', 'r', 'u', 'e'] (.bool .true)
  | false : Spells ['f', 'a', 'l', 's', 'e'] (.bool .false)
  | number {s : List Char} (hs : IsNumeral s) : Spells s (.number s)
  | text {s : List Char} {l : Literal} (hl : Literal.Spells s l) :
    Spells ('"' :: (s ++ ['"'])) (.text l)

/-- The written form of a token is a spelling of it. -/
theorem spells_write {t : Token} (ht : t.IsSpelled) : Spells t.write t := by
  cases t with
  | number spelling => exact .number (readNumber_eq_self_iff.mp ht)
  | text l => exact .text l.spells_flatMap_write
  | bool b =>
    cases b
    · exact .false
    · exact .true
  | openList => exact .openList
  | closeList => exact .closeList
  | openRecord => exact .openRecord
  | closeRecord => exact .closeRecord
  | comma => exact .comma
  | colon => exact .colon
  | null => exact .null

/-- A sign or a digit is no character of another kind. -/
theorem ne_of_head {c d : Char} (hc : c = '-' ∨ c.isDigit = true) (hminus : d ≠ '-')
    (hdigit : d.isDigit = false) : c ≠ d := by
  rintro rfl
  rcases hc with rfl | hc
  · exact hminus rfl
  · rw [hdigit] at hc
    cases hc

/-- What begins with a sign or a digit is read as a number. -/
theorem read_eq_readNumber {c : Char} (hc : c = '-' ∨ c.isDigit = true) (rest : List Char) :
    read (c :: rest) =
      (readNumber (c :: rest)).map fun r => (.number r.1, r.2) := by
  rw [read]
  all_goals
    intro _ heq
    exact ne_of_head hc (by decide) (by decide) (List.head_eq_of_cons_eq heq)

/-- A token is read from any spelling, if a number is followed by something that does not go on
with it. -/
theorem Spells.read_append {s : List Char} {t : Token} (ht : Spells s t) {rest : List Char}
    (hrest : t.isNumber = .true → extends? rest = .false) : read (s ++ rest) = some (t, rest) := by
  cases ht with
  | number hs =>
    have happend := readNumber_append hs (hrest rfl)
    obtain ⟨c, s, rfl, hc⟩ := hs.head
    rw [List.cons_append] at happend
    rw [List.cons_append, read_eq_readNumber hc, happend]
    rfl
  | text hl =>
    rw [List.cons_append, List.append_assoc, List.singleton_append, read, hl.readBody_append,
      Option.map_some]
  | _ => rfl

/-- A spelling of a token begins neither with a blank nor, unless it is a number, with something
that goes on with a number. -/
theorem Spells.head {s : List Char} {t : Token} (ht : Spells s t) :
    ∃ c r, s = c :: r ∧ isBlank c = .false ∧
      (t.isNumber = .false → ∀ rest, extends? (c :: rest) = .false) := by
  cases ht with
  | number hs =>
    obtain ⟨c, r, rfl, hc⟩ := hs.head
    refine ⟨c, r, rfl, ?_, fun h => Bool.noConfusion h⟩
    have hne := fun d hminus hdigit => ne_of_head hc (d := d) hminus hdigit
    simp [isBlank, hne]
  | _ => exact ⟨_, _, rfl, rfl, fun _ _ => rfl⟩

/-- No token but a number has a control character. -/
theorem toNat_of_mem_write {t : Token} (ht : t.isNumber = false) {c : Char} (hc : c ∈ t.write) :
    0x20 ≤ c.toNat := by
  have hword : ∀ {s : List Char}, s.all (fun d => 0x20 ≤ d.toNat) = true → c ∈ s →
      0x20 ≤ c.toNat := fun hs hm => of_decide_eq_true (List.all_eq_true.mp hs c hm)
  cases t with
  | number spelling => cases ht
  | text l =>
    simp only [write, Literal.write, List.mem_cons, List.mem_append, List.mem_flatMap,
      List.not_mem_nil, or_false] at hc
    rcases hc with rfl | ⟨p, -, hp⟩ | rfl
    · decide
    · exact Piece.toNat_of_mem_write hp
    · decide
  | bool b => cases b <;> exact hword (by decide) hc
  | openList | closeList | openRecord | closeRecord | comma | colon | null =>
    exact hword (by decide) hc

/-- How tokens may be laid out: each in one of its spellings, with any blanks after it. -/
inductive Lays : List Char → List Token → Prop
  | nil : Lays [] []
  | cons {s blanks rest : List Char} {t : Token} {ts : List Token} (ht : Spells s t)
    (hblanks : ∀ c ∈ blanks, isBlank c = true) (hts : Lays rest ts) :
    Lays (s ++ (blanks ++ rest)) (t :: ts)

/-- Only one of two neighbours is a number. -/
def Parts (t u : Token) : Prop := t.isNumber = true → u.isNumber = false

/-- Blanks at the start of a text are skipped. -/
theorem readAll_blanks {blanks : List Char} (hblanks : ∀ c ∈ blanks, isBlank c = true)
    (rest : List Char) : readAll (blanks ++ rest) = readAll rest := by
  rw [readAll, readAll.eq_1 rest, List.dropWhile_append_of_pos hblanks]

/-- The token at the start of a text is followed by the tokens of the rest. -/
theorem readAll_cons {t : Token} {c : Char} {s rest : List Char} (hc : isBlank c = false)
    (ht : read (c :: s) = some (t, rest)) : readAll (c :: s) = (readAll rest).map (t :: ·) := by
  have hdrop : (c :: s).dropWhile isBlank = c :: s := by simp [hc]
  rw [readAll, hdrop]
  simp only
  split
  · rename_i hnone
    rw [ht] at hnone
    cases hnone
  · rename_i hsome
    rw [ht] at hsome
    cases hsome
    rfl

/-- Blanks go on with no number, so what follows a number may be set off by them. -/
theorem extends?_blanks_append {blanks rest : List Char} (hblanks : ∀ c ∈ blanks, isBlank c = true)
    (hrest : extends? rest = false) : extends? (blanks ++ rest) = false := by
  cases blanks with
  | nil => exact hrest
  | cons c blanks =>
    have hc := hblanks c List.mem_cons_self
    simp only [isBlank, Bool.or_eq_true, decide_eq_true_eq] at hc
    rcases hc with ((rfl | rfl) | rfl) | rfl <;> rfl

/-- What is laid out goes on with no number, if it does not begin with one. -/
theorem Lays.extends?_eq_false {s : List Char} {ts : List Token} (hs : Lays s ts)
    (hhead : ∀ t ∈ ts.head?, t.isNumber = false) : extends? s = false := by
  cases hs with
  | nil => rfl
  | cons ht _ _ =>
    obtain ⟨c, r, rfl, -, hextends⟩ := ht.head
    exact hextends (hhead _ rfl) _

/-- A text is cut into the tokens laid out in it, if only one of two neighbours is a number. -/
theorem Lays.readAll_eq {s : List Char} {ts : List Token} (hs : Lays s ts)
    (hparts : ts.IsChain Parts) : readAll s = some ts := by
  induction hs with
  | nil =>
    rw [readAll]
    rfl
  | @cons s blanks rest t ts ht hblanks hts ih =>
    rw [List.isChain_cons] at hparts
    have hnext : t.isNumber = true → extends? (blanks ++ rest) = false := fun hnumber =>
      extends?_blanks_append hblanks (hts.extends?_eq_false fun u hu => hparts.1 u hu hnumber)
    have hread : read (s ++ (blanks ++ rest)) = some (t, blanks ++ rest) := ht.read_append hnext
    obtain ⟨c, r, rfl, hc, -⟩ := ht.head
    rw [List.cons_append] at hread ⊢
    rw [readAll_cons hc hread, readAll_blanks hblanks, ih hparts.2]
    rfl

/-- Tokens are laid out by their written forms with the same blanks after each of them. -/
theorem lays_flatMap_write {ts : List Token} {blanks : List Char}
    (hblanks : ∀ c ∈ blanks, isBlank c = true) (hspelled : ∀ t ∈ ts, t.IsSpelled) :
    Lays (ts.flatMap fun t => t.write ++ blanks) ts := by
  induction ts with
  | nil => exact .nil
  | cons t ts ih =>
    rw [List.forall_mem_cons] at hspelled
    rw [List.flatMap_cons, List.append_assoc]
    exact .cons (spells_write hspelled.1) hblanks (ih hspelled.2)

end Token

end ToastBoard
