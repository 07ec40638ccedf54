import Mathlib.Data.List.Infix
import ToastBoard.Proofs.Legible

/-!
# Reading markup as XML

A reader of XML 1.0, as far as payloads go: elements with attributes and texts, without
declarations, comments, instructions and sections of other kinds. It refuses every text with a
character that XML does not allow. It takes each line end for a line feed before it looks at
anything else, and white space in the value of an attribute for blanks, unless that is written as a
reference. Tags have to be nested in one element, and no attribute may come twice in a tag.
-/

namespace ToastBoard.Xml

open Markup (Part escape escapeChar writeAttribute writeTags piece)

/-- The characters that XML allows: tab, line feed, carriage return and everything from the blank on
but surrogates and the last two of the first plane. -/
def isChar (c : Char) : Bool :=
  c = '\t' || c = '\n' || c = '\r' || (0x20 ≤ c.toNat && c.toNat ≠ 0xFFFE && c.toNat ≠ 0xFFFF)

/-- White space. -/
def isSpace (c : Char) : Bool := c = ' ' || c = '\t' || c = '\n' || c = '\r'

/-- Where the characters lie with which a name may begin. -/
def nameStarts : List (Nat × Nat) :=
  [(0x3A, 0x3A), (0x41, 0x5A), (0x5F, 0x5F), (0x61, 0x7A), (0xC0, 0xD6), (0xD8, 0xF6),
    (0xF8, 0x2FF), (0x370, 0x37D), (0x37F, 0x1FFF), (0x200C, 0x200D), (0x2070, 0x218F),
    (0x2C00, 0x2FEF), (0x3001, 0xD7FF), (0xF900, 0xFDCF), (0xFDF0, 0xFFFD), (0x10000, 0xEFFFF)]

/-- Where the characters lie with which a name may go on besides. -/
def nameFollowers : List (Nat × Nat) :=
  [(0x2D, 0x2E), (0x30, 0x39), (0xB7, 0xB7), (0x300, 0x36F), (0x203F, 0x2040)]

/-- Whether a character lies in one of some ranges. -/
def liesIn (ranges : List (Nat × Nat)) (c : Char) : Bool :=
  ranges.any fun r => r.1 ≤ c.toNat && c.toNat ≤ r.2

/-- Whether a name may begin with a character. -/
def isNameStart (c : Char) : Bool := liesIn nameStarts c

/-- Whether a name may have a character. -/
def isNameChar (c : Char) : Bool := liesIn (nameStarts ++ nameFollowers) c

/-- Takes each line end for a line feed. -/
def foldLines : List Char → List Char
  | '\r' :: '\n' :: rest => '\n' :: foldLines rest
  | '\r' :: rest => '\n' :: foldLines rest
  | c :: rest => c :: foldLines rest
  | [] => []

/-- The number that is spelled by digits to a base. -/
def number? (base : Nat) : List Char → Option Nat
  | [] => none
  | digits => digits.foldlM (fun n c => do
      let d ← hexDigit? c
      if d < base then some (n * base + d) else none) 0

/-- The character of a number, if XML allows it. -/
def charOf? (n : Nat) : Option Char :=
  if n.isValidChar && isChar (Char.ofNat n) then some (Char.ofNat n) else none

/-- What a reference stands for: one of the five characters with a name, or the character of a
number. -/
def reference? : List Char → Option Char
  | ['a', 'm', 'p'] => some '&'
  | ['l', 't'] => some '<'
  | ['g', 't'] => some '>'
  | ['q', 'u', 'o', 't'] => some '"'
  | ['a', 'p', 'o', 's'] => some '\''
  | '#' :: 'x' :: digits => (number? 16 digits).bind charOf?
  | '#' :: digits => (number? 10 digits).bind charOf?
  | _ => none

/-- Resolves the references in a text, and changes its other characters; `pending` is what was seen
of a reference, last character first. -/
def expand (change : Char → Char) (pending : Option (List Char)) : List Char → Option (List Char)
  | [] => if pending.isNone then some [] else none
  | c :: rest =>
    match pending with
    | none =>
      if c = '&' then expand change (some []) rest
      else (expand change none rest).map (change c :: ·)
    | some name =>
      if c = ';' then do some ((← reference? name.reverse) :: (← expand change none rest))
      else expand change (some (c :: name)) rest

/-- A text: it has no end of a section. -/
def content? (written : List Char) : Option String :=
  if [']', ']', '>'] <:+: written then none
  else (expand id none written).map String.ofList

/-- White space in the value of an attribute becomes a blank. -/
def blank (c : Char) : Char := if isSpace c then ' ' else c

/-- The value of an attribute. -/
def value? (written : List Char) : Option String :=
  (expand blank none written).map String.ofList

/-- Reads a name. -/
def readName? (s : List Char) : Option (String × List Char) :=
  if (s.takeWhile isNameChar).head?.any isNameStart then
    some (String.ofList (s.takeWhile isNameChar), s.dropWhile isNameChar)
  else none

/-- Reads a value up to the quote that closes it. -/
def readValue? (quote : Char) (s : List Char) : Option (String × List Char) :=
  match s.dropWhile (· ≠ quote) with
  | [] => none
  | _ :: rest => (value? (s.takeWhile (· ≠ quote))).map (·, rest)

/-- Reads a name and a value between quotes of either kind. -/
def readAttribute? (s : List Char) : Option ((String × String) × List Char) := do
  let (key, rest) ← readName? s
  match rest.dropWhile isSpace with
  | '=' :: rest =>
    match rest.dropWhile isSpace with
    | '"' :: rest => (readValue? '"' rest).map fun (value, rest) => ((key, value), rest)
    | '\'' :: rest => (readValue? '\'' rest).map fun (value, rest) => ((key, value), rest)
    | _ => none
  | _ => none

section Lengths

variable {s rest : List Char}

theorem length_of_readName? {name : String} (h : readName? s = some (name, rest)) :
    rest.length ≤ s.length := by
  unfold readName? at h
  split at h
  · cases h
    exact (List.dropWhile_suffix _).length_le
  · cases h

theorem length_of_readValue? {quote : Char} {value : String}
    (h : readValue? quote s = some (value, rest)) : rest.length < s.length := by
  unfold readValue? at h
  split at h
  · cases h
  · rename_i c r hs
    obtain ⟨v, -, he⟩ := Option.map_eq_some_iff.mp h
    cases he
    have hd := (List.dropWhile_suffix (l := s) (· ≠ quote)).length_le
    rw [hs, List.length_cons] at hd
    omega

theorem length_of_readAttribute? {a : String × String}
    (h : readAttribute? s = some (a, rest)) : rest.length < s.length := by
  simp only [readAttribute?, Option.bind_eq_bind, Option.bind_eq_some_iff] at h
  obtain ⟨⟨key, r⟩, hname, h⟩ := h
  have hn := length_of_readName? hname
  have hr := (List.dropWhile_suffix (l := r) isSpace).length_le
  split at h
  · rename_i r' hr'
    have hd := (List.dropWhile_suffix (l := r') isSpace).length_le
    rw [hr', List.length_cons] at hr
    split at h
    case h_3 => cases h
    all_goals
      rename_i hq
      obtain ⟨⟨v, tail⟩, hv, he⟩ := Option.map_eq_some_iff.mp h
      obtain rfl : tail = rest := congrArg (·.2) he
      have hl := length_of_readValue? hv
      rw [hq, List.length_cons] at hd
      omega
  · cases h

end Lengths

/-- Reads the attributes of a tag up to its end, each behind white space and none twice. -/
def readAttributes? (s : List Char) : Option (List (String × String) × List Char) :=
  match _hs : s.dropWhile isSpace with
  | [] => none
  | c :: r =>
    if c = '>' || c = '/' then some ([], c :: r)
    else if !s.head?.any isSpace then none
    else
      match _ha : readAttribute? (c :: r) with
      | none => none
      | some (a, rest) =>
        (readAttributes? rest).bind fun (as, rest) =>
          if a.1 ∈ as.map (·.1) then none else some (a :: as, rest)
termination_by s.length
decreasing_by
  have hr := length_of_readAttribute? _ha
  have hd := congrArg List.length (List.takeWhile_append_dropWhile (p := isSpace) (l := s))
  simp only [List.length_append, _hs] at hd
  omega

/-- Reads the end of a tag, which tells whether it has content. -/
def readEnd? (name : String) (attributes : List (String × String)) :
    List Char → Option (Part × List Char)
  | '>' :: rest => some (.opening name attributes, rest)
  | '/' :: '>' :: rest => some (.empty name attributes, rest)
  | _ => none

/-- Reads a tag without the bracket in front. -/
def readTag? : List Char → Option (Part × List Char)
  | '/' :: s => do
    let (name, rest) ← readName? s
    match rest.dropWhile isSpace with
    | '>' :: rest => some (.closing name, rest)
    | _ => none
  | s => do
    let (name, rest) ← readName? s
    let (attributes, rest) ← readAttributes? rest
    readEnd? name attributes rest

/-- Reads a tag without the bracket in front, and the text after it. -/
def readPiece? (s : List Char) : Option (Part × String) := do
  let (tag, rest) ← readTag? s
  let text ← content? rest
  some (tag, text)

/-- Whether some tags, inside of some elements, close all elements in order and are one element in
all, with nothing but white space behind it. -/
def nests : List String → List (Part × String) → Bool
  | _, [] => false
  | within, (.opening name _, _) :: rest => nests (name :: within) rest
  | [], (.empty _ _, text) :: rest => rest.isEmpty && text.toList.all isSpace
  | within, (.empty _ _, _) :: rest => nests within rest
  | [name'], (.closing name, text) :: rest =>
    name = name' && rest.isEmpty && text.toList.all isSpace
  | name' :: within, (.closing name, _) :: rest => name = name' && nests within rest
  | [], (.closing _, _) :: _ => false
  | _, (.text _, _) :: _ => false

/-- Reads the tags of a document, with the text after each of them. -/
def read? (text : String) : Option (List (Part × String)) :=
  if text.toList.all isChar then
    match (foldLines text.toList).splitOn '<' with
    | [] => none
    | before :: pieces => do
      let tags ← pieces.mapM readPiece?
      if before.all isSpace && nests [] tags then some tags else none
  else none

end ToastBoard.Xml
