import ToastBoard.Json.Literal

/-!
# Tokens

A text is cut into tokens before it is read as a value, so blanks between tokens matter only
here. Cutting is strict: blanks are space, tab, line feed and carriage return, a number has no
leading zero and no bare sign, point or exponent.
-/

namespace ToastBoard

/-- The smallest units of a text. -/
inductive Token where
  /-- Opens a list. -/
  | openList
  /-- Closes a list. -/
  | closeList
  /-- Opens a record. -/
  | openRecord
  /-- Closes a record. -/
  | closeRecord
  /-- Separates items or members. -/
  | comma
  /-- Separates a key from its value. -/
  | colon
  /-- The absent value. -/
  | null
  /-- A truth value. -/
  | bool (b : Bool)
  /-- A number, as it is spelled. -/
  | number (spelling : List Char)
  /-- A string literal. -/
  | text (l : Literal)
  deriving DecidableEq, Repr

namespace Token

/-- The characters that may stand between tokens. -/
def isBlank (c : Char) : Bool := c = ' ' || c = '\t' || c = '\n' || c = '\r'

/-- Reads one or more digits. -/
def readDigits (s : List Char) : Option (List Char × List Char) :=
  if (s.takeWhile Char.isDigit).isEmpty then none
  else some (s.takeWhile Char.isDigit, s.dropWhile Char.isDigit)

/-- Reads the digits before the point: a zero alone, or digits that start with another. -/
def readWhole : List Char → Option (List Char × List Char)
  | '0' :: rest => some (['0'], rest)
  | s => readDigits s

/-- Reads a point and the digits after it, if there is a point. -/
def readFraction : List Char → Option (List Char × List Char)
  | '.' :: rest => (readDigits rest).map fun (ds, rest) => ('.' :: ds, rest)
  | s => some ([], s)

/-- Reads the digits of an exponent, with an optional sign before them. -/
def readSigned : List Char → Option (List Char × List Char)
  | '+' :: rest => (readDigits rest).map fun (ds, rest) => ('+' :: ds, rest)
  | '-' :: rest => (readDigits rest).map fun (ds, rest) => ('-' :: ds, rest)
  | s => readDigits s

/-- Reads an exponent, if there is one. -/
def readExponent : List Char → Option (List Char × List Char)
  | 'e' :: rest => (readSigned rest).map fun (ds, rest) => ('e' :: ds, rest)
  | 'E' :: rest => (readSigned rest).map fun (ds, rest) => ('E' :: ds, rest)
  | s => some ([], s)

/-- Reads a number without its sign. -/
def readMagnitude (s : List Char) : Option (List Char × List Char) := do
  let (whole, s) ← readWhole s
  let (fraction, s) ← readFraction s
  let (exponent, s) ← readExponent s
  some (whole ++ fraction ++ exponent, s)

/-- Reads a number and returns its spelling. -/
def readNumber : List Char → Option (List Char × List Char)
  | '-' :: rest => (readMagnitude rest).map fun (ds, rest) => ('-' :: ds, rest)
  | s => readMagnitude s

/-- Reads the token at the start of a text that does not start with a blank. -/
def read : List Char → Option (Token × List Char)
  | '[' :: rest => some (.openList, rest)
  | ']' :: rest => some (.closeList, rest)
  | '\x7b' :: rest => some (.openRecord, rest)
  | '\x7d' :: rest => some (.closeRecord, rest)
  | ',' :: rest => some (.comma, rest)
  | ':' :: rest => some (.colon, rest)
  | 'n' :: 'u' :: 'l' :: 'l' :: rest => some (.null, rest)
  | 't' :: 'r' :: 'u' :: 'e' :: rest => some (.bool true, rest)
  | 'f' :: 'a' :: 'l' :: 's' :: 'e' :: rest => some (.bool false, rest)
  | '"' :: rest => (Literal.readBody rest).map fun (l, rest) => (.text l, rest)
  | s => (readNumber s).map fun (spelling, rest) => (.number spelling, rest)

/-- The written form of a token. -/
def write : Token → List Char
  | .openList => ['[']
  | .closeList => [']']
  | .openRecord => ['\x7b']
  | .closeRecord => ['\x7d']
  | .comma => [',']
  | .colon => [':']
  | .null => ['n', 'u', 'l', 'l']
  | .bool true => ['t', 'r', 'u', 'e']
  | .bool false => ['f', 'a', 'l', 's', 'e']
  | .number spelling => spelling
  | .text l => l.write

theorem length_of_readDigits {s ds rest : List Char} (h : readDigits s = some (ds, rest)) :
    rest.length < s.length := by
  unfold readDigits at h
  split at h
  · simp at h
  · rename_i hne
    simp only [Option.some.injEq, Prod.mk.injEq] at h
    obtain ⟨_, rfl⟩ := h
    have hs := congrArg List.length (List.takeWhile_append_dropWhile (p := Char.isDigit) (l := s))
    have : 0 < (s.takeWhile Char.isDigit).length :=
      List.length_pos_iff.2 fun hd => hne (by rw [hd]; rfl)
    simp only [List.length_append] at hs
    omega

theorem length_of_readWhole {s ds rest : List Char} (h : readWhole s = some (ds, rest)) :
    rest.length < s.length := by
  unfold readWhole at h
  split at h
  · simp_all
  · exact length_of_readDigits h

theorem length_of_readFraction {s ds rest : List Char} (h : readFraction s = some (ds, rest)) :
    rest.length ≤ s.length := by
  unfold readFraction at h
  split at h
  · simp only [Option.map_eq_some_iff] at h
    obtain ⟨⟨_, _⟩, hd, he⟩ := h
    cases he
    have := length_of_readDigits hd
    simp only [List.length_cons]
    omega
  · simp_all

theorem length_of_readSigned {s ds rest : List Char} (h : readSigned s = some (ds, rest)) :
    rest.length ≤ s.length := by
  unfold readSigned at h
  split at h
  iterate 2
    · simp only [Option.map_eq_some_iff] at h
      obtain ⟨⟨_, _⟩, hd, he⟩ := h
      cases he
      have := length_of_readDigits hd
      simp only [List.length_cons]
      omega
  · exact Nat.le_of_lt (length_of_readDigits h)

theorem length_of_readExponent {s ds rest : List Char} (h : readExponent s = some (ds, rest)) :
    rest.length ≤ s.length := by
  unfold readExponent at h
  split at h
  iterate 2
    · simp only [Option.map_eq_some_iff] at h
      obtain ⟨⟨_, _⟩, hd, he⟩ := h
      cases he
      have := length_of_readSigned hd
      simp only [List.length_cons]
      omega
  · simp_all

theorem length_of_readMagnitude {s ds rest : List Char} (h : readMagnitude s = some (ds, rest)) :
    rest.length < s.length := by
  simp only [readMagnitude, Option.bind_eq_bind, Option.bind_eq_some_iff, Option.some.injEq,
    Prod.mk.injEq] at h
  obtain ⟨⟨_, _⟩, hw, ⟨_, _⟩, hf, ⟨_, _⟩, he, _, rfl⟩ := h
  exact Nat.lt_of_le_of_lt
    (Nat.le_trans (length_of_readExponent he) (length_of_readFraction hf)) (length_of_readWhole hw)

theorem length_of_readNumber {s ds rest : List Char} (h : readNumber s = some (ds, rest)) :
    rest.length < s.length := by
  unfold readNumber at h
  split at h
  · simp only [Option.map_eq_some_iff] at h
    obtain ⟨⟨_, _⟩, hd, he⟩ := h
    cases he
    have := length_of_readMagnitude hd
    simp only [List.length_cons]
    omega
  · exact length_of_readMagnitude h

/-- Every token takes at least one character. -/
theorem length_of_read {s rest : List Char} {t : Token} (h : read s = some (t, rest)) :
    rest.length < s.length := by
  unfold read at h
  split at h
  case h_10 r =>
    simp only [Option.map_eq_some_iff] at h
    obtain ⟨⟨_, _⟩, hd, he⟩ := h
    cases he
    have := Literal.length_of_readBody hd
    simp only [List.length_cons]
    omega
  case h_11 =>
    simp only [Option.map_eq_some_iff] at h
    obtain ⟨⟨_, _⟩, hd, he⟩ := h
    cases he
    exact length_of_readNumber hd
  all_goals
    simp only [Option.some.injEq, Prod.mk.injEq] at h
    obtain ⟨_, rfl⟩ := h
    simp only [List.length_cons]
    omega

/-- Cuts a whole text into tokens, dropping the blanks between them. -/
def readAll (s : List Char) : Option (List Token) :=
  match _hs : s.dropWhile isBlank with
  | [] => some []
  | c :: r =>
    match _ht : read (c :: r) with
    | none => none
    | some (t, rest) => (readAll rest).map (t :: ·)
termination_by s.length
decreasing_by
  have hr := length_of_read _ht
  have hd := congrArg List.length (List.takeWhile_append_dropWhile (p := isBlank) (l := s))
  simp only [List.length_append, _hs] at hd
  omega

end Token

end ToastBoard
