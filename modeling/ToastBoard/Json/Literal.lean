/-!
# String literals

The text between the quotes of a string literal, as a list of pieces. A piece is a character or
one half of a surrogate pair that was written as an escape: a half without its partner is well
formed as a literal but stands for no text, so reading a literal and asking for its text are two
steps. Writing uses the short escapes, lower-case `\u00xx` for the other control characters, and
leaves everything else as it is.
-/

namespace ToastBoard

/-- One piece of the text inside a string literal. -/
inductive Piece where
  /-- A character, written as itself or as an escape. -/
  | char (c : Char)
  /-- Half of a surrogate pair: which half, and its ten bits. -/
  | half (high : Bool) (bits : Fin 1024)
  deriving DecidableEq, Repr

/-- What stands between the quotes of a string literal. -/
abbrev Literal := List Piece

/-- The value of a hexadecimal digit, in either case. -/
def hexDigit? (c : Char) : Option Nat :=
  if '0' ≤ c ∧ c ≤ '9' then some (c.toNat - '0'.toNat)
  else if 'a' ≤ c ∧ c ≤ 'f' then some (c.toNat - 'a'.toNat + 10)
  else if 'A' ≤ c ∧ c ≤ 'F' then some (c.toNat - 'A'.toNat + 10)
  else none

/-- The lower-case hexadecimal digit of a value below sixteen. -/
def hexDigit (n : Nat) : Char :=
  if n < 10 then Char.ofNat ('0'.toNat + n) else Char.ofNat ('a'.toNat + (n - 10))

namespace Piece

/-- The piece that a sixteen-bit escape stands for. -/
def ofUnit (n : Nat) : Piece :=
  if 0xD800 ≤ n ∧ n < 0xDC00 then .half true (Fin.ofNat 1024 (n - 0xD800))
  else if 0xDC00 ≤ n ∧ n < 0xE000 then .half false (Fin.ofNat 1024 (n - 0xDC00))
  else .char (Char.ofNat n)

/-- The piece of the escape with these four hexadecimal digits. -/
def ofHex? (a b c d : Char) : Option Piece := do
  let a ← hexDigit? a
  let b ← hexDigit? b
  let c ← hexDigit? c
  let d ← hexDigit? d
  some (ofUnit (((a * 16 + b) * 16 + c) * 16 + d))

/-- The escape of a sixteen-bit unit, with four lower-case digits. -/
def escapeUnit (n : Nat) : List Char :=
  ['\\', 'u', hexDigit (n / 4096 % 16), hexDigit (n / 256 % 16), hexDigit (n / 16 % 16),
    hexDigit (n % 16)]

/-- The character that a one-letter escape stands for. -/
def shortEscape? : Char → Option Char
  | '"' => some '"'
  | '\\' => some '\\'
  | '/' => some '/'
  | 'b' => some '\x08'
  | 'f' => some '\x0c'
  | 'n' => some '\n'
  | 'r' => some '\r'
  | 't' => some '\t'
  | _ => none

/-- The written form of a piece: quote, backslash and control characters are escaped, and half a
pair can only be an escape. -/
def write : Piece → List Char
  | .char c =>
    if c = '"' then ['\\', '"']
    else if c = '\\' then ['\\', '\\']
    else if c = '\x08' then ['\\', 'b']
    else if c = '\x0c' then ['\\', 'f']
    else if c = '\n' then ['\\', 'n']
    else if c = '\r' then ['\\', 'r']
    else if c = '\t' then ['\\', 't']
    else if c.toNat < 0x20 then escapeUnit c.toNat
    else [c]
  | .half high bits => escapeUnit ((if high then 0xD800 else 0xDC00) + bits.val)

end Piece

namespace Literal

/-- The literal whose pieces are the characters of `s`. -/
def ofString (s : String) : Literal := s.toList.map .char

/-- Joins each pair of halves; nothing if a half stands alone. -/
def chars? : Literal → Option (List Char)
  | [] => some []
  | .char c :: rest => (chars? rest).map (c :: ·)
  | .half true high :: .half false low :: rest =>
    (chars? rest).map (Char.ofNat (0x10000 + high.val * 0x400 + low.val) :: ·)
  | _ => none

/-- The text of a literal, if it stands for one. -/
def text? (l : Literal) : Option String := (chars? l).map String.ofList

/-- Reads pieces up to the closing quote, and returns what follows it. A control character must be
escaped. -/
def readBody : List Char → Option (Literal × List Char)
  | [] => none
  | '"' :: rest => some ([], rest)
  | '\\' :: 'u' :: a :: b :: c :: d :: rest => do
    let piece ← Piece.ofHex? a b c d
    let (pieces, rest) ← readBody rest
    some (piece :: pieces, rest)
  | '\\' :: e :: rest => do
    let c ← Piece.shortEscape? e
    let (pieces, rest) ← readBody rest
    some (.char c :: pieces, rest)
  | c :: rest =>
    if c = '\\' ∨ c.toNat < 0x20 then none
    else do
      let (pieces, rest) ← readBody rest
      some (.char c :: pieces, rest)

/-- The written form of a literal, with its quotes. -/
def write (l : Literal) : List Char := '"' :: (l.flatMap Piece.write ++ ['"'])

theorem text?_ofString (s : String) : text? (ofString s) = some s := by
  have chars (cs : List Char) : chars? (cs.map .char) = some cs := by
    induction cs with
    | nil => rfl
    | cons c cs ih => simp [chars?, ih]
  simp [text?, ofString, chars]

/-- Reading consumes at least the closing quote. -/
theorem length_of_readBody {s rest : List Char} {l : Literal}
    (h : readBody s = some (l, rest)) : rest.length < s.length := by
  fun_induction readBody s generalizing l rest with
  | case1 => simp at h
  | case2 r => simp_all
  | case3 a b c d r ih =>
    simp only [Option.bind_eq_bind, Option.bind_eq_some_iff, Option.some.injEq,
      Prod.mk.injEq] at h
    obtain ⟨_, _, ⟨_, _⟩, hr, _, rfl⟩ := h
    have := ih hr
    simp only [List.length_cons]
    omega
  | case4 e r _ ih =>
    simp only [Option.bind_eq_bind, Option.bind_eq_some_iff, Option.some.injEq,
      Prod.mk.injEq] at h
    obtain ⟨_, _, ⟨_, _⟩, hr, _, rfl⟩ := h
    have := ih hr
    simp only [List.length_cons]
    omega
  | case5 => simp at h
  | case6 c r _ _ _ _ ih =>
    simp only [Option.bind_eq_bind, Option.bind_eq_some_iff, Option.some.injEq,
      Prod.mk.injEq] at h
    obtain ⟨⟨_, _⟩, hr, _, rfl⟩ := h
    have := ih hr
    simp only [List.length_cons]
    omega

end Literal

end ToastBoard
