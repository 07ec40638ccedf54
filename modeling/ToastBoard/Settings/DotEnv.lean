import ToastBoard.Settings.Environment
import ToastBoard.Text.Alphanumeric

/-!
# Variables in a file

A file of assignments, one to a line, that completes an environment. A line may start with
`export`; blank lines and comments are skipped. A value ends at a blank, may be quoted strongly
(nothing has a meaning inside) or weakly (escapes and variables do), and may go on over the line's
end inside quotes. A variable that is already set to a text keeps its value. The first line that
is no assignment ends the reading, and so does the first one whose bytes are no UTF-8 text; what
stood before it counts. A value with a NUL cannot be assigned at all.
-/

namespace ToastBoard

namespace DotEnv

/-- The white space that may surround the parts of a line. -/
def isSpace (c : Char) : Bool :=
  (9 ≤ c.toNat && c.toNat ≤ 13) || c.toNat == 0x20 || c.toNat == 0x85 || c.toNat == 0xA0 ||
    c.toNat == 0x1680 || (0x2000 ≤ c.toNat && c.toNat ≤ 0x200A) || c.toNat == 0x2028 ||
    c.toNat == 0x2029 || c.toNat == 0x202F || c.toNat == 0x205F || c.toNat == 0x3000

/-- How far a line has come while its end is looked for. -/
inductive Scan where
  /-- Outside quotes. -/
  | plain
  /-- Outside quotes, after white space. -/
  | spaced
  /-- Outside quotes, after a backslash. -/
  | escaped
  /-- Inside single quotes. -/
  | strong
  /-- Inside single quotes, after a backslash. -/
  | strongEscaped
  /-- Inside double quotes. -/
  | weak
  /-- Inside double quotes, after a backslash. -/
  | weakEscaped
  deriving DecidableEq, Repr

/-- The effect of one character; nothing if a comment starts there. -/
def Scan.step : Scan → Char → Option Scan
  | .plain, c =>
    if isSpace c ∧ c ≠ '\n' ∧ c ≠ '\r' then some .spaced
    else if c = '\\' then some .escaped
    else if c = '"' then some .weak
    else if c = '\'' then some .strong
    else some .plain
  | .spaced, c =>
    if c = '#' then none
    else if c = '\\' then some .escaped
    else if c = '"' then some .weak
    else if c = '\'' then some .strong
    else some .plain
  | .escaped, _ => some .plain
  | .weak, c =>
    if c = '\\' then some .weakEscaped else if c = '"' then some .plain else some .weak
  | .weakEscaped, _ => some .weak
  | .strong, c =>
    if c = '\\' then some .strongEscaped else if c = '\'' then some .plain else some .strong
  | .strongEscaped, _ => some .strong

/-- Scans a line: what stands before its comment, and how far it has come, unless it has one. -/
def scanLine : Scan → List Char → List Char × Option Scan
  | scan, [] => ([], some scan)
  | scan, c :: rest =>
    match scan.step c with
    | none => ([], none)
    | some next => ((c :: (scanLine next rest).1), (scanLine next rest).2)

/-- Cuts a list after each end of a line. -/
def cutLines {α : Type} (isEnd : α → Bool) : List α → List (List α)
  | [] => []
  | c :: rest =>
    if isEnd c then [c] :: cutLines isEnd rest
    else
      match cutLines isEnd rest with
      | [] => [[c]]
      | line :: lines => (c :: line) :: lines

/-- The texts of lines, up to the first one that is no UTF-8 text. -/
def decodeLines : List (List UInt8) → List (List Char)
  | [] => []
  | line :: rest =>
    match String.fromUTF8? ⟨line.toArray⟩ with
    | none => []
    | some text => text.toList :: decodeLines rest

/-- Bytes without a byte order mark at their start. -/
def unmarked : List UInt8 → List UInt8
  | 0xEF :: 0xBB :: 0xBF :: rest => rest
  | bytes => bytes

/-- A line without the line feed at its end and a carriage return before that. -/
def chomp (line : List Char) : List Char :=
  match line.reverse with
  | '\n' :: '\r' :: rest => rest.reverse
  | '\n' :: rest => rest.reverse
  | _ => line

/-- Joins the lines that go on over their end. A line that the end of the text cuts short is
given as none. -/
def joinLines : List (List Char) → List Char → Scan → List (Option (List Char))
  | [], _, .plain => []
  | [], _, _ => [none]
  | line :: lines, before, scan =>
    if ((before ++ line).dropWhile isSpace).head? = some '#' then
      some [] :: joinLines lines [] .plain
    else
      match scanLine scan line with
      | (kept, none) => some (before ++ kept) :: joinLines lines [] .plain
      | (_, some .plain) => some (chomp (before ++ line)) :: joinLines lines [] .plain
      | (_, some next) => joinLines lines (before ++ line) next

/-- The lines of a file. -/
def lines (file : ByteArray) : List (Option (List Char)) :=
  joinLines (decodeLines (cutLines (· == 0x0A) (unmarked file.data.toList))) [] .plain

/-- How far a value has come. -/
inductive Progress where
  /-- Between characters that stand for themselves. -/
  | plain
  /-- After a backslash. -/
  | escaped
  /-- Inside single quotes. -/
  | strong
  /-- After a dollar sign and the letters of a name. -/
  | named (name : List Char)
  /-- After a dollar sign, a brace and the letters of a name. -/
  | braced (name : List Char)
  /-- After the blank that ends the value. -/
  | ended
  deriving DecidableEq, Repr

/-- Reads a value. `lookup` gives the text of a variable, and the truth value tells whether the
value stands inside double quotes. -/
def readValue (lookup : List Char → List Char) : Progress → Bool → List Char → Option (List Char)
  | .ended, _, [] => some []
  | .ended, weak, c :: rest =>
    if c = ' ' ∨ c = '\t' then readValue lookup .ended weak rest
    else if c = '#' then some []
    else none
  | .escaped, weak, [] => if weak then none else some []
  | .escaped, weak, c :: rest =>
    if c = '\\' ∨ c = '\'' ∨ c = '"' ∨ c = '$' ∨ c = ' ' then
      (readValue lookup .plain weak rest).map (c :: ·)
    else if c = 'n' then (readValue lookup .plain weak rest).map ('\n' :: ·)
    else none
  | .strong, _, [] => none
  | .strong, weak, c :: rest =>
    if c = '\'' then readValue lookup .plain weak rest
    else (readValue lookup .strong weak rest).map (c :: ·)
  | .named name, weak, [] => if weak then none else some (lookup name)
  | .named name, weak, c :: rest =>
    if Text.isAlphanumeric c then readValue lookup (.named (name ++ [c])) weak rest
    else if c = '\x7b' ∧ name = [] then readValue lookup (.braced []) weak rest
    else if c = '$' then (readValue lookup (.named []) weak rest).map (lookup name ++ ·)
    else (readValue lookup .plain weak rest).map (lookup name ++ c :: ·)
  | .braced _, _, [] => none
  | .braced name, weak, c :: rest =>
    if c = '\x7d' then (readValue lookup .plain weak rest).map (lookup name ++ ·)
    else readValue lookup (.braced (name ++ [c])) weak rest
  | .plain, weak, [] => if weak then none else some []
  | .plain, weak, c :: rest =>
    if c = '$' then readValue lookup (.named []) weak rest
    else if c = '\\' then readValue lookup .escaped weak rest
    else if c = '"' then readValue lookup .plain (!weak) rest
    else if weak then (readValue lookup .plain weak rest).map (c :: ·)
    else if c = '\'' then readValue lookup .strong weak rest
    else if c = ' ' ∨ c = '\t' then readValue lookup .ended weak rest
    else (readValue lookup .plain weak rest).map (c :: ·)

/-- What a line says. -/
inductive Line where
  /-- Nothing. -/
  | blank
  /-- A variable has a value. -/
  | assignment (name value : String)
  /-- It is no line of such a file. -/
  | malformed
  deriving DecidableEq, Repr

/-- Reads the name of a variable. -/
def readName : List Char → Option (List Char × List Char)
  | [] => none
  | c :: rest =>
    if c.isAlpha ∨ c = '_' then
      let more := fun c : Char => c.isAlphanum || c == '_' || c == '.'
      some (c :: rest.takeWhile more, rest.dropWhile more)
    else none

/-- Reads what follows the equals sign. -/
def readAssigned (lookup : List Char → List Char) (name s : List Char) : Line :=
  match s.dropWhile isSpace with
  | [] => .assignment (String.ofList name) ""
  | '#' :: _ => .assignment (String.ofList name) ""
  | s =>
    match readValue lookup .plain false s with
    | none => .malformed
    | some value => .assignment (String.ofList name) (String.ofList value)

/-- Reads what follows a name: the equals sign and the value. -/
def readAfterName (lookup : List Char → List Char) (name s : List Char) : Line :=
  match s.dropWhile isSpace with
  | '=' :: rest => readAssigned lookup name rest
  | _ => .malformed

/-- Reads a line. The word `export` before a name is skipped; alone it is a name. -/
def readLine (lookup : List Char → List Char) (line : List Char) : Line :=
  match ((line.reverse.dropWhile isSpace).reverse).dropWhile isSpace with
  | [] => .blank
  | '#' :: _ => .blank
  | s =>
    match readName s with
    | none => .malformed
    | some (name, rest) =>
      match rest.dropWhile isSpace with
      | '=' :: rest => readAssigned lookup name rest
      | rest =>
        if name = "export".toList then
          match readName rest with
          | none => .malformed
          | some (name, rest) => readAfterName lookup name rest
        else .malformed

/-- The text of a variable; empty if it is not set to one. -/
def variableText (e : Environment) (name : List Char) : List Char :=
  match e.text? (String.ofList name) with
  | none => []
  | some s => s.toList

/-- Completes an environment with the assignments of some lines, up to the first malformed one.
Nothing comes back if that panics, over a value that no variable can have. -/
def complete (e : Environment) : List (Option (List Char)) → Option Environment
  | [] => some e
  | none :: _ => some e
  | some line :: rest =>
    match readLine (variableText e) line with
    | .blank => complete e rest
    | .malformed => some e
    | .assignment name value =>
      if (e.text? name).isSome then complete e rest
      else
        match e.set? name value.toUTF8 with
        | none => none
        | some e => complete e rest

end DotEnv

/-- What is found of a file of variables. -/
inductive DotEnvFile where
  /-- Nothing that can be read. -/
  | absent
  /-- A file with these bytes. -/
  | contents (bytes : ByteArray)

/-- A file of variables with a text. -/
def DotEnvFile.ofText (text : String) : DotEnvFile := .contents text.toUTF8

/-- A text is the file that has it; without one there is no file. -/
instance : Coe (Option String) DotEnvFile where
  coe
    | none => .absent
    | some text => .ofText text

/-- An environment completed with the assignments of a file, if there is one. Nothing comes back
if that panics. -/
def Environment.withFile? (e : Environment) : DotEnvFile → Option Environment
  | .absent => some e
  | .contents bytes => DotEnv.complete e (DotEnv.lines bytes)

end ToastBoard
