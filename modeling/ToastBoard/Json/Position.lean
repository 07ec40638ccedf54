/-!
# Positions in a refused text

A decoder that refuses a text gives a reason, and may tell where by ending the reason with
` at line L column C`. Line zero stands for no position.
-/

namespace ToastBoard

/-- A place in a text. -/
structure Position where
  /-- The line, counted from one; zero if the place is not known. -/
  line : Nat
  /-- The column. -/
  column : Nat
  deriving DecidableEq, Repr

namespace Position

/-- The value of decimal digits. -/
def digitsValue (digits : List Char) : Nat :=
  digits.foldl (fun n d => 10 * n + (d.toNat - '0'.toNat)) 0

/-- What stands before an ending, if a text ends so. -/
def before? (ending s : List Char) : Option (List Char) :=
  if ending.isSuffixOf s then some (s.take (s.length - ending.length)) else none

/-- What stands before the digits at the end of a text, and their value, if there are any and it
fits a machine word. -/
def beforeDigits? (s : List Char) : Option (List Char × Nat) :=
  let digits := (s.reverse.takeWhile Char.isDigit).reverse
  if digits.isEmpty then none
  else if digitsValue digits < UInt64.size then
    some (s.take (s.length - digits.length), digitsValue digits)
  else none

/-- The words before the line of a position. -/
def lineWords : List Char := " at line ".toList

/-- The words before the column of a position. -/
def columnWords : List Char := " column ".toList

/-- Splits a reason into what is told and the position at its end, if it ends with one. -/
def split? (reason : List Char) : Option (List Char × Position) := do
  let (rest, column) ← beforeDigits? reason
  let rest ← before? columnWords rest
  let (rest, line) ← beforeDigits? rest
  let told ← before? lineWords rest
  some (told, { line, column })

/-- A position at the end of a reason; one that is not known is left out. -/
def ending (p : Position) : String :=
  if p.line = 0 then ""
  else String.ofList lineWords ++ toString p.line ++ String.ofList columnWords ++ toString p.column

/-- A reason as it is told: a position at its end is written anew. -/
def retell (reason : String) : String :=
  match split? reason.toList with
  | none => reason
  | some (told, p) => String.ofList told ++ p.ending

end Position

end ToastBoard
