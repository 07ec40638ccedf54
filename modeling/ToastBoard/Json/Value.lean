import ToastBoard.Json.Token

/-!
# Values

A value as a text spells it: numbers keep their spelling, strings their pieces, records the order
and the repetitions of their members. Reading a text is cutting it into tokens and then finding
the one value with these tokens, so two texts with the same tokens are read as the same value.
Writing puts the tokens of a value next to each other, without blanks.
-/

namespace ToastBoard

/-- A value of the interchange format. -/
inductive Json where
  /-- The absent value. -/
  | null
  /-- A truth value. -/
  | bool (b : Bool)
  /-- A number, by its spelling. -/
  | number (spelling : List Char)
  /-- A string, by its pieces. -/
  | text (l : Literal)
  /-- A list of values. -/
  | list (items : List Json)
  /-- The members of a record, in order, repetitions included. -/
  | record (members : List (Literal × Json))
  deriving Inhabited

namespace Json

/-- A string value. -/
def string (s : String) : Json := .text (Literal.ofString s)

/-- A record with readable keys. -/
def object (members : List (String × Json)) : Json :=
  .record (members.map fun (key, value) => (Literal.ofString key, value))

/-- A string, or the absent value. -/
def optional : Option String → Json
  | none => .null
  | some s => string s

mutual

/-- The tokens that spell a value. -/
def tokens : Json → List Token
  | .null => [.null]
  | .bool b => [.bool b]
  | .number spelling => [.number spelling]
  | .text l => [.text l]
  | .list items => .openList :: (itemTokens items ++ [.closeList])
  | .record members => .openRecord :: (memberTokens members ++ [.closeRecord])

/-- The tokens of the items of a list, with commas between them. -/
def itemTokens : List Json → List Token
  | [] => []
  | [v] => v.tokens
  | v :: w :: rest => v.tokens ++ .comma :: itemTokens (w :: rest)

/-- The tokens of the members of a record, with commas between them. -/
def memberTokens : List (Literal × Json) → List Token
  | [] => []
  | [(k, v)] => .text k :: .colon :: v.tokens
  | (k, v) :: m :: rest => .text k :: .colon :: (v.tokens ++ .comma :: memberTokens (m :: rest))

end

mutual

/-- Reads one value from the front of a token list; the number bounds the depth of the search. -/
def ofTokens : Nat → List Token → Option (Json × List Token)
  | 0, _ => none
  | _ + 1, .null :: rest => some (.null, rest)
  | _ + 1, .bool b :: rest => some (.bool b, rest)
  | _ + 1, .number spelling :: rest => some (.number spelling, rest)
  | _ + 1, .text l :: rest => some (.text l, rest)
  | _ + 1, .openList :: .closeList :: rest => some (.list [], rest)
  | n + 1, .openList :: rest => (itemsOfTokens n rest).map fun (vs, rest) => (.list vs, rest)
  | _ + 1, .openRecord :: .closeRecord :: rest => some (.record [], rest)
  | n + 1, .openRecord :: rest =>
    (membersOfTokens n rest).map fun (ms, rest) => (.record ms, rest)
  | _, _ => none

/-- Reads one or more items and the bracket that closes their list. -/
def itemsOfTokens : Nat → List Token → Option (List Json × List Token)
  | 0, _ => none
  | n + 1, ts => do
    let (v, rest) ← ofTokens n ts
    match rest with
    | .comma :: rest => (itemsOfTokens n rest).map fun (vs, rest) => (v :: vs, rest)
    | .closeList :: rest => some ([v], rest)
    | _ => none

/-- Reads one or more members and the brace that closes their record. -/
def membersOfTokens : Nat → List Token → Option (List (Literal × Json) × List Token)
  | n + 1, .text k :: .colon :: ts => do
    let (v, rest) ← ofTokens n ts
    match rest with
    | .comma :: rest => (membersOfTokens n rest).map fun (ms, rest) => ((k, v) :: ms, rest)
    | .closeRecord :: rest => some ([(k, v)], rest)
    | _ => none
  | _, _ => none

end

/-- The value that a token list spells, with nothing after it. Every step of the search takes a
token, so twice their number bounds its depth. -/
def ofAllTokens (ts : List Token) : Option Json :=
  match ofTokens (2 * ts.length) ts with
  | some (v, []) => some v
  | _ => none

/-- Reads a text as one value with nothing but blanks around it. -/
def read (s : String) : Option Json := (Token.readAll s.toList).bind ofAllTokens

/-- The compact text of a value. -/
def write (v : Json) : String := String.ofList (v.tokens.flatMap Token.write)

end Json

end ToastBoard
