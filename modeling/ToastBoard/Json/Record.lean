import ToastBoard.Json.Value

/-!
# Records

How a value of known shape is taken out of a value of the interchange format. A record names its
members; the members that nobody asks for are skipped, but every key has to be readable and no
known key may come twice. A record may also be given as a list of its members in the order in
which they are declared; members missing at the end of such a list count as not given, further
ones are refused. Nothing is converted: a member of another type than the one asked for is an
error, an absent value included.
-/

namespace ToastBoard

namespace Json

/-- The string in a value, if it is one and stands for a text. -/
def asText? : Json → Option String
  | .text l => l.text?
  | _ => none

/-- The truth value in a value. -/
def asBool? : Json → Option Bool
  | .bool b => some b
  | _ => none

/-- The items of a list. -/
def asList? : Json → Option (List Json)
  | .list items => some items
  | _ => none

/-- A string, or none for the absent value. -/
def asOptionalText? : Json → Option (Option String)
  | .null => some none
  | v => v.asText?.map some

/-- The members of a record with readable keys. -/
def readableMembers? (members : List (Literal × Json)) : Option (List (String × Json)) :=
  members.mapM fun (key, value) => key.text?.map (·, value)

/-- No key of `keys` comes twice in `members`. -/
def noneRepeated (keys : List String) (members : List (String × Json)) : Bool :=
  keys.all fun key => (members.filter (·.1 == key)).length ≤ 1

/-- What was given for each of the declared `keys`; nothing if the value is no record of them. -/
def given? (keys : List String) : Json → Option (String → Option Json)
  | .record members => do
    let members ← readableMembers? members
    if noneRepeated keys members then some fun key => List.lookup key members else none
  | .list items =>
    if items.length ≤ keys.length then some fun key => (keys.idxOf? key).bind (items[·]?)
    else none
  | _ => none

/-- The member that has to be there. -/
def required? {α : Type} (read : Json → Option α) (given : Option Json) : Option α :=
  given.bind read

/-- The member that counts as `default` when it is not given; given, it has to be readable. -/
def orDefault? {α : Type} (default : α) (read : Json → Option α) : Option Json → Option α
  | none => some default
  | some v => read v

end Json

end ToastBoard
