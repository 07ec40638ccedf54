import ToastBoard.Board.Screen

/-!
# Registries

The table of current handlers, at most one to a name. A registry exists as long as somebody owns
it; an operation that works on it owns it for that time.
-/

namespace ToastBoard

/-- A table of handlers by name. -/
structure Registry where
  /-- The entries, oldest first. -/
  entries : List (String × HandlerId) := []
  /-- How many owners it has. -/
  owners : Nat := 1
  deriving DecidableEq, Repr

namespace Registry

/-- The handler under a name. -/
def get? (r : Registry) (name : String) : Option HandlerId := r.entries.lookup name

/-- Leaves out the entry of a name. -/
def erase (r : Registry) (name : String) : Registry :=
  { r with entries := r.entries.filter fun e => e.1 ≠ name }

/-- Puts a handler under a name, in place of what was there. -/
def insert (r : Registry) (name : String) (h : HandlerId) : Registry :=
  { r.erase name with entries := (r.erase name).entries ++ [(name, h)] }

/-- The handlers in the table, oldest entry first. -/
def handlers (r : Registry) : List HandlerId := r.entries.map (·.2)

/-- The entries in the order of their names. -/
def sorted (r : Registry) : List (String × HandlerId) :=
  r.entries.mergeSort fun a b => decide (a.1 ≤ b.1)

/-- The names in the table, in order. -/
def names (r : Registry) : List String := r.sorted.map (·.1)

theorem get?_erase (r : Registry) (name other : String) :
    (r.erase name).get? other = if other = name then none else r.get? other := by
  obtain ⟨entries, owners⟩ := r
  simp only [get?, erase]
  induction entries with
  | nil => simp
  | cons e rest ih =>
    obtain ⟨key, h⟩ := e
    by_cases hk : key = name
    · subst hk
      by_cases ho : other = key
      · subst ho
        simpa using ih
      · have : (other == key) = false := by simpa using ho
        simpa [List.lookup_cons, this, ho] using ih
    · by_cases ho : other = name
      · subst ho
        have : (other == key) = false := by simpa using fun h => hk h.symm
        simpa [List.lookup_cons, this, hk] using ih
      · by_cases he : other = key
        · subst he
          simp [ho]
        · have : (other == key) = false := by simpa using he
          simpa [List.lookup_cons, this, hk, ho] using ih

end Registry

end ToastBoard
