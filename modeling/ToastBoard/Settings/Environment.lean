import ToastBoard.Settings.Basic

/-!
# Environments

The variables a process is given. A value is a sequence of bytes without a NUL; asked for as a
text, a variable whose bytes are no UTF-8 text counts as not set.
-/

namespace ToastBoard

/-- The variables that are set, with their bytes. -/
structure Environment where
  /-- Names and values; the first entry of a name counts. -/
  entries : List (String × ByteArray) := []

namespace Environment

/-- The bytes of a variable, if it is set. -/
def bytes? (e : Environment) (name : String) : Option ByteArray := e.entries.lookup name

/-- The text of a variable, if it is set to one. -/
def text? (e : Environment) (name : String) : Option String :=
  (e.bytes? name).bind String.fromUTF8?

/-- Sets a variable. Nothing comes back if the value has a NUL, which ends every value. -/
def set? (e : Environment) (name : String) (value : ByteArray) : Option Environment :=
  if value.data.contains 0 then none else some ⟨(name, value) :: e.entries⟩

end Environment

end ToastBoard
