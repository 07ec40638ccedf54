import ToastBoard.Board.Handler
import ToastBoard.Text.Quoted

/-!
# Descriptions of handlers

What a handler looks like when it is shown for inspection.
-/

namespace ToastBoard

/-- A phase as it is shown for inspection. -/
def Phase.title : Phase → String
  | .created => "Created"
  | .initializing => "Initializing"
  | .live => "Live"
  | .initFailed => "InitFailed"
  | .unregistered => "Unregistered"

/-- A handler as it is shown for inspection, under a given identifier. -/
def Handler.description (h : Handler) (id : String) : String :=
  "ToastHandler \x7b id: " ++ id ++ ", name: " ++ Text.quoted h.name ++ ", state: " ++
    h.phase.title ++ " \x7d"

end ToastBoard
