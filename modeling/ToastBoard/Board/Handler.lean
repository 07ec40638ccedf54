import ToastBoard.Board.Screen

/-!
# Handlers

A handler follows one alert from its creation to its end. It is created, submits its registration
to the worker and is initializing until that is done; then it is live, or its initialization has
failed. From each of these it can be unregistered, which is final.
-/

namespace ToastBoard

/-- Where a handler stands in its life. -/
inductive Phase where
  /-- Nothing was done with it yet. -/
  | created
  /-- Its registration is queued or under way. -/
  | initializing
  /-- Its toast is on the screen. -/
  | live
  /-- Its registration was refused. -/
  | initFailed
  /-- It is over. -/
  | unregistered
  deriving DecidableEq, Repr

namespace Phase

/-- Neither failed nor over. -/
def isActive : Phase → Bool
  | .created | .initializing | .live => true
  | .initFailed | .unregistered => false

/-- The name of a phase in reports. -/
def name : Phase → String
  | .created => "created"
  | .initializing => "initializing"
  | .live => "live"
  | .initFailed => "init_failed"
  | .unregistered => "unregistered"

end Phase

/-- The number of a listener. -/
abbrev ListenerId := Nat

/-- The number of a registry. -/
abbrev RegistryId := Nat

/-- One alert on its way to the screen and off it. -/
structure Handler where
  /-- What was read from the alert. -/
  fields : Snapshot
  /-- Who is told about it. -/
  listener : Option ListenerId := none
  /-- The registry it leaves when it ends by itself. -/
  registry : Option RegistryId := none
  /-- Where it stands. -/
  phase : Phase := .created
  /-- The toast it has to release. -/
  registration : Option ToastId := none
  /-- What the screen reported before the registration was done. -/
  pending : Option Outcome := none
  deriving DecidableEq, Repr

namespace Handler

/-- The name of its alert. -/
def name (h : Handler) : String := h.fields.name

/-- What its listener is told. -/
def notice (h : Handler) (topic : Topic) (action : Option String) : Notice :=
  { topic, cookie := h.fields.cookie, action }

/-- It is over: its registration is handed out to be released. -/
def retired (h : Handler) : Handler := { h with phase := .unregistered, registration := none }

/-- An outcome that comes before the registration is done is kept; only the first one is. -/
def deferred (h : Handler) (o : Outcome) : Handler :=
  match h.pending with
  | none => { h with pending := some o }
  | some _ => h

/-- The handler of a number that was never given: it is over. -/
instance : Inhabited Handler where
  default :=
    { fields :=
        { cookie := "", name := "", title := "", text := "", textClickable := false, source := "",
          requireInteraction := false, actions := [], imageUrl := "" }
      phase := .unregistered }

end Handler

end ToastBoard
