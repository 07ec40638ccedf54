import ToastBoard.Signal.Basic

/-!
# Programs on a signal

Orders that subscribe to a signal, fire it and ask about it, where the observers that are
subscribed are themselves such programs, and the run of a program with a log of what its observers
did. An observer that runs finds the signal fired, so what it fires has nobody to run.
-/

namespace ToastBoard

/-- An order to a signal; observers are known by labels of type `ι`. -/
inductive SignalOrder (ι : Type) where
  /-- Subscribe an observer that will carry out some orders. -/
  | subscribe (id : ι) (orders : List (SignalOrder ι))
  /-- Fire the signal, itself or through another handle on it. -/
  | fire
  /-- Ask whether it has fired. -/
  | isFired
  /-- Panic. -/
  | panic
  /-- Something that is no order. -/
  | unknown

/-- What an order answers. -/
inductive SignalReply where
  /-- Yes or no. -/
  | truth (b : Bool)
  /-- The number of observers run. -/
  | count (n : Nat)
  /-- It was no order. -/
  | unknown
  deriving DecidableEq, Repr

/-- What observers leave in the log. -/
inductive SignalEntry (ι : Type) where
  /-- The observer starts. -/
  | started (id : ι)
  /-- The observer has carried out an order. -/
  | replied (id : ι) (reply : SignalReply)

/-- A signal and the log of its observers. -/
structure SignalRun (ι : Type) where
  /-- The signal; an observer is a label and the orders to carry out. -/
  signal : Signal (ι × List (SignalOrder ι)) := {}
  /-- What observers have done, oldest first. -/
  log : List (SignalEntry ι) := []

namespace SignalRun

variable {ι : Type}

/-- Appends to the log. -/
def record (r : SignalRun ι) (entry : SignalEntry ι) : SignalRun ι :=
  { r with log := r.log ++ [entry] }

/-- A way to carry out one order; no reply means a panic. -/
abbrev Performer (ι : Type) := SignalOrder ι → SignalRun ι → Option SignalReply × SignalRun ι

/-- Carries out the orders of an observer; tells whether it came to its end. -/
def observe (perform : Performer ι) (id : ι) :
    List (SignalOrder ι) → SignalRun ι → Bool × SignalRun ι
  | [], r => (true, r)
  | order :: orders, r =>
    match perform order r with
    | (none, r) => (false, r)
    | (some reply, r) => observe perform id orders (r.record (.replied id reply))

/-- Runs observers one after the other; a panic ends this. -/
def observeAll (perform : Performer ι) :
    List (ι × List (SignalOrder ι)) → SignalRun ι → Bool × SignalRun ι
  | [], r => (true, r)
  | (id, orders) :: rest, r =>
    match observe perform id orders (r.record (.started id)) with
    | (false, r) => (false, r)
    | (true, r) => observeAll perform rest r

/-- Carries out an order, where fires may be nested so many deep; the observers of a deeper fire
are not run. -/
def performWithin : Nat → Performer ι
  | _, .subscribe id orders, r =>
    let (accepted, signal) := r.signal.subscribe (id, orders)
    (some (.truth accepted), { r with signal })
  | 0, .fire, r => (some (.count r.signal.fire.1.length), { r with signal := r.signal.fire.2 })
  | n + 1, .fire, r =>
    let (observers, signal) := r.signal.fire
    match observeAll (performWithin n) observers { r with signal } with
    | (true, r) => (some (.count observers.length), r)
    | (false, r) => (none, r)
  | _, .isFired, r => (some (.truth r.signal.fired), r)
  | _, .panic, r => (none, r)
  | _, .unknown, r => (some .unknown, r)

/-- Carries out an order. Fires are never nested with somebody to run, so one level is enough. -/
def perform : Performer ι := performWithin 1

end SignalRun

end ToastBoard
