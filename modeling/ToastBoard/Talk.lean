/-!
# Computations that talk

A computation on a state that may stop to tell somebody a message. Whoever is told does as they
like, which may change the state, and either returns or panics; the computation then goes on with
the state they left. A computation ends with a result, or without one if a panic went through it.
What the others do is not part of the computation, so it can be run with any of them.
-/

namespace ToastBoard

/-- A computation on states `σ` that tells messages `μ` and results in an `α`. -/
inductive Talk (σ μ α : Type) where
  /-- It has ended in this state; without a result, a panic ended it. -/
  | ended (result : Option α) (state : σ)
  /-- It tells a message, and resumes once it knows whether the other returned, and with what
  state. -/
  | told (message : μ) (state : σ) (resume : Bool → σ → Talk σ μ α)

namespace Talk

variable {σ μ α β : Type}

/-- Goes on with a second computation, unless a panic ended the first. -/
def andThen : Talk σ μ α → (α → σ → Talk σ μ β) → Talk σ μ β
  | .ended none s, _ => .ended none s
  | .ended (some a) s, next => next a s
  | .told m s resume, next => .told m s fun returned s => (resume returned s).andThen next

/-- Changes the state in which a computation ends, however it ends. -/
def ensuring (f : σ → σ) : Talk σ μ α → Talk σ μ α
  | .ended a s => .ended a (f s)
  | .told m s resume => .told m s fun returned s => (resume returned s).ensuring f

/-- Keeps a panic from going further. -/
def caught : Talk σ μ Unit → Talk σ μ Unit
  | .ended _ s => .ended (some ()) s
  | .told m s resume => .told m s fun returned s => (resume returned s).caught

/-- Runs a computation inside a larger state `τ`: `hear` is what those who are told do, with
whether they return. -/
def run {τ : Type} (get : τ → σ) (put : σ → τ → τ) (hear : μ → τ → Bool × τ) :
    Talk σ μ α → τ → Option α × τ
  | .ended a s, t => (a, put s t)
  | .told m s resume, t =>
    match hear m (put s t) with
    | (returned, t) => run get put hear (resume returned (get t)) t

end Talk

/-- A computation that waits for the state to start from. -/
def Action (σ μ α : Type) : Type := σ → Talk σ μ α

namespace Action

variable {σ μ α β : Type}

/-- Results in `a` and changes nothing. -/
def done (a : α) : Action σ μ α := fun s => .ended (some a) s

/-- One computation after the other. -/
def andThen (first : Action σ μ α) (next : α → Action σ μ β) : Action σ μ β :=
  fun s => (first s).andThen next

instance : Monad (Action σ μ) where
  pure := done
  bind := andThen

/-- Looks at the state. -/
def ask (f : σ → α) : Action σ μ α := fun s => .ended (some (f s)) s

/-- Changes the state. -/
def change (f : σ → σ) : Action σ μ Unit := fun s => .ended (some ()) (f s)

/-- Changes the state and results in something. -/
def step (f : σ → α × σ) : Action σ μ α := fun s => .ended (some (f s).1) (f s).2

/-- Tells a message; if the other panics, the panic goes on. -/
def tell (m : μ) : Action σ μ Unit :=
  fun s => .told m s fun returned s => .ended (if returned then some () else none) s

/-- Panics. -/
def panic : Action σ μ α := fun s => .ended none s

/-- Changes the state once the computation has ended, however it ends. -/
def ensuring (a : Action σ μ α) (f : σ → σ) : Action σ μ α := fun s => (a s).ensuring f

/-- Keeps a panic from going further. -/
def caught (a : Action σ μ Unit) : Action σ μ Unit := fun s => (a s).caught

/-- One computation for each item, in order. -/
def forEach : List β → (β → Action σ μ Unit) → Action σ μ Unit
  | [], _ => done ()
  | b :: rest, f => (f b).andThen fun _ => forEach rest f

end Action

end ToastBoard
