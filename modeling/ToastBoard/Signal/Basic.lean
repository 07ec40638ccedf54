/-!
# Shutdown signals

A signal fires at most once. Whoever subscribed before that is handed out to be run, in the order
of subscription; whoever comes later is refused.
-/

namespace ToastBoard

/-- A one-shot broadcast to observers of type `α`. -/
structure Signal (α : Type) where
  /-- Whether the signal has fired. -/
  fired : Bool := false
  /-- The observers to run when it fires, in the order of subscription. -/
  observers : List α := []

namespace Signal

variable {α : Type}

/-- Adds an observer, unless the signal has fired; tells whether it was added. -/
def subscribe (s : Signal α) (observer : α) : Bool × Signal α :=
  if s.fired then (false, s) else (true, { s with observers := s.observers ++ [observer] })

/-- Fires the signal: the observers to run now, and the signal that has fired. A signal that has
already fired has nobody to run. -/
def fire (s : Signal α) : List α × Signal α :=
  if s.fired then ([], s) else (s.observers, { fired := true, observers := [] })

theorem fired_fire (s : Signal α) : s.fire.2.fired = true := by
  unfold fire
  split <;> simp_all

theorem fire_of_fired {s : Signal α} (h : s.fired = true) : s.fire = ([], s) := by
  simp [fire, h]

theorem subscribe_of_fired {s : Signal α} (h : s.fired = true) (a : α) :
    s.subscribe a = (false, s) := by
  simp [subscribe, h]

end Signal

end ToastBoard
