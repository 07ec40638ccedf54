import ToastBoard.Board.Coordinator
import ToastBoard.Board.Work

/-!
# Worlds and courses

What can happen around a board. People hold handlers, registries and coordinators and may do
anything with them at any time, also while a listener of theirs is being told something; the
workers take their steps in between. A deed stops at the first notice that it gives to a listener
and goes on once the listener has returned or panicked. So a moment is a world together with the
deeds that wait for their listeners, the innermost first, and a course is what deeds and replies
lead to from an empty world. A listener that works on the board does so by deeds of its own.
-/

namespace ToastBoard

/-- A board, what people hold, and what the screen has reported. -/
structure World where
  /-- The board. -/
  board : Board := {}
  /-- Handlers that people keep, once for each of them. -/
  kept : List HandlerId := []
  /-- Registries that people own, once for each owner. -/
  registries : List RegistryId := []
  /-- Coordinators that people own, once for each owner. -/
  coordinators : List CoordinatorId := []
  /-- What the screen has reported so far, and to which handler. -/
  reported : List (HandlerId × Outcome) := []

namespace World

/-- The same people around another board. -/
def put (w : World) (board : Board) : World := { w with board }

@[simp] theorem put_board (w : World) (b : Board) : (w.put b).board = b := rfl

end World

/-- What somebody may do, or a worker. -/
inductive Deed where
  /-- Make a registry. -/
  | openRegistry
  /-- Become another owner of a registry. -/
  | shareRegistry (r : RegistryId)
  /-- Give a registry up. -/
  | dropRegistry (r : RegistryId)
  /-- Start a worker. -/
  | openStation (refusal : Option String) (name : String)
  /-- Put a mark into the queue of a worker. -/
  | mark (s : StationId)
  /-- Stop a worker. -/
  | stop (s : StationId)
  /-- Set up a coordinator. -/
  | setUp (settings : Settings) (host : Host)
  /-- Become another owner of a coordinator. -/
  | shareCoordinator (c : CoordinatorId)
  /-- Give a coordinator up. -/
  | dropCoordinator (c : CoordinatorId)
  /-- Make a handler. -/
  | create (fields : Snapshot) (listener : Option ListenerId) (registry : Option RegistryId)
  /-- Keep a handler once more. -/
  | share (h : HandlerId)
  /-- Let a handler go. -/
  | letGo (h : HandlerId)
  /-- Submit a handler to a worker. -/
  | submit (s : StationId) (h : HandlerId)
  /-- End a handler. -/
  | unregister (h : HandlerId)
  /-- Keep the handler under a name. -/
  | lookUp (r : RegistryId) (name : String)
  /-- Put a handler under a name and keep the one it displaces. -/
  | install (r : RegistryId) (name : String) (h : HandlerId)
  /-- Take out the entry of a name and keep its handler. -/
  | takeEntry (r : RegistryId) (name : String)
  /-- Take out all entries and keep their handlers. -/
  | takeAll (r : RegistryId)
  /-- Undo an install, giving away the handler that it displaced. -/
  | restore (r : RegistryId) (name : String) (h : HandlerId) (previous : Option HandlerId)
  /-- Take a handler out and end it if it is the very one under a name. -/
  | removeIfCurrent (r : RegistryId) (name : String) (h : HandlerId)
  /-- Keep the handler that a coordinator has under a name. -/
  | grab (c : CoordinatorId) (name : String)
  /-- Show an alert. -/
  | showAlert (c : CoordinatorId) (source : Source) (listener : Option ListenerId)
  /-- Close the alert of a name. -/
  | closeAlert (c : CoordinatorId) (name : String)
  /-- Take a handler out of a coordinator and end it if it is the very one under a name. -/
  | removeHandler (c : CoordinatorId) (name : String) (h : HandlerId)
  /-- Set whether new alerts are dropped. -/
  | suppress (c : CoordinatorId) (suppressed : Bool)
  /-- Fire the signal, upon which handlers are visited in some order. -/
  | fire (visit : Visit)
  /-- The screen reports something about a name. -/
  | emit (name : String) (outcome : Outcome)
  /-- The screen reports something about an attempt, counted from 0. -/
  | deliver (attempt : Nat) (outcome : Outcome)
  /-- Set what is going to go wrong. -/
  | arm (faults : Faults)
  /-- A worker takes what is next in its queue. -/
  | advance (s : StationId)
  /-- A worker finishes the attempt that is under way. -/
  | finish (s : StationId)

namespace Deed

/-- Whether a deed fires the signal. -/
def fires : Deed → Bool
  | .fire _ => true
  | _ => false

theorem fires_iff {d : Deed} : d.fires = true ↔ ∃ visit, d = .fire visit := by
  cases d <;> simp [fires]

/-- Whether people have what a deed takes: nobody works on what they do not hold. -/
def Possible (w : World) : Deed → Prop
  | .shareRegistry r | .dropRegistry r | .lookUp r _ | .takeEntry r _ | .takeAll r =>
    r ∈ w.registries
  | .install r _ h | .removeIfCurrent r _ h => r ∈ w.registries ∧ h ∈ w.kept
  | .restore r _ h previous => r ∈ w.registries ∧ h ∈ w.kept ∧ ∀ p ∈ previous, p ∈ w.kept
  | .share h | .letGo h | .submit _ h | .unregister h => h ∈ w.kept
  | .create _ _ registry => ∀ r ∈ registry, r < w.board.registries.length
  | .shareCoordinator c | .dropCoordinator c | .grab c _ | .showAlert c _ _ | .closeAlert c _
  | .suppress c _ => c ∈ w.coordinators
  | .removeHandler c _ h => c ∈ w.coordinators ∧ h ∈ w.kept
  | .deliver n _ => n < w.board.screen.attempts.length
  | _ => True

/-- What the screen reports in a deed, and to which handler. An early report is only made by a
registration that the screen gets to see and does not refuse. -/
def reports (b : Board) : Deed → List (HandlerId × Outcome)
  | .emit name outcome => (b.screen.sinkOf? name).toList.map (·, outcome)
  | .deliver n outcome => (b.screen.attempts[n]?).toList.map (·.handler, outcome)
  | .finish s =>
    match b.inside? s, b.screen.faults.register with
    | some ⟨h, _, .proceeds⟩, none => b.screen.faults.early.toList.map (h, ·)
    | _, _ => []
  | _ => []

/-- What people hold after a deed, on the board from before it. -/
def holdings (w : World) : Deed → World
  | .openRegistry => { w with registries := w.board.openRegistry.1 :: w.registries }
  | .shareRegistry r => { w with registries := r :: w.registries }
  | .dropRegistry r => { w with registries := w.registries.erase r }
  | .setUp settings host =>
    match (w.board.setUp settings host).1 with
    | some ⟨.ok c, _⟩ => { w with coordinators := c :: w.coordinators }
    | _ => w
  | .shareCoordinator c => { w with coordinators := c :: w.coordinators }
  | .dropCoordinator c => { w with coordinators := w.coordinators.erase c }
  | .create fields listener registry =>
    { w with kept := (w.board.create { fields, listener, registry }).1 :: w.kept }
  | .share h => { w with kept := h :: w.kept }
  | .letGo h => { w with kept := w.kept.erase h }
  | .lookUp r name => { w with kept := (w.board.lookUp r name).1.toList ++ w.kept }
  | .install r name h => { w with kept := (w.board.install r name h).1.toList ++ w.kept }
  | .takeEntry r name => { w with kept := (w.board.takeEntry r name).1.toList ++ w.kept }
  | .takeAll r => { w with kept := (w.board.takeAll r).1 ++ w.kept }
  | .restore _ _ _ previous => { w with kept := previous.elim w.kept w.kept.erase }
  | .grab c name =>
    { w with kept := (w.board.lookUp (w.board.coordinator c).registry name).1.toList ++ w.kept }
  | _ => w

/-- The world in which a deed starts: what it hands out and gives back is settled at once. -/
def start (w : World) (d : Deed) : World :=
  { d.holdings w with reported := w.reported ++ d.reports w.board }

/-- What a deed does on the board. Handlers and registries that somebody lends to it are held for
its time. -/
def act : Deed → Act Unit
  | .openRegistry => Action.change (·.openRegistry.2)
  | .shareRegistry r => Action.change (·.ownRegistry r)
  | .dropRegistry r => Action.change (·.disownRegistry r)
  | .openStation refusal name =>
    match Worker.start refusal name with
    | some (.ok worker) => Action.change fun b => (b.openStation worker).2
    | _ => pure ()
  | .mark s => Action.change fun b =>
    match (b.station s).worker.send .mark with
    | .ok worker => b.setWorker s worker
    | .error _ => b
  | .stop s => Action.change fun b => b.setWorker s (b.station s).worker.stop
  | .setUp settings host => Action.change fun b => (b.setUp settings host).2
  | .shareCoordinator c => Action.change (·.ownCoordinator c)
  | .dropCoordinator c => Action.change (·.disownCoordinator c)
  | .create fields listener registry => Action.change fun b =>
    (b.create { fields, listener, registry }).2
  | .share h => Action.change (·.hold h)
  | .letGo h => Action.change (·.letGo h)
  | .submit s h => Action.change fun b => (b.submit s h).2
  | .unregister h => Act.holding h (Board.unregister h)
  | .lookUp r name => Action.change fun b => (b.lookUp r name).2
  | .install r name h => Action.change fun b => (b.install r name h).2
  | .takeEntry r name => Action.change fun b => (b.takeEntry r name).2
  | .takeAll r => Action.change fun b => (b.takeAll r).2
  | .restore r name h previous => Action.change fun b => (b.restore r name h previous).2
  | .removeIfCurrent r name h => do
    let _ ← Act.holding h (Act.owning r (Board.removeIfCurrent r name h))
  | .grab c name => Action.change fun b => (b.lookUp (b.coordinator c).registry name).2
  | .showAlert c source listener => do
    let _ ← Board.showAlert c source listener
  | .closeAlert c name => Board.closeAlert c name
  | .removeHandler c name h => do
    let _ ← Act.holding h (Board.removeHandler c name h)
  | .suppress c suppressed => Action.change (·.setSuppression c suppressed)
  | .fire visit => do
    let _ ← Board.fire visit
  | .emit name outcome => do
    let _ ← Board.emit name outcome
  | .deliver n outcome => do
    let attempt ← Action.ask (·.screen.attempts[n]?)
    match attempt with
    | none => pure ()
    | some attempt => Board.hear attempt.handler outcome
  | .arm faults => Action.change fun b => { b with screen := { b.screen with faults } }
  | .advance s => Action.change fun b => (b.advance s).2
  | .finish s => do
    let _ ← Board.finish s

/-- Opening a station needs a worker. -/
theorem act_openStation (refusal : Option String) (name : String) (b : Board) :
    (openStation refusal name).act b = match Worker.start refusal name with
      | some (.ok worker) => .ended (some ()) (b.openStation worker).2
      | _ => .ended (some ()) b := by
  simp only [act]
  cases Worker.start refusal name with
  | none => rfl
  | some result => cases result <;> rfl

/-- Delivering to an attempt is for its handler to hear. -/
theorem act_deliver (n : Nat) (outcome : Outcome) (b : Board) :
    (deliver n outcome).act b = match b.screen.attempts[n]? with
      | none => .ended (some ()) b
      | some attempt => Board.hear attempt.handler outcome b := by
  change ((match b.screen.attempts[n]? with
    | none => (pure () : Act Unit)
    | some attempt => Board.hear attempt.handler outcome) b) = _
  cases b.screen.attempts[n]? <;> rfl

end Deed

/-- A deed that waits for a listener. -/
structure Waiting where
  /-- The deed. -/
  deed : Deed
  /-- How it goes on, once the listener has returned or panicked. -/
  resume : Bool → Board → Talk Board Telling Unit

/-- A moment at which somebody outside may do something. -/
structure Moment where
  /-- How things stand. -/
  world : World := {}
  /-- The deeds that wait for their listeners, the innermost first. -/
  waiting : List Waiting := []

/-- What brings one moment to the next. -/
inductive Event where
  /-- Somebody does something: a listener that is being told, or anybody else. -/
  | deed (d : Deed)
  /-- The listener told last returns, or panics. -/
  | reply (returned : Bool)

namespace Moment

/-- The moment to which a computation of a deed leads: its end, or a listener that it tells. -/
def settle (w : World) (d : Deed) (waiting : List Waiting) : Talk Board Telling Unit → Moment
  | .ended _ b => { world := w.put b, waiting }
  | .told _ b resume => { world := w.put b, waiting := ⟨d, resume⟩ :: waiting }

/-- Whether something can happen. -/
def Allows (m : Moment) : Event → Prop
  | .deed d => d.Possible m.world
  | .reply _ => m.waiting ≠ []

/-- The moment after something has happened. -/
def after (m : Moment) : Event → Moment
  | .deed d => settle (d.start m.world) d m.waiting (d.act m.world.board)
  | .reply returned =>
    match m.waiting with
    | [] => m
    | waiting :: rest =>
      settle m.world waiting.deed rest (waiting.resume returned m.world.board)

end Moment

/-- The moments of courses in which only permitted events happen. -/
inductive Course (permitted : Moment → Event → Prop) : Moment → Prop where
  /-- There is nothing yet. -/
  | start : Course permitted {}
  /-- Something happens that can and may. -/
  | step {m : Moment} (course : Course permitted m) (e : Event) (allowed : m.Allows e)
      (may : permitted m e) : Course permitted (m.after e)

namespace Course

variable {permitted : Moment → Event → Prop}

/-- Whether some events can and may happen one after the other. -/
def Open (permitted : Moment → Event → Prop) : Moment → List Event → Prop
  | _, [] => True
  | m, e :: rest => m.Allows e ∧ permitted m e ∧ Open permitted (m.after e) rest

/-- A course goes on with events that can and may happen. -/
theorem follow {m : Moment} {events : List Event} (course : Course permitted m)
    (ho : Open permitted m events) : Course permitted (events.foldl Moment.after m) := by
  induction events generalizing m with
  | nil => exact course
  | cons e rest ih =>
    obtain ⟨allowed, may, hrest⟩ := ho
    exact ih (course.step e allowed may) hrest

/-- Events can and may happen one after the other if the later ones can where the earlier ones
lead. -/
theorem open_append {m : Moment} {events later : List Event} :
    Open permitted m (events ++ later) ↔
      Open permitted m events ∧ Open permitted (events.foldl Moment.after m) later := by
  induction events generalizing m with
  | nil => exact (and_iff_right trivial).symm
  | cons e rest ih =>
    simp only [List.cons_append, Open, List.foldl_cons, ih, and_assoc]

end Course

/-- Any course of events. -/
abbrev FreeCourse : Moment → Prop := Course fun _ _ => True

end ToastBoard
