import ToastBoard.Board.Basic

/-!
# The life of a handler

How a handler is submitted, becomes live, hears from the screen, and ends. Everything that may
tell a listener is an `Act`, because whoever is told may work on the board before going on.
Operations on a handler presume that somebody holds it meanwhile.
-/

namespace ToastBoard

namespace Act

variable {α : Type}

/-- Gives back the hold on a handler once the computation has ended. -/
def thenLetGo (h : HandlerId) (act : Act α) : Act α := act.ensuring (·.letGo h)

/-- Holds a handler for the time of a computation. -/
def holding (h : HandlerId) (act : Act α) : Act α :=
  (Action.change (·.hold h)).andThen fun _ => thenLetGo h act

/-- Owns a registry for the time of a computation. -/
def owning (r : RegistryId) (act : Act α) : Act α :=
  (Action.change (·.ownRegistry r)).andThen fun _ => act.ensuring (·.disownRegistry r)

end Act

namespace Board

/-- Tells the listener of a handler, if it has one. -/
def notify (h : HandlerId) (topic : Topic) (action : Option String) : Act Unit := do
  let hd ← Action.ask (·.handler h)
  match hd.listener with
  | none => pure ()
  | some _ =>
    let telling : Telling := ⟨h, hd.notice topic action⟩
    Action.change fun b => { b with told := b.told ++ [telling] }
    Action.tell telling

/-- Hands the registration of a handler to a worker. Only a handler that was just created can be
submitted; if the worker does not take it, its initialization has failed. -/
def submit (b : Board) (s : StationId) (h : HandlerId) : Except Failure Unit × Board :=
  match b.phase h with
  | .created =>
    let b := b.setPhase h .initializing
    match (b.station s).worker.dispatch h with
    | .ok worker => (.ok (), b.setWorker s worker)
    | .error e => (.error e, b.setPhase h .initFailed)
  | _ => (.error (.other ("handler for '" ++ (b.handler h).name ++ "' already initialized")), b)

/-- A handler is over: its phase is final, and its toast is withdrawn. -/
def retire (b : Board) (h : HandlerId) : Board :=
  (b.update h Handler.retired).releaseToast (b.handler h).registration

/-- Ends a handler, once: its toast is withdrawn, and then its listener is told if it was live. -/
def unregister (h : HandlerId) : Act Unit := do
  let phase ← Action.ask (·.phase h)
  if phase = .unregistered then pure ()
  else
    Action.change (·.retire h)
    if phase = .live then notify h .finished none else pure ()

/-- Takes a handler out of a registry and ends it, if it is the very one under the name. -/
def removeIfCurrent (r : RegistryId) (name : String) (h : HandlerId) : Act Bool := do
  let current ← Action.ask (·.isCurrent r name h)
  if current then
    let _ ← Action.step (·.takeEntry r name)
    Act.thenLetGo h (unregister h)
    pure true
  else pure false

/-- Takes a handler out of its own registry, if that still exists and has it; tells whether. -/
def leaveRegistry (h : HandlerId) : Act Bool := do
  let hd ← Action.ask (·.handler h)
  match hd.registry with
  | none => pure false
  | some r =>
    let there ← Action.ask (·.hasRegistry r)
    if there then Act.owning r (removeIfCurrent r hd.name h) else pure false

/-- A handler ends by itself: it leaves its registry if it is still the current one there, and
only ends otherwise. -/
def removeSelf (h : HandlerId) : Act Unit := do
  let removed ← leaveRegistry h
  if removed then pure () else unregister h

/-- Tells the listener of a live handler what became of its toast. -/
def report (h : HandlerId) (outcome : Outcome) : Act Unit := do
  let hd ← Action.ask (·.handler h)
  match outcome with
  | .activated none => if hd.fields.textClickable then notify h .clicked none else pure ()
  | .activated (some action) => notify h .actionTaken (some action)
  | .dismissed => pure ()
  | .failed _ => pure ()

/-- A handler hears from the screen. Live, it reports the outcome and ends; while it is being
registered it keeps the first outcome for later; otherwise it is not concerned. -/
def handleOutcome (h : HandlerId) (outcome : Outcome) : Act Unit := do
  let phase ← Action.ask (·.phase h)
  match phase with
  | .live =>
    report h outcome
    removeSelf h
  | .initializing => Action.change (·.update h fun hd => hd.deferred outcome)
  | _ => pure ()

/-- A handler to which somebody on the screen still points hears from it, if it still exists. -/
def hear (h : HandlerId) (outcome : Outcome) : Act Unit := do
  let here ← Action.ask (·.refersTo h)
  if here then Act.holding h (handleOutcome h outcome) else pure ()

/-- The registration of a handler was refused. -/
def reject (h : HandlerId) : Act Unit := do
  let phase ← Action.ask (·.phase h)
  if phase = .unregistered then pure ()
  else
    Action.change (·.setPhase h .initFailed)
    removeSelf h

/-- A handler becomes live with its toast. -/
def goLive (h : HandlerId) (toast : ToastId) (pending : Option Outcome) : Act Unit := do
  Action.change (·.update h fun hd =>
    { hd with phase := .live, registration := some toast, pending := none })
  notify h .shown none
  match pending with
  | none => pure ()
  | some outcome => handleOutcome h outcome

/-- The registration of a handler is done. If the handler is over by now, its toast is withdrawn
at once. If the screen has reported a failure meanwhile, its initialization has failed. Otherwise
it goes live, and then hears what was kept for it. -/
def complete (h : HandlerId) (toast : ToastId) : Act Unit := do
  let hd ← Action.ask (·.handler h)
  if hd.phase = .unregistered then Action.change (·.releaseToast (some toast))
  else
    match hd.pending with
    | some (.failed _) =>
      Action.change (·.update h fun hd =>
        { hd with phase := .initFailed, registration := some toast, pending := none })
      removeSelf h
    | pending => goLive h toast pending

/-- The screen registers a handler, and may report something before that is done. -/
def register (h : HandlerId) : Act Unit := do
  let result ← Action.step fun b =>
    let (result, screen) := b.screen.register h (b.handler h).fields
    (result, { b with screen })
  match result with
  | .error _ => reject h
  | .ok toast =>
    let early ← Action.step fun b =>
      let (early, screen) := b.screen.takeEarly
      (early, { b with screen })
    match early with
    | none => pure ()
    | some outcome => hear h outcome
    complete h toast

end Board

end ToastBoard
