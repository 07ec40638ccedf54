import ToastBoard.Proofs.Showing

/-!
# Calls that come between each other

Several threads may show and close alerts of one coordinator at the same time, while its handlers
hear from the screen, its worker stops and the signal fires. Each call is then a sequence of steps,
every step is done in one go, and the steps of different calls come in any order. Whatever a
listener does when it is told is a call of its own, so within a step listeners only return.
-/

namespace ToastBoard

open Board

variable {h : HandlerId} {co : Coordinator} {b b' : Board}

namespace Talk

variable {σ μ α β : Type}

/-- Runs a computation while everybody who is told returns and does nothing. -/
def quietly : Talk σ μ α → Option α × σ
  | .ended a s => (a, s)
  | .told _ s resume => (resume true s).quietly

/-- Running quietly is running with listeners that do nothing. -/
theorem quietly_eq_run (t : Talk σ μ α) (s : σ) :
    t.quietly = t.run id (fun s _ => s) (fun _ s => (true, s)) s := by
  induction t generalizing s with
  | ended a s' => rfl
  | told m s' resume ih => exact ih true s' s'

@[simp] theorem quietly_ensuring (t : Talk σ μ α) (f : σ → σ) :
    (t.ensuring f).quietly = (t.quietly.1, f t.quietly.2) := by
  induction t with
  | ended a s => rfl
  | told m s resume ih => exact ih true s

theorem quietly_caught (t : Talk σ μ Unit) : t.caught.quietly = (some (), t.quietly.2) := by
  induction t with
  | ended a s => rfl
  | told m s resume ih => exact ih true s

theorem quietly_andThen (t : Talk σ μ α) (next : α → σ → Talk σ μ β) :
    (t.andThen next).quietly = match t.quietly with
      | (none, s) => (none, s)
      | (some a, s) => (next a s).quietly := by
  induction t with
  | ended a s => cases a <;> rfl
  | told m s resume ih => exact ih true s

end Talk

namespace Board

/-- The board after a handler ended while its listener only returned. -/
def dismissed (b : Board) (h : HandlerId) : Board :=
  if b.phase h = .unregistered then b
  else if b.phase h = .live then (b.retire h).announce h .finished none
  else b.retire h

theorem quietly_notify (h : HandlerId) (topic : Topic) (action : Option String) (b : Board) :
    (notify h topic action b).quietly = (some (), b.announce h topic action) := by
  rw [notify_eq]
  cases hl : (b.handler h).listener with
  | none => simp only [Talk.quietly, announce, hl]
  | some l => rfl

@[simp] theorem quietly_unregister (h : HandlerId) (b : Board) :
    (unregister h b).quietly = (some (), b.dismissed h) := by
  rw [unregister_eq, dismissed]
  split
  · rfl
  · split
    · exact quietly_notify ..
    · rfl

/-- Ending a handler concerns no registry and no other handler. -/
theorem dismissed_quiet (b : Board) (h : HandlerId) :
    b.Onward (b.dismissed h) ∧ (b.dismissed h).registries = b.registries ∧
      ∀ x, (b.dismissed h).phase x = if x = h then .unregistered else b.phase x := by
  have hretired : ¬b.phase h = .unregistered → b.Onward (b.retire h) ∧
      (b.retire h).registries = b.registries ∧
      ∀ x, (b.retire h).phase x = if x = h then .unregistered else b.phase x := by
    intro hp
    exact ⟨onward_retire b h, registries_retire h, phase_retire hp⟩
  unfold dismissed
  split
  · rename_i hp
    refine ⟨.refl b, rfl, fun x => ?_⟩
    split
    · rename_i hx
      rw [hx, hp]
    · rfl
  · rename_i hp
    obtain ⟨honward, hregistries, hphase⟩ := hretired hp
    split
    · have hsame : (b.retire h).Onward ((b.retire h).announce h .finished none) :=
        onward_of_handlers handlers_announce
      have htables : ((b.retire h).announce h .finished none).registries =
          (b.retire h).registries := by rw [announce_eq]
      refine ⟨honward.trans hsame, htables.trans hregistries, fun x => ?_⟩
      rw [← hphase x, phase, handler_announce]
      rfl
    · exact ⟨honward, hregistries, hphase⟩

end Board

/-- What is left to do of a call. -/
inductive Call where
  /-- To put a new handler under its name and submit it. -/
  | install (h : HandlerId)
  /-- To submit a handler that displaced another one. -/
  | submit (h : HandlerId) (old : Option HandlerId)
  /-- To give up the name of a handler that was not submitted for the one it displaced. -/
  | restore (h : HandlerId) (old : Option HandlerId)
  /-- To take out the handler of a name. -/
  | close (name : String)
  /-- To take out all handlers, which end in some order. -/
  | drain (visit : Visit)
  /-- To end handlers that were displaced or taken out, and to give back holds. -/
  | finish (hs held : List HandlerId)
  /-- To take a handler out of its registry if it is the current one there, and to end it. -/
  | leave (h : HandlerId)
  /-- To end a handler that was not the current one. -/
  | depart (h : HandlerId)

namespace Call

/-- The next step of a call, with what is left to do of it. -/
def step (co : Coordinator) : Call → Board → Option Call × Board
  | .install h, b =>
    let (old, b) := b.install co.registry (b.handler h).name h
    (some (.submit h old), b)
  | .submit h old, b =>
    match b.submit co.station h with
    | (.ok (), b) => (some (.finish old.toList (old.toList ++ [h])), b)
    | (.error _, b) => (some (.restore h old), b)
  | .restore h old, b =>
    (some (.depart h), (b.restore co.registry (b.handler h).name h old).2)
  | .close name, b =>
    let (removed, b) := b.takeEntry co.registry name
    (some (.finish removed.toList removed.toList), b)
  | .drain visit, b =>
    let (hs, b) := b.takeAll co.registry
    (some (.finish (visit co.registry hs) (visit co.registry hs)), b)
  | .finish (h :: hs) held, b => (some (.finish hs held), (unregister h b).quietly.2)
  | .finish [] held, b => (none, b.letGoAll held)
  | .leave h, b =>
    match (leaveRegistry h b).quietly with
    | (some true, b) => (some (.finish [] [h]), b)
    | (_, b) => (some (.depart h), b)
  | .depart h, b => (some (.finish [] [h]), (unregister h b).quietly.2)

/-- What a call comes to if nothing comes between its steps. -/
inductive Alone (co : Coordinator) : Option Call → Board → Board → Prop where
  /-- It has returned. -/
  | returned {b : Board} : Alone co none b b
  /-- It goes on. -/
  | next {call : Call} {b b' : Board} (rest : Alone co (call.step co b).1 (call.step co b).2 b') :
      Alone co (some call) b b'

/-- Handlers that were taken out end one after the other. -/
theorem alone_finish (hs held : List HandlerId) (b : Board) : Alone co (some (.finish hs held)) b
    ((Action.forEach hs unregister b).quietly.2.letGoAll held) := by
  induction hs generalizing b with
  | nil => exact .next .returned
  | cons h hs ih =>
    have hrest : (Action.forEach (h :: hs) unregister b).quietly =
        (Action.forEach hs unregister (b.dismissed h)).quietly := by
      have hthen := Talk.quietly_andThen (unregister h b) fun _ => Action.forEach hs unregister
      rw [quietly_unregister] at hthen
      exact hthen
    rw [hrest]
    refine .next ?_
    rw [step, quietly_unregister]
    exact ih (b.dismissed h)

/-- A handler that ends and is given back. -/
theorem quietly_thenLetGo (h : HandlerId) (b : Board) :
    (Act.thenLetGo h (unregister h) b).quietly = (some (), (b.dismissed h).letGo h) := by
  change ((unregister h b).ensuring (·.letGo h)).quietly = _
  rw [Talk.quietly_ensuring, quietly_unregister]

/-- Alone, a call to show an alert presents it. -/
theorem alone_install (hh : h < b.handlers.length) : Alone co (some (.install h)) b
    (Act.thenLetGo h (present co h) b).quietly.2 := by
  change Alone co _ b ((present co h b).ensuring (·.letGo h)).quietly.2
  rw [Talk.quietly_ensuring, present_eq]
  refine .next ?_
  have hinstalled : b.Onward (b.install co.registry (b.handler h).name h).2 := by
    rw [install_eq]
    exact onward_of_handlers rfl
  generalize hi : b.install co.registry (b.handler h).name h = installed at hinstalled
  obtain ⟨old, a⟩ := installed
  rw [step, hi]
  refine .next ?_
  have honward := hinstalled.trans (submit_quiet a co.station h).1
  generalize hs : a.submit co.station h = submitted at honward
  obtain ⟨result, a'⟩ := submitted
  cases result with
  | error e =>
    have hname : (a'.handler h).name = (b.handler h).name := by
      rw [Handler.name, honward.fields h hh, Handler.name]
    have he : (a.submit co.station h).1 = .error e := by rw [hs]
    rw [step, hs, entrust_refused he, hs]
    refine .next (.next ?_)
    have hback : (rollBack co.registry (b.handler h).name h old a').quietly =
        (some (), ((a'.restore co.registry (b.handler h).name h old).2).dismissed h) :=
      quietly_unregister h _
    rw [Talk.quietly_andThen, hback, step, step, quietly_unregister, hname]
    exact .next .returned
  | ok u =>
    have he : (a.submit co.station h).1 = .ok () := by rw [hs]
    rw [step, hs, entrust_accepted he, hs]
    cases old with
    | none => exact .next .returned
    | some p =>
      have hend : (supersede (some p) a').quietly = _ := quietly_thenLetGo p a'
      rw [Talk.quietly_andThen, hend]
      refine .next ?_
      change Alone co (some (.finish [] [p, h])) (unregister p a').quietly.2 _
      rw [quietly_unregister]
      exact .next .returned

/-- Alone, a call to close a name takes down what is there. -/
theorem alone_close (name : String) (b : Board) : Alone co (some (.close name)) b
    (takeDown co name b).quietly.2 := by
  refine .next ?_
  unfold takeDown
  generalize ht : b.takeEntry co.registry name = taken
  obtain ⟨removed, a⟩ := taken
  rw [step, ht]
  cases removed with
  | none => exact .next .returned
  | some h =>
    rw [quietly_thenLetGo]
    refine .next ?_
    change Alone co (some (.finish [] [h])) (unregister h a).quietly.2 _
    rw [quietly_unregister]
    exact .next .returned

/-- Alone, a call to end all handlers drains the registry. -/
theorem alone_drain (visit : Visit) (b : Board) : Alone co (some (.drain visit)) b
    (Board.drain visit co.registry b).quietly.2 := by
  refine .next ?_
  change Alone co _ _ ((Action.forEach (visit co.registry (b.takeAll co.registry).1) unregister
    (b.takeAll co.registry).2).ensuring
      (·.letGoAll (visit co.registry (b.takeAll co.registry).1))).quietly.2
  rw [Talk.quietly_ensuring]
  exact alone_finish _ _ _

end Call

namespace Board

/-- The board after a current handler left its registry. -/
def departed (b : Board) (r : RegistryId) (h : HandlerId) : Board :=
  ((((b.ownRegistry r).takeEntry r (b.handler h).name).2.dismissed h).letGo h).disownRegistry r

/-- A handler whose registry exists leaves it if it is the current one there. -/
theorem quietly_leaveRegistry {r : RegistryId} (hreg : (b.handler h).registry = some r)
    (hr : 0 < (b.registry r).owners) : (leaveRegistry h b).quietly =
      if b.isCurrent r (b.handler h).name h = true then (some true, b.departed r h)
      else (some false, b) := by
  have hexists : b.hasRegistry r = true := by simpa [hasRegistry] using hr
  rw [leaveRegistry_eq, hreg]
  simp only
  rw [if_pos hexists, Talk.quietly_ensuring, removeIfCurrent_eq, isCurrent_ownRegistry]
  split
  · have hend := Call.quietly_thenLetGo h ((b.ownRegistry r).takeEntry r (b.handler h).name).2
    rw [Talk.quietly_andThen, hend]
    rfl
  · rw [Talk.quietly, disownRegistry_ownRegistry hr]

end Board

/-- Alone, a handler that hears from the screen removes itself. -/
theorem Call.alone_leave (hreg : (b.handler h).registry = some co.registry)
    (hr : 0 < (b.registry co.registry).owners) : Alone co (some (.leave h)) b
      ((removeSelf h b).quietly.2.letGo h) := by
  have hleave := quietly_leaveRegistry hreg hr
  have hself := Talk.quietly_andThen (leaveRegistry h b) fun removed =>
    if removed = true then (pure () : Act Unit) else unregister h
  by_cases hc : b.isCurrent co.registry (b.handler h).name h = true
  · rw [if_pos hc] at hleave
    rw [hleave] at hself
    rw [removeSelf_eq, hself]
    refine .next ?_
    rw [step, hleave]
    exact .next .returned
  · rw [if_neg hc] at hleave
    rw [hleave] at hself
    rw [removeSelf_eq, hself]
    refine .next ?_
    rw [step, hleave]
    exact .next (.next .returned)

namespace Board

variable {r : RegistryId} (hr : 0 < (b.registry r).owners) (name : String)

include hr

theorem registry_install (h : HandlerId) :
    (b.install r name h).2.registry r = (b.registry r).insert name h := by
  rw [install_eq]
  exact (registry_updateRegistry ..).trans (if_pos ⟨rfl, lt_of_owners hr⟩)

theorem registry_takeEntry :
    (b.takeEntry r name).2.registry r = (b.registry r).erase name := by
  rw [takeEntry_eq]
  exact (registry_updateRegistry ..).trans (if_pos ⟨rfl, lt_of_owners hr⟩)

theorem registry_takeAll :
    (b.takeAll r).2.registry r = { b.registry r with entries := [] } :=
  (registry_updateRegistry ..).trans (if_pos ⟨rfl, lt_of_owners hr⟩)

/-- An install is undone while its handler is current: for the displaced one if that is active. -/
theorem registry_restore (h : HandlerId) (old : Option HandlerId) :
    (b.restore r name h old).1 = b.isCurrent r name h ∧
    (b.restore r name h old).2.registry r = if b.isCurrent r name h = true then
      match old.filter fun p => (b.phase p).isActive with
      | some p => (b.registry r).insert name p
      | none => (b.registry r).erase name
    else b.registry r := by
  have hreap : ∀ (f : Registry → Registry) (hs : List HandlerId),
      (((b.updateRegistry r f).reap h).letGoAll hs).registry r = f (b.registry r) := by
    intro f hs
    rw [registry, registries_letGoAll, (sameButToasts_reap h).registries]
    exact (registry_updateRegistry ..).trans (if_pos ⟨rfl, lt_of_owners hr⟩)
  unfold restore
  by_cases hc : b.isCurrent r name h = true
  · rw [if_pos hc, if_pos hc, hc]
    cases old.filter fun p => (b.phase p).isActive with
    | some p => exact ⟨rfl, hreap _ [p]⟩
    | none => exact ⟨rfl, hreap _ old.toList⟩
  · rw [if_neg hc, if_neg hc, Bool.eq_false_iff.mpr hc]
    refine ⟨rfl, ?_⟩
    rw [letGoIf, registry, registries_letGoAll]
    rfl

/-- The registry that a current handler is about to have left. -/
theorem registry_departing (h : HandlerId) :
    ((((b.ownRegistry r).takeEntry r (b.handler h).name).2.dismissed h).letGo h).registry r =
      { (b.registry r).erase (b.handler h).name with owners := (b.registry r).owners + 1 } := by
  have hown : (b.ownRegistry r).registry r =
      { b.registry r with owners := (b.registry r).owners + 1 } :=
    (registry_updateRegistry ..).trans (if_pos ⟨rfl, lt_of_owners hr⟩)
  have hpos : 0 < ((b.ownRegistry r).registry r).owners := by
    rw [hown]
    exact Nat.succ_pos _
  have htaken := registry_takeEntry hpos (b.handler h).name
  generalize ((b.ownRegistry r).takeEntry r (b.handler h).name).2 = a at *
  obtain ⟨-, hregistries, -⟩ := dismissed_quiet a h
  rw [registry, (sameButToasts_letGo h).registries]
  change (a.dismissed h).registries.getD r _ = _
  rw [hregistries]
  exact htaken.trans (by rw [hown]; rfl)

/-- It is still there. -/
theorem departed_eq (h : HandlerId) : b.departed r h =
    ((((b.ownRegistry r).takeEntry r (b.handler h).name).2.dismissed h).letGo h).disowned r := by
  have hmore := Nat.lt_of_lt_of_eq (Nat.succ_lt_succ hr)
    (congrArg Registry.owners (registry_departing hr h)).symm
  unfold departed
  rw [disownRegistry_eq (Nat.lt_of_succ_lt hmore), orphans, if_pos hmore]
  rfl

/-- A current handler that leaves its registry loses its entry and ends. -/
theorem departed_quiet (h : HandlerId) : b.Onward (b.departed r h) ∧
    (b.departed r h).registry r = (b.registry r).erase (b.handler h).name ∧
    ∀ x, (b.departed r h).phase x = if x = h then .unregistered else b.phase x := by
  have hdeparting := registry_departing hr h
  have hmore := Nat.lt_of_lt_of_eq (Nat.succ_lt_succ hr)
    (congrArg Registry.owners hdeparting).symm
  have hsame : ((b.ownRegistry r).takeEntry r (b.handler h).name).2.handlers = b.handlers := by
    rw [takeEntry_eq]
    rfl
  have honward : b.Onward ((b.ownRegistry r).takeEntry r (b.handler h).name).2 :=
    onward_of_handlers hsame
  have hphase : ∀ x, ((b.ownRegistry r).takeEntry r (b.handler h).name).2.phase x = b.phase x := by
    intro x
    rw [phase, handler, hsame]
    rfl
  rw [departed_eq hr]
  generalize ((b.ownRegistry r).takeEntry r (b.handler h).name).2 = a at *
  obtain ⟨hend, -, hover⟩ := dismissed_quiet a h
  refine ⟨?_, ?_, fun x => ?_⟩
  · have hletGo := onward_letGo (a.dismissed h) h
    have hdisown : ((a.dismissed h).letGo h).Onward (((a.dismissed h).letGo h).disowned r) :=
      onward_of_handlers rfl
    exact ((honward.trans hend).trans hletGo).trans hdisown
  · rw [registry_disowned (Nat.lt_of_succ_lt hmore), if_pos rfl, if_pos hmore, hdeparting]
    rfl
  · have hletGo : ((a.dismissed h).letGo h).phase x = (a.dismissed h).phase x :=
      (sameButToasts_letGo h).phase x
    rw [← hphase, ← hover]
    exact hletGo

end Board

namespace Call

/-- The handler that a step puts under its name for the first time. -/
def installs : Call → List HandlerId
  | .install h => [h]
  | _ => []

/-- The displaced handler that a step lets go of, because the name it would get back is no longer
that of the handler that displaced it. -/
def abandons (co : Coordinator) (b : Board) : Call → List HandlerId
  | .restore h old =>
    if (b.restore co.registry (b.handler h).name h old).1 then [] else old.toList
  | _ => []

/-- Whether a call is about to end a handler that was not the current one. -/
def departs (h : HandlerId) : Call → Bool
  | .depart x => x = h
  | _ => false

@[simp] theorem departs_iff {h : HandlerId} {call : Call} :
    call.departs h = true ↔ call = .depart h := by
  cases call <;> simp [departs]

/-- The displaced handler that a step puts back although another call is about to end it. -/
def revives (co : Coordinator) (b : Board) (others : List Call) : Call → List HandlerId
  | .restore h old =>
    if (b.restore co.registry (b.handler h).name h old).1 then
      old.toList.filter fun p => (b.phase p).isActive && others.any (·.departs p)
    else []
  | _ => []

theorem mem_revives {co : Coordinator} {b : Board} {others : List Call} {h p : HandlerId}
    {old : Option HandlerId} : p ∈ revives co b others (.restore h old) ↔
      (b.restore co.registry (b.handler h).name h old).1 = true ∧ p ∈ old ∧
        (b.phase p).isActive = true ∧ .depart p ∈ others := by
  rw [revives]
  split
  · rename_i hc
    simp [hc]
  · rename_i hc
    simp [hc]

end Call

/-- Calls to one coordinator that are under way. -/
structure Traffic where
  /-- The board they work on. -/
  board : Board
  /-- What is left to do of the calls that have not returned. -/
  calls : List Call := []
  /-- The handlers that were ever put under their names. -/
  installed : List HandlerId := []
  /-- The handlers that were let go of without being put back or ended. -/
  abandoned : List HandlerId := []
  /-- The handlers that were put back while they were about to end by themselves. -/
  revived : List HandlerId := []

/-- What may happen next. -/
inductive Move where
  /-- Somebody calls to show an alert; its handler is made. -/
  | shown (fields : Snapshot) (listener : Option ListenerId)
  /-- Somebody calls to close a name. -/
  | closed (name : String)
  /-- The signal fires. -/
  | fired (visit : Visit)
  /-- A live handler that still exists hears from the screen. -/
  | heard (h : HandlerId)
  /-- The registration of a handler is done. -/
  | registered (h : HandlerId) (toast : ToastId)
  /-- The registration of a handler is refused. -/
  | refused (h : HandlerId)
  /-- The worker is stopped. -/
  | stopped
  /-- Something happens that concerns neither the registry nor where its handlers stand. -/
  | elsewhere (b : Board)
  /-- The call at a place goes on by a step. -/
  | next (i : Nat)

/-- A later board with the same registry, whose handlers stand where they stood. -/
structure Board.Elsewhere (r : RegistryId) (b b' : Board) : Prop where
  /-- It is a later board. -/
  onward : b.Onward b'
  /-- The registry is the same. -/
  registry : b'.registry r = b.registry r
  /-- Its handlers stand where they stood. -/
  phase : ∀ h, (b.handler h).registry = some r → b'.phase h = b.phase h

namespace Traffic

variable (co : Coordinator) (t : Traffic)

/-- Whether something can happen next. -/
def Allows : Move → Prop
  | .heard h => (t.board.handler h).registry = some co.registry ∧ t.board.phase h = .live ∧
      t.board.refersTo h = true
  | .registered h _ | .refused h =>
    (t.board.handler h).registry = some co.registry ∧ t.board.phase h = .initializing
  | .elsewhere b => t.board.Elsewhere co.registry b
  | .next i => i < t.calls.length
  | _ => True

/-- A call goes on by a step. -/
def proceed (call : Call) (others : List Call) : Traffic where
  board := (call.step co t.board).2
  calls := (call.step co t.board).1.toList ++ others
  installed := call.installs ++ t.installed
  abandoned := call.abandons co t.board ++ t.abandoned
  revived := call.revives co t.board others ++ t.revived

/-- What is so after something happened. -/
def after : Move → Traffic
  | .shown fields listener =>
    let handler : Handler := { fields, listener, registry := some co.registry }
    { t with
      board := (t.board.create handler).2
      calls := .install (t.board.create handler).1 :: t.calls }
  | .closed name => { t with calls := .close name :: t.calls }
  | .fired visit => { t with calls := .drain visit :: t.calls }
  | .heard h => { t with board := t.board.hold h, calls := .leave h :: t.calls }
  | .registered h toast => { t with board := t.board.live h toast }
  | .refused h =>
    { t with board := (t.board.setPhase h .initFailed).hold h, calls := .leave h :: t.calls }
  | .stopped =>
    { t with board := t.board.setWorker co.station (t.board.station co.station).worker.stop }
  | .elsewhere board => { t with board }
  | .next i =>
    match t.calls[i]? with
    | none => t
    | some call => t.proceed co call (t.calls.eraseIdx i)

/-- Every handler that was ever put under its name is over or the current one there, and no current
one is over. -/
def LosesNobody : Prop :=
  (∀ h ∈ t.installed, t.board.phase h = .unregistered ∨
    t.board.isCurrent co.registry (t.board.handler h).name h = true) ∧
  ∀ name h, t.board.current? co.registry name = some h → t.board.phase h ≠ .unregistered

/-- What may come of any calls to a coordinator that has no handlers yet. -/
inductive Run (co : Coordinator) : Traffic → Prop where
  /-- Its registry exists and is empty. -/
  | start {b : Board} (owned : 0 < (b.registry co.registry).owners)
      (empty : (b.registry co.registry).entries = []) : Run co { board := b }
  /-- Something happens that can. -/
  | step {t : Traffic} (run : Run co t) (m : Move) (allowed : t.Allows co m) : Run co (t.after co m)

variable {co t}

/-- Whether some moves can happen one after the other. -/
def Open (co : Coordinator) : Traffic → List Move → Prop
  | _, [] => True
  | t, m :: rest => t.Allows co m ∧ Open co (t.after co m) rest

/-- A run goes on with moves that can happen. -/
theorem Run.follow {moves : List Move} (run : Run co t) (ho : Open co t moves) :
    Run co (moves.foldl (after co) t) := by
  induction moves generalizing t with
  | nil => exact run
  | cons m rest ih =>
    obtain ⟨allowed, hrest⟩ := ho
    exact ih (run.step m allowed) hrest

end Traffic

end ToastBoard
