import ToastBoard.Proofs.Hearing

/-!
# Registering

How order is kept when a worker finishes an attempt: the registration is refused, or a toast is
recorded for it, and the handler becomes live, is refused late or was over before. A panic of a
listener goes no further than the job.
-/

namespace ToastBoard

open Talk Board

variable {strict : Bool} {k : Slack} {g : Ledger} {since w : World} {may : Bool → Prop}
  {h : HandlerId} {o : Outcome} {toast : ToastId}

/-- A handler whose job was taken from a worker and is not done yet. -/
structure Board.Taken (b : Board) (h : HandlerId) : Prop where
  /-- It is still being registered, or over. -/
  phase : b.phase h = .initializing ∨ b.phase h = .unregistered
  /-- It is neither queued nor under way. -/
  free : ¬b.Busy h
  /-- It exists. -/
  referred : b.refersTo h = true

/-- Refusing, step by step. -/
theorem reject_eq (h : HandlerId) (b : Board) : reject h b =
    if b.phase h = .unregistered then .ended (some ()) b
    else removeSelf h (b.setPhase h .initFailed) := by
  change (if b.phase h = .unregistered then (pure () : Act Unit)
    else (Action.change (·.setPhase h .initFailed)).andThen fun _ => removeSelf h) b = _
  split <;> rfl

/-- A handler whose registration is refused ends. -/
theorem keeps_reject (ha : At strict { taken := some h } g since w) (ht : w.board.Taken h) :
    (reject h w.board).Keeps (order strict) may
      (Leaves strict may {} g w.board fun _ _ => True) since w := by
  rw [reject_eq]
  split
  · rename_i hp
    have hs := Sound.done (k := {}) ha.sound (by rw [hp]; exact Phase.noConfusion)
    exact keeps_ended (ha.step (.refl _) rfl hs) (.refl _) trivial
  · rename_i hu
    have hp : w.board.phase h = .initializing := ht.phase.resolve_right hu
    have hself : (w.board.setPhase h .initFailed).phase h = .initFailed :=
      phase_setPhase (lt_of_phase_ne hu) _
    have hs : (w.board.setPhase h .initFailed).Sound strict { unsettled := some h }
        (g.terms w) :=
      ha.sound.failed rfl hp ht.free (fun _ => ⟨rfl, fun x _ => Option.some_ne_none x⟩)
        fun x hx hc => hx (Option.some.inj hc)
    have honward : w.board.Onward (w.board.setPhase h .initFailed) := by
      refine onward_update rfl rfl rfl ?_
      rw [hp]
      exact Phase.initializing_leadsTo Phase.noConfusion
    have hkeeps : (removeSelf h (w.board.setPhase h .initFailed)).Keeps (order strict) may _ since
        (w.put (w.board.setPhase h .initFailed)) :=
      keeps_removeSelf (ha.step honward rfl hs)
        (.inr ⟨by rw [World.put_board, hself]; exact Phase.noConfusion, .inl rfl⟩)
    exact keeps_put.mp (keeps_from hkeeps honward fun _ _ _ _ => trivial)

/-- Becoming live, step by step. -/
theorem goLive_eq (h : HandlerId) (toast : ToastId) (pending : Option Outcome) (b : Board) :
    goLive h toast pending b = (notify h .shown none (b.live h toast)).andThen fun _ =>
      match pending with
      | none => (pure () : Act Unit)
      | some outcome => handleOutcome h outcome := rfl

/-- A handler becomes live, and hears what was kept for it. -/
theorem keeps_goLive (ha : At strict { loose := some toast, taken := some h } g since w)
    (ht : w.board.Taken h) (hp : w.board.phase h = .initializing)
    (hr : w.board.Recorded toast (w.board.handler h).fields) {pending : Option Outcome}
    (ho : ∀ o ∈ pending, (h, o) ∈ w.reported) :
    (goLive h toast pending w.board).Keeps (order strict) may
      (Leaves strict may {} g w.board fun _ _ => True) since w := by
  have hs := ha.sound.live hp ht.free ht.referred hr
  have honward : w.board.Onward (w.board.live h toast) := by
    refine onward_update rfl rfl rfl ?_
    rw [hp]
    exact Phase.initializing_leadsTo Phase.noConfusion
  have hquiet : (order strict).turn since none (w.put (w.board.live h toast)) :=
    ⟨ha.quiet.1.trans honward, ha.quiet.2.1, ha.quiet.2.2⟩
  have htell : (notify h .shown none (w.board.live h toast)).Keeps (order strict) may _ since
      (w.put (w.board.live h toast)) := keeps_notify hquiet hs
  rw [goLive_eq]
  refine keeps_next (keeps_put.mp (keeps_from htell honward fun _ _ _ hw => hw))
    (fun _ _ => trivial) ?_
  intro _ since w' ha' hon hw
  cases pending with
  | none => exact keeps_ended ha' hon trivial
  | some o =>
    exact keeps_from (keeps_handleOutcome ha' (hw.subset (ho o rfl))) hon fun _ _ _ _ => trivial

/-- Being done with a registration, step by step. -/
theorem complete_eq (h : HandlerId) (toast : ToastId) (b : Board) : complete h toast b =
    if b.phase h = .unregistered then .ended (some ()) (b.releaseToast (some toast))
    else match (b.handler h).pending with
      | some (.failed _) => removeSelf h (b.refuse h toast)
      | pending => goLive h toast pending b := by
  change (if b.phase h = .unregistered then Action.change (·.releaseToast (some toast))
    else match (b.handler h).pending with
      | some (.failed _) => (Action.change (·.refuse h toast)).andThen fun _ => removeSelf h
      | pending => goLive h toast pending) b = _
  split
  · rfl
  · cases (b.handler h).pending with
    | none => rfl
    | some o => cases o <;> rfl

/-- A registration that is done leaves no loose toast. -/
theorem keeps_complete (ha : At strict { loose := some toast, taken := some h } g since w)
    (ht : w.board.Taken h) (hr : w.board.Recorded toast (w.board.handler h).fields) :
    (complete h toast w.board).Keeps (order strict) may
      (Leaves strict may {} g w.board fun _ _ => True) since w := by
  have hkept : ∀ o ∈ (w.board.handler h).pending, (h, o) ∈ w.reported :=
    fun o ho => ha.sound.notices.kept ho
  rw [complete_eq]
  split
  · rename_i hp
    have halike := sameButToasts_releaseToast (b := w.board) (some toast)
    have hs := Sound.discard (k := { taken := some h }) ha.sound hr
    have hdone := Sound.done (k := {}) hs (by
      rw [phase_releaseToast, hp]
      exact Phase.noConfusion)
    exact keeps_ended (ha.step halike.onward halike.told hdone) halike.onward trivial
  · rename_i hu
    have hp : w.board.phase h = .initializing := ht.phase.resolve_right hu
    split
    · have hself : (w.board.refuse h toast).phase h = .initFailed :=
        phase_settled (lt_of_phase_ne hu) ..
      have honward : w.board.Onward (w.board.refuse h toast) := by
        refine onward_update rfl rfl rfl ?_
        rw [hp]
        exact Phase.initializing_leadsTo Phase.noConfusion
      have hs := ha.sound.refuse hp ht.free ht.referred hr
      have hkeeps : (removeSelf h (w.board.refuse h toast)).Keeps (order strict) may _ since
          (w.put (w.board.refuse h toast)) :=
        keeps_removeSelf (ha.step honward rfl hs)
          (.inr ⟨by rw [World.put_board, hself]; exact Phase.noConfusion, .inr rfl⟩)
      exact keeps_put.mp (keeps_from hkeeps honward fun _ _ _ _ => trivial)
    · exact keeps_goLive ha ht hp hr hkept

/-- A registration that fails. -/
theorem register_refused {b : Board} {reason : String}
    (hf : b.screen.faults.register = some reason) :
    register h b = reject h { b with
      screen := { b.screen with faults := { b.screen.faults with register := none } } } := by
  have hs : b.screen.register h (b.handler h).fields = (.error (.platform reason),
      { b.screen with faults := { b.screen.faults with register := none } }) := by
    unfold Screen.register
    rw [hf]
  unfold register
  simp only [bind, Action.andThen, Action.step, Talk.andThen, hs]

/-- A board on which a registration was recorded, and the early report taken off the screen. -/
def Board.recorded (b : Board) (h : HandlerId) : Board :=
  { b with screen := { (b.screen.record h (b.handler h).fields).2 with
    faults := { b.screen.faults with early := none } } }

/-- A registration that is recorded, and may be reported about before it is done. -/
theorem register_recorded {b : Board} (hf : b.screen.faults.register = none) :
    register h b = ((match b.screen.faults.early with
      | none => (pure () : Act Unit)
      | some outcome => hear h outcome) (b.recorded h)).andThen fun _ =>
        complete h (b.screen.record h (b.handler h).fields).1 := by
  have hs : b.screen.register h (b.handler h).fields =
      (.ok (b.screen.record h (b.handler h).fields).1,
        (b.screen.record h (b.handler h).fields).2) := by
    unfold Screen.register
    rw [hf]
  unfold register
  simp only [bind, Action.andThen, Action.step, Talk.andThen, hs]
  change (match b.screen.faults.early with
    | none => complete h _
    | some outcome => Action.andThen (hear h outcome) fun _ => complete h _) (b.recorded h) = _
  cases b.screen.faults.early <;> rfl

/-- What is kept for later changes nothing else about a handler. -/
theorem deferred_eq (hd : Handler) (o : Outcome) :
    hd.deferred o = { hd with pending := (hd.deferred o).pending } := by
  unfold Handler.deferred
  split <;> rfl

/-- A handler keeps what it hears while it is being registered, and is as it was otherwise. -/
theorem taken_deferred {b : Board} (ht : b.Taken h) (o : Outcome) :
    (b.update h fun hd => hd.deferred o).Taken h ∧
      ((b.update h fun hd => hd.deferred o).handler h).fields = (b.handler h).fields := by
  have hself : (b.update h fun hd => hd.deferred o).handler h = { b.handler h with
      pending := ((b.update h fun hd => hd.deferred o).handler h).pending } := by
    rw [handler_update]
    split
    · exact deferred_eq _ o
    · rfl
  refine ⟨⟨?_, ht.free, (refersTo_update _ h).trans ht.referred⟩, by rw [hself]⟩
  rw [phase, hself]
  exact ht.phase

/-- The screen registers a handler. -/
theorem keeps_register (ha : At strict { taken := some h } g since w) (ht : w.board.Taken h)
    (ho : w.board.screen.faults.register = none →
      ∀ o ∈ w.board.screen.faults.early, (h, o) ∈ w.reported) :
    (register h w.board).Keeps (order strict) may
      (Leaves strict may {} g w.board fun _ _ => True) since w := by
  cases hf : w.board.screen.faults.register with
  | some reason =>
    rw [register_refused hf]
    have hs := ha.sound.arm { w.board.screen.faults with register := none }
    have honward : w.board.Onward { w.board with screen := { w.board.screen with
      faults := { w.board.screen.faults with register := none } } } := onward_of_handlers rfl
    have hkeeps : (reject h { w.board with screen := { w.board.screen with
        faults := { w.board.screen.faults with register := none } } }).Keeps (order strict) may _
          since (w.put _) :=
      keeps_reject (ha.step honward rfl hs) ⟨ht.phase, ht.free, ht.referred⟩
    exact keeps_put.mp (keeps_from hkeeps honward fun _ _ _ _ => trivial)
  | none =>
    have hrecord := Sound.record (h := h) ha.sound rfl (w.board.handler h).fields
    have hs : (w.board.recorded h).Sound strict _ (g.terms w) :=
      hrecord.1.arm { w.board.screen.faults with early := none }
    have htaken : (w.board.recorded h).Taken h := ⟨ht.phase, ht.free, ht.referred⟩
    have honward : w.board.Onward (w.board.recorded h) := onward_of_handlers rfl
    -- the early report ends nothing, so the toast can stay loose until the registration is done
    have hlast : ∀ b : Board, w.board.Onward b → b.told = w.board.told → b.Sound strict
          { loose := some (w.board.screen.record h (w.board.handler h).fields).1, taken := some h }
          (g.terms w) → b.Taken h →
        b.Recorded (w.board.screen.record h (w.board.handler h).fields).1 (b.handler h).fields →
        (complete h (w.board.screen.record h (w.board.handler h).fields).1 b).Keeps (order strict)
          may (Leaves strict may {} g w.board fun _ _ => True) since w := by
      intro b hon htold hs hb hr
      have hkeeps : (complete h (w.board.screen.record h (w.board.handler h).fields).1 b).Keeps
          (order strict) may _ since (w.put b) := keeps_complete (ha.step hon htold hs) hb hr
      exact keeps_put.mp (keeps_from hkeeps hon fun _ _ _ _ => trivial)
    rw [register_recorded hf]
    cases he : w.board.screen.faults.early with
    | none => exact hlast _ honward rfl hs htaken hrecord.2
    | some o =>
      have hreported := ho hf o he
      have hl : (w.board.recorded h).phase h ≠ .live := by
        rcases htaken.phase with hp | hp <;> rw [hp] <;> exact Phase.noConfusion
      simp only
      rw [hear_of_not_live htaken.referred hl]
      split
      · obtain ⟨hdeferred, hfields⟩ := taken_deferred htaken o
        refine hlast _ ?_ rfl (hs.defer hreported) hdeferred ?_
        · refine honward.trans (onward_update ?_ ?_ ?_ ?_) <;> rw [deferred_eq]
          exact .refl _
        · rw [hfields]
          exact hrecord.2
      · exact hlast _ honward rfl hs htaken hrecord.2

/-- What a worker does inside an attempt. -/
def Board.conclude (s : StationId) (a : Attempt) : Act Unit := do
  Action.change (·.updateStation s fun st => { st with inside := none })
  match a.fate with
  | .proceeds => (register a.handler).caught
  | .panics => pure ()
  | .crashes => Action.change (·.closeStation s)

/-- A worker steps out of an attempt before anything else. -/
theorem conclude_eq (s : StationId) (a : Attempt) (b : Board) :
    conclude s a b = (match a.fate with
      | .proceeds => (register a.handler).caught
      | .panics => (pure () : Act Unit)
      | .crashes => Action.change (·.closeStation s))
        (b.updateStation s fun st => { st with inside := none }) :=
  rfl

/-- Finishing, step by step. -/
theorem finish_eq (s : StationId) (b : Board) : finish s b = match b.inside? s with
    | none => .ended (some none) b
    | some a => (Act.holding a.handler (conclude s a) b).andThen fun _ b =>
        .ended (some (some a.handler)) b := by
  change (match b.inside? s with
    | none => (pure none : Act (Option HandlerId))
    | some a => (Act.holding a.handler (conclude s a)).andThen fun _ => pure (some a.handler)) b = _
  cases b.inside? s <;> rfl

/-- A worker concludes an attempt, whatever comes of it. -/
theorem keeps_conclude {s : StationId} {a : Attempt} (ha : At strict {} g since w)
    (hi : w.board.inside? s = some a) (hheld : a.handler ∈ w.board.held)
    (ho : a.fate = .proceeds → w.board.screen.faults.register = none →
      ∀ o ∈ w.board.screen.faults.early, (a.handler, o) ∈ w.reported) :
    (conclude s a w.board).Keeps (order strict) may
      (Leaves strict may {} g w.board fun _ _ => True) since w := by
  have honward : w.board.Onward (w.board.updateStation s fun st => { st with inside := none }) :=
    onward_of_handlers rfl
  have hleave : a.fate ≠ .proceeds → At strict {} g since
      (w.put (w.board.updateStation s fun st => { st with inside := none })) := fun hf =>
    ha.step honward rfl (ha.sound.leave hi hheld (.inr ⟨rfl, hf⟩) rfl)
  rw [conclude_eq]
  cases hf : a.fate with
  | proceeds =>
    have hs := ha.sound.leave hi hheld (.inl rfl) rfl
    have htaken : (w.board.updateStation s fun st => { st with inside := none }).Taken a.handler :=
      ⟨ha.sound.jobs.waiting (.inr ⟨s, a, hi, rfl⟩), ha.sound.jobs.not_busy_leave hi,
        refersTo_of_held hheld⟩
    have hkeeps : (register a.handler
        (w.board.updateStation s fun st => { st with inside := none })).Keeps (order strict) may _
          since (w.put (w.board.updateStation s fun st => { st with inside := none })) :=
      keeps_register (ha.step honward rfl hs) htaken (ho hf)
    have hfrom := keeps_put.mp (keeps_from hkeeps honward fun _ _ _ _ => trivial)
    refine keeps_caught.mpr (hfrom.mono ?_)
    rintro since _ w' ⟨hat, -, hon, -⟩
    exact ⟨hat, fun hc => absurd hc (Option.some_ne_none _), hon, trivial⟩
  | panics => exact keeps_ended (hleave (by rw [hf]; exact Fate.noConfusion)) honward trivial
  | crashes =>
    have hat := hleave (by rw [hf]; exact Fate.noConfusion)
    have hclose := closeStation_quiet
      (w.board.updateStation s fun st => { st with inside := none }) s
    exact keeps_ended (hat.step hclose.1 hclose.2 (hat.sound.closeStation s))
      (honward.trans hclose.1) trivial

/-- A worker finishes the attempt it stands inside. -/
theorem keeps_finish {s : StationId} (ha : At strict {} g since w)
    (ho : ∀ p ∈ (Deed.finish s).reports w.board, p ∈ w.reported) :
    (finish s w.board).Keeps (order strict) may
      (Leaves strict may {} g w.board fun _ _ => True) since w := by
  rw [finish_eq]
  cases hi : w.board.inside? s with
  | none => exact keeps_ended ha (.refl _) trivial
  | some a =>
    have hhold := ha.hold (h := a.handler) fun _ => refersTo_of_inside hi rfl
    have honward : w.board.Onward (w.board.hold a.handler) := onward_of_handlers rfl
    have hreported : a.fate = .proceeds → w.board.screen.faults.register = none →
        ∀ o ∈ w.board.screen.faults.early, (a.handler, o) ∈ w.reported := by
      intro hfate hregister o hearly
      refine ho _ ?_
      obtain ⟨h, thread, fate⟩ := a
      cases hfate
      have he : w.board.screen.faults.early = some o := hearly
      simp [Deed.reports, hi, hregister, he]
    have hkeeps : (conclude s a (w.board.hold a.handler)).Keeps (order strict) may _ since
        (w.put (w.board.hold a.handler)) :=
      keeps_conclude hhold hi List.mem_cons_self hreported
    refine keeps_next (P := fun _ _ => True) ?_ (fun _ _ => trivial)
      fun _ since w' ha' hon _ => keeps_ended ha' hon trivial
    exact keeps_holding (keeps_from hkeeps honward fun _ _ _ _ => trivial) fun _ _ _ => trivial

end ToastBoard
