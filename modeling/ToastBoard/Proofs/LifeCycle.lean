import ToastBoard.Proofs.Ripening

/-!
# The life cycle of a handler

A worker assigns a phase to a handler without a look at the phase it leaves, except that it is not
the last one. That it never overwrites anything but the phase in which a registration is under way
is not to be seen where it is done: it follows from what is queued and under way at a moment being
initializing or over, whatever was done before, inside of what. So the worker does the same when it
is made to assign in another way, as long as that way is the same for whoever is initializing.
-/

namespace ToastBoard

open Board

variable {h : HandlerId} {s : StationId} {b : Board} {toast : ToastId}

/-- The changes of phase in the life of a handler. -/
inductive Phase.Next : Phase → Phase → Prop where
  /-- It is submitted. -/
  | submitted : Next .created .initializing
  /-- Its registration is done. -/
  | shown : Next .initializing .live
  /-- Its registration is refused. -/
  | refused : Next .initializing .initFailed
  /-- It ends. -/
  | over {p : Phase} (hp : p ≠ .unregistered) : Next p .unregistered

namespace Board

/-- A way to assign to handlers. -/
abbrev Assignment := Board → HandlerId → (Handler → Handler) → Board

/-- A way to assign to those that are initializing; what it does to others is left open. -/
def Assignment.Proper (assign : Assignment) : Prop :=
  ∀ b h f, b.phase h = .initializing → assign b h f = b.update h f

variable (assign : Assignment)

/-- The registration of a handler was refused, with another way to assign. -/
def rejectBy (h : HandlerId) : Act Unit := do
  let phase ← Action.ask (·.phase h)
  if phase = .unregistered then pure ()
  else
    Action.change (assign · h fun hd => { hd with phase := .initFailed })
    removeSelf h

/-- A handler becomes live with its toast, with another way to assign. -/
def goLiveBy (h : HandlerId) (toast : ToastId) (pending : Option Outcome) : Act Unit := do
  Action.change (assign · h fun hd =>
    { hd with phase := .live, registration := some toast, pending := none })
  notify h .shown none
  match pending with
  | none => pure ()
  | some outcome => handleOutcome h outcome

/-- The registration of a handler is done, with another way to assign. -/
def completeBy (h : HandlerId) (toast : ToastId) : Act Unit := do
  let hd ← Action.ask (·.handler h)
  if hd.phase = .unregistered then Action.change (·.releaseToast (some toast))
  else
    match hd.pending with
    | some (.failed _) =>
      Action.change (assign · h fun hd =>
        { hd with phase := .initFailed, registration := some toast, pending := none })
      removeSelf h
    | pending => goLiveBy assign h toast pending

/-- The screen registers a handler, with another way to assign. -/
def registerBy (h : HandlerId) : Act Unit := do
  let result ← Action.step fun b =>
    let (result, screen) := b.screen.register h (b.handler h).fields
    (result, { b with screen })
  match result with
  | .error _ => rejectBy assign h
  | .ok toast =>
    let early ← Action.step fun b =>
      let (early, screen) := b.screen.takeEarly
      (early, { b with screen })
    match early with
    | none => pure ()
    | some outcome => hear h outcome
    completeBy assign h toast

/-- The worker finishes the attempt that is under way, with another way to assign. -/
def finishBy (s : StationId) : Act (Option HandlerId) := do
  let attempt ← Action.ask (·.inside? s)
  match attempt with
  | none => pure none
  | some attempt =>
    let h := attempt.handler
    Act.holding h do
      Action.change (·.updateStation s fun st => { st with inside := none })
      match attempt.fate with
      | .proceeds => (registerBy assign h).caught
      | .panics => pure ()
      | .crashes => Action.change (·.closeStation s)
    pure (some h)

/-- What a worker does is what it does with the assignment that looks at nothing. -/
theorem finishBy_update (s : StationId) : finishBy update s = finish s := rfl

variable {assign}

theorem rejectBy_eq (hassign : assign.Proper)
    (hi : b.phase h = .initializing ∨ b.phase h = .unregistered) :
    rejectBy assign h b = reject h b := by
  rw [reject_eq]
  change (if b.phase h = .unregistered then (pure () : Act Unit)
    else (Action.change (assign · h fun hd => { hd with phase := .initFailed })).andThen
      fun _ => removeSelf h) b = _
  split
  · rfl
  · rename_i hu
    change removeSelf h (assign b h _) = _
    rw [hassign b h _ (hi.resolve_right hu)]
    rfl

theorem completeBy_eq (hassign : assign.Proper)
    (hi : b.phase h = .initializing ∨ b.phase h = .unregistered) :
    completeBy assign h toast b = complete h toast b := by
  rw [complete_eq]
  change (if b.phase h = .unregistered then Action.change (·.releaseToast (some toast))
    else match (b.handler h).pending with
      | some (.failed _) => (Action.change (assign · h fun hd =>
          { hd with phase := .initFailed, registration := some toast, pending := none })).andThen
            fun _ => removeSelf h
      | pending => goLiveBy assign h toast pending) b = _
  have hlive : ∀ pending, b.phase h ≠ .unregistered →
      goLiveBy assign h toast pending b = goLive h toast pending b := by
    intro pending hu
    change (notify h .shown none (assign b h _)).andThen _ = _
    rw [hassign b h _ (hi.resolve_right hu)]
    rfl
  split
  · rfl
  · rename_i hu
    cases (b.handler h).pending with
    | none => exact hlive none hu
    | some o =>
      cases o with
      | activated action => exact hlive _ hu
      | dismissed => exact hlive _ hu
      | failed reason =>
        change removeSelf h (assign b h _) = _
        rw [hassign b h _ (hi.resolve_right hu)]
        rfl

theorem registerBy_eq (hassign : assign.Proper) (hh : h ∈ b.held)
    (hi : b.phase h = .initializing ∨ b.phase h = .unregistered) :
    registerBy assign h b = register h b := by
  unfold registerBy register
  simp only [bind, Action.andThen, Action.step, Talk.andThen]
  cases b.screen.register h (b.handler h).fields with
  | mk result screen =>
    cases result with
    | error e => exact rejectBy_eq (b := { b with screen }) hassign hi
    | ok toast =>
      let d : Board := { b with screen := screen.takeEarly.2 }
      change (match screen.takeEarly.1 with
          | none => completeBy assign h toast
          | some outcome => (hear h outcome).andThen fun _ => completeBy assign h toast) d =
        (match screen.takeEarly.1 with
          | none => complete h toast
          | some outcome => (hear h outcome).andThen fun _ => complete h toast) d
      cases screen.takeEarly.1 with
      | none => exact completeBy_eq hassign hi
      | some o =>
        -- what is heard meanwhile is kept, or does not concern the handler
        have hl : d.phase h ≠ .live := by
          change b.phase h ≠ .live
          rcases hi with hi | hi <;> rw [hi] <;> exact Phase.noConfusion
        change (hear h o d).andThen _ = (hear h o d).andThen _
        rw [hear_of_not_live (b := d) (refersTo_of_held hh) hl]
        refine completeBy_eq hassign ?_
        split
        · have hkept : (d.update h fun hd => hd.deferred o).phase h = b.phase h := by
            rw [phase, handler_update]
            split
            · rw [deferred_eq]
              rfl
            · rfl
          rw [hkept]
          exact hi
        · exact hi

/-- A worker that finishes an attempt does the same with another way to assign. -/
theorem finishBy_eq (hassign : assign.Proper)
    (hi : ∀ attempt, b.inside? s = some attempt →
      b.phase attempt.handler = .initializing ∨ b.phase attempt.handler = .unregistered) :
    finishBy assign s b = finish s b := by
  unfold finishBy finish
  simp only [bind, Action.andThen, Action.ask, Talk.andThen]
  cases hin : b.inside? s with
  | none => rfl
  | some attempt =>
    have hregister := registerBy_eq (b := (b.hold attempt.handler).updateStation s fun st =>
      { st with inside := none }) hassign List.mem_cons_self (hi attempt hin)
    simp only [Act.holding, Act.thenLetGo, Action.ensuring, Action.andThen, Action.change,
      Talk.andThen]
    cases attempt.fate with
    | proceeds =>
      simp only [Action.caught]
      rw [hregister]
    | panics => rfl
    | crashes => rfl

/-- A handler that failed ends without a word. -/
theorem unregister_failed (hp : b.phase h = .initFailed) :
    unregister h b = .ended (some ()) (b.retire h) := by
  rw [unregister_eq, if_neg (by rw [hp]; exact Phase.noConfusion),
    if_neg (by rw [hp]; exact Phase.noConfusion)]

/-- Once a handler ended it has no toast to release, and so it remains. -/
theorem retired_for_good {a b' : Board} (ha : a.phase h = .initFailed)
    (hb : (a.retire h).Ebbs b') :
    b'.phase h = .unregistered ∧ (b'.handler h).registration = none := by
  have hlt : h < a.handlers.length := lt_of_phase_ne (by rw [ha]; exact Phase.noConfusion)
  have hretired : (a.retire h).handler h = (a.handler h).retired := by
    rw [handler_retire, if_pos ⟨rfl, hlt⟩]
  have hover : (a.retire h).phase h = .unregistered := by
    rw [phase, hretired]
    rfl
  constructor
  · rcases hb.phase h with he | he
    · exact he.trans hover
    · exact he
  · refine Option.eq_none_iff_forall_not_mem.mpr fun id hid => ?_
    have hbefore := hb.registration hid
    rw [hretired] at hbefore
    cases hbefore

/-- A handler that failed is removed at once, and has no toast to release then. -/
theorem removeSelf_failed (hp : b.phase h = .initFailed) : ∃ b',
    removeSelf h b = .ended (some ()) b' ∧ b'.phase h = .unregistered ∧
      (b'.handler h).registration = none := by
  have haway : leaveRegistry h b = .ended (some false) b → ∃ b',
      removeSelf h b = .ended (some ()) b' ∧ b'.phase h = .unregistered ∧
        (b'.handler h).registration = none := by
    intro he
    rw [removeSelf_eq, he]
    exact ⟨_, unregister_failed hp, retired_for_good hp (.refl _)⟩
  have hleave := leaveRegistry_eq h b
  split at hleave
  · exact haway hleave
  · rename_i r hr
    split at hleave
    · rw [removeIfCurrent_eq] at hleave
      split at hleave
      · -- it is current: it is taken out, ends, and its registry is given back
        let taken := ((b.ownRegistry r).takeEntry r (b.handler h).name).2
        have htaken : taken.phase h = .initFailed := by
          rw [show taken = _ from congrArg Prod.snd (takeEntry_eq ..)]
          exact hp
        have hend : Act.thenLetGo h (unregister h) taken =
            .ended (some ()) ((taken.retire h).letGo h) := by
          change (unregister h taken).ensuring _ = _
          rw [unregister_failed htaken]
          rfl
        rw [show Act.thenLetGo h (unregister h) ((b.ownRegistry r).takeEntry r _).2 = _ from hend]
          at hleave
        refine ⟨((taken.retire h).letGo h).disownRegistry r, ?_, retired_for_good htaken
          ((ebbs_letGo h).trans (ebbs_disownRegistry r))⟩
        rw [removeSelf_eq, hleave]
        rfl
      · refine haway (hleave.trans ?_)
        rename_i hthere _
        change Talk.ended (some false) ((b.ownRegistry r).disownRegistry r) = _
        rw [disownRegistry_ownRegistry (by simpa [hasRegistry] using hthere)]
    · exact haway hleave

end Board

/-- Submitting a handler is an error and changes nothing, whichever the worker is. -/
def Board.Declines (b : Board) (h : HandlerId) : Prop :=
  ∀ s, b.submit s h =
    (.error (.other ("handler for '" ++ (b.handler h).name ++ "' already initialized")), b)

/-- The life cycle of handlers, as it is kept from a moment on. -/
structure LifeCycle (m : Moment) : Prop where
  /-- In an event a handler makes one change of phase at most; only where no worker takes it there
  are two, one right after the other. -/
  moves : ∀ {e}, m.Allows e → ∀ h < m.world.board.handlers.length,
    (m.after e).world.board.phase h = m.world.board.phase h ∨
    (m.world.board.phase h).Next ((m.after e).world.board.phase h) ∨
    ∃ s reason, e = .deed (.submit s h) ∧ m.world.board.phase h = .created ∧
      m.world.board.submit s h = (.error reason,
        (m.world.board.setPhase h .initializing).setPhase h .initFailed)
  /-- A handler that somebody made was not submitted yet; one that was shown was, or is over. -/
  made : ∀ {e}, m.Allows e → ∀ h, m.world.board.handlers.length ≤ h →
    (m.after e).world.board.phase h = .initializing ∨
    (m.after e).world.board.phase h = .unregistered ∨
    (m.after e).world.board.phase h = .created ∧
      ∃ fields listener registry, e = .deed (.create fields listener registry)
  /-- A handler that is over stays so, whatever happens. -/
  final : ∀ h < m.world.board.handlers.length, m.world.board.phase h = .unregistered →
    ∀ events, Course.Open (fun _ _ => True) m events →
      (events.foldl Moment.after m).world.board.phase h = .unregistered
  /-- Only a handler that is just created can be submitted, and is initializing then; otherwise that
  is an error and changes nothing. -/
  fresh : ∀ h, (m.world.board.phase h ≠ .created → m.world.board.Declines h) ∧
    ∀ s, (m.world.board.submit s h).1 = .ok () →
      m.world.board.phase h = .created ∧ (m.world.board.submit s h).2.phase h = .initializing
  /-- Once a handler was submitted, whether a worker took it or not, it can never be submitted
  again. -/
  once : ∀ s h, m.Allows (.deed (.submit s h)) →
    ∀ events, Course.Open (fun _ _ => True) (m.after (.deed (.submit s h))) events →
      (events.foldl Moment.after (m.after (.deed (.submit s h)))).world.board.Declines h
  /-- Nor can one that has left its first phase in any other way. -/
  begun : ∀ h < m.world.board.handlers.length, m.world.board.phase h ≠ .created →
    ∀ events, Course.Open (fun _ _ => True) m events →
      (events.foldl Moment.after m).world.board.Declines h
  /-- Who is queued or being registered is initializing or over. -/
  waiting : ∀ h, m.world.board.Busy h →
    m.world.board.phase h = .initializing ∨ m.world.board.phase h = .unregistered
  /-- So a worker that finishes a registration overwrites nothing else: it does the same if its
  assignments do anything else to a handler that is not initializing. -/
  guarded : ∀ assign : Board.Assignment, assign.Proper → ∀ s,
    finishBy assign s m.world.board = finish s m.world.board
  /-- Who has a toast to release is live. -/
  stored : ∀ h id, (m.world.board.handler h).registration = some id →
    m.world.board.phase h = .live
  /-- Only in the middle of a step has a handler that failed a toast to release: if the screen
  reported a failure meanwhile, it gets the toast and is removed before anything else happens. -/
  failed : ∀ (b : Board) h toast reason, b.phase h = .initializing →
    (b.handler h).pending = some (.failed reason) →
      complete h toast b = removeSelf h (b.refuse h toast) ∧
      (b.refuse h toast).phase h = .initFailed ∧
      ((b.refuse h toast).handler h).registration = some toast ∧
      ∃ b', removeSelf h (b.refuse h toast) = .ended (some ()) b' ∧ b'.phase h = .unregistered ∧
        (b'.handler h).registration = none

namespace Board

/-- A handler that has left its first phase cannot be submitted. -/
theorem declines_of_begun (hp : b.phase h ≠ .created) : b.Declines h := by
  intro s
  unfold submit
  split
  · rename_i hc
    exact absurd hc hp
  · rfl

/-- A handler that no worker takes fails right after it was initializing. -/
theorem submit_refused (hp : b.phase h = .created) (hf : (b.submit s h).2.phase h = .initFailed) :
    ∃ reason, b.submit s h =
      (.error reason, (b.setPhase h .initializing).setPhase h .initFailed) := by
  have hlt : h < b.handlers.length := lt_of_phase_ne (by rw [hp]; exact Phase.noConfusion)
  have hset : (b.setPhase h .initializing).phase h = .initializing := phase_setPhase hlt _
  unfold submit at hf ⊢
  rw [hp] at hf ⊢
  simp only at hf ⊢
  split
  · rename_i worker hw
    rw [hw] at hf
    have hstill : (b.setPhase h .initializing).phase h = .initFailed := hf
    rw [hset] at hstill
    cases hstill
  · rename_i reason _
    exact ⟨reason, rfl⟩

/-- After it was submitted a handler has left its first phase. -/
theorem submit_begins (b : Board) (s : StationId) (h : HandlerId) :
    (b.submit s h).2.phase h ≠ .created := by
  by_cases hp : b.phase h = .created
  · have hlt : h < b.handlers.length := lt_of_phase_ne (by rw [hp]; exact Phase.noConfusion)
    rcases submit_phase b s hlt with ⟨-, -, he⟩ | ⟨e, -, ⟨-, he⟩ | ⟨hne, -⟩⟩
    · rw [he]
      exact Phase.noConfusion
    · rw [he]
      exact Phase.noConfusion
    · exact absurd hp hne
  · rw [declines_of_begun hp s]
    exact hp

/-- A handler that failed while it was registered is removed at once. -/
theorem complete_failed (toast : ToastId) {reason : String} (hp : b.phase h = .initializing)
    (ho : (b.handler h).pending = some (.failed reason)) :
    complete h toast b = removeSelf h (b.refuse h toast) ∧
      (b.refuse h toast).phase h = .initFailed ∧
      ((b.refuse h toast).handler h).registration = some toast := by
  have hlt : h < b.handlers.length := lt_of_phase_ne (by rw [hp]; exact Phase.noConfusion)
  have hself : (b.refuse h toast).handler h =
      { b.handler h with phase := .initFailed, registration := some toast, pending := none } :=
    handler_settled hlt ..
  refine ⟨?_, by rw [phase, hself], by rw [hself]⟩
  rw [complete_eq, if_neg (by rw [hp]; exact Phase.noConfusion), ho]

end Board

/-- What an event starts with moves one handler on at most. -/
theorem Event.Starts.moves {b b' : Board} {e : Event} (hs : e.Starts b b')
    (hlt : h < b.handlers.length) : b'.phase h = b.phase h ∨ (b.phase h).Next (b'.phase h) ∨
      ∃ s reason, e = .deed (.submit s h) ∧ b.phase h = .created ∧ b'.phase h = .initFailed ∧
        b.submit s h = (.error reason, (b.setPhase h .initializing).setPhase h .initFailed) := by
  cases hs with
  | still => exact .inl rfl
  | made fields listener registry =>
    exact .inl ((readied_create b { fields, listener, registry } rfl rfl).other h
      (Nat.ne_of_lt hlt))
  | shown c source listener hshown => exact .inl (hshown.other h (Nat.ne_of_lt hlt))
  | installed r name x => exact .inl (phase_install ..)
  | restored r name x previous => exact .inl ((restore_quiet ..).2.2 h)
  | submitted s x =>
    by_cases hx : h = x
    · subst hx
      rcases submit_phase b s hlt with ⟨-, hp, he⟩ | ⟨-, -, ⟨hp, he⟩ | ⟨-, he⟩⟩
      · rw [hp, he]
        exact .inr (.inl .submitted)
      · obtain ⟨reason, hrefused⟩ := submit_refused hp he
        exact .inr (.inr ⟨s, reason, rfl, hp, he, hrefused⟩)
      · exact .inl he
    · obtain ⟨-, -, -, hother⟩ := submit_quiet b s x
      exact .inl (by rw [phase, hother h hx, phase])
  | setUp settings host => exact .inl (by rw [phase, handler, handlers_setUp]; rfl)
  | @ripened s attempt b' hin hripe =>
    by_cases hx : h = attempt.handler
    · subst hx
      rcases hripe.phase with he | ⟨hp, he⟩
      · exact .inl he
      · rw [hp]
        rcases he with he | he
        · rw [he]
          exact .inr (.inl .shown)
        · rw [he]
          exact .inr (.inl .refused)
    · exact .inl (by rw [phase, hripe.other h hx, phase])

/-- A new handler was made by somebody, or it was shown and is initializing or over. -/
theorem Event.Starts.made_new {b b' : Board} {e : Event} (hs : e.Starts b b')
    (hnew : b.handlers.length ≤ h) : b'.phase h = .initializing ∨ b'.phase h = .unregistered ∨
      b'.phase h = .created ∧
        ∃ fields listener registry, e = .deed (.create fields listener registry) := by
  -- without a new handler there is none of that number
  have hnone : ∀ d : Board, d.handlers.length = b.handlers.length → d.phase h = .unregistered := by
    intro d hd
    rw [phase, handler_of_le (hd ▸ hnew)]
    rfl
  cases hs with
  | still => exact .inr (.inl (hnone b rfl))
  | made fields listener registry =>
    have hcreate := readied_create b { fields, listener, registry } rfl rfl
    by_cases hx : h = b.handlers.length
    · rw [hx, ← hcreate.new]
      exact .inr (.inr ⟨hcreate.created, fields, listener, registry, rfl⟩)
    · rw [hcreate.other h hx]
      exact .inr (.inl (hnone b rfl))
  | shown c source listener hshown =>
    by_cases hx : h = b.handlers.length
    · rw [hx]
      exact hshown.shown.imp_right .inl
    · rw [hshown.other h hx]
      exact .inr (.inl (hnone b rfl))
  | installed r name x => exact .inr (.inl (hnone _ (by rw [handlers_install])))
  | restored r name x previous =>
    rw [(restore_quiet ..).2.2 h]
    exact .inr (.inl (hnone b rfl))
  | submitted s x => exact .inr (.inl (hnone _ (submit_rest b s x).1))
  | setUp settings host => exact .inr (.inl (hnone _ (by rw [handlers_setUp])))
  | ripened hin hripe => exact .inr (.inl (hnone _ hripe.length))

/-- Nobody takes a handler again that has been submitted. -/
theorem declines_later {m : Moment} (course : FreeCourse m) {h : HandlerId}
    (hlt : h < m.world.board.handlers.length) (hp : m.world.board.phase h ≠ .created)
    {events : List Event} (ho : Course.Open (fun _ _ => True) m events) :
    (events.foldl Moment.after m).world.board.Declines h := by
  refine declines_of_begun fun hc => ?_
  have hleads := ((lawful_of_freeCourse course).onward ho).phase h hlt
  rw [hc] at hleads
  cases hphase : m.world.board.phase h <;> simp_all [Phase.LeadsTo, Phase.rank]

/-- At every moment of any course handlers go through their life in order: each change of phase is
one of those there are, the end is final, no handler is submitted twice, who waits for a worker is
initializing or over, and who has a toast to release is live. -/
theorem handlers_live_in_order {m : Moment} (course : FreeCourse m) : LifeCycle m := by
  obtain ⟨g, hsound⟩ := sound_of_freeCourse course
  have hturn : ∀ e, m.Allows e →
      ∃ b', e.Starts m.world.board b' ∧ b'.Ebbs (m.after e).world.board := fun e allowed =>
    ((tame_of_freeCourse course).turn allowed).1
  constructor
  · intro e allowed h hlt
    obtain ⟨b', hstarts, hebb⟩ := hturn e allowed
    rcases hebb.phase h with he | he
    · rw [he]
      rcases hstarts.moves hlt with hm | hm | ⟨s, reason, hd, hp, -, hrefused⟩
      · exact .inl hm
      · exact .inr (.inl hm)
      · exact .inr (.inr ⟨s, reason, hd, hp, hrefused⟩)
    · rw [he]
      by_cases hp : m.world.board.phase h = .unregistered
      · exact .inl hp.symm
      · exact .inr (.inl (.over hp))
  · intro e allowed h hnew
    obtain ⟨b', hstarts, hebb⟩ := hturn e allowed
    rcases hebb.phase h with he | he
    · rw [he]
      exact hstarts.made_new hnew
    · exact .inr (.inl he)
  · exact fun h hlt hp events ho => ((lawful_of_freeCourse course).onward ho).over hlt hp
  · intro h
    refine ⟨declines_of_begun, fun s hok => ?_⟩
    by_cases hp : m.world.board.phase h = .created
    · have hlt : h < m.world.board.handlers.length :=
        lt_of_phase_ne (by rw [hp]; exact Phase.noConfusion)
      rcases submit_phase m.world.board s hlt with ⟨-, -, he⟩ | ⟨e, he, -⟩
      · exact ⟨hp, he⟩
      · rw [hok] at he
        cases he
    · rw [declines_of_begun hp s] at hok
      cases hok
  · intro s h allowed
    have hlt : h < m.world.board.handlers.length := (known_of_freeCourse course).kept h allowed
    intro events ho
    refine declines_later (course.step _ allowed trivial) ?_ (submit_begins m.world.board s h) ho
    obtain ⟨hlen, -⟩ := submit_rest m.world.board s h
    change h < (m.world.board.submit s h).2.handlers.length
    rw [hlen]
    exact hlt
  · exact fun h hlt hp events ho => declines_later course hlt hp ho
  · exact fun h => hsound.jobs.waiting
  · intro assign hassign s
    exact finishBy_eq hassign fun attempt hin => hsound.jobs.waiting (.inr ⟨s, attempt, hin, rfl⟩)
  · exact fun h id hr => hsound.toasts.live hr (by simp)
  · intro b h toast reason hp ho
    obtain ⟨heq, hfailed, hstored⟩ := complete_failed toast hp ho
    exact ⟨heq, hfailed, hstored, removeSelf_failed hfailed⟩

/-- A handler is submitted, and the screen reports a failure while the worker stands inside the
registration. -/
def failedMeanwhile : List Event :=
  [.deed (.openStation none "worker"),
    .deed (.create
      { cookie := "c", name := "a", title := "t", text := "x", textClickable := true, source := "",
        requireInteraction := false, actions := [], imageUrl := "" } (some 0) none),
    .deed (.submit 0 0), .deed (.advance 0), .deed (.deliver 0 (.failed "no"))]

/-- That handler is initializing, keeps the failure, and cannot be submitted again; once the worker
has finished it is over, with a toast that was released. -/
theorem handlers_live_in_order_failed : FreeCourse (failedMeanwhile.foldl Moment.after {}) ∧
    LifeCycle (failedMeanwhile.foldl Moment.after {}) ∧
    (failedMeanwhile.foldl Moment.after {}).world.board.phase 0 = .initializing ∧
    ((failedMeanwhile.foldl Moment.after {}).world.board.handler 0).pending = some (.failed "no") ∧
    ((failedMeanwhile.foldl Moment.after {}).after (.deed (.finish 0))).world.board.phase 0 =
      .unregistered ∧
    ((failedMeanwhile.foldl Moment.after {}).after
      (.deed (.finish 0))).world.board.screen.toasts.map (·.releases) = [1] := by
  have hcourse : FreeCourse (failedMeanwhile.foldl Moment.after {}) := by
    refine Course.start.follow ⟨trivial, trivial, ?_, trivial, ?_, trivial, trivial, trivial, ?_,
      trivial, trivial⟩
    · exact fun r hr => by cases hr
    · exact List.mem_cons_self
    · exact Nat.zero_lt_one
  exact ⟨hcourse, handlers_live_in_order hcourse, rfl, rfl, rfl, rfl⟩

end ToastBoard
