import ToastBoard.Proofs.Listening
import ToastBoard.Proofs.Places
import ToastBoard.Proofs.Turns

/-!
# What an event can change

Handlers come to life in two places only: where somebody submits a handler, and where a worker
finishes the attempt to register one, whose handler is initializing until then. Everything else that
can happen only ends things, and so does what goes on after a reply. So an event of a course moves
one handler on at most, and ends others.
-/

namespace ToastBoard

open Board

variable {h : HandlerId} {r : RegistryId} {c : CoordinatorId} {s : StationId}
  {name : String}

/-- What is found under a name stands under it. -/
theorem Registry.mem_of_get? {t : Registry} (ht : t.get? name = some h) :
    (name, h) ∈ t.entries := by
  obtain ⟨l₁, l₂, he, -⟩ := List.lookup_eq_some_iff.mp ht
  rw [he]
  exact List.mem_append_right _ List.mem_cons_self

namespace Board

variable {a b b' since : Board}

/-- A board with one handler more, which has an entry at most. -/
structure Adds (since : Board) (b : Board) : Prop where
  /-- There is one handler more. -/
  length : b.handlers.length = since.handlers.length + 1
  /-- Others stay in their phases. -/
  other : ∀ x ≠ since.handlers.length, b.phase x = since.phase x
  /-- What a handler has to release it had before. -/
  registration : ∀ {x id}, (b.handler x).registration = some id →
    (since.handler x).registration = some id
  /-- No toast is recorded. -/
  toasts : b.screen.toasts.length = since.screen.toasts.length
  /-- Nobody else is remembered on the screen. -/
  screen : since.screen.Dims b.screen
  /-- The signal is as it was or has fired. -/
  signal : b.signal = since.signal ∨ b.signal.fired = true
  /-- No coordinator is set up, and none gets another registry. -/
  coordinators : b.coordinators.map (·.registry) = since.coordinators.map (·.registry)
  /-- An entry was there before or is that of the new handler, which belongs there. -/
  entries : ∀ {r name x}, (name, x) ∈ (b.registry r).entries →
    (name, x) ∈ (since.registry r).entries ∨
      (x = since.handlers.length ∧ (b.handler x).Belongs r name)

/-- The new handler was just created. -/
structure Readied (since : Board) (h : HandlerId) (b : Board) : Prop extends Adds since b where
  /-- It is the new one. -/
  new : h = since.handlers.length
  /-- It was just created. -/
  created : b.phase h = .created

/-- The new handler was submitted, or is over. -/
structure Shown (since b : Board) : Prop extends Adds since b where
  /-- It is initializing or over. -/
  shown : b.phase since.handlers.length = .initializing ∨
    b.phase since.handlers.length = .unregistered

/-- A new handler. -/
theorem readied_create (b : Board) (hd : Handler) (hp : hd.phase = .created)
    (hr : hd.registration = none) : Readied b (b.create hd).1 (b.create hd).2 := by
  have hnew : ∀ x, (b.create hd).2.handler x =
      if x = b.handlers.length then hd else b.handler x := fun x => getD_concat ..
  refine ⟨⟨List.length_append, ?_, ?_, rfl, .refl _, .inl rfl, rfl, .inl⟩, rfl, ?_⟩
  · intro x hx
    rw [phase, hnew, if_neg hx]
    rfl
  · intro x id hx
    rw [hnew] at hx
    split at hx
    · rw [hr] at hx
      cases hx
    · exact hx
  · rw [phase, hnew]
    exact (congrArg Handler.phase (if_pos rfl)).trans hp

namespace Readied

/-- The new handler is put under its name. -/
theorem install (hb : Readied since h b) (hbelongs : (b.handler h).Belongs r name) :
    Readied since h (b.install r name h).2 := by
  have hhandler : ∀ x, (b.install r name h).2.handler x = b.handler x := handler_install _ _
  refine ⟨⟨by rw [handlers_install]; exact hb.length, ?_, ?_, ?_, ?_, ?_, ?_, ?_⟩, hb.new, ?_⟩
  · intro x hx
    rw [phase, hhandler]
    exact hb.other x hx
  · intro x id hx
    rw [hhandler] at hx
    exact hb.registration hx
  · rw [install_eq]
    exact hb.toasts
  · rw [install_eq]
    exact hb.screen
  · rw [install_eq]
    exact hb.signal
  · rw [install_eq]
    exact hb.coordinators
  · intro q key x hx
    rw [hhandler]
    rcases mem_install.mp hx with ⟨hm, -⟩ | ⟨⟨rfl, -⟩, rfl, rfl⟩
    · exact hb.entries hm
    · exact .inr ⟨hb.new, hbelongs⟩
  · rw [phase, hhandler]
    exact hb.created

/-- The new handler is submitted or ends. -/
theorem shown (hb : Readied since h b) (hlen : b'.handlers.length = b.handlers.length)
    (horigin : (b'.handler h).origin = (b.handler h).origin)
    (hself : b'.phase h = .initializing ∨ b'.phase h = .unregistered)
    (hother : ∀ x ≠ h, b'.phase x = b.phase x)
    (hregistration : ∀ {x id}, (b'.handler x).registration = some id →
      (b.handler x).registration = some id)
    (htoasts : b'.screen.toasts.length = b.screen.toasts.length)
    (hscreen : b.screen.Dims b'.screen)
    (hsignal : b'.signal = b.signal ∨ b'.signal.fired = true)
    (hcoordinators : b'.coordinators.map (·.registry) = b.coordinators.map (·.registry))
    (hentries : ∀ {r name x}, (name, x) ∈ (b'.registry r).entries →
      (name, x) ∈ (b.registry r).entries ∨ (name, x) ∈ (since.registry r).entries ∨
        (x = h ∧ (b.handler x).Belongs r name)) : since.Shown b' where
  length := hlen.trans hb.length
  other x hx := by
    rw [← hb.new] at hx
    exact (hother x hx).trans (hb.other x (hb.new ▸ hx))
  registration hx := hb.registration (hregistration hx)
  toasts := htoasts.trans hb.toasts
  screen := hb.screen.trans hscreen
  signal := by
    rcases hsignal with he | hf
    · rw [he]
      exact hb.signal
    · exact .inr hf
  coordinators := hcoordinators.trans hb.coordinators
  entries hx := by
    rcases hentries hx with hm | hm | ⟨rfl, hbelongs⟩
    · refine (hb.entries hm).imp_right fun ⟨hnew, hbelongs⟩ => ⟨hnew, ?_⟩
      rw [hnew, ← hb.new] at hbelongs ⊢
      exact hbelongs.of_origin horigin
    · exact .inl hm
    · exact .inr ⟨hb.new, hbelongs.of_origin horigin⟩
  shown := hb.new ▸ hself

end Readied

/-- Submitting concerns nothing but the phase of a handler and the queue of a worker. -/
theorem submit_rest (b : Board) (s : StationId) (h : HandlerId) :
    (b.submit s h).2.handlers.length = b.handlers.length ∧ (b.submit s h).2.screen = b.screen ∧
      (b.submit s h).2.signal = b.signal ∧ (b.submit s h).2.coordinators = b.coordinators ∧
      ∀ x, ((b.submit s h).2.handler x).registration = (b.handler x).registration ∧
        ((b.submit s h).2.handler x).origin = (b.handler x).origin := by
  have hset : ∀ (a : Board) (p : Phase) (x : HandlerId),
      ((a.setPhase h p).handler x).registration = (a.handler x).registration ∧
        ((a.setPhase h p).handler x).origin = (a.handler x).origin := by
    intro a p x
    rw [handler_setPhase]
    exact ⟨rfl, rfl⟩
  unfold submit
  split
  · simp only
    split
    · exact ⟨length_update .., rfl, rfl, rfl, hset b _⟩
    · refine ⟨(length_update ..).trans (length_update ..), rfl, rfl, rfl, fun x => ?_⟩
      exact ⟨(hset _ _ x).1.trans (hset b _ x).1, (hset _ _ x).2.trans (hset b _ x).2⟩
  · exact ⟨rfl, rfl, rfl, rfl, fun _ => ⟨rfl, rfl⟩⟩

/-- Who stands in a table after an install was undone stood there before, or was displaced. -/
theorem mem_entries_restore {old : Option HandlerId} {q : RegistryId} {key : String}
    {x : HandlerId} (hx : (key, x) ∈ ((b.restore r name h old).2.registry q).entries) :
    (key, x) ∈ (b.registry q).entries ∨ (q = r ∧ key = name ∧ old = some x) := by
  have htable : ∀ (f : Registry → Registry) (hs : List HandlerId),
      (((b.updateRegistry r f).reap h).letGoAll hs).registry q =
        (b.updateRegistry r f).registry q := by
    intro f hs
    rw [registry, registries_letGoAll, (sameButToasts_reap h).registries]
    rfl
  unfold restore at hx
  split at hx
  · split at hx
    · rename_i p hp
      have hx' : (key, x) ∈ ((b.updateRegistry r fun reg => reg.insert name p).registry q).entries
          := by
        rw [← htable _ [p]]
        exact hx
      rcases mem_inserted.mp hx' with ⟨hm, -⟩ | ⟨⟨hq, -⟩, hk, he⟩
      · exact .inl hm
      · exact .inr ⟨hq, hk, by rw [he, (Option.filter_eq_some_iff.mp hp).1]⟩
    · have hx' : (key, x) ∈ ((b.updateRegistry r fun reg => reg.erase name).registry q).entries
          := by
        rw [← htable _ old.toList]
        exact hx
      exact .inl (mem_erased.mp hx').1
  · have hx' : (key, x) ∈ ((b.letGoAll old.toList).registry q).entries := hx
    rw [registry, registries_letGoAll] at hx'
    exact .inl hx'

/-- But for a table, undoing an install only ends things. -/
theorem ebbs_restore (b : Board) (r : RegistryId) (name : String) (h : HandlerId)
    (old : Option HandlerId) : ∃ registries : List Registry,
      ({ b with registries } : Board).Ebbs (b.restore r name h old).2 := by
  unfold restore
  split
  · split
    · exact ⟨_, Ebbs.trans (ebbs_reap h) (ebbs_letGo _)⟩
    · exact ⟨_, Ebbs.trans (ebbs_reap h) (ebbs_letGoAll old.toList)⟩
  · exact ⟨_, ebbs_letGoAll old.toList⟩

/-- A new handler that cannot be submitted ends, and the displaced one is back. -/
theorem shown_rollBack {old : Option HandlerId} (hb : Readied since h b)
    (hold : ∀ p, old = some p → (name, p) ∈ (since.registry r).entries ∨
      (p = h ∧ (b.handler p).Belongs r name))
    (hfailed : (b.submit s h).2.phase h = .initFailed) : ∃ b', since.Shown b' ∧
      rollBack r name h old (b.submit s h).2 = .ended (some ()) b' := by
  obtain ⟨-, -, hregistries, hother⟩ := submit_quiet b s h
  obtain ⟨hlen, hscreen, hsignal, hcoordinators, hstored⟩ := submit_rest b s h
  obtain ⟨-, -, hback⟩ := restore_quiet (b.submit s h).2 r name h old
  obtain ⟨registries, hundone⟩ := ebbs_restore (b.submit s h).2 r name h old
  have hentries : ∀ {q key x},
      (key, x) ∈ (((b.submit s h).2.restore r name h old).2.registry q).entries →
      (key, x) ∈ (b.registry q).entries ∨ (q = r ∧ key = name ∧ old = some x) := by
    intro q key x hx
    have hm := mem_entries_restore hx
    rwa [registry, hregistries] at hm
  have hstep : rollBack r name h old (b.submit s h).2 =
      unregister h ((b.submit s h).2.restore r name h old).2 := rfl
  rw [hstep]
  generalize ((b.submit s h).2.restore r name h old).2 = d at *
  have hover : d.phase h = .initFailed := (hback h).trans hfailed
  have hne : d.phase h ≠ .unregistered := by rw [hover]; exact Phase.noConfusion
  have hretired : (d.retire h).registries = d.registries := registries_retire h
  have hend := hundone.trans (ebbs_retire h)
  rw [unregister_eq, if_neg hne, if_neg (by rw [hover]; exact Phase.noConfusion)]
  refine ⟨d.retire h, hb.shown (hend.length.trans hlen) ?_ ?_ ?_ ?_
    (hend.toasts.trans (by rw [hscreen])) ?_ ?_
    (hend.coordinators.trans (by rw [hcoordinators])) ?_, rfl⟩
  · exact (hend.origin h).trans (hstored h).2
  · exact .inr (by rw [phase_retire hne, if_pos rfl])
  · intro x hx
    rw [phase_retire hne, if_neg hx, hback, phase, hother x hx, phase]
  · intro x id hx
    rw [← (hstored x).1]
    exact hend.registration hx
  · rw [← hscreen]
    exact hend.screen
  · rw [← hsignal]
    exact hend.signal
  · intro q key x hx
    rw [registry, hretired] at hx
    rcases hentries hx with hm | ⟨rfl, rfl, hm⟩
    · exact .inl hm
    · exact .inr (hold x hm)

/-- A new handler is submitted. -/
theorem shown_submit (hb : Readied since h b)
    (hphase : (b.submit s h).2.phase h = .initializing) : since.Shown (b.submit s h).2 := by
  obtain ⟨-, -, hregistries, hother⟩ := submit_quiet b s h
  obtain ⟨hlen, hscreen, hsignal, hcoordinators, hstored⟩ := submit_rest b s h
  refine hb.shown hlen (hstored h).2 (.inl hphase) ?_ (fun {x id} hx => (hstored x).1 ▸ hx)
    (by rw [hscreen]) (hscreen ▸ .refl _) (.inl hsignal) (by rw [hcoordinators]) ?_
  · intro x hx
    rw [phase, hother x hx, phase]
  · intro q key x hx
    rw [registry, hregistries] at hx
    exact .inl hx

/-- A new handler takes its place under its name: it is submitted and the displaced one ends, or it
ends and the displaced one is back. -/
theorem shown_present {co : Coordinator} (hb : Readied since h b)
    (hhome : (b.handler h).registry = some co.registry) :
    ∃ b', since.Shown b' ∧ (present co h b).Ebbs b' := by
  have hinstalled := hb.install ⟨rfl, hhome⟩
  have hmade : h < (b.install co.registry (b.handler h).name h).2.handlers.length :=
    lt_of_phase_ne (by rw [hinstalled.created]; exact Phase.noConfusion)
  have hold : ∀ p, (b.install co.registry (b.handler h).name h).1 = some p →
      ((b.handler h).name, p) ∈ (since.registry co.registry).entries ∨ (p = h ∧
        ((b.install co.registry (b.handler h).name h).2.handler p).Belongs co.registry
          (b.handler h).name) := by
    intro p hp
    rw [install_eq] at hp
    refine (hb.entries (Registry.mem_of_get? hp)).imp_right fun ⟨hnew, hbelongs⟩ =>
      ⟨hnew.trans hb.new.symm, hbelongs.of_origin ?_⟩
    rw [handler_install]
  rw [present_eq]
  rcases submit_phase _ co.station hmade with ⟨he, -, hphase⟩ | ⟨e, he, hphase⟩
  · rw [entrust_accepted he]
    exact ⟨_, shown_submit hinstalled hphase, (ebbs_supersede _ _).andThen fun _ b' => Ebbs.refl b'⟩
  · rw [entrust_refused he]
    rcases hphase with ⟨-, hp'⟩ | ⟨hne, -⟩
    · obtain ⟨b', hshown, hend⟩ := shown_rollBack hinstalled hold hp'
      rw [hend]
      exact ⟨b', hshown, Ebbs.refl b'⟩
    · exact absurd hinstalled.created hne

/-- A computation may make a handler in the name of a coordinator. -/
theorem shown_withCoordinator {α : Type} {act : Coordinator → Act α}
    (ha : ∀ co b, ∃ b', (b' = b ∨ b.Shown b') ∧ (act co b).Ebbs b') (c : CoordinatorId)
    (b : Board) : ∃ b', (b' = b ∨ b.Shown b') ∧ (withCoordinator c act b).Ebbs b' := by
  have hown : b.Ebbs (b.ownCoordinator c) := ebbs_updateCoordinator fun _ => rfl
  obtain ⟨b', hb', hend⟩ := ha (b.coordinator c) (b.ownCoordinator c)
  have hgone := Talk.Ebbs.ensuring hend fun _ => ebbs_disownCoordinator c
  rcases hb' with rfl | hshown
  · exact ⟨b, .inl rfl, hgone.after hown⟩
  · exact ⟨b', .inr ⟨⟨hshown.length, hshown.other, hshown.registration, hshown.toasts,
      hshown.screen, hshown.signal, hshown.coordinators.trans hown.coordinators, hshown.entries⟩,
      hshown.shown⟩, hgone⟩

/-- Showing an alert makes a handler, if the alert can be read and alerts are not dropped. -/
theorem shown_showAlert (c : CoordinatorId) (source : Source) (listener : Option ListenerId)
    (b : Board) : ∃ b', (b' = b ∨ b.Shown b') ∧ (showAlert c source listener b).Ebbs b' := by
  rw [showAlert_eq]
  refine shown_withCoordinator (fun co b => ?_) c b
  unfold offer
  split
  · exact ⟨b, .inl rfl, Ebbs.refl b⟩
  · split
    · exact ⟨b, .inl rfl, Ebbs.refl b⟩
    · rename_i fields called _
      have hnew : ((b.create { fields, listener, registry := some co.registry }).2.handler
          b.handlers.length).registry = some co.registry :=
        congrArg Handler.registry ((getD_concat ..).trans (if_pos rfl))
      obtain ⟨b', hshown, hend⟩ := shown_present
        (readied_create b { fields, listener, registry := some co.registry } rfl rfl) hnew
      exact ⟨b', .inr hshown, (hend.ensuring fun _ => ebbs_letGo _).andThen fun _ b => Ebbs.refl b⟩

theorem ebbs_openRegistry : b.Ebbs b.openRegistry.2 := by
  refine ebbs_of_handlers rfl rfl (.refl _) rfl rfl fun {r name h} hx => ?_
  rwa [entries_of_concat rfl] at hx

end Board

/-- Whether a deed only ends things: nobody makes, shows, submits or installs a handler, undoes an
install, sets up a coordinator or finishes a registration. -/
def Deed.Wanes : Deed → Prop
  | .setUp .. | .create .. | .submit .. | .install .. | .restore .. | .showAlert .. | .finish .. =>
    False
  | _ => True

theorem ebbs_deed {d : Deed} (hd : d.Wanes) : d.act.Ebbs := by
  cases d with
  | openRegistry => exact .change fun _ => ebbs_openRegistry
  | shareRegistry r => exact .change fun _ => ebbs_ownRegistry r
  | dropRegistry r => exact .change fun _ => ebbs_disownRegistry r
  | openStation refusal name =>
    intro b
    rw [Deed.act_openStation]
    cases Worker.start refusal name with
    | none => exact Ebbs.refl b
    | some result =>
      cases result with
      | error e => exact Ebbs.refl b
      | ok worker => exact ebbs_of_handlers rfl rfl (.refl _) rfl rfl id
  | mark s =>
    refine .change fun b => ?_
    split
    · exact ebbs_setWorker _
    · exact .refl b
  | stop s => exact .change fun _ => ebbs_setWorker _
  | setUp => exact hd.elim
  | shareCoordinator c => exact .change fun _ => ebbs_updateCoordinator fun _ => rfl
  | dropCoordinator c => exact .change fun _ => ebbs_disownCoordinator c
  | create => exact hd.elim
  | share h => exact .change fun _ => ebbs_of_handlers rfl rfl (.refl _) rfl rfl id
  | letGo h => exact .change fun _ => ebbs_letGo h
  | submit => exact hd.elim
  | unregister h => exact (ebbs_unregister h).holding h
  | lookUp r name => exact .change fun _ => ebbs_lookUp r name
  | install => exact hd.elim
  | takeEntry r name => exact .change fun _ => ebbs_takeEntry r name
  | takeAll r => exact .change fun _ => ebbs_takeAll r
  | restore => exact hd.elim
  | removeIfCurrent r name h =>
    have hend := ((ebbs_removeIfCurrent r name h).owning r).holding h
    exact hend.andThen fun _ b => Ebbs.refl b
  | grab c name => exact .change fun _ => ebbs_lookUp _ name
  | showAlert => exact hd.elim
  | closeAlert c name => exact ebbs_closeAlert c name
  | removeHandler c name h =>
    have hremove : (removeHandler c name h).Ebbs :=
      Act.Ebbs.withCoordinator (fun co => ebbs_removeIfCurrent co.registry name h) c
    exact (hremove.holding h).andThen fun _ b => Ebbs.refl b
  | suppress c suppressed => exact .change fun _ => ebbs_updateCoordinator fun _ => rfl
  | fire visit => exact (ebbs_fire visit).andThen fun _ b => Ebbs.refl b
  | emit name outcome => exact (ebbs_emit name outcome).andThen fun _ b => Ebbs.refl b
  | deliver n outcome =>
    intro b
    rw [Deed.act_deliver]
    cases b.screen.attempts[n]? with
    | none => exact Ebbs.refl b
    | some attempt => exact ebbs_hear attempt.handler outcome b
  | arm faults =>
    exact .change fun _ => ebbs_of_handlers rfl rfl (.of_sinks rfl rfl) rfl rfl id
  | advance s => exact .change fun _ => ebbs_advance s
  | finish => exact hd.elim

namespace Board

/-- A board on which one handler may have come out of its registration, live or failed, with a toast
that is new; nothing else has changed for handlers. -/
structure Ripens (h : HandlerId) (b b' : Board) : Prop where
  /-- There are no other handlers. -/
  length : b'.handlers.length = b.handlers.length
  /-- Other handlers are as they were. -/
  other : ∀ x ≠ h, b'.handler x = b.handler x
  /-- It stays in its phase, or it was initializing and is live or failed. -/
  phase : b'.phase h = b.phase h ∨
    b.phase h = .initializing ∧ (b'.phase h = .live ∨ b'.phase h = .initFailed)
  /-- What it has to release it had before, or it is new. -/
  registration : ∀ {id}, (b'.handler h).registration = some id →
    (b.handler h).registration = some id ∨ b.screen.toasts.length < id
  /-- No toast is forgotten. -/
  toasts : b.screen.toasts.length ≤ b'.screen.toasts.length
  /-- Nobody else is remembered on the screen, but the handler for a toast that is new. -/
  sinks : ∀ {id x}, (id, x) ∈ b'.screen.sinks →
    (id, x) ∈ b.screen.sinks ∨ (x = h ∧ b.screen.toasts.length < id)
  /-- Those who are forgotten are those whose toasts were released. -/
  tracked : b.screen.Tracked → b'.screen.Tracked
  /-- The signal is as it was. -/
  signal : b'.signal = b.signal
  /-- Coordinators are as they were. -/
  coordinators : b'.coordinators = b.coordinators
  /-- The tables are as they were. -/
  registries : b'.registries = b.registries

namespace Ripens

variable {a b b' : Board}

/-- Where handlers stay as they are nobody comes out of a registration. -/
theorem of_handlers (hh : b'.handlers = b.handlers) (ht : b'.screen = b.screen)
    (hs : b'.signal = b.signal) (hc : b'.coordinators = b.coordinators)
    (hr : b'.registries = b.registries) : b.Ripens h b' where
  length := by rw [hh]
  other x _ := by rw [handler, handler, hh]
  phase := .inl (by rw [Board.phase, Board.phase, handler, handler, hh])
  registration hx := .inl (by rwa [handler, hh] at hx)
  toasts := Nat.le_of_eq (by rw [ht])
  sinks hx := .inl (by rwa [ht] at hx)
  tracked hx := by rwa [ht]
  signal := hs
  coordinators := hc
  registries := hr

/-- What happens to the handler itself at the end of its registration. -/
theorem update (ha : a.Ripens h b) (hp : b.phase h = a.phase h) {f : Handler → Handler}
    (hf : (f (b.handler h)).phase = a.phase h ∨ a.phase h = .initializing ∧
      ((f (b.handler h)).phase = .live ∨ (f (b.handler h)).phase = .initFailed))
    (hr : ∀ {id}, (f (b.handler h)).registration = some id →
      (b.handler h).registration = some id ∨ a.screen.toasts.length < id) :
    a.Ripens h (b.update h f) where
  length := (length_update ..).trans ha.length
  other x hx := by
    rw [handler_update_of_ne hx]
    exact ha.other x hx
  phase := by
    rw [Board.phase, handler_update]
    split
    · exact hf
    · exact .inl hp
  registration hx := by
    rw [handler_update] at hx
    split at hx
    · rcases hr hx with hm | hm
      · exact ha.registration hm
      · exact .inr hm
    · exact ha.registration hx
  toasts := ha.toasts
  sinks := ha.sinks
  tracked := ha.tracked
  signal := ha.signal
  coordinators := ha.coordinators
  registries := ha.registries

end Ripens

variable {a b : Board} {toast : ToastId}

/-- A registration that is refused. -/
theorem ripens_reject (ha : a.Ripens h b) (hp : b.phase h = a.phase h)
    (hi : a.phase h = .initializing ∨ a.phase h = .unregistered) :
    ∃ b', a.Ripens h b' ∧ (reject h b).Ebbs b' := by
  rw [reject_eq]
  split
  · exact ⟨b, ha, Ebbs.refl b⟩
  · rename_i hu
    rw [hp] at hu
    refine ⟨b.setPhase h .initFailed, ha.update hp (.inr ⟨hi.resolve_right hu, .inr rfl⟩) .inl, ?_⟩
    exact ebbs_removeSelf h _

/-- A registration that is done. -/
theorem ripens_complete (ha : a.Ripens h b) (hp : b.phase h = a.phase h)
    (hi : a.phase h = .initializing ∨ a.phase h = .unregistered)
    (ht : a.screen.toasts.length < toast) :
    ∃ b', a.Ripens h b' ∧ (complete h toast b).Ebbs b' := by
  have hstored : ∀ {id}, some toast = some id →
      (b.handler h).registration = some id ∨ a.screen.toasts.length < id := by
    rintro id hx
    exact .inr (Option.some.inj hx ▸ ht)
  rw [complete_eq]
  split
  · exact ⟨b, ha, ebbs_releaseToast (some toast)⟩
  · rename_i hu
    rw [hp] at hu
    have hinit := hi.resolve_right hu
    split
    · exact ⟨b.refuse h toast, ha.update hp (.inr ⟨hinit, .inr rfl⟩) hstored,
        ebbs_removeSelf h _⟩
    · refine ⟨b.live h toast, ha.update hp (.inr ⟨hinit, .inl rfl⟩) hstored, ?_⟩
      rw [goLive_eq]
      refine (ebbs_notify h .shown none _).andThen fun _ => ?_
      cases (b.handler h).pending with
      | none => exact fun b' => Ebbs.refl b'
      | some o => exact ebbs_handleOutcome h o

/-- The screen registers a handler that is initializing or over. -/
theorem ripens_register (ha : a.Ripens h b) (hp : b.phase h = a.phase h)
    (hi : a.phase h = .initializing ∨ a.phase h = .unregistered)
    (ht : b.screen.toasts = a.screen.toasts) (hr : b.refersTo h = true) :
    ∃ b', a.Ripens h b' ∧ (register h b).Ebbs b' := by
  have hrecorded : a.Ripens h (b.recorded h) := by
    refine ⟨ha.length, ha.other, ha.phase, ha.registration, ?_, ?_, fun htracked => ?_, ha.signal,
      ha.coordinators, ha.registries⟩
    · change a.screen.toasts.length ≤ (b.screen.toasts ++ [_]).length
      rw [ht, List.length_append]
      exact Nat.le_add_right ..
    · intro id x hx
      change (id, x) ∈ b.screen.sinks ++ [(b.screen.toasts.length + 1, h)] at hx
      rcases List.mem_append.mp hx with hx | hx
      · exact ha.sinks hx
      · cases List.mem_singleton.mp hx
        exact .inr ⟨rfl, by rw [ht]; exact Nat.lt_succ_self _⟩
    · exact Screen.tracked_record (ha.tracked htracked) h (b.handler h).fields
  have hnew : a.screen.toasts.length < (b.screen.record h (b.handler h).fields).1 := by
    change a.screen.toasts.length < b.screen.toasts.length + 1
    rw [ht]
    exact Nat.lt_succ_self _
  cases hf : b.screen.faults.register with
  | some reason =>
    rw [register_refused hf]
    refine ripens_reject ?_ hp hi
    exact ⟨ha.length, ha.other, ha.phase, ha.registration, ha.toasts, ha.sinks, ha.tracked,
      ha.signal, ha.coordinators, ha.registries⟩
  | none =>
    rw [register_recorded hf]
    cases he : b.screen.faults.early with
    | none => exact ripens_complete hrecorded hp hi hnew
    | some o =>
      have hl : (b.recorded h).phase h ≠ .live := by
        change b.phase h ≠ .live
        rw [hp]
        rcases hi with hi | hi <;> rw [hi] <;> exact Phase.noConfusion
      simp only
      rw [hear_of_not_live (b := b.recorded h) hr hl]
      split
      · have hphase : ((b.recorded h).update h fun hd => hd.deferred o).phase h = a.phase h := by
          rw [phase, handler_update]
          split
          · rw [deferred_eq]
            exact hp
          · exact hp
        refine ripens_complete (hrecorded.update hp (.inl ?_) fun hx => .inl ?_) hphase hi hnew
        · rw [deferred_eq]
          exact hp
        · rwa [deferred_eq] at hx
      · exact ripens_complete hrecorded hp hi hnew

/-- A worker finishes an attempt: nothing but the end of that registration brings anybody to
life. -/
theorem ripens_finish {attempt : Attempt} (hb : b.inside? s = some attempt)
    (hi : b.phase attempt.handler = .initializing ∨ b.phase attempt.handler = .unregistered) :
    ∃ b', b.Ripens attempt.handler b' ∧ (finish s b).Ebbs b' := by
  have hleft : b.Ripens attempt.handler ((b.hold attempt.handler).updateStation s fun st =>
      { st with inside := none }) := .of_handlers rfl rfl rfl rfl rfl
  obtain ⟨b', hripe, hebb⟩ : ∃ b', b.Ripens attempt.handler b' ∧
      (conclude s attempt (b.hold attempt.handler)).Ebbs b' := by
    rw [conclude_eq]
    cases attempt.fate with
    | proceeds =>
      obtain ⟨b', hripe, hebb⟩ := ripens_register hleft rfl hi rfl
        (refersTo_of_held List.mem_cons_self)
      exact ⟨b', hripe, hebb.caught⟩
    | panics => exact ⟨_, hleft, Ebbs.refl _⟩
    | crashes => exact ⟨_, hleft, ebbs_closeStation s⟩
  refine ⟨b', hripe, ?_⟩
  rw [finish_eq, hb]
  exact (hebb.ensuring fun _ => ebbs_letGo _).andThen fun _ b => Ebbs.refl b

end Board

variable {m : Moment} {e : Event} {permitted : Moment → Event → Prop}

/-- What an event does before it only ends things: nothing for most of them. -/
inductive Event.Starts (b : Board) : Event → Board → Prop where
  /-- It only ends things. -/
  | still (e : Event) : Starts b e b
  /-- A handler is made. -/
  | made (fields : Snapshot) (listener : Option ListenerId) (registry : Option RegistryId) :
    Starts b (.deed (.create fields listener registry)) (b.create { fields, listener, registry }).2
  /-- An alert is shown. -/
  | shown (c : CoordinatorId) (source : Source) (listener : Option ListenerId) {b' : Board}
    (shown : b.Shown b') : Starts b (.deed (.showAlert c source listener)) b'
  /-- A handler is put under a name. -/
  | installed (r : RegistryId) (name : String) (h : HandlerId) :
    Starts b (.deed (.install r name h)) (b.install r name h).2
  /-- An install is undone. -/
  | restored (r : RegistryId) (name : String) (h : HandlerId) (previous : Option HandlerId) :
    Starts b (.deed (.restore r name h previous)) (b.restore r name h previous).2
  /-- A handler is submitted. -/
  | submitted (s : StationId) (h : HandlerId) : Starts b (.deed (.submit s h)) (b.submit s h).2
  /-- A coordinator is set up. -/
  | setUp (settings : Settings) (host : Host) :
    Starts b (.deed (.setUp settings host)) (b.setUp settings host).2
  /-- The registration under way comes to its end. -/
  | ripened {s : StationId} {attempt : Attempt} {b' : Board} (inside : b.inside? s = some attempt)
    (ripens : b.Ripens attempt.handler b') : Starts b (.deed (.finish s)) b'

/-- Whether an event is no deed, or one that leaves things to coordinators. -/
def Event.Coordinated : Event → Prop
  | .deed d => d.Coordinated
  | .reply _ => True

/-- A deed only ends things once what it starts with is done. -/
theorem starts_of_deed {b : Board} (hj : b.Jobs) (d : Deed) :
    ∃ b', (Event.deed d).Starts b b' ∧ (d.act b).Ebbs b' := by
  have hwane : d.Wanes → ∃ b', (Event.deed d).Starts b b' ∧ (d.act b).Ebbs b' :=
    fun hd => ⟨b, .still _, ebbs_deed hd b⟩
  cases d with
  | create fields listener registry => exact ⟨_, .made fields listener registry, Ebbs.refl _⟩
  | showAlert c source listener =>
    obtain ⟨b', hshown, hebb⟩ := shown_showAlert c source listener b
    have hact : ((Deed.showAlert c source listener).act b).Ebbs b' :=
      hebb.andThen fun _ b => Ebbs.refl b
    rcases hshown with rfl | hshown
    · exact ⟨_, .still _, hact⟩
    · exact ⟨b', .shown c source listener hshown, hact⟩
  | install r name h => exact ⟨_, .installed r name h, Ebbs.refl _⟩
  | restore r name h previous => exact ⟨_, .restored r name h previous, Ebbs.refl _⟩
  | submit s h => exact ⟨_, .submitted s h, Ebbs.refl _⟩
  | setUp settings host => exact ⟨_, .setUp settings host, Ebbs.refl _⟩
  | finish s =>
    cases hi : b.inside? s with
    | none =>
      refine ⟨_, .still _, ?_⟩
      change ((finish s b).andThen fun _ b => .ended (some ()) b).Ebbs _
      rw [finish_eq, hi]
      exact Ebbs.refl _
    | some attempt =>
      obtain ⟨b', hripe, hebb⟩ := ripens_finish hi (hj.waiting (.inr ⟨s, attempt, hi, rfl⟩))
      exact ⟨b', .ripened hi hripe, hebb.andThen fun _ b => Ebbs.refl b⟩
  | openRegistry | shareRegistry | dropRegistry | openStation | mark | stop | shareCoordinator
  | dropCoordinator | share | letGo | unregister | lookUp | takeEntry | takeAll | removeIfCurrent
  | grab | closeAlert | removeHandler | suppress | fire | emit | deliver | arm | advance =>
    exact hwane trivial

/-- A computation that only ends things leads to a moment at which that was so, and what waits there
for it only ends things. -/
theorem ebbs_settle {b : Board} {w : World} {d : Deed} {waiting : List Waiting}
    {t : Talk Board Telling Unit} (ht : t.Ebbs b)
    (hw : ∀ x ∈ waiting, ∀ returned b', (x.resume returned b').Ebbs b') :
    b.Ebbs (Moment.settle w d waiting t).world.board ∧
      ∀ x ∈ (Moment.settle w d waiting t).waiting, ∀ returned b',
        (x.resume returned b').Ebbs b' := by
  cases t with
  | ended a b' => exact ⟨ht, hw⟩
  | told n b' resume =>
    refine ⟨ht.1, fun x hx => ?_⟩
    rcases List.mem_cons.mp hx with rfl | hx
    · exact ht.2
    · exact hw x hx

/-- A lawful moment at which what waits only ends things. -/
structure Moment.Tame (first : Ledger) (m : Moment) : Prop where
  /-- It is lawful. -/
  lawful : m.Lawful first
  /-- What waits only ends things. -/
  waiting : ∀ x ∈ m.waiting, ∀ returned b', (x.resume returned b').Ebbs b'

namespace Moment.Tame

variable {first : Ledger}

/-- An event only ends things once what it starts with is done. -/
theorem turn (hm : m.Tame first) (allowed : m.Allows e) :
    (∃ b', e.Starts m.world.board b' ∧ b'.Ebbs (m.after e).world.board) ∧
      (m.after e).Tame first := by
  cases e with
  | deed d =>
    obtain ⟨g, hsound⟩ := hm.lawful.sound
    obtain ⟨b', hstarts, hebb⟩ := starts_of_deed hsound.jobs d
    obtain ⟨hturn, hwaiting⟩ := ebbs_settle hebb hm.waiting
    exact ⟨⟨b', hstarts, hturn⟩, hm.lawful.after allowed, hwaiting⟩
  | reply returned =>
    have hafter := hm.lawful.after allowed
    obtain ⟨w, waiting⟩ := m
    cases waiting with
    | nil => exact absurd rfl allowed
    | cons x rest =>
      obtain ⟨hturn, hwaiting⟩ := ebbs_settle (hm.waiting x List.mem_cons_self returned w.board)
        fun y hy => hm.waiting y (List.mem_cons_of_mem _ hy)
      exact ⟨⟨w.board, .still _, hturn⟩, hafter, hwaiting⟩

end Moment.Tame

/-- Every moment of every course is tame. -/
theorem tame_of_freeCourse (course : FreeCourse m) : m.Tame {} := by
  refine ⟨lawful_of_freeCourse course, ?_⟩
  induction course with
  | start => exact List.forall_mem_nil _
  | step course e allowed _ ih =>
    exact (Moment.Tame.turn ⟨lawful_of_freeCourse course, ih⟩ allowed).2.waiting

namespace Board

/-- A coordinator that is set up leaves handlers as they are. -/
theorem handlers_setUp (b : Board) (settings : Settings) (host : Host) :
    (b.setUp settings host).2.handlers = b.handlers := by
  rcases setUp_cases b settings host with ⟨worker, identity, -, he⟩ | ⟨he, -⟩
  · rw [he]
    rfl
  · rw [he]

end Board

/-- People keep, and tables have, only handlers that were made. -/
structure World.Known (w : World) : Prop where
  /-- Who is kept was made. -/
  kept : ∀ x ∈ w.kept, x < w.board.handlers.length
  /-- Who has an entry was made. -/
  entries : ∀ {r name x}, (name, x) ∈ (w.board.registry r).entries →
    x < w.board.handlers.length

namespace World.Known

variable {w : World}

/-- Who is found under a name was made. -/
theorem current (hk : w.Known) (r : RegistryId) (name : String) {x : HandlerId}
    (hx : x ∈ (w.board.current? r name).toList) : x < w.board.handlers.length :=
  hk.entries (Registry.mem_of_get? (Option.mem_toList.mp hx))

/-- Whom people keep when a deed starts was made, or is made by the deed. -/
theorem start (hk : w.Known) {d : Deed} (hd : d.Possible w) {x : HandlerId}
    (hx : x ∈ (d.start w).kept) : x < w.board.handlers.length ∨
      x = w.board.handlers.length ∧
        ∃ fields listener registry, d = .create fields listener registry := by
  have hgiven : ∀ {l : List HandlerId}, (∀ y ∈ l, y < w.board.handlers.length) →
      x ∈ l ++ w.kept → x < w.board.handlers.length := fun hl hx =>
    (List.mem_append.mp hx).elim (hl x) (hk.kept x)
  cases d with
  | create fields listener registry =>
    rcases List.mem_cons.mp hx with hx | hx
    · exact .inr ⟨hx, fields, listener, registry, rfl⟩
    · exact .inl (hk.kept x hx)
  | share h =>
    rcases List.mem_cons.mp hx with rfl | hx
    · exact .inl (hk.kept _ hd)
    · exact .inl (hk.kept x hx)
  | letGo h => exact .inl (hk.kept x (List.mem_of_mem_erase hx))
  | restore r name h previous =>
    refine .inl (hk.kept x ?_)
    cases previous with
    | none => exact hx
    | some p => exact List.mem_of_mem_erase hx
  | lookUp r name =>
    refine .inl (hgiven (fun y hy => hk.current r name ?_) hx)
    rwa [lookUp_eq] at hy
  | grab c name =>
    refine .inl (hgiven (fun y hy =>
      hk.current (w.board.coordinator c).registry name ?_) hx)
    rwa [lookUp_eq] at hy
  | install r name h =>
    refine .inl (hgiven (fun y hy => hk.current r name ?_) hx)
    rwa [install_eq] at hy
  | takeEntry r name =>
    refine .inl (hgiven (fun y hy => hk.current r name ?_) hx)
    rwa [takeEntry_eq] at hy
  | takeAll r =>
    refine .inl (hgiven (fun y hy => ?_) hx)
    obtain ⟨name, he⟩ := Registry.mem_handlers.mp hy
    exact hk.entries he
  | setUp settings host =>
    refine .inl (hk.kept x ?_)
    simp only [Deed.start, Deed.holdings] at hx
    split at hx <;> exact hx
  | openRegistry | shareRegistry | dropRegistry | openStation | mark | stop | shareCoordinator
  | dropCoordinator | submit | unregister | removeIfCurrent | showAlert | closeAlert
  | removeHandler | suppress | fire | emit | deliver | arm | advance | finish =>
    exact .inl (hk.kept x hx)

end World.Known

namespace Event.Starts

variable {w : World} {b b' : Board}

/-- No handler is forgotten. -/
theorem length (hs : e.Starts b b') : b.handlers.length ≤ b'.handlers.length := by
  cases hs with
  | still => exact Nat.le_refl _
  | made fields listener registry =>
    rw [(readied_create b { fields, listener, registry } rfl rfl).length]
    exact Nat.le_succ _
  | shown c source listener hshown =>
    rw [hshown.length]
    exact Nat.le_succ _
  | installed r name h => exact Nat.le_of_eq (by rw [handlers_install])
  | restored r name h previous => exact (restore_quiet ..).1.length
  | submitted s h => exact Nat.le_of_eq (submit_rest b s h).1.symm
  | setUp settings host => exact Nat.le_of_eq (by rw [handlers_setUp])
  | ripened hin hripe => exact Nat.le_of_eq hripe.length.symm

/-- An entry was there before, is that of a new handler, which belongs there, or somebody makes it
for a handler that people keep, who does not leave that to coordinators. -/
theorem entries {m : Moment} (hs : e.Starts m.world.board b') (allowed : m.Allows e)
    {x : HandlerId} (hx : (name, x) ∈ (b'.registry r).entries) :
    (name, x) ∈ (m.world.board.registry r).entries ∨
      (x = m.world.board.handlers.length ∧ b'.handlers.length = m.world.board.handlers.length + 1 ∧
        (b'.handler x).Belongs r name ∧
        ∃ c source listener, e = .deed (.showAlert c source listener)) ∨
      (x ∈ m.world.kept ∧ ¬e.Coordinated ∧ ∀ c, e ≠ .deed (.dropCoordinator c)) := by
  cases hs with
  | still => exact .inl hx
  | made => exact .inl hx
  | shown c source listener hshown =>
    exact (hshown.entries hx).imp_right fun ⟨hn, hbelongs⟩ =>
      .inl ⟨hn, hshown.length, hbelongs, c, source, listener, rfl⟩
  | installed q key h =>
    rcases mem_install.mp hx with ⟨hm, -⟩ | ⟨-, -, rfl⟩
    · exact .inl hm
    · exact .inr (.inr ⟨allowed.2, id, fun _ => nofun⟩)
  | restored q key h previous =>
    rcases mem_entries_restore hx with hm | ⟨-, -, rfl⟩
    · exact .inl hm
    · exact .inr (.inr ⟨allowed.2.2 x rfl, id, fun _ => nofun⟩)
  | submitted s h =>
    obtain ⟨-, -, hregistries, -⟩ := submit_quiet m.world.board s h
    rw [registry, hregistries] at hx
    exact .inl hx
  | setUp settings host =>
    rcases setUp_cases m.world.board settings host with ⟨worker, identity, -, he⟩ | ⟨he, -⟩
    · rw [he] at hx
      rw [entries_of_concat rfl] at hx
      exact .inl hx
    · rw [he] at hx
      exact .inl hx
  | ripened hin hripe =>
    rw [registry, hripe.registries] at hx
    exact .inl hx

end Event.Starts

/-- Whatever happens, people keep, and tables have, only handlers that were made. -/
theorem World.Known.after {first : Ledger} (hk : m.world.Known) (hm : m.Tame first)
    (allowed : m.Allows e) : (m.after e).world.Known := by
  obtain ⟨⟨b', hstarts, hebb⟩, -⟩ := hm.turn allowed
  have hlen := hstarts.length
  rw [← hebb.length] at hlen
  constructor
  · have hsettle : ∀ (w : World) d waiting (t : Talk Board Telling Unit),
        (Moment.settle w d waiting t).world.kept = w.kept := by
      intro w d waiting t
      cases t <;> rfl
    intro x hx
    cases e with
    | deed d =>
      rcases hk.start allowed (hsettle _ d _ _ ▸ hx) with
        hm | ⟨rfl, fields, listener, registry, rfl⟩
      · exact Nat.lt_of_lt_of_le hm hlen
      · change m.world.board.handlers.length < (m.world.board.handlers ++ [_]).length
        rw [List.length_append]
        exact Nat.lt_succ_self _
    | reply returned =>
      obtain ⟨w, waiting⟩ := m
      cases waiting with
      | nil => exact absurd rfl allowed
      | cons y rest => exact Nat.lt_of_lt_of_le (hk.kept x (hsettle w y.deed rest _ ▸ hx)) hlen
  · intro r name x hx
    rcases hstarts.entries allowed (hebb.entries hx) with hm | ⟨hn, hl, -⟩ | ⟨hkept, -⟩
    · exact Nat.lt_of_lt_of_le (hk.entries hm) hlen
    · rw [hebb.length, hl, hn]
      exact Nat.lt_succ_self _
    · exact Nat.lt_of_lt_of_le (hk.kept x hkept) hlen

/-- At every moment of every course, people keep, and tables have, only handlers that were made. -/
theorem known_of_freeCourse (course : FreeCourse m) : m.world.Known := by
  induction course with
  | start => exact ⟨List.forall_mem_nil _, fun hx => by cases hx⟩
  | step course _ allowed _ ih => exact ih.after (tame_of_freeCourse course) allowed

end ToastBoard
