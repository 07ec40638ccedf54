import ToastBoard.Proofs.Registering

/-!
# Showing and closing

How everything that a coordinator does keeps order: an alert is put under its name, submitted, and
the one it displaces ends or comes back; an alert is closed; and when the signal fires all of them
end. Where only coordinators work, a panic that leaves handlers behind while the signal fires is
not permitted.
-/

namespace ToastBoard

open Talk Board

variable {strict : Bool} {k : Slack} {g : Ledger} {since w : World} {may : Bool → Prop}
  {h : HandlerId} {r : RegistryId} {c : CoordinatorId} {s : StationId} {name : String} {α : Type}

namespace Board

variable (b : Board)

theorem letGoAll_phase (hs : List HandlerId) (x : HandlerId) :
    (b.letGoAll hs).phase x = b.phase x := by
  induction hs generalizing b with
  | nil => rfl
  | cons h hs ih =>
    change ((b.letGo h).letGoAll hs).phase x = _
    rw [ih, (sameButToasts_letGo h).phase]
    rfl

/-- Undoing an install tells nobody and changes no phase. -/
theorem restore_quiet (r : RegistryId) (name : String) (h : HandlerId) (old : Option HandlerId) :
    b.Onward (b.restore r name h old).2 ∧ (b.restore r name h old).2.told = b.told ∧
      ∀ x, (b.restore r name h old).2.phase x = b.phase x := by
  have hgone : ∀ (f : Registry → Registry) (hs : List HandlerId),
      b.Onward (((b.updateRegistry r f).reap h).letGoAll hs) ∧
      (((b.updateRegistry r f).reap h).letGoAll hs).told = b.told ∧
      ∀ x, (((b.updateRegistry r f).reap h).letGoAll hs).phase x = b.phase x := by
    intro f hs
    have hf : b.Onward (b.updateRegistry r f) := onward_of_handlers rfl
    have hreap := sameButToasts_reap (b := b.updateRegistry r f) h
    have hletGo := letGoAll_quiet ((b.updateRegistry r f).reap h) hs
    refine ⟨(hf.trans hreap.onward).trans hletGo.1, hletGo.2.trans hreap.told, fun x => ?_⟩
    rw [letGoAll_phase, hreap.phase]
    rfl
  unfold restore
  split
  · split
    · rename_i p _
      exact hgone _ [p]
    · exact hgone _ old.toList
  · have hletGo := letGoAll_quiet b old.toList
    exact ⟨hletGo.1, hletGo.2, letGoAll_phase b old.toList⟩

/-- Submitting a handler tells nobody and concerns no other one. -/
theorem submit_quiet (s : StationId) (h : HandlerId) :
    b.Onward (b.submit s h).2 ∧ (b.submit s h).2.told = b.told ∧
      (b.submit s h).2.registries = b.registries ∧
      ∀ x ≠ h, (b.submit s h).2.handler x = b.handler x := by
  have hset : ∀ p, b.phase h = .created → b.Onward (b.setPhase h p) := by
    intro p hp
    refine onward_update rfl rfl rfl ?_
    rw [hp]
    exact Phase.created_leadsTo p
  have hother : ∀ p, ∀ x ≠ h, (b.setPhase h p).handler x = b.handler x :=
    fun p x hx => handler_setPhase_of_ne hx p
  unfold submit
  split
  · rename_i hp
    simp only
    split
    · have hworker : (b.setPhase h .initializing).Onward
          ((b.setPhase h .initializing).setWorker s ‹_›) := onward_of_handlers rfl
      exact ⟨(hset _ hp).trans hworker, rfl, rfl, hother _⟩
    · have hfailed : (b.setPhase h .initializing).setPhase h .initFailed =
          b.setPhase h .initFailed := by
        unfold setPhase update
        rw [List.modify_modify_eq]
        rfl
      rw [hfailed]
      exact ⟨hset _ hp, rfl, rfl, hother _⟩
  · exact ⟨.refl _, rfl, rfl, fun _ _ => rfl⟩

/-- Giving up a coordinator tells nobody. -/
theorem disownCoordinator_quiet (c : CoordinatorId) :
    b.Onward (b.disownCoordinator c) ∧ (b.disownCoordinator c).told = b.told := by
  unfold disownCoordinator
  simp only
  split
  · exact ⟨onward_of_handlers rfl, rfl⟩
  · have hgone : b.Onward (b.updateCoordinator c fun co => { co with owners := co.owners - 1 }) :=
      onward_of_handlers rfl
    have hquiet := disownRegistry_quiet
      (b.updateCoordinator c fun co => { co with owners := co.owners - 1 })
      ((b.updateCoordinator c fun co => { co with owners := co.owners - 1 }).coordinator c).registry
    have hstop : ∀ (a : Board) (t : StationId) (worker : Worker HandlerId),
        a.Onward (a.setWorker t worker) := fun _ _ _ => onward_of_handlers rfl
    exact ⟨(hgone.trans hquiet.1).trans (hstop _ _ _), hquiet.2⟩

end Board

/-- A coordinator exists for the time of a computation, with the registry and the station it had
at the start. -/
theorem keeps_withCoordinator {act : Coordinator → Act α} (ha : At strict {} g since w)
    (hc : 0 < (w.board.coordinator c).owners)
    (hact : ∀ co w', At strict {} { g with coords := c :: g.coords } since w' →
      (w'.board.coordinator c).registry = co.registry →
      (w'.board.coordinator c).station = co.station →
      (act co w'.board).Keeps (order strict) may (Leaves strict may {}
        { g with coords := c :: g.coords } w'.board fun _ _ => True) since w') :
    (withCoordinator c act w.board).Keeps (order strict) may
      (Leaves strict may {} g w.board fun _ _ => True) since w := by
  have honward : w.board.Onward (w.board.ownCoordinator c) := onward_of_handlers rfl
  have hown : At strict {} { g with coords := c :: g.coords } since
      (w.put (w.board.ownCoordinator c)) :=
    ha.step honward rfl (ha.sound.ownCoordinator hc)
  obtain ⟨hreg, hstation⟩ := coordinator_update (b := w.board) (c := c)
    (f := fun co => { co with owners := co.owners + 1 }) (fun _ => ⟨rfl, rfl⟩) c
  have hkeeps := hact (w.board.coordinator c) _ hown hreg hstation
  have hfrom := keeps_from hkeeps honward fun _ _ _ hp => hp
  change ((act (w.board.coordinator c) (w.board.ownCoordinator c)).ensuring
    (·.disownCoordinator c)).Keeps _ _ _ _ _
  refine keeps_put.mp (keeps_finally hfrom ?_)
  intro since a w' ha' _ _
  have hquiet := disownCoordinator_quiet w'.board c
  exact ⟨ha'.step hquiet.1 hquiet.2 (Sound.disownCoordinator (T := g.terms w') ha'.sound), hquiet.1,
    trivial⟩

/-- The one that a new alert displaced ends. -/
theorem keeps_supersede {old : Option HandlerId} (ha : At strict {}
      { g with holds := old.toList ++ g.holds, ending := old.toList ++ g.ending } since w) :
    (supersede old w.board).Keeps (order strict) may
      (Leaves strict may {} g w.board fun _ _ => True) since w := by
  cases old with
  | none => exact keeps_ended ha (.refl _) trivial
  | some p =>
    have hend : (Act.thenLetGo p (unregister p) w.board).Keeps (order strict) may _ since w :=
      keeps_endTaken ha (.inl rfl)
    exact keeps_from hend (.refl _) fun _ _ _ _ => trivial

/-- What is known of a handler that a new alert displaced. -/
structure Board.Displaced (b : Board) (r : RegistryId) (name : String) (h p : HandlerId)
    (ending : List HandlerId) : Prop where
  /-- It is another one. -/
  other : p ≠ h
  /-- It is initializing or live. -/
  pending : b.Pending p
  /-- It has the same name. -/
  name : (b.handler p).name = name
  /-- It has the same registry. -/
  registry : (b.handler p).registry = some r
  /-- It is not about to end otherwise. -/
  staying : p ∉ ending

/-- An alert that could not be submitted gives way to the one it displaced, and ends. -/
theorem keeps_rollBack {old : Option HandlerId} (ha : At strict { unsettled := some h }
      { g with holds := old.toList ++ g.holds, ending := old.toList ++ g.ending } since w)
    (hp : w.board.phase h = .initFailed)
    (hs : strict = true → (name, h) ∈ (w.board.registry r).entries ∧
      ∀ p ∈ old, w.board.Displaced r name h p g.ending) :
    (rollBack r name h old w.board).Keeps (order strict) may
      (Leaves strict may {} g w.board fun _ _ => True) since w := by
  obtain ⟨honward, htold, hphase⟩ := restore_quiet w.board r name h old
  have hsound : (w.board.restore r name h old).2.Sound strict { unsettled := some h }
      (g.terms w) := by
    refine Sound.restore (T := g.terms w) ?_ ?_
    · refine ha.sound.perm ?_ (.refl _) (.refl _) (fun _ => ⟨fun _ => id, fun _ => id⟩) rfl
        fun _ => id
      exact .of_eq (List.append_assoc ..)
    · intro hstrict
      obtain ⟨hentry, hold⟩ := hs hstrict
      exact ⟨rfl, hentry, fun p hm => ⟨(hold p hm).pending, (hold p hm).name,
        (hold p hm).registry, (hold p hm).staying⟩⟩
  have hno : strict = true → ∀ q key,
      (key, h) ∉ ((w.board.restore r name h old).2.registry q).entries := by
    intro hstrict q key
    obtain ⟨hentry, hold⟩ := hs hstrict
    exact no_entry_restore (ha.sound.agreed hstrict) (ha.sound.tables r) hentry
      (fun p hm => (hold p hm).other) q key
  have honly : Slack.Only { unsettled := some h } (w.board.restore r name h old).2 h :=
    .inr ⟨by rw [hphase, hp]; exact Phase.noConfusion, .inl rfl⟩
  have hend : (unregister h (w.board.restore r name h old).2).Keeps (order strict) may _ since
      (w.put (w.board.restore r name h old).2) :=
    keeps_unregister (ha.step honward htold hsound) honly hno
  exact keeps_put.mp (keeps_from hend honward fun _ _ _ _ => trivial)

/-- What is left to do for a new alert that was put under its name. -/
def Board.entrust (co : Coordinator) (name : String) (h : HandlerId) (old : Option HandlerId) :
    Act (Except Failure Unit) := do
  let submitted ← Action.step (·.submit co.station h)
  match submitted with
  | .error e =>
    rollBack co.registry name h old
    pure (.error e)
  | .ok () =>
    supersede old
    pure (.ok ())

/-- Presenting, step by step. -/
theorem present_eq (co : Coordinator) (h : HandlerId) (b : Board) : present co h b =
    entrust co (b.handler h).name h (b.install co.registry (b.handler h).name h).1
      (b.install co.registry (b.handler h).name h).2 := rfl

/-- A worker that does not take the new alert. -/
theorem entrust_refused {co : Coordinator} {old : Option HandlerId} {b : Board} {e : Failure}
    (he : (b.submit co.station h).1 = .error e) : entrust co name h old b =
      (rollBack co.registry name h old (b.submit co.station h).2).andThen fun _ b =>
        .ended (some (.error e)) b := by
  change (match (b.submit co.station h).1 with
    | .error e => (rollBack co.registry name h old).andThen fun _ =>
        (pure (.error e) : Act (Except Failure Unit))
    | .ok () => (supersede old).andThen fun _ => pure (.ok ())) (b.submit co.station h).2 = _
  rw [he]
  rfl

/-- A worker that takes the new alert. -/
theorem entrust_accepted {co : Coordinator} {old : Option HandlerId} {b : Board}
    (he : (b.submit co.station h).1 = .ok ()) : entrust co name h old b =
      (supersede old (b.submit co.station h).2).andThen fun _ b => .ended (some (.ok ())) b := by
  change (match (b.submit co.station h).1 with
    | .error e => (rollBack co.registry name h old).andThen fun _ =>
        (pure (.error e) : Act (Except Failure Unit))
    | .ok () => (supersede old).andThen fun _ => pure (.ok ())) (b.submit co.station h).2 = _
  rw [he]
  rfl

/-- An alert that was put under its name is submitted, and the one it displaces ends; or it ends,
and the other one is back. -/
theorem keeps_entrust {co : Coordinator} {old : Option HandlerId}
    (ha : At strict { unsettled := some h }
      { g with holds := old.toList ++ g.holds, ending := old.toList ++ g.ending } since w)
    (hp : w.board.phase h = .created)
    (hs : strict = true → (name, h) ∈ (w.board.registry co.registry).entries ∧
      (∀ p ∈ old, w.board.Displaced co.registry name h p g.ending) ∧
      ∃ c < w.board.coordinators.length, (w.board.coordinator c).registry = co.registry ∧
        (w.board.coordinator c).station = co.station) :
    (entrust co name h old w.board).Keeps (order strict) may
      (Leaves strict may {} g w.board fun _ _ => True) since w := by
  obtain ⟨honward, htold, hregistries, hother⟩ := submit_quiet w.board co.station h
  have hlisted : strict = true → some h = some h ∧ w.board.Listed h ∧
      ∃ c < w.board.coordinators.length,
        (w.board.handler h).registry = some (w.board.coordinator c).registry ∧
          (w.board.coordinator c).station = co.station := by
    intro hstrict
    obtain ⟨hentry, -, c, hlt, hreg, hstation⟩ := hs hstrict
    obtain ⟨hname, hhome⟩ := (ha.sound.agreed hstrict).entry hentry
    exact ⟨rfl, ⟨co.registry, hhome, by rw [hname]; exact hentry⟩, c, hlt, by rw [hhome, hreg],
      hstation⟩
  rcases ha.sound.submit rfl rfl hp hlisted with ⟨he, hsound⟩ | ⟨⟨e, he⟩, hfailed, hsound⟩
  · have hend : (supersede old (w.board.submit co.station h).2).Keeps (order strict) may _ since
        (w.put (w.board.submit co.station h).2) :=
      keeps_supersede (ha.step honward htold hsound)
    rw [entrust_accepted he]
    refine keeps_next (P := fun _ _ => True)
      (keeps_put.mp (keeps_from hend honward fun _ _ _ hp => hp)) (fun _ _ => trivial) ?_
    exact fun _ since w' ha' hon _ => keeps_ended ha' hon trivial
  · have hback : strict = true →
        (name, h) ∈ ((w.board.submit co.station h).2.registry co.registry).entries ∧
          ∀ p ∈ old, (w.board.submit co.station h).2.Displaced co.registry name h p g.ending := by
      intro hstrict
      obtain ⟨hentry, hold, -⟩ := hs hstrict
      refine ⟨by rw [registry, hregistries]; exact hentry, fun p hm => ?_⟩
      have hd := hold p hm
      have hsame := hother p hd.other
      refine ⟨hd.other, ?_, by rw [hsame]; exact hd.name, by rw [hsame]; exact hd.registry,
        hd.staying⟩
      rw [Pending, phase, hsame]
      exact hd.pending
    have hend : (rollBack co.registry name h old (w.board.submit co.station h).2).Keeps
        (order strict) may _ since (w.put (w.board.submit co.station h).2) :=
      keeps_rollBack (ha.step honward htold hsound) hfailed hback
    rw [entrust_refused he]
    refine keeps_next (P := fun _ _ => True)
      (keeps_put.mp (keeps_from hend honward fun _ _ _ hp => hp)) (fun _ _ => trivial) ?_
    exact fun _ since w' ha' hon _ => keeps_ended ha' hon trivial

namespace Board

variable {b : Board}

/-- A handler that was installed stands under its name. -/
theorem entry_install (hr : r < b.registries.length) (name : String) (h : HandlerId) :
    (name, h) ∈ ((b.install r name h).2.registry r).entries := by
  rw [install_eq]
  change _ ∈ ((b.updateRegistry r fun reg => reg.insert name h).registry r).entries
  rw [registry_updateRegistry, if_pos ⟨rfl, hr⟩]
  exact Registry.mem_entries_insert.mpr (.inr ⟨rfl, rfl⟩)

/-- Whom a new handler displaces is initializing or live, and nobody else is ending it. -/
theorem displaced_install {founders : List CoordinatorId} {ending : List HandlerId} {p : HandlerId}
    (hb : b.Agreed founders ending (some h)) (ho : (b.registry r).OnePerName)
    (hno : ∀ q key, (key, h) ∉ (b.registry q).entries) (hp : p ∈ (b.install r name h).1) :
    (b.install r name h).2.Displaced r name h p ending := by
  rw [install_eq] at hp ⊢
  have hentry := (Registry.mem_entries_iff ho).mpr hp
  have hne : p ≠ h := fun hc => hno r name (hc ▸ hentry)
  obtain ⟨hname, hreg⟩ := hb.entry hentry
  exact ⟨hne, hb.pending hentry (fun hc => hne (Option.some.inj hc)), hname, hreg,
    hb.staying hentry⟩

end Board

/-- A new alert takes its place under its name. -/
theorem keeps_present {co : Coordinator} (ha : At strict { unsettled := some h } g since w)
    (hp : w.board.phase h = .created) (hr : w.board.refersTo h = true)
    (hown : 0 < (w.board.registry co.registry).owners)
    (hs : strict = true → h ∉ g.ending ∧ (∀ q key, (key, h) ∉ (w.board.registry q).entries) ∧
      (w.board.handler h).registry = some co.registry ∧ ∃ c < w.board.coordinators.length,
        (w.board.coordinator c).registry = co.registry ∧
          (w.board.coordinator c).station = co.station) :
    (present co h w.board).Keeps (order strict) may
      (Leaves strict may {} g w.board fun _ _ => True) since w := by
  have hsound : (w.board.install co.registry (w.board.handler h).name h).2.Sound strict
      { unsettled := some h } _ := ha.sound.install hown hr fun hstrict =>
    ⟨rfl, rfl, (hs hstrict).2.2.1, (hs hstrict).1, (hs hstrict).2.1⟩
  have hentry := entry_install (lt_of_owners hown) (w.board.handler h).name h
  have hold : strict = true → ∀ p ∈ (w.board.install co.registry (w.board.handler h).name h).1, _ :=
    fun hstrict p hm => displaced_install (ha.sound.agreed hstrict) (ha.sound.tables co.registry)
      (hs hstrict).2.1 hm
  have hhandlers : (w.board.install co.registry (w.board.handler h).name h).2.handlers =
      w.board.handlers := by rw [install_eq]; rfl
  have hcoordinators : (w.board.install co.registry (w.board.handler h).name h).2.coordinators =
      w.board.coordinators := by rw [install_eq]; rfl
  have htold : (w.board.install co.registry (w.board.handler h).name h).2.told = w.board.told := by
    rw [install_eq]; rfl
  rw [present_eq]
  generalize (w.board.handler h).name = name at *
  generalize w.board.install co.registry name h = installed at *
  obtain ⟨old, b⟩ := installed
  have hat : At strict { unsettled := some h }
      { g with holds := old.toList ++ g.holds, ending := old.toList ++ g.ending } since
      (w.put b) :=
    ha.step (onward_of_handlers hhandlers) htold (hsound.perm
      (.of_eq (List.append_assoc ..).symm) (.refl _) (.refl _)
      (fun _ => ⟨fun _ => id, fun _ => id⟩) rfl fun _ => id)
  have hphase : b.phase h = .created := by
    rw [phase, handler, hhandlers]
    exact hp
  have hkeeps : (entrust co name h old b).Keeps (order strict) may _ since (w.put b) :=
    keeps_entrust hat hphase fun hstrict => by
      obtain ⟨-, -, -, c, hlt, hreg, hstation⟩ := hs hstrict
      have hco := coordinator_of_lt hcoordinators c hlt
      exact ⟨hentry, hold hstrict, c, Nat.lt_of_lt_of_eq hlt (by rw [← hcoordinators]; rfl),
        hco.1.trans hreg, hco.2.trans hstation⟩
  exact keeps_put.mp (keeps_from hkeeps (onward_of_handlers hhandlers) fun _ _ _ hp => hp)

/-- What a coordinator does with an alert that it is given. -/
def Board.offer (source : Source) (listener : Option ListenerId) (co : Coordinator) :
    Act (Reading Unit) := fun b =>
  if co.suppressed = true then .ended (some (.done ())) b
  else match source.read with
    | ⟨.error e, called⟩ => .ended (some ⟨.error e, called⟩) b
    | ⟨.ok fields, called⟩ =>
      (Act.thenLetGo (b.create { fields, listener, registry := some co.registry }).1
        (present co (b.create { fields, listener, registry := some co.registry }).1)
        (b.create { fields, listener, registry := some co.registry }).2).andThen
          fun shown b' => .ended (some ⟨shown, called⟩) b'

/-- Showing an alert, step by step. -/
theorem showAlert_eq (c : CoordinatorId) (source : Source) (listener : Option ListenerId) :
    showAlert c source listener = withCoordinator c (offer source listener) := by
  unfold showAlert offer
  congr 1
  funext co b
  split
  · rfl
  · rcases source.read with ⟨result, called⟩
    cases result <;> rfl

section Offer

variable {source : Source} {listener : Option ListenerId} {co : Coordinator} {b : Board}

/-- An alert that cannot be read is refused. -/
theorem offer_of_error {e : Failure} (hs : co.suppressed = false)
    (hr : source.read.result = .error e) :
    offer source listener co b = .ended (some ⟨.error e, source.read.called⟩) b := by
  rw [offer, if_neg (by rw [hs]; exact Bool.false_ne_true)]
  rcases hread : source.read with ⟨result, called⟩
  obtain rfl : result = .error e := by rw [← hr, hread]
  rfl

/-- An alert that was read is presented. -/
theorem offer_of_ok {fields : Snapshot} (hs : co.suppressed = false)
    (hr : source.read.result = .ok fields) :
    offer source listener co b =
      (Act.thenLetGo (b.create { fields, listener, registry := some co.registry }).1
        (present co (b.create { fields, listener, registry := some co.registry }).1)
        (b.create { fields, listener, registry := some co.registry }).2).andThen
          fun shown b' => .ended (some ⟨shown, source.read.called⟩) b' := by
  rw [offer, if_neg (by rw [hs]; exact Bool.false_ne_true)]
  rcases hread : source.read with ⟨result, called⟩
  obtain rfl : result = .ok fields := by rw [← hr, hread]
  rfl

end Offer

/-- A coordinator shows an alert. -/
theorem keeps_showAlert {source : Source} {listener : Option ListenerId}
    (ha : At strict {} g since w) (hc : 0 < (w.board.coordinator c).owners) :
    (showAlert c source listener w.board).Keeps (order strict) may
      (Leaves strict may {} g w.board fun _ _ => True) since w := by
  rw [showAlert_eq]
  refine keeps_withCoordinator ha hc fun co w' ha' hreg hstation => ?_
  unfold offer
  split
  · exact keeps_ended ha' (.refl _) trivial
  · split
    · exact keeps_ended ha' (.refl _) trivial
    · rename_i fields called _
      have hpos := ha'.sound.books.pos_of_master (c := c) List.mem_cons_self
      have hlt := lt_of_coordinator_owners hpos
      have hback := ha'.sound.books.pos_of_backing hpos
      rw [hreg] at hback
      have hcreated : (w'.board.create { fields, listener, registry := some co.registry }).2.handler
          w'.board.handlers.length = { fields, listener, registry := some co.registry } := by
        change (w'.board.handlers ++ [_]).getD _ _ = _
        rw [getD_concat, if_pos rfl]
      have hsound : (w'.board.create
          { fields, listener, registry := some co.registry }).2.Sound strict _ _ :=
        ha'.sound.create rfl rfl rfl rfl fun hstrict =>
          ⟨c, ha'.sound.founded hstrict c List.mem_cons_self, by rw [hreg]⟩
      have honward : w'.board.Onward
          (w'.board.create { fields, listener, registry := some co.registry }).2 :=
        onward_create _ _
      have hkeeps : (present co w'.board.handlers.length
          (w'.board.create { fields, listener, registry := some co.registry }).2).Keeps
            (order strict) may _ since
              (w'.put (w'.board.create { fields, listener, registry := some co.registry }).2) :=
        keeps_present
          (g := { g with holds := w'.board.handlers.length :: g.holds, coords := c :: g.coords })
          (ha'.step honward rfl hsound) (by rw [World.put_board, phase, hcreated])
          (refersTo_of_held List.mem_cons_self) hback fun hstrict =>
            ⟨fun hm => Nat.lt_irrefl _ ((ha'.sound.agreed hstrict).known _ hm),
              fun q key he => Nat.lt_irrefl _ ((ha'.sound.agreed hstrict).made he),
              by rw [World.put_board, hcreated], c, hlt, hreg, hstation⟩
      have hfrom := keeps_from hkeeps honward fun _ _ _ hp => hp
      refine keeps_next (P := fun _ _ => True) (keeps_put.mp
        (keeps_thenLetGo (g := { g with coords := c :: g.coords })
          (w := w'.put (w'.board.create { fields, listener, registry := some co.registry }).2)
          hfrom fun _ _ _ => trivial)) (fun _ _ => trivial) ?_
      exact fun _ since w' ha' hon _ => keeps_ended ha' hon trivial

/-- What is done with the entry of a name that is closed. -/
def Board.takeDown (co : Coordinator) (name : String) (b : Board) : Talk Board Telling Unit :=
  match (b.takeEntry co.registry name).1 with
  | none => .ended (some ()) (b.takeEntry co.registry name).2
  | some h => Act.thenLetGo h (unregister h) (b.takeEntry co.registry name).2

/-- Closing an alert, step by step. -/
theorem closeAlert_eq (c : CoordinatorId) (name : String) :
    closeAlert c name = withCoordinator c fun co => takeDown co name := by
  unfold closeAlert
  congr 1
  funext co b
  change (match (b.takeEntry co.registry name).1 with
    | none => (pure () : Act Unit)
    | some h => Act.thenLetGo h (unregister h)) (b.takeEntry co.registry name).2 = _
  unfold takeDown
  cases (b.takeEntry co.registry name).1 <;> rfl

/-- A coordinator closes the alert of a name. -/
theorem keeps_closeAlert (ha : At strict {} g since w) (hc : 0 < (w.board.coordinator c).owners) :
    (closeAlert c name w.board).Keeps (order strict) may
      (Leaves strict may {} g w.board fun _ _ => True) since w := by
  rw [closeAlert_eq]
  refine keeps_withCoordinator ha hc fun co w' ha' _ _ => ?_
  unfold takeDown
  have hsound := ha'.sound.takeEntry co.registry name
  have hhandlers : (w'.board.takeEntry co.registry name).2.handlers = w'.board.handlers := by
    rw [takeEntry_eq]; rfl
  have htold : (w'.board.takeEntry co.registry name).2.told = w'.board.told := by
    rw [takeEntry_eq]; rfl
  have honward : w'.board.Onward (w'.board.takeEntry co.registry name).2 :=
    onward_of_handlers hhandlers
  generalize w'.board.takeEntry co.registry name = taken at *
  obtain ⟨old, b⟩ := taken
  cases old with
  | none => exact keeps_ended (ha'.step honward htold hsound) honward trivial
  | some h =>
    have hend : (Act.thenLetGo h (unregister h) b).Keeps (order strict) may _ since (w'.put b) :=
      keeps_endTaken (ha'.step honward htold hsound) (.inl rfl)
    exact keeps_put.mp (keeps_from hend honward fun _ _ _ _ => trivial)

/-- A coordinator takes out a handler, if it is the very one under a name. -/
theorem keeps_removeHandler (ha : At strict {} g since w)
    (hc : 0 < (w.board.coordinator c).owners) : (removeHandler c name h w.board).Keeps
      (order strict) may (Leaves strict may {} g w.board fun _ _ => True) since w := by
  refine keeps_withCoordinator ha hc fun co w' ha' _ _ => ?_
  by_cases hcur : w'.board.isCurrent co.registry name h = true
  · exact keeps_from (keeps_removeIfCurrent ha' (.inl rfl) hcur) (.refl _) fun _ _ _ _ => trivial
  · rw [removeIfCurrent_eq, if_neg hcur]
    exact keeps_ended ha' (.refl _) trivial

/-- A computation gives back its holds on some handlers. -/
theorem At.letGoAll {hs : List HandlerId}
    (ha : At strict k { g with holds := hs ++ g.holds } since w) :
    At strict k g since (w.put (w.board.letGoAll hs)) := by
  have hquiet := letGoAll_quiet w.board hs
  refine ha.step hquiet.1 hquiet.2 (Sound.letGoAll (T := g.terms w) ?_)
  exact ha.sound.perm (.of_eq (List.append_assoc ..)) (.refl _) (.refl _)
    (fun _ => ⟨fun _ => id, fun _ => id⟩) rfl fun _ => id

/-- Handlers that were taken out end one after the other. Where it matters who is left behind, no
listener panics. -/
theorem keeps_unregisterAll {hs : List HandlerId} (hm : strict = true → ¬may false)
    (ha : At strict {} { g with ending := hs ++ g.ending } since w) :
    (Action.forEach hs unregister w.board).Keeps (order strict) may
      (Leaves strict may {} g w.board fun _ _ => True) since w := by
  induction hs generalizing since w with
  | nil => exact keeps_ended ha (.refl _) trivial
  | cons h hs ih =>
    have hend : (unregister h w.board).Keeps (order strict) may _ since w :=
      keeps_unregister ha (.inl rfl)
        fun hstrict _ _ he => (ha.sound.agreed hstrict).staying he List.mem_cons_self
    refine keeps_then hend ?_ ?_
    · intro since w' ha' hpanic _
      refine ⟨⟨ha'.quiet, ?_⟩, trivial⟩
      have hsound := ha'.sound
      cases strict with
      | true => exact absurd hpanic (hm rfl)
      | false => exact hsound.free
    · intro _ since w' ha' hon hp
      have hover : At strict {} { g with ending := hs ++ g.ending } since w' := At.over ha' hp
      exact keeps_from (ih hover) hon fun _ _ _ _ => trivial

namespace Board

/-- The board of a signal that has fired. -/
def fired (b : Board) : Board := { b with signal := b.signal.fire.2 }

theorem fire_eq (visit : Visit) (b : Board) : fire visit b =
    (Action.forEach b.signal.fire.1 (shutDown visit) b.fired).andThen fun _ b' =>
      .ended (some b.signal.fire.1.length) b' := rfl

end Board

variable {visit : Visit}

/-- Handlers are visited the other way round. -/
def Visit.reversed : Visit := ⟨fun _ => List.reverse, fun _ hs => hs.reverse_perm⟩

/-- A computation takes out all handlers of a registry, and is going to end them in some order. -/
theorem At.takeAll (visit : Visit) (ha : At strict {} g since w) (r : RegistryId) : At strict {}
    { g with holds := visit r (w.board.takeAll r).1 ++ g.holds
             ending := visit r (w.board.takeAll r).1 ++ g.ending } since
      (w.put (w.board.takeAll r).2) := by
  have hperm := visit.fair r (w.board.takeAll r).1
  have hending := hperm.append_right g.ending
  have hvisited := (ha.sound.takeAll r).drop (fun x hx => hending.mem_iff.mp hx)
    fun x hx => .inl (hending.mem_iff.mpr hx)
  refine ha.step (onward_of_handlers rfl) rfl (hvisited.perm ?_ (.refl _) (.refl _)
    (fun _ => ⟨fun _ => id, fun _ => id⟩) rfl fun _ => id)
  exact (List.Perm.append_right (g.holds ++ w.kept) hperm).symm.trans
    (.of_eq (List.append_assoc ..).symm)

/-- A registry is emptied and all of its handlers end. -/
theorem keeps_drain (hm : strict = true → ¬may false)
    (ha : At strict {} g since w) : (drain visit r w.board).Keeps (order strict) may
      (Leaves strict may {} g w.board fun _ _ => True) since w := by
  have honward : w.board.Onward (w.board.takeAll r).2 := onward_of_handlers rfl
  have hat := ha.takeAll visit r
  have hkeeps : (Action.forEach (visit r (w.board.takeAll r).1) unregister
      (w.board.takeAll r).2).Keeps (order strict) may _ since (w.put (w.board.takeAll r).2) :=
    keeps_unregisterAll (g := { g with holds := visit r (w.board.takeAll r).1 ++ g.holds }) hm hat
  have hfrom := keeps_from hkeeps honward fun _ _ _ hp => hp
  refine keeps_put.mp (keeps_finally hfrom ?_)
  intro since _ w' ha' _ _
  exact ⟨ha'.letGoAll, (letGoAll_quiet w'.board _).1, trivial⟩

/-- A coordinator that still exists ends all of its handlers. -/
theorem keeps_shutDown (hm : strict = true → ¬may false)
    (ha : At strict {} g since w) : (shutDown visit c w.board).Keeps (order strict) may
      (Leaves strict may {} g w.board fun _ _ => True) since w := by
  change ((if w.board.hasCoordinator c = true then
    withCoordinator c fun co => drain visit co.registry else pure ()) w.board).Keeps _ _ _ _ _
  split
  · rename_i hc
    exact keeps_withCoordinator ha (by simpa [hasCoordinator] using hc)
      fun _ _ ha' _ _ => keeps_drain hm ha'
  · exact keeps_ended ha (.refl _) trivial

/-- Coordinators end their handlers one after the other. -/
theorem keeps_shutDownAll {observers : List CoordinatorId}
    (hm : strict = true → ¬may false) (ha : At strict {} g since w) :
    (Action.forEach observers (shutDown visit) w.board).Keeps (order strict) may
      (Leaves strict may {} g w.board fun _ _ => True) since w := by
  induction observers generalizing since w with
  | nil => exact keeps_ended ha (.refl _) trivial
  | cons c observers ih =>
    refine keeps_next (keeps_shutDown hm ha) (fun _ _ => trivial) ?_
    intro _ since w' ha' hon _
    exact keeps_from (ih ha') hon fun _ _ _ _ => trivial

/-- A signal that has fired leaves a board in order. -/
theorem At.fired (ha : At strict k g since w) : At strict k g since (w.put w.board.fired) :=
  ha.step (onward_of_handlers rfl) rfl
    (ha.sound.same rfl ⟨fun _ => .refl _, rfl, rfl, rfl, rfl, rfl, rfl, rfl⟩ rfl)

/-- The signal fires, whatever the order of visits is. -/
theorem keeps_fire (hm : strict = true → ¬may false)
    (ha : At strict {} g since w) : (fire visit w.board).Keeps (order strict) may
      (Leaves strict may {} g w.board fun _ _ => True) since w := by
  have hkeeps : (Action.forEach w.board.signal.fire.1 (shutDown visit) w.board.fired).Keeps
      (order strict) may _ since (w.put w.board.fired) := keeps_shutDownAll hm ha.fired
  rw [fire_eq]
  refine keeps_next (P := fun _ _ => True)
    (keeps_put.mp (keeps_from hkeeps (onward_of_handlers rfl) fun _ _ _ hp => hp))
    (fun _ _ => trivial) ?_
  exact fun _ since w' ha' hon _ => keeps_ended ha' hon trivial

/-- Reporting about a name, step by step. -/
theorem emit_eq (name : String) (o : Outcome) (b : Board) :
    emit name o b = match b.screen.sinkOf? name with
      | none => .ended (some false) b
      | some h => (hear h o b).andThen fun _ b => .ended (some true) b := by
  change (match b.screen.sinkOf? name with
    | none => (pure false : Act Bool)
    | some h => (hear h o).andThen fun _ => pure true) b = _
  cases b.screen.sinkOf? name <;> rfl

/-- The screen reports something about a name. -/
theorem keeps_emit {outcome : Outcome} (ha : At strict {} g since w)
    (ho : ∀ p ∈ (Deed.emit name outcome).reports w.board, p ∈ w.reported) :
    (emit name outcome w.board).Keeps (order strict) may
      (Leaves strict may {} g w.board fun _ _ => True) since w := by
  rw [emit_eq]
  cases hsink : w.board.screen.sinkOf? name with
  | none => exact keeps_ended ha (.refl _) trivial
  | some h =>
    have hreported : (h, outcome) ∈ w.reported := ho _ (by simp [Deed.reports, hsink])
    refine keeps_next (keeps_hear ha hreported) (fun _ _ => trivial) ?_
    exact fun _ since w' ha' hon _ => keeps_ended ha' hon trivial

end ToastBoard
