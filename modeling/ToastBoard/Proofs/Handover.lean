import ToastBoard.Proofs.Vacancies

/-!
# Handing names over

When a listener is told that its alert is finished, the handler is over, its toast is released, and
no name leads to it. If it was superseded, its name leads to the handler that has taken its place,
which is being initialized and whose job is queued. From then on the name never leads to the old one
again, and always to the new one or a newer one, until an event takes out whoever stands there
without putting somebody there. That is not always up to people: a worker may do so, even while the
first listener is still being told, if the registration of the new handler is refused.
-/

namespace ToastBoard

open Talk Board

variable {empties : Bool} {may may' : RegistryId → String → HandlerId → Prop} {b b' c : Board}
  {h p : HandlerId} {r : RegistryId} {name : String} {m : Moment} {e : Event}
  {calls : List Telling} {t : Telling} {α β : Type}

namespace Board

/-- Somebody active stands under a name. -/
structure Stands (b : Board) (r : RegistryId) (name : String) (x : HandlerId) : Prop where
  /-- The name leads there. -/
  current : b.current? r name = some x
  /-- It is active. -/
  active : (b.phase x).isActive = true

/-- Whoever stands under a name still does, or has ended and somebody newer does; or nobody does,
because the table is gone or whoever stood there may be lost. -/
structure KeepsOrPassesOn (may : RegistryId → String → HandlerId → Prop) (b b' : Board) : Prop where
  /-- Registries are only added. -/
  made : b.registries.length ≤ b'.registries.length
  /-- A registry that is gone is not back. -/
  gone : ∀ {r}, r < b.registries.length → b.hasRegistry r = false → b'.hasRegistry r = false
  /-- What has become of those under a name. -/
  stands : ∀ {r name x}, b.Stands r name x →
    (∃ y, x ≤ y ∧ b'.Stands r name y ∧ (y = x ∨ (b'.phase x).isActive = false)) ∨
      (b'.current? r name = none ∧ (b'.hasRegistry r = false ∨ may r name x))

/-- Where names are kept or vacated, nobody else comes under them, and whoever vacates one has ended
or may be lost. -/
theorem KeepsOrVacates.keepsOrPassesOn (hy : b.KeepsOrVacates empties b')
    (hl : b.LosesOnly may b') :
    b.KeepsOrPassesOn (fun r name x => may r name x ∧
      ((b'.phase x).isActive = false ∨ empties = true)) b' where
  made := hy.made
  gone := hy.gone
  stands {r name x} hx := by
    rcases hy.current hx.current hx.active with ⟨hc, ha⟩ | ⟨hnone, hwhy⟩
    · exact .inl ⟨x, Nat.le_refl x, ⟨hc, ha⟩, .inl rfl⟩
    · refine .inr ⟨hnone, ?_⟩
      rcases hl.kept hx.current with hsame | hmay | hgone
      · exact absurd (hnone.symm.trans hsame) nofun
      · rcases hwhy with hover | hgone | hempties
        · exact .inr ⟨hmay, .inl hover⟩
        · exact .inl hgone
        · exact .inr ⟨hmay, .inr hempties⟩
      · exact .inl hgone

/-- More may be lost. -/
theorem KeepsOrPassesOn.mono (hs : b.KeepsOrPassesOn may b')
    (hm : ∀ {r name x}, may r name x → may' r name x) : b.KeepsOrPassesOn may' b' :=
  ⟨hs.made, hs.gone, fun hx => (hs.stands hx).imp_right fun ⟨hnone, hwhy⟩ =>
    ⟨hnone, hwhy.imp_right hm⟩⟩

/-- Names that were passed on may be vacated, where nobody is lost. -/
theorem KeepsOrPassesOn.keepsOrVacates (hs : b.KeepsOrPassesOn may b')
    (hy : b'.KeepsOrVacates empties c)
    (hl : b'.LosesOnly (fun _ _ _ => False) c) : b.KeepsOrPassesOn may c where
  made := Nat.le_trans hs.made hy.made
  gone hlt hr := hy.gone (Nat.lt_of_lt_of_le hlt hs.made) (hs.gone hlt hr)
  stands {r name x} hx := by
    rcases hs.stands hx with ⟨y, hle, hstands, hwhy⟩ | ⟨hnone, hwhy⟩
    · rcases hy.current hstands.current hstands.active with ⟨hc, ha⟩ | ⟨hnone, -⟩
      · exact .inl ⟨y, hle, ⟨hc, ha⟩, hwhy.imp_right hy.inactive⟩
      · rcases hl.kept hstands.current with hsame | hmay | hgone
        · exact absurd (hnone.symm.trans hsame) nofun
        · exact hmay.elim
        · exact .inr ⟨hnone, .inl hgone⟩
    · refine .inr ⟨hy.none hnone, hwhy.imp_left fun hg => ?_⟩
      have hlt := lt_of_entry (Registry.mem_of_get? hx.current)
      exact hy.gone (Nat.lt_of_lt_of_le hlt hs.made) hg

/-- What is done at the end of a computation does not matter where nobody is lost. -/
theorem KeepsOrPassesOn.ensuring {t : Talk Board Telling α} {f : Board → Board}
    (hs : b.KeepsOrPassesOn may t.stop) (hy : ∀ d : Board, d.KeepsOrVacates false (f d))
    (hl : ∀ d : Board, d.LosesOnly (fun _ _ _ => False) (f d)) :
    b.KeepsOrPassesOn may (t.ensuring f).stop := by
  cases t with
  | ended a d => exact hs.keepsOrVacates (hy d) (hl d)
  | told m d resume => exact hs

/-- Who stands under a name when a handler was put somewhere. -/
theorem current_install (q : RegistryId) (key : String) :
    (b.install r name h).2.current? q key =
      if (q = r ∧ r < b.registries.length) ∧ key = name then some h else b.current? q key := by
  rw [install_eq]
  change ((b.updateRegistry r fun reg => reg.insert name h).registry q).get? key = _
  rw [registry_updateRegistry]
  by_cases hq : q = r ∧ r < b.registries.length
  · rw [if_pos hq, Registry.get?_insert]
    by_cases hk : key = name
    · rw [if_pos hk, if_pos ⟨hq, hk⟩]
    · rw [if_neg hk, if_neg fun hc => hk hc.2]
      rfl
  · rw [if_neg hq, if_neg fun hc => hq hc.1]
    rfl

/-- Undoing an install changes only the entry of the name, and only while its handler is there:
whoever was displaced comes back, if they are active. -/
theorem registries_restore (b : Board) (r : RegistryId) (name : String) (h : HandlerId)
    (old : Option HandlerId) : ∃ f : Registry → Registry,
    (b.restore r name h old).2.registries = (b.updateRegistry r f).registries ∧
      ∀ reg, (f reg).owners = reg.owners ∧ ∀ key, (f reg).get? key =
        if b.isCurrent r name h = true ∧ key = name then old.filter fun p => (b.phase p).isActive
        else reg.get? key := by
  have hswept : ∀ (f : Registry → Registry) (hs : List HandlerId),
      (((b.updateRegistry r f).reap h).letGoAll hs).registries =
        (b.updateRegistry r f).registries := fun f hs => by
    rw [registries_letGoAll, (sameButToasts_reap h).registries]
  unfold restore
  cases b.isCurrent r name h with
  | false =>
    refine ⟨id, ?_, fun reg => ⟨rfl, fun key => (if_neg fun hc => Bool.noConfusion hc.1).symm⟩⟩
    rw [if_neg Bool.false_ne_true, letGoIf, registries_letGoAll]
    exact (List.modify_id _ _).symm
  | true =>
    simp only [true_and]
    cases old.filter fun p => (b.phase p).isActive with
    | some x =>
      exact ⟨fun reg => reg.insert name x, hswept _ [x],
        fun reg => ⟨rfl, fun key => Registry.get?_insert ..⟩⟩
    | none =>
      exact ⟨fun reg => reg.erase name, hswept _ old.toList,
        fun reg => ⟨rfl, fun key => Registry.get?_erase ..⟩⟩

/-- Who stands under a name when an install was undone. -/
theorem current_restore (b : Board) (r : RegistryId) (name : String) (h : HandlerId)
    (old : Option HandlerId) (q : RegistryId) (key : String) :
    (b.restore r name h old).2.current? q key =
      if (q = r ∧ key = name) ∧ b.isCurrent r name h = true then
        old.filter fun p => (b.phase p).isActive
      else b.current? q key := by
  obtain ⟨f, hregistries, hf⟩ := registries_restore b r name h old
  rw [current?, registry_of_registries hregistries, registry_updateRegistry]
  by_cases hq : q = r ∧ r < b.registries.length
  · rw [if_pos hq, (hf _).2, hq.1]
    by_cases hk : b.isCurrent r name h = true ∧ key = name
    · rw [if_pos hk, if_pos ⟨⟨rfl, hk.2⟩, hk.1⟩]
    · rw [if_neg hk, if_neg fun hc => hk ⟨hc.2, hc.1.2⟩]
      rfl
  · rw [if_neg hq, if_neg]
    · rfl
    · rintro ⟨⟨rfl, -⟩, hcur⟩
      exact hq ⟨rfl, lt_of_entry (Registry.mem_of_get? (beq_iff_eq.mp hcur))⟩

section Submitted

variable {co : Coordinator}

/-- A handler that was submitted stands under its name, and the others stand where they stood. -/
theorem current_submitted (b : Board) (co : Coordinator) (h : HandlerId) (q : RegistryId)
    (key : String) : (b.submitted co h).current? q key =
      if (q = co.registry ∧ co.registry < b.registries.length) ∧ key = (b.handler h).name then
        some h
      else b.current? q key := by
  rw [← current_install, current_of_registries registries_submitted]

/-- Submitting a handler concerns the phase of no other one. -/
theorem phase_submitted {x : HandlerId} (hx : x ≠ h) :
    (b.submitted co h).phase x = b.phase x := by
  obtain ⟨-, -, -, hothers⟩ := submit_quiet
    (b := (b.install co.registry (b.handler h).name h).2) co.station h
  rw [phase, submitted, hothers x hx, handler_install, phase]

/-- Submitting a handler adds no registry. -/
theorem length_submitted : (b.submitted co h).registries.length = b.registries.length := by
  rw [registries_submitted, install_eq]
  exact length_updateRegistry ..

/-- Submitting a handler leaves registries there or gone. -/
theorem hasRegistry_submitted (b : Board) (co : Coordinator) (h : HandlerId) (r : RegistryId) :
    (b.submitted co h).hasRegistry r = b.hasRegistry r := by
  rw [hasRegistry_of_registries registries_submitted, install_eq]
  exact hasRegistry_updateRegistry Iff.rfl r

/-- Whoever stood under a name still does when a new handler was put somewhere, unless it has taken
their place. -/
theorem Stands.submitted {x : HandlerId} {q : RegistryId} {key : String} (hx : b.Stands q key x)
    (hne : x ≠ h) (co : Coordinator) : (b.submitted co h).Stands q key x ∨
      ((q = co.registry ∧ key = (b.handler h).name) ∧
        (b.submitted co h).current? q key = some h) := by
  have hcurrent := current_submitted b co h q key
  by_cases hplace : (q = co.registry ∧ co.registry < b.registries.length) ∧
      key = (b.handler h).name
  · rw [if_pos hplace] at hcurrent
    exact .inr ⟨⟨hplace.1.1, hplace.2⟩, hcurrent⟩
  · rw [if_neg hplace] at hcurrent
    exact .inl ⟨hcurrent.trans hx.current, by rw [phase_submitted hne]; exact hx.active⟩

/-- Whoever a new handler displaces is put back when it is taken back. -/
theorem keepsOrPassesOn_takenBack (hne : ∀ {q key x}, b.Stands q key x → x ≠ h) :
    b.KeepsOrPassesOn may (b.takenBack co h) := by
  obtain ⟨-, -, hback⟩ := restore_quiet (b := b.submitted co h) co.registry (b.handler h).name h
    (b.current? co.registry (b.handler h).name)
  obtain ⟨f, hregistries, hf⟩ := registries_restore (b.submitted co h) co.registry
    (b.handler h).name h (b.current? co.registry (b.handler h).name)
  unfold takenBack
  refine ⟨?_, fun {q} hlt hg => ?_, fun {q key x} hx => .inl ⟨x, Nat.le_refl _, ⟨?_, ?_⟩,
    .inl rfl⟩⟩
  · rw [hregistries, length_updateRegistry]
    exact Nat.le_of_eq length_submitted.symm
  · rw [← hasRegistry_submitted b co h] at hg
    rw [hasRegistry_of_registries hregistries]
    exact gone_updateRegistry (fun h0 => (hf _).1.trans h0) hg
  · rw [current_restore]
    rcases hx.submitted (hne hx) co with hsame | ⟨hplace, hcurrent⟩
    · rw [if_neg]
      · exact hsame.current
      · rintro ⟨⟨rfl, rfl⟩, hcur⟩
        rw [isCurrent, hsame.current] at hcur
        exact hne hx (Option.some.inj (beq_iff_eq.mp hcur))
    · have hcur : (b.submitted co h).isCurrent co.registry (b.handler h).name h = true := by
        rw [← hplace.1, ← hplace.2, isCurrent, hcurrent]
        exact beq_self_eq_true _
      rw [if_pos ⟨hplace, hcur⟩, ← hplace.1, ← hplace.2, hx.current, Option.filter_some,
        phase_submitted (hne hx), if_pos hx.active]
  · rw [hback, phase_submitted (hne hx)]
    exact hx.active

/-- Whoever is superseded ends, and nobody takes a place meanwhile. -/
theorem keepsOrVacates_supersede (hu : b.Unlisted p) :
    b.KeepsOrVacates false (supersede (some p) b).stop ∧
      (supersede (some p) b).stop.phase p = .unregistered := by
  have hassures : (supersede (some p) b).Assures true false b :=
    Assures.ensuring (assures_unregister fun _ _ => hu) (fun _ => ebbs_letGo p)
      fun _ => keepsOrVacates_letGo p
  exact ⟨hassures.keepsOrVacates, ((stop_ensuring fun _ => ebbs_letGo p).phase p).elim
    (·.trans (stop_unregister p b)) id⟩

/-- A new handler takes its place, or is taken back. -/
theorem keepsOrPassesOn_present (hf : b.Filed) (hno : ∀ r name, (name, h) ∉ (b.registry r).entries)
    (hp : b.phase h = .created) (hlast : ∀ x < b.handlers.length, x ≤ h) (co : Coordinator) :
    b.KeepsOrPassesOn may (present co h b).stop := by
  have hne : ∀ {q key x}, b.Stands q key x → x ≠ h := fun hx hxh =>
    hno _ _ (hxh ▸ Registry.mem_of_get? hx.current)
  have hle : ∀ {q key x}, b.Stands q key x → x ≤ h := fun hx =>
    hlast _ (lt_of_belongs (hf _ _ _ (Registry.mem_of_get? hx.current)))
  rcases present_cases hp co with ⟨he, hnew, -⟩ | ⟨e, he, hfailed⟩
  · rw [he, stop_result]
    cases hc : b.current? co.registry (b.handler h).name with
    | none =>
      refine ⟨Nat.le_of_eq length_submitted.symm, fun _ hg => (hasRegistry_submitted ..).trans hg,
        fun {q key x} hx => ?_⟩
      rcases hx.submitted (hne hx) co with hsame | ⟨⟨rfl, rfl⟩, -⟩
      · exact .inl ⟨x, Nat.le_refl _, hsame, .inl rfl⟩
      · exact absurd (hc.symm.trans hx.current) nofun
    | some p =>
      have hunlisted := hf.unlisted_submitted hc fun hph => hno _ _ (hph ▸ Registry.mem_of_get? hc)
      obtain ⟨hy, hover⟩ := keepsOrVacates_supersede hunlisted
      have hloses : (b.submitted co h).LosesOnly (fun _ _ _ => False)
          (supersede (some p) (b.submitted co h)).stop := (losesOnly_supersede _).stop
      have hlost : ∀ {q key x}, (b.submitted co h).current? q key = some x →
          (supersede (some p) (b.submitted co h)).stop.current? q key = none →
            ∀ {y}, (supersede (some p) (b.submitted co h)).stop.hasRegistry q = false ∨
              may q key y :=
        fun hx hnone => (hloses.kept hx).elim (fun hsame => absurd (hnone.symm.trans hsame) nofun)
          fun hwhy => .inl (hwhy.resolve_left id)
      refine ⟨length_submitted ▸ hy.made, fun hlt hg =>
        hy.gone (length_submitted.symm ▸ hlt) ((hasRegistry_submitted ..).trans hg),
        fun {q key x} hx => ?_⟩
      rcases hx.submitted (hne hx) co with hsame | ⟨⟨rfl, rfl⟩, hcurrent⟩
      · rcases hy.current hsame.current hsame.active with ⟨hc, ha⟩ | ⟨hnone, -⟩
        · exact .inl ⟨x, Nat.le_refl _, ⟨hc, ha⟩, .inl rfl⟩
        · exact .inr ⟨hnone, hlost hsame.current hnone⟩
      · -- whoever was displaced has ended
        obtain rfl : x = p := Option.some.inj (hx.current.symm.trans hc)
        have hinactive : ((supersede (some x) (b.submitted co h)).stop.phase x).isActive =
            false := by
          rw [hover]
          rfl
        rcases hy.current hcurrent (by rw [hnew]; rfl) with ⟨hc, ha⟩ | ⟨hnone, -⟩
        · exact .inl ⟨h, hle hx, ⟨hc, ha⟩, .inr hinactive⟩
        · exact .inr ⟨hnone, hlost hcurrent hnone⟩
  · have hback : b.KeepsOrPassesOn may (b.takenBack co h) := keepsOrPassesOn_takenBack hne
    rw [he, stop_result]
    generalize b.takenBack co h = d at hback hfailed
    have hassures : (unregister h d).Assures true false d :=
      assures_unregister fun _ ha => by rw [hfailed] at ha; cases ha
    exact hback.keepsOrVacates hassures.keepsOrVacates (losesOnly_unregister h).stop

end Submitted

/-- What comes after is all that matters where everybody who stands somewhere still does. -/
theorem KeepsOrPassesOn.after (hs : b'.KeepsOrPassesOn may c) (hr : b'.registries = b.registries)
    (hx : ∀ {r name x}, b.Stands r name x → b'.Stands r name x) : b.KeepsOrPassesOn may c where
  made := hr ▸ hs.made
  gone hlt hg := hs.gone (hr ▸ hlt) (by rwa [hasRegistry_of_registries hr])
  stands h := hs.stands (hx h)

/-- A coordinator that shows an alert leaves nobody's name to nobody, unless its table goes. -/
theorem keepsOrPassesOn_showAlert (hf : b.Filed) (c : CoordinatorId) (source : Source)
    (listener : Option ListenerId) :
    b.KeepsOrPassesOn may (Board.showAlert c source listener b).stop := by
  rcases showAlert_cases b c source listener with ⟨result, he⟩ | ⟨fields, -, he⟩
  · have hsame : b.KeepsOrVacates false (b.ownCoordinator c) :=
        keepsOrVacates_of_phases (fun _ => rfl) rfl
    rw [he]
    have hkept : b.LosesOnly (fun _ _ _ => False) ((b.ownCoordinator c).disownCoordinator c) :=
      LosesOnly.transits.trans (b := b.ownCoordinator c) (.of_registries rfl)
        (losesOnly_disownCoordinator c)
    exact ((hsame.trans (keepsOrVacates_disownCoordinator c)).keepsOrPassesOn hkept).mono fun hno =>
      hno.1.elim
  · have hlast : ∀ x < (b.drafted c fields listener).handlers.length, x ≤ b.handlers.length :=
      fun x hlt => Nat.le_of_lt_succ (lt_of_lt_of_eq hlt (List.length_append ..))
    have hpresent : (b.drafted c fields listener).KeepsOrPassesOn may (present (b.coordinator c)
        b.handlers.length (b.drafted c fields listener)).stop :=
      keepsOrPassesOn_present hf.drafted hf.new phase_drafted hlast _
    have hstart : b.KeepsOrPassesOn may (present (b.coordinator c) b.handlers.length
        (b.drafted c fields listener)).stop := by
      refine hpresent.after rfl fun {r name x} hx => ⟨hx.current, ?_⟩
      rw [phase, handler_drafted, if_neg (Nat.ne_of_lt (lt_of_belongs
        (hf _ _ _ (Registry.mem_of_get? hx.current))))]
      exact hx.active
    have hkept := hstart.ensuring (fun _ => keepsOrVacates_letGo b.handlers.length) fun _ =>
      losesOnly_letGo _
    rw [he]
    refine KeepsOrPassesOn.ensuring ?_ (fun _ => keepsOrVacates_disownCoordinator c) fun _ =>
      losesOnly_disownCoordinator c
    rwa [stop_result]

/-- A handler has taken a place under a name, and its registration is queued. -/
structure Replaced (b : Board) (co : Coordinator) (name : String) (h : HandlerId) : Prop where
  /-- The name leads to it. -/
  current : b.current? co.registry name = some h
  /-- It is being initialized. -/
  initializing : b.phase h = .initializing
  /-- Its registration is queued. -/
  queued : h ∈ b.jobs co.station

/-- It keeps its place when another one ends. -/
theorem Replaced.retire {co : Coordinator} (hb : b.Replaced co name h) (hne : h ≠ p)
    (hp : b.phase p ≠ .unregistered) :
    ((b.retire p).announce p .finished none).Replaced co name h := by
  refine ⟨?_, ?_, ?_⟩
  · rw [current_of_registries (registries_announce.trans (registries_retire _))]
    exact hb.current
  · rw [phase_announce, phase_retire hp, if_neg hne]
    exact hb.initializing
  · have hstations : ((b.retire p).announce p .finished none).stations = b.stations := by
      rw [announce_eq]
      exact (sameButToasts_releaseToast _).stations
    rw [jobs, station, hstations]
    exact hb.queued

end Board

namespace Talk

/-- A computation that tells one thing at most. -/
def Once : Talk Board Telling α → Prop
  | .ended .. => True
  | .told _ _ resume => ∀ returned b', (resume returned b').message = none

/-- What is done in any case at the end tells nobody anything. -/
theorem Once.ensuring {talk : Talk Board Telling α} {f : Board → Board} (ht : talk.Once) :
    (talk.ensuring f).Once := by
  cases talk with
  | ended a b => exact ht
  | told m b resume => exact fun returned b' => (message_ensuring ..).trans (ht returned b')

/-- What comes of a computation makes no difference to whom it tells. -/
theorem Once.result {talk : Talk Board Telling α} {f : α → β} (ht : talk.Once) :
    (talk.andThen fun a b => .ended (some (f a)) b).Once := by
  cases talk with
  | ended a b => cases a <;> exact trivial
  | told m b resume => exact fun returned b' => (message_result ..).trans (ht returned b')

/-- Who tells nobody anything tells at most one. -/
theorem once_of_silent {talk : Talk Board Telling α} (ht : talk.message = none) : talk.Once := by
  cases talk with
  | ended a b => trivial
  | told m b resume => cases ht

end Talk

namespace Board

/-- Ending a handler tells one listener at most. -/
theorem once_unregister (h : HandlerId) (b : Board) : (unregister h b).Once := by
  rw [unregister_eq]
  split
  · trivial
  · split
    · rw [notify_eq]
      split
      · trivial
      · exact fun _ _ => rfl
    · trivial

/-- Showing an alert tells one listener at most. -/
theorem once_showAlert (b : Board) (c : CoordinatorId) (source : Source)
    (listener : Option ListenerId) : (Board.showAlert c source listener b).Once := by
  rcases showAlert_cases b c source listener with ⟨result, he⟩ | ⟨fields, -, he⟩
  · rw [he]
    trivial
  · have hp : (b.drafted c fields listener).phase b.handlers.length = .created := phase_drafted
    rw [he]
    generalize b.drafted c fields listener = d at hp ⊢
    refine Once.ensuring (Once.result (Once.ensuring ?_))
    rcases present_cases hp (b.coordinator c) with ⟨he, -, -⟩ | ⟨e, he, -⟩
    · rw [he]
      refine Once.result ?_
      cases d.current? (b.coordinator c).registry (d.handler b.handlers.length).name with
      | none => trivial
      | some p => exact (once_unregister p _).ensuring
    · rw [he]
      exact (once_unregister _ _).result

end Board

namespace Moment

/-- An alert that is being shown tells nobody else. -/
def Mute (m : Moment) : Prop :=
  ∀ x ∈ m.waiting, x.deed.shows = true → ∀ returned b', (x.resume returned b').message = none

/-- Whoever shows an alert tells nobody else once somebody has been told. -/
theorem mute_settle {w : World} {d : Deed} {waiting : List Waiting} {talk : Talk Board Telling Unit}
    (hw : ∀ x ∈ waiting, x.deed.shows = true → ∀ returned b', (x.resume returned b').message = none)
    (ht : d.shows = true → talk.Once) : (settle w d waiting talk).Mute := by
  cases talk with
  | ended a b => exact hw
  | told m b resume =>
    intro x hx
    rcases List.mem_cons.mp hx with rfl | hx
    · exact ht
    · exact hw x hx

/-- Shows that have told somebody tell nobody else, whatever comes next. -/
theorem Mute.after (hm : m.Mute) (e : Event) : (m.after e).Mute := by
  obtain ⟨w, waiting⟩ := m
  cases e with
  | deed d =>
    refine mute_settle hm fun hd => ?_
    cases d with
    | showAlert c source listener => exact (once_showAlert w.board c source listener).result
    | _ => cases hd
  | reply returned =>
    cases waiting with
    | nil => exact hm
    | cons x rest =>
      refine mute_settle (fun y hy => hm y (List.mem_cons_of_mem x hy)) fun hd => ?_
      exact once_of_silent (hm x List.mem_cons_self hd returned w.board)

/-- What holds whenever things are left to coordinators. -/
structure Sorted (m : Moment) : Prop where
  /-- Whatever was promised so far holds. -/
  tame : m.Tame {}
  /-- The tables are tidy. -/
  tidy : m.world.board.Tidy
  /-- Who waits attends to whoever was told something last. -/
  attends : ∃ calls, m.Attends true calls
  /-- Alerts that are being shown tell nobody else. -/
  mute : m.Mute
  /-- Nobody is going to be taken out but who may be. -/
  spares : m.Spares

namespace Sorted

theorem jobs (hm : m.Sorted) : m.world.board.Jobs := by
  obtain ⟨g, hsound⟩ := hm.tame.lawful.sound
  exact hsound.jobs

/-- What is kept for a handler was reported. -/
theorem kept (hm : m.Sorted) {h : HandlerId} {o : Outcome}
    (hp : (m.world.board.handler h).pending = some o) : (h, o) ∈ m.world.reported := by
  obtain ⟨g, hsound⟩ := hm.tame.lawful.sound
  exact hsound.notices.kept hp

/-- Nobody gets an entry back. -/
theorem unlisted_after (hm : m.Sorted) (allowed : m.Allows e) (he : e.Orderly)
    (hu : m.world.board.Unlisted h) : (m.after e).world.board.Unlisted h := by
  obtain ⟨honward, -⟩ := hm.tame.lawful.tells allowed
  refine ⟨Nat.lt_of_lt_of_le hu.made honward.length, fun hx => ?_⟩
  rcases (hm.tame.board allowed he).entries hx with hold | ⟨-, hle, -⟩
  · exact hu.entries hold
  · exact absurd hu.made (Nat.not_lt_of_le hle)

/-- A moment is sorted after whatever comes next in order. -/
theorem after (hm : m.Sorted) (allowed : m.Allows e) (he : e.Orderly) : (m.after e).Sorted := by
  have htame := (hm.tame.turn allowed).2
  obtain ⟨g, hsound⟩ := htame.lawful.sound
  obtain ⟨calls, hattends⟩ := hm.attends
  refine ⟨htame, ⟨hm.tame.filed allowed he hm.tidy.filed, hsound.tables, hsound.books.vacant⟩,
    ⟨_, hattends.after (fun _ => hm.tidy) hm.jobs allowed (fun _ => he) fun _ {h} hu => ?_⟩,
    hm.mute.after e, hm.spares.after hm.jobs hm.kept he⟩
  exact hm.unlisted_after allowed he hu

/-- In an event nobody's name is left to nobody, but for those who are taken out. They have ended,
unless the signal fires. -/
theorem keepsOrPassesOn (hm : m.Sorted) (allowed : m.Allows e) (he : e.Orderly) :
    m.world.board.KeepsOrPassesOn (fun r name x => m.TakesOut e r name x ∧
      (((m.after e).world.board.phase x).isActive = false ∨ (m.acting e).any Deed.fires = true))
      (m.after e).world.board := by
  obtain ⟨calls, hattends⟩ := hm.attends
  obtain ⟨start, hassures, hstart⟩ :=
    hattends.assures (fun _ => hm.tidy) hm.jobs allowed fun _ => he
  by_cases hshow : ∀ d, e = .deed d → d.shows = false
  · have hloses := hm.spares.losesOnly hm.jobs hm.kept he hshow
    rw [hstart hshow] at hassures
    rw [board_after] at hloses ⊢
    exact hassures.keepsOrVacates.keepsOrPassesOn hloses
  · obtain ⟨d, rfl, hd⟩ : ∃ d, e = .deed d ∧ d.shows = true := by
      by_contra hno
      exact hshow fun d hd => Bool.eq_false_iff.mpr fun hs => hno ⟨d, hd, hs⟩
    cases d with
    | showAlert c source listener =>
      rw [board_after]
      change m.world.board.KeepsOrPassesOn _ ((Board.showAlert c source listener
        m.world.board).andThen fun _ b => .ended (some ()) b).stop
      rw [stop_result]
      exact keepsOrPassesOn_showAlert hm.tidy.filed c source listener
    | _ => cases hd

end Sorted

end Moment

/-- Whoever is told of an end has no entry. -/
theorem Talk.Assures.unlisted {talk : Talk Board Telling α} (ha : talk.Assures true empties b)
    (ht : talk.message = some t) (hf : t.notice.topic = .finished) :
    talk.stop.Unlisted t.handler := by
  cases talk with
  | ended a b => cases ht
  | told m b resume =>
    cases ht
    exact (ha.1 rfl).2 hf

namespace Moment

namespace Sorted

variable {events : List Event} {x : HandlerId}

/-- A moment stays sorted in every orderly course that goes on from it. -/
theorem later (hm : m.Sorted) (ho : Course.Open (fun _ e => e.Orderly) m events) :
    (events.foldl Moment.after m).Sorted := by
  induction events generalizing m with
  | nil => exact hm
  | cons e rest ih =>
    obtain ⟨allowed, he, hrest⟩ := ho
    exact ih (hm.after allowed he) hrest

end Sorted

end Moment

end ToastBoard
