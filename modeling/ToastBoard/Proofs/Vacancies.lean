import ToastBoard.Proofs.Assurances
import ToastBoard.Proofs.LifeCycle

/-!
# How names lose their handlers

In what is left to coordinators there are few ways to take a handler out from under its name without
putting another one there. Its alert is closed, or it is removed by hand; the signal fires; the
screen has reported something about it; or its registration is refused. Otherwise the whole table
goes, with its last owner. A deed that waits for a listener takes nobody out later on, unless it
fires the signal or hears from the screen.
-/

namespace ToastBoard

open Talk Board

variable {may may' : RegistryId → String → HandlerId → Prop} {a b b' c start since : Board}
  {h : HandlerId} {r : RegistryId} {s : StationId} {name : String} {o : Outcome}
  {reported reported' : List (HandlerId × Outcome)} {α β : Type}

namespace Talk

/-- What is in order for a relation is so for a weaker one. -/
theorem Within.mono {R R' : Board → Board → Prop} {t : Talk Board Telling α} (ht : t.Within R since)
    (hR : ∀ b b', R b b' → R' b b') : t.Within R' since := by
  induction t generalizing since with
  | ended a b => exact hR _ _ ht
  | told m b resume ih => exact ⟨hR _ _ ht.1, fun returned b' => ih returned b' (ht.2 returned b')⟩

/-- What is in order in every turn is so where a computation stops first. -/
theorem Within.stop {R : Board → Board → Prop} {t : Talk Board Telling α} (ht : t.Within R since) :
    R since t.stop := by
  cases t with
  | ended a b => exact ht
  | told m b resume => exact ht.1

end Talk

namespace Board

/-- Names lead where they led, but for handlers that may be lost and for tables that are gone. -/
structure LosesOnly (may : RegistryId → String → HandlerId → Prop) (b b' : Board) : Prop where
  /-- Registries are only added. -/
  made : b.registries.length ≤ b'.registries.length
  /-- A registry that is gone is not back. -/
  gone : ∀ {r}, r < b.registries.length → b.hasRegistry r = false → b'.hasRegistry r = false
  /-- What has become of those under a name. -/
  kept : ∀ {r name x}, b.current? r name = some x →
    b'.current? r name = some x ∨ may r name x ∨ b'.hasRegistry r = false

namespace LosesOnly

/-- More may be lost. -/
theorem mono (hb : b.LosesOnly may b') (hm : ∀ {r name x}, may r name x → may' r name x) :
    b.LosesOnly may' b' :=
  ⟨hb.made, hb.gone, fun hx => (hb.kept hx).imp_right (.imp_left hm)⟩

/-- What is lost in two steps is lost in one of them. -/
theorem transits : Transits (LosesOnly may) where
  trans {a b c} hb hc := by
    refine ⟨Nat.le_trans hb.made hc.made, fun hlt hr =>
      hc.gone (Nat.lt_of_lt_of_le hlt hb.made) (hb.gone hlt hr), fun hx => ?_⟩
    rcases hb.kept hx with hsame | hmay | hgone
    · exact hc.kept hsame
    · exact .inr (.inl hmay)
    · have hlt := lt_of_entry (Registry.mem_of_get? hx)
      exact .inr (.inr (hc.gone (Nat.lt_of_lt_of_le hlt hb.made) hgone))

/-- Where entries stay and no registry is back, nobody is lost. -/
theorem of_entries (hl : b.registries.length ≤ b'.registries.length)
    (hg : ∀ {r}, r < b.registries.length → b.hasRegistry r = false → b'.hasRegistry r = false)
    (he : ∀ r, (b'.registry r).entries = (b.registry r).entries) : b.LosesOnly may b' := by
  refine ⟨hl, hg, fun {r name x} hx => .inl ?_⟩
  rw [current?, Registry.get?, he]
  exact hx

/-- It does not matter what happens but to tables. -/
theorem of_registries (hr : b'.registries = b.registries) : b.LosesOnly may b' := by
  refine of_entries (Nat.le_of_eq (congrArg List.length hr).symm) (fun {r} _ hg => ?_) fun r => ?_
  · rwa [hasRegistry_of_registries hr]
  · rw [registry_of_registries hr]

theorem refl (b : Board) : b.LosesOnly may b := of_registries rfl

/-- The entries of one registry change, and nobody is lost there but who may be. -/
theorem of_update {f : Registry → Registry} (hr : b'.registries = (b.updateRegistry r f).registries)
    (ho : ((f (b.registry r)).owners = 0 ↔ (b.registry r).owners = 0))
    (hk : ∀ {name x}, b.current? r name = some x →
      (f (b.registry r)).get? name = some x ∨ may r name x ∨ (b.registry r).owners = 0) :
    b.LosesOnly may b' := by
  have hhas : ∀ {q}, b'.hasRegistry q = b.hasRegistry q := fun {q} =>
    (hasRegistry_of_registries hr q).trans (hasRegistry_updateRegistry ho q)
  refine ⟨?_, fun _ hg => hhas.trans hg, fun {q key x} hx => ?_⟩
  · rw [hr, length_updateRegistry]
  · rw [hhas, current_of_registries hr, current?, registry_updateRegistry]
    split
    · rename_i hq
      obtain ⟨rfl, -⟩ := hq
      exact (hk hx).imp_right (.imp_right fun h0 => by rw [hasRegistry, h0]; rfl)
    · exact .inl hx

end LosesOnly

/-- It does not matter what a computation results in. -/
theorem losesOnly_result {t : Talk Board Telling α} {f : α → β}
    (ht : t.Within (LosesOnly may) since) :
    (t.andThen fun a b => .ended (some (f a)) b).Within (LosesOnly may) since :=
  ht.andThen LosesOnly.transits fun _ b => LosesOnly.refl b

/-- Giving a handler back loses nobody. -/
theorem losesOnly_letGo (h : HandlerId) : b.LosesOnly may (b.letGo h) :=
  .of_registries (sameButToasts_letGo h).registries

/-- The entry of a name is taken out, of a handler that may be lost. -/
theorem losesOnly_takeEntry (hmay : ∀ {x}, b.current? r name = some x → may r name x) :
    b.LosesOnly may (b.takeEntry r name).2 := by
  have hr : (b.takeEntry r name).2.registries =
      (b.updateRegistry r fun reg => reg.erase name).registries := by rw [takeEntry_eq]; rfl
  refine .of_update hr Iff.rfl fun {key x} hx => ?_
  rw [Registry.get?_erase]
  split
  · rename_i hkey
    exact .inr (.inl (hkey ▸ hmay (hkey ▸ hx)))
  · exact .inl hx

/-- Taking out everything may lose everybody in that table. -/
theorem losesOnly_takeAll (hmay : ∀ {name x}, may r name x) : b.LosesOnly may (b.takeAll r).2 :=
  .of_update (r := r) (f := fun reg => { reg with entries := [] }) rfl Iff.rfl fun _ =>
    .inr (.inl hmay)

/-- Owning a registry loses nobody. -/
theorem losesOnly_ownRegistry (hr : b.hasRegistry r = true) :
    b.LosesOnly may (b.ownRegistry r) := by
  have hpos : 0 < (b.registry r).owners := of_decide_eq_true hr
  refine .of_update (r := r) (f := fun reg => { reg with owners := reg.owners + 1 }) rfl ?_ .inl
  simp only [Nat.add_eq_zero_iff, Nat.one_ne_zero, and_false, false_iff]
  omega

/-- A registry that loses an owner stays as it is, or is gone. -/
theorem losesOnly_disownRegistry (r : RegistryId) : b.LosesOnly may (b.disownRegistry r) := by
  have hless : b.LosesOnly may (b.updateRegistry r fun reg =>
      { reg with owners := reg.owners - 1 }) :=
    .of_entries (Nat.le_of_eq (length_updateRegistry ..).symm)
      (fun _ => gone_updateRegistry fun h0 => by rw [h0]) (entries_updateRegistry fun _ => rfl)
  unfold disownRegistry
  simp only
  generalize b.updateRegistry r (fun reg => { reg with owners := reg.owners - 1 }) = d at hless ⊢
  split
  · exact hless
  · rename_i hgone
    have h0 : (d.registry r).owners = 0 := by simpa [hasRegistry] using hgone
    refine LosesOnly.transits.trans hless (.of_update (sameButToasts_reapAll _).registries Iff.rfl
      fun _ => .inr (.inr h0))

/-- A coordinator that is given up loses nobody whose table is not gone with it. -/
theorem losesOnly_disownCoordinator (c : CoordinatorId) :
    b.LosesOnly may (b.disownCoordinator c) := by
  have hless : b.LosesOnly may (b.updateCoordinator c fun co =>
      { co with owners := co.owners - 1 }) := .of_registries rfl
  unfold disownCoordinator
  simp only
  split
  · exact hless
  · exact LosesOnly.transits.trans (LosesOnly.transits.trans hless (losesOnly_disownRegistry _))
      (.of_registries rfl)

/-- A new registry is nobody's that was there before. -/
theorem losesOnly_setUp (settings : Settings) (host : Host) :
    b.LosesOnly may (b.setUp settings host).2 := by
  have hy : b.KeepsOrVacates false (b.setUp settings host).2 := keepsOrVacates_setUp settings host
  rcases setUp_cases b settings host with ⟨worker, identity, -, he⟩ | ⟨he, -⟩
  · rw [he] at hy ⊢
    exact .of_entries hy.made hy.gone (entries_of_concat rfl)
  · rw [he]
    exact .refl b

/-- A thread that ends loses nobody. -/
theorem losesOnly_closeStation (s : StationId) : b.LosesOnly may (b.closeStation s) :=
  .of_registries ((sameButToasts_reapAll _).registries)

/-- Whatever a worker takes next, nobody is lost by that. -/
theorem losesOnly_advance (s : StationId) : b.LosesOnly may (b.advance s).2 := by
  unfold advance
  split
  · exact .refl b
  · split
    · exact .refl b
    · exact losesOnly_closeStation s
    · exact .of_registries rfl
    · simp only
      split
      · exact .of_registries (sameButToasts_reap _).registries
      · exact .of_registries rfl

/-- Nobody is lost when a listener is told something. -/
theorem losesOnly_notify (h : HandlerId) (topic : Topic) (action : Option String) :
    (notify h topic action b).Within (LosesOnly may) b := by
  rw [notify_eq]
  split
  · exact .refl b
  · exact ⟨.of_registries registries_announce, fun _ b' => .refl b'⟩

/-- Ending a handler takes nobody out. -/
theorem losesOnly_unregister (h : HandlerId) : (unregister h b).Within (LosesOnly may) b := by
  have hretired : b.LosesOnly may (b.retire h) := .of_registries (registries_retire h)
  rw [unregister_eq]
  split
  · exact .refl b
  · split
    · exact (losesOnly_notify h .finished none).after LosesOnly.transits hretired
    · exact hretired

/-- Giving a handler back afterwards loses nobody else. -/
theorem losesOnly_thenLetGo {act : Act α} (ha : (act b).Within (LosesOnly may) since)
    (h : HandlerId) : (Act.thenLetGo h act b).Within (LosesOnly may) since :=
  ha.ensuring LosesOnly.transits fun _ => losesOnly_letGo h

/-- Holding a handler meanwhile loses nobody else. -/
theorem losesOnly_holding {act : Act α} (ha : (act (b.hold h)).Within (LosesOnly may) (b.hold h)) :
    (Act.holding h act b).Within (LosesOnly may) b :=
  (losesOnly_thenLetGo ha h).after LosesOnly.transits (.of_registries rfl)

/-- Whoever is taken out if it is the one under a name is taken out at once. -/
theorem losesOnly_removeIfCurrent (r : RegistryId) (name : String) (h : HandlerId) :
    ∃ start, b.LosesOnly (fun q key x => q = r ∧ key = name ∧ x = h) start ∧
      (removeIfCurrent r name h b).Within (LosesOnly may) start := by
  rw [removeIfCurrent_eq]
  split
  · rename_i hc
    have hcurrent : b.current? r name = some h := by simpa [isCurrent] using hc
    refine ⟨(b.takeEntry r name).2, losesOnly_takeEntry fun hx =>
      ⟨rfl, rfl, Option.some.inj (hx.symm.trans hcurrent)⟩, ?_⟩
    exact losesOnly_result (losesOnly_thenLetGo (losesOnly_unregister h) h)
  · exact ⟨b, .refl b, .refl b⟩

/-- A handler that ends by itself may be lost. -/
theorem losesOnly_removeSelf (hmay : ∀ r name, may r name h) :
    (removeSelf h b).Within (LosesOnly may) b := by
  have hleave : (leaveRegistry h b).Within (LosesOnly may) b := by
    rw [leaveRegistry_eq]
    split
    · exact .refl b
    · split
      · rename_i r _ hr
        obtain ⟨start, hstart, hremove⟩ := losesOnly_removeIfCurrent (b := b.ownRegistry r) r
          (b.handler h).name h
        have hlost : b.LosesOnly may start := LosesOnly.transits.trans (losesOnly_ownRegistry hr)
          (hstart.mono fun ⟨_, _, hx⟩ => hx ▸ hmay _ _)
        exact (hremove.after LosesOnly.transits hlost).ensuring LosesOnly.transits fun _ =>
          losesOnly_disownRegistry r
      · exact .refl b
  rw [removeSelf_eq]
  refine hleave.andThen LosesOnly.transits fun removed b => ?_
  cases removed with
  | true => exact .refl b
  | false => exact losesOnly_unregister h

/-- A handler that hears from the screen may be lost. -/
theorem losesOnly_handleOutcome (hmay : ∀ r name, may r name h) (o : Outcome) :
    (handleOutcome h o b).Within (LosesOnly may) b := by
  have hreport : (report h o b).Within (LosesOnly may) b := by
    rw [report_eq]
    split
    · split
      · exact losesOnly_notify h _ _
      · exact .refl b
    · exact losesOnly_notify h _ _
    · exact .refl b
    · exact .refl b
  rw [handleOutcome_eq]
  split
  · exact hreport.andThen LosesOnly.transits fun _ _ => losesOnly_removeSelf hmay
  · exact .of_registries rfl
  · exact .refl b

/-- Only who hears from the screen may be lost by that. -/
theorem losesOnly_hear (hmay : ∀ r name, may r name h) (o : Outcome) :
    (hear h o b).Within (LosesOnly may) b := by
  rw [hear_eq]
  split
  · exact losesOnly_holding (losesOnly_handleOutcome hmay o)
  · exact .refl b

/-- Only who takes the reports on a name may be lost by one. -/
theorem losesOnly_emit (hmay : ∀ {x}, b.screen.sinkOf? name = some x → ∀ r key, may r key x)
    (o : Outcome) : (emit name o b).Within (LosesOnly may) b := by
  rw [emit_eq]
  cases hs : b.screen.sinkOf? name with
  | none => exact .refl b
  | some h => exact losesOnly_result (losesOnly_hear (hmay hs) o)

/-- A handler whose registration is done may be lost if something was kept for it. -/
theorem losesOnly_complete (hmay : (b.handler h).pending ≠ none → ∀ r name, may r name h)
    (toast : ToastId) : (complete h toast b).Within (LosesOnly may) b := by
  rw [complete_eq]
  split
  · exact .of_registries (sameButToasts_releaseToast _).registries
  · split
    · rename_i hp
      have hself := losesOnly_removeSelf (b := b.refuse h toast)
        (hmay (by rw [hp]; exact Option.some_ne_none _))
      exact hself.after LosesOnly.transits (.of_registries rfl)
    · rw [goLive_eq]
      have hshown : (notify h .shown none (b.live h toast)).Within (LosesOnly may) b :=
        (losesOnly_notify h .shown none).after LosesOnly.transits (.of_registries rfl)
      refine hshown.andThen LosesOnly.transits fun _ b' => ?_
      cases hp : (b.handler h).pending with
      | none => exact .refl b'
      | some o => exact losesOnly_handleOutcome (hmay (by rw [hp]; exact Option.some_ne_none o)) o

/-- A handler whose registration is not refused may be lost if something was kept for it, or comes
early. -/
theorem losesOnly_register (hf : b.screen.faults.register = none)
    (hi : b.phase h = .initializing ∨ b.phase h = .unregistered) (hr : b.refersTo h = true)
    (hmay : (b.handler h).pending ≠ none ∨ b.screen.faults.early ≠ none →
      ∀ r name, may r name h) : (register h b).Within (LosesOnly may) b := by
  have hrecorded : b.LosesOnly may (b.recorded h) := .of_registries rfl
  rw [register_recorded hf]
  cases he : b.screen.faults.early with
  | none =>
    have hdone := losesOnly_complete (b := b.recorded h) (fun hp => hmay (.inl hp))
      (b.screen.record h (b.handler h).fields).1
    exact hdone.after LosesOnly.transits hrecorded
  | some o =>
    have hlost := hmay (.inr (by rw [he]; exact Option.some_ne_none o))
    have hl : (b.recorded h).phase h ≠ .live := by
      change b.phase h ≠ .live
      rcases hi with hi | hi <;> rw [hi] <;> exact Phase.noConfusion
    simp only
    rw [hear_of_not_live (b := b.recorded h) hr hl]
    refine (losesOnly_complete (fun _ => hlost) _).after LosesOnly.transits ?_
    split
    · exact LosesOnly.transits.trans hrecorded (.of_registries rfl)
    · exact hrecorded

/-- A handler whose registration is refused may be lost, and nobody is told of that. -/
theorem losesOnly_refused {reason : String} (hf : b.screen.faults.register = some reason)
    (hmay : ∀ r name, may r name h) :
    ∃ d, register h b = .ended (some ()) d ∧ b.LosesOnly may d := by
  have hsilent : ∀ c : Board, ∃ d, reject h c = .ended (some ()) d ∧ c.LosesOnly may d := by
    intro c
    rw [reject_eq]
    split
    · exact ⟨c, rfl, .refl c⟩
    · rename_i hu
      have hfailed : (c.setPhase h .initFailed).phase h = .initFailed :=
        phase_setPhase (lt_of_phase_ne hu) _
      obtain ⟨d, hd, -⟩ := removeSelf_failed hfailed
      have hself : (removeSelf h (c.setPhase h .initFailed)).Within (LosesOnly may)
          (c.setPhase h .initFailed) := losesOnly_removeSelf hmay
      rw [hd] at hself
      exact ⟨d, hd, LosesOnly.transits.trans (b := c.setPhase h .initFailed) (.of_registries rfl)
        hself⟩
  rw [register_refused hf]
  obtain ⟨d, hd, hlost⟩ := hsilent { b with
    screen := { b.screen with faults := { b.screen.faults with register := none } } }
  have hsame : b.LosesOnly may { b with
      screen := { b.screen with faults := { b.screen.faults with register := none } } } :=
    .of_registries rfl
  exact ⟨d, hd, LosesOnly.transits.trans hsame hlost⟩

/-- A registration that is under way at a station and is going to be refused. -/
structure Refuses (b : Board) (s : StationId) (h : HandlerId) : Prop where
  /-- The worker stands inside an attempt that goes on. -/
  inside : ∃ attempt, b.inside? s = some attempt ∧ attempt.handler = h ∧ attempt.fate = .proceeds
  /-- The screen is going to refuse. -/
  refusal : b.screen.faults.register ≠ none

/-- A worker that concludes an attempt may take out its handler: at once, if the registration is
refused, and otherwise if something was kept for it, or comes early. -/
theorem losesOnly_conclude {attempt : Attempt} {now : Prop}
    (hi : b.phase attempt.handler = .initializing ∨ b.phase attempt.handler = .unregistered)
    (hheld : attempt.handler ∈ b.held)
    (hnow : attempt.fate = .proceeds → b.screen.faults.register ≠ none → now)
    (hlater : attempt.fate = .proceeds → b.screen.faults.register = none →
      (b.handler attempt.handler).pending ≠ none ∨ b.screen.faults.early ≠ none →
        ∀ r name, may r name attempt.handler) :
    ∃ start, b.LosesOnly (fun r name x => may r name x ∨ x = attempt.handler ∧ now) start ∧
      (conclude s attempt b).Within (LosesOnly may) start := by
  have hleft : ∀ {may}, b.LosesOnly may
      (b.updateStation s fun st => { st with inside := none }) := .of_registries rfl
  rw [conclude_eq]
  cases hfate : attempt.fate with
  | panics => exact ⟨b, .refl b, hleft⟩
  | crashes => exact ⟨b, .refl b, LosesOnly.transits.trans hleft (losesOnly_closeStation s)⟩
  | proceeds =>
    cases hf : b.screen.faults.register with
    | none =>
      exact ⟨b, .refl b, Within.after LosesOnly.transits (Within.caught (losesOnly_register hf hi
        (refersTo_of_held hheld) (hlater hfate hf))) hleft⟩
    | some reason =>
      -- there is no later turn
      have hlost := hnow hfate (by rw [hf]; exact Option.some_ne_none reason)
      have hrefused : ∃ d, register attempt.handler
            (b.updateStation s fun st => { st with inside := none }) = .ended (some ()) d ∧
          (b.updateStation s fun st => { st with inside := none }).LosesOnly
            (fun r name x => may r name x ∨ x = attempt.handler ∧ now) d :=
        losesOnly_refused hf fun _ _ => .inr ⟨rfl, hlost⟩
      obtain ⟨d, hd, hloses⟩ := hrefused
      refine ⟨d, LosesOnly.transits.trans hleft hloses, ?_⟩
      change (Talk.caught (register attempt.handler _)).Within _ d
      rw [hd]
      exact .refl d

/-- A worker that finishes an attempt may take out its handler: at once, if the registration is
refused, and otherwise if the screen has reported something about it. -/
theorem losesOnly_finish (s : StationId) (hj : b.Jobs)
    (hkept : ∀ {h o}, (b.handler h).pending = some o → (h, o) ∈ reported)
    (hearly : ∀ x ∈ (Deed.finish s).reports b, x ∈ reported) :
    ∃ start, b.LosesOnly (fun _ _ x => (∃ o, (x, o) ∈ reported) ∨ b.Refuses s x) start ∧
      (finish s b).Within (LosesOnly fun _ _ x => ∃ o, (x, o) ∈ reported) start := by
  rw [finish_eq]
  cases hin : b.inside? s with
  | none => exact ⟨b, .refl b, .refl b⟩
  | some attempt =>
    have hlater : attempt.fate = .proceeds → b.screen.faults.register = none →
        (b.handler attempt.handler).pending ≠ none ∨ b.screen.faults.early ≠ none →
          ∃ o, (attempt.handler, o) ∈ reported := by
      intro hfate hf hwhy
      obtain ⟨x, count, fate⟩ := attempt
      obtain rfl : fate = .proceeds := hfate
      rcases hwhy with hp | he
      · obtain ⟨o, ho⟩ := Option.ne_none_iff_exists'.mp hp
        exact ⟨o, hkept ho⟩
      · obtain ⟨o, ho⟩ := Option.ne_none_iff_exists'.mp he
        refine ⟨o, hearly _ ?_⟩
        simp only [Deed.reports, hin, hf, List.mem_map]
        exact ⟨o, Option.mem_toList.mpr ho, rfl⟩
    have hconcluded : ∃ start, (b.hold attempt.handler).LosesOnly (fun _ _ x =>
          (∃ o, (x, o) ∈ reported) ∨ x = attempt.handler ∧ b.Refuses s attempt.handler) start ∧
        (conclude s attempt (b.hold attempt.handler)).Within
          (LosesOnly fun _ _ x => ∃ o, (x, o) ∈ reported) start :=
      losesOnly_conclude (hj.waiting (.inr ⟨s, attempt, hin, rfl⟩)) List.mem_cons_self
        (fun hfate hf => ⟨⟨attempt, hin, rfl, hfate⟩, hf⟩) fun hfate hf hwhy _ _ =>
          hlater hfate hf hwhy
    obtain ⟨start, hstart, hconclude⟩ := hconcluded
    have hrefused : (b.hold attempt.handler).LosesOnly
        (fun _ _ x => (∃ o, (x, o) ∈ reported) ∨ b.Refuses s x) start := by
      refine hstart.mono ?_
      rintro _ _ x (ho | ⟨rfl, hr⟩)
      · exact .inl ho
      · exact .inr hr
    refine ⟨start, LosesOnly.transits.trans (b := b.hold attempt.handler) (.of_registries rfl)
      hrefused, ?_⟩
    exact losesOnly_result (hconclude.ensuring LosesOnly.transits fun _ => losesOnly_letGo _)

/-- What is done in the name of a coordinator. -/
theorem losesOnly_withCoordinator {act : Coordinator → Act α} {c : CoordinatorId}
    (ha : (act (b.coordinator c) (b.ownCoordinator c)).Within (LosesOnly may) start) :
    (withCoordinator c act b).Within (LosesOnly may) start :=
  ha.ensuring LosesOnly.transits fun _ => losesOnly_disownCoordinator c

/-- Whoever is taken out for an alert to be closed is taken out at once. -/
theorem losesOnly_closeAlert (c : CoordinatorId) (name : String) :
    ∃ start, b.LosesOnly (fun r key _ => r = (b.coordinator c).registry ∧ key = name) start ∧
      (closeAlert c name b).Within (LosesOnly may) start := by
  refine ⟨((b.ownCoordinator c).takeEntry (b.coordinator c).registry name).2,
    LosesOnly.transits.trans (b := b.ownCoordinator c) (.of_registries rfl)
      (losesOnly_takeEntry fun _ => ⟨rfl, rfl⟩), ?_⟩
  rw [closeAlert_eq]
  refine losesOnly_withCoordinator ?_
  unfold takeDown
  split
  · exact .refl _
  · exact losesOnly_thenLetGo (losesOnly_unregister _) _

/-- Whoever is removed by hand is taken out at once. -/
theorem losesOnly_removeHandler (c : CoordinatorId) (name : String) (h : HandlerId) :
    ∃ start, b.LosesOnly (fun r key x => r = (b.coordinator c).registry ∧ key = name ∧ x = h)
        start ∧ (Act.holding h (removeHandler c name h) b).Within (LosesOnly may) start := by
  obtain ⟨start, hstart, hremove⟩ := losesOnly_removeIfCurrent
    (b := (b.hold h).ownCoordinator c) (b.coordinator c).registry name h
  refine ⟨start, LosesOnly.transits.trans (b := (b.hold h).ownCoordinator c) (.of_registries rfl)
    hstart, ?_⟩
  exact losesOnly_thenLetGo (b := b.hold h) (losesOnly_withCoordinator hremove) h

/-- Ending whoever was displaced loses nobody else. -/
theorem losesOnly_supersede (old : Option HandlerId) :
    (supersede old b).Within (LosesOnly may) b := by
  cases old with
  | none => exact .refl b
  | some p => exact losesOnly_thenLetGo (losesOnly_unregister p) p

/-- A handler that is presented takes nobody out once the listener of the older one is told. -/
theorem losesOnly_present (hp : b.phase h = .created) (co : Coordinator) :
    ∃ start, (present co h b).Within (LosesOnly may) start := by
  rcases present_cases hp co with ⟨he, -, -⟩ | ⟨e, he, -⟩
  · rw [he]
    exact ⟨b.submitted co h, losesOnly_result (losesOnly_supersede _)⟩
  · rw [he]
    generalize b.takenBack co h = d
    exact ⟨d, losesOnly_result (losesOnly_unregister h)⟩

/-- Nor does an alert that is shown. -/
theorem losesOnly_showAlert (c : CoordinatorId) (source : Source) (listener : Option ListenerId) :
    ∃ start, (showAlert c source listener b).Within (LosesOnly may) start := by
  rcases showAlert_cases b c source listener with ⟨result, he⟩ | ⟨fields, -, he⟩
  · rw [he]
    exact ⟨b.ownCoordinator c, losesOnly_disownCoordinator c⟩
  · have hpresented : ∃ start, (present (b.coordinator c) b.handlers.length
        (b.drafted c fields listener)).Within (LosesOnly may) start :=
      losesOnly_present phase_drafted (b.coordinator c)
    obtain ⟨start, hpresent⟩ := hpresented
    have hkept := hpresent.ensuring LosesOnly.transits fun _ => losesOnly_letGo b.handlers.length
    rw [he]
    exact ⟨start, (losesOnly_result hkept).ensuring LosesOnly.transits fun _ =>
      losesOnly_disownCoordinator c⟩

/-- Handlers that are ended one after the other are not taken out for that. -/
theorem losesOnly_unregisterAll (hs : List HandlerId) :
    (Action.forEach hs unregister b).Within (LosesOnly may) b := by
  induction hs generalizing b with
  | nil => exact .refl b
  | cons x hs ih => exact (losesOnly_unregister x).andThen LosesOnly.transits fun _ _ => ih

/-- Anybody may be lost when the signal fires. -/
theorem losesOnly_fire (hmay : ∀ {r name x}, may r name x) (visit : Visit) :
    (fire visit b).Within (LosesOnly may) b := by
  have hdrain : ∀ r b, (drain visit r b).Within (LosesOnly may) b := fun r b => by
    have hends : (Action.forEach (visit r (b.takeAll r).1) unregister (b.takeAll r).2).Within
        (LosesOnly may) (b.takeAll r).2 := losesOnly_unregisterAll _
    refine Within.after LosesOnly.transits (hends.ensuring LosesOnly.transits fun c => ?_)
      (losesOnly_takeAll hmay)
    exact .of_registries (registries_letGoAll _)
  have hshut : ∀ c b, (shutDown visit c b).Within (LosesOnly may) b := fun c b => by
    change ((if b.hasCoordinator c = true then
      withCoordinator c fun co => drain visit co.registry else pure ()) b).Within _ _
    split
    · exact Within.after LosesOnly.transits (losesOnly_withCoordinator (hdrain _ _))
        (.of_registries rfl)
    · exact .refl b
  have hall : ∀ cs b, (Action.forEach cs (shutDown visit) b).Within (LosesOnly may) b := by
    intro cs
    induction cs with
    | nil => exact fun b => .refl b
    | cons c cs ih => exact fun b => (hshut c b).andThen LosesOnly.transits fun _ => ih
  rw [fire_eq]
  exact losesOnly_result (f := fun _ => b.signal.fire.1.length)
    ((hall _ b.fired).after LosesOnly.transits (.of_registries rfl))

end Board

namespace Deed

/-- Whether a deed lets handlers hear from the screen. -/
def conveys : Deed → Bool
  | .emit .. | .deliver .. | .finish _ => true
  | _ => false

/-- Whom a deed may take out from under a name whenever it goes on. -/
def Drops (reported : List (HandlerId × Outcome)) (d : Deed) (x : HandlerId) : Prop :=
  d.fires = true ∨ d.conveys = true ∧ ∃ o, (x, o) ∈ reported

/-- Whom a deed may take out besides, before it stops first. -/
inductive DropsAtOnce (b : Board) (r : RegistryId) (name : String) (x : HandlerId) : Deed → Prop
  /-- Its alert is closed. -/
  | closed {c : CoordinatorId} (hr : r = (b.coordinator c).registry) :
    DropsAtOnce b r name x (.closeAlert c name)
  /-- It is removed by hand. -/
  | removed {c : CoordinatorId} (hr : r = (b.coordinator c).registry) :
    DropsAtOnce b r name x (.removeHandler c name x)
  /-- Its registration is refused. -/
  | refused {s : StationId} (hs : b.Refuses s x) : DropsAtOnce b r name x (.finish s)

/-- Names lose nobody else in a deed that is left to coordinators. Alerts that are shown put
somebody else under a name before they stop first. -/
theorem losesOnly {d : Deed} {w : World} (hj : w.board.Jobs)
    (hkept : ∀ {h o}, (w.board.handler h).pending = some o → (h, o) ∈ w.reported)
    (hd : (Event.deed d).Orderly) : ∃ start,
      (d.act w.board).Within (LosesOnly fun _ _ x => d.Drops (d.start w).reported x) start ∧
      (d.shows = false → w.board.LosesOnly (fun r name x =>
        d.Drops (d.start w).reported x ∨ d.DropsAtOnce w.board r name x) start) := by
  have hcalm : ∀ d' : Board, d.act w.board = .ended (some ()) d' →
      (∀ {may}, w.board.LosesOnly may d') → ∃ start,
        (d.act w.board).Within (LosesOnly fun _ _ x => d.Drops (d.start w).reported x) start ∧
        (d.shows = false → w.board.LosesOnly (fun r name x =>
          d.Drops (d.start w).reported x ∨ d.DropsAtOnce w.board r name x) start) :=
    fun d' he hl => ⟨w.board, he ▸ hl, fun _ => .refl _⟩
  have hsame := fun d' he (hr : d'.registries = w.board.registries) =>
    hcalm d' he (LosesOnly.of_registries hr)
  cases d with
  | openStation refusal name =>
    have he := Deed.act_openStation refusal name w.board
    split at he
    · exact hsame _ he rfl
    · exact hsame _ he rfl
  | mark s =>
    refine hsame _ rfl ?_
    dsimp only
    split <;> rfl
  | stop s => exact hsame _ rfl rfl
  | setUp settings host => exact hcalm _ rfl (losesOnly_setUp settings host)
  | shareCoordinator c => exact hsame _ rfl rfl
  | dropCoordinator c => exact hcalm _ rfl (losesOnly_disownCoordinator c)
  | share h => exact hsame _ rfl rfl
  | letGo h => exact hcalm _ rfl (losesOnly_letGo h)
  | grab c name =>
    refine hsame _ rfl ?_
    dsimp only
    rw [lookUp_eq]
  | suppress c suppressed => exact hsame _ rfl rfl
  | arm faults => exact hsame _ rfl rfl
  | advance s => exact hcalm _ rfl (losesOnly_advance s)
  | showAlert c source listener =>
    obtain ⟨start, hshow⟩ := losesOnly_showAlert (b := w.board) c source listener
    exact ⟨start, losesOnly_result hshow, nofun⟩
  | closeAlert c name =>
    obtain ⟨start, hstart, hclose⟩ := losesOnly_closeAlert (b := w.board) c name
    exact ⟨start, hclose, fun _ => hstart.mono fun ⟨hr, hn⟩ => .inr (hn ▸ .closed hr)⟩
  | removeHandler c name h =>
    obtain ⟨start, hstart, hremove⟩ := losesOnly_removeHandler (b := w.board) c name h
    exact ⟨start, losesOnly_result hremove,
      fun _ => hstart.mono fun ⟨hr, hn, hx⟩ => .inr (hn ▸ hx ▸ .removed hr)⟩
  | fire visit =>
    exact ⟨w.board, losesOnly_result (losesOnly_fire (.inl rfl) visit), fun _ => .refl _⟩
  | emit name outcome =>
    refine ⟨w.board, losesOnly_result (losesOnly_emit (fun {x} hx _ _ => ?_) outcome),
      fun _ => .refl _⟩
    refine .inr ⟨rfl, outcome, List.mem_append_right _ ?_⟩
    exact List.mem_map.mpr ⟨x, Option.mem_toList.mpr hx, rfl⟩
  | deliver n outcome =>
    refine ⟨w.board, ?_, fun _ => .refl _⟩
    rw [Deed.act_deliver]
    cases ha : w.board.screen.attempts[n]? with
    | none => exact .refl _
    | some attempt =>
      refine losesOnly_hear (fun _ _ => .inr ⟨rfl, outcome, List.mem_append_right _ ?_⟩) outcome
      exact List.mem_map.mpr ⟨attempt, Option.mem_toList.mpr ha, rfl⟩
  | finish s =>
    have hheard : ∀ {h o}, (w.board.handler h).pending = some o →
        (h, o) ∈ (Deed.start w (.finish s)).reported := fun hp => List.mem_append_left _ (hkept hp)
    obtain ⟨start, hstart, hfinish⟩ :=
      losesOnly_finish s hj hheard fun x hx => List.mem_append_right _ hx
    refine ⟨start, losesOnly_result (hfinish.mono fun _ _ hl => hl.mono fun ho => .inr ⟨rfl, ho⟩),
      fun _ => hstart.mono fun hwhy => hwhy.imp (fun ho => .inr ⟨rfl, ho⟩) .refused⟩
  | _ => simp [Coordinated] at hd

/-- Whoever a deed may drop it may drop when more was reported. -/
theorem Drops.mono {d : Deed} {x : HandlerId} (hx : d.Drops reported x)
    (hr : ∀ y ∈ reported, y ∈ reported') : d.Drops reported' x :=
  hx.imp_right fun ⟨hd, o, ho⟩ => ⟨hd, o, hr _ ho⟩

end Deed

namespace Moment

variable {m : Moment} {e : Event}

/-- No deed that waits is going to take anybody out but whom it may. -/
def Spares (m : Moment) : Prop :=
  ∀ x ∈ m.waiting, ∀ returned b', (x.resume returned b').Within
    (LosesOnly fun _ _ y => x.deed.Drops m.world.reported y) b'

/-- A handler is taken out from under a name in an event, and nobody is put there. -/
inductive TakesOut (m : Moment) (e : Event) (r : RegistryId) (name : String) (x : HandlerId) : Prop
  /-- Its alert is closed. -/
  | closed {c : CoordinatorId} (he : e = .deed (.closeAlert c name))
      (hr : r = (m.world.board.coordinator c).registry)
  /-- It is removed by hand. -/
  | removed {c : CoordinatorId} (he : e = .deed (.removeHandler c name x))
      (hr : r = (m.world.board.coordinator c).registry)
  /-- The signal fires. -/
  | fired {visit : Visit} (ha : m.acting e = some (.fire visit))
  /-- Handlers hear from the screen, which has reported something about it. -/
  | reported {d : Deed} {o : Outcome} (ha : m.acting e = some d) (hd : d.conveys = true)
      (ho : (x, o) ∈ (m.after e).world.reported)
  /-- A worker finishes its registration, which is refused. -/
  | refused {s : StationId} (he : e = .deed (.finish s)) (hs : m.world.board.Refuses s x)

/-- Nothing is reported while a computation goes on. -/
theorem reported_settle (w : World) (d : Deed) (waiting : List Waiting)
    (t : Talk Board Telling Unit) : (settle w d waiting t).world.reported = w.reported := by
  cases t <;> rfl

/-- Whoever the deed that goes on may drop is taken out for a reason. -/
theorem takesOut_of_drops {d : Deed} {x : HandlerId} (ha : m.acting e = some d)
    (hx : d.Drops (m.after e).world.reported x) : m.TakesOut e r name x := by
  rcases hx with hf | ⟨hd, o, ho⟩
  · obtain ⟨visit, rfl⟩ := Deed.fires_iff.mp hf
    exact .fired ha
  · exact .reported ha hd ho

/-- Whoever a deed drops at once is taken out for a reason. -/
theorem takesOut_of_dropsAtOnce {d : Deed} {x : HandlerId}
    (hx : d.DropsAtOnce m.world.board r name x) : m.TakesOut (.deed d) r name x := by
  cases hx with
  | closed hr => exact .closed rfl hr
  | removed hr => exact .removed rfl hr
  | refused hs => exact .refused rfl hs

/-- In an event that is left to coordinators, and shows no alert from its beginning, names lose
nobody but who is taken out. -/
theorem Spares.losesOnly (hm : m.Spares) (hj : m.world.board.Jobs)
    (hkept : ∀ {h o}, (m.world.board.handler h).pending = some o → (h, o) ∈ m.world.reported)
    (he : e.Orderly) (hshow : ∀ d, e = .deed d → d.shows = false) :
    m.world.board.LosesOnly (m.TakesOut e) (m.after e).world.board := by
  obtain ⟨w, waiting⟩ := m
  cases e with
  | deed d =>
    obtain ⟨start, hact, hstart⟩ := Deed.losesOnly hj hkept he
    have hlater : start.LosesOnly (fun r name x => d.Drops (d.start w).reported x ∨
        d.DropsAtOnce w.board r name x) (d.act w.board).stop := hact.stop.mono .inl
    have hall := LosesOnly.transits.trans (hstart (hshow d rfl)) hlater
    rw [board_after]
    refine hall.mono fun hx => hx.elim (fun hd => takesOut_of_drops rfl ?_) takesOut_of_dropsAtOnce
    exact (reported_settle (d.start w) d waiting (d.act w.board)).symm ▸ hd
  | reply returned =>
    cases waiting with
    | nil => exact .refl _
    | cons x rest =>
      have hreply := (hm x List.mem_cons_self returned w.board).stop
      rw [board_after]
      refine hreply.mono fun hd => takesOut_of_drops rfl ?_
      exact (reported_settle w x.deed rest (x.resume returned w.board)).symm ▸ hd

/-- What is spared in each turn is spared when those who are told go on. -/
theorem spares_settle {w : World} {d : Deed} {waiting : List Waiting}
    {t : Talk Board Telling Unit}
    (hw : ∀ x ∈ waiting, ∀ returned b', (x.resume returned b').Within
      (LosesOnly fun _ _ y => x.deed.Drops w.reported y) b')
    (ht : t.Within (LosesOnly fun _ _ y => d.Drops w.reported y) start) :
    (settle w d waiting t).Spares := by
  cases t with
  | ended a b => exact hw
  | told m b resume =>
    intro x hx
    rcases List.mem_cons.mp hx with rfl | hx
    · exact ht.2
    · exact hw x hx

/-- Whoever waits after an event spares the same. -/
theorem Spares.after (hm : m.Spares) (hj : m.world.board.Jobs)
    (hkept : ∀ {h o}, (m.world.board.handler h).pending = some o → (h, o) ∈ m.world.reported)
    (he : e.Orderly) : (m.after e).Spares := by
  obtain ⟨w, waiting⟩ := m
  cases e with
  | deed d =>
    obtain ⟨start, hact, -⟩ := Deed.losesOnly hj hkept he
    refine spares_settle (fun x hx returned b' => ?_) hact
    exact (hm x hx returned b').mono fun _ _ hl => hl.mono fun hd =>
      hd.mono fun y hy => List.mem_append_left _ hy
  | reply returned =>
    cases waiting with
    | nil => exact hm
    | cons x rest =>
      exact spares_settle (fun y hy => hm y (List.mem_cons_of_mem x hy))
        (hm x List.mem_cons_self returned w.board)

end Moment

end ToastBoard
