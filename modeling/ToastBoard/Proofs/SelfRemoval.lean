import ToastBoard.Proofs.Tidings

/-!
# Handlers that end by themselves

A handler ends by itself when the screen reports about its toast, when its registration is refused,
and when the screen has reported a failure before the registration was done. It then takes the entry
of its name out of its registry if that exists and the entry is its own, and touches no other one:
an entry that is somebody else's stays, whatever alert that one shows. All this holds of any board,
whether or not a course leads to it.
-/

namespace ToastBoard

open Board

variable {a b c d : Board} {h x : HandlerId} {r : RegistryId} {s : StationId} {o : Outcome}

namespace Board

/-- Whether a handler is the very one under its own name in a registry that it leads to and that
exists. -/
def Seated (b : Board) (r : RegistryId) (h : HandlerId) : Prop :=
  (b.handler h).registry = some r ∧ b.hasRegistry r = true ∧
    b.isCurrent r (b.handler h).name h = true

instance : Decidable (b.Seated r h) := inferInstanceAs (Decidable (_ ∧ _ ∧ _))

/-- Whether a handler is seated is told by it and by the tables. -/
theorem seated_congr (hname : (b.handler h).name = (a.handler h).name)
    (hregistry : (b.handler h).registry = (a.handler h).registry)
    (htable : b.registry r = a.registry r) : b.Seated r h ↔ a.Seated r h := by
  rw [Seated, Seated, hregistry, hasRegistry, hasRegistry, isCurrent, isCurrent, current?, current?,
    htable, hname]

/-- A handler that is not seated has nothing to take out. -/
theorem leaveRegistry_unseated (hs : ∀ r, ¬b.Seated r h) :
    leaveRegistry h b = .ended (some false) b := by
  rw [leaveRegistry_eq]
  cases hreg : (b.handler h).registry with
  | none => rfl
  | some r =>
    simp only
    split
    · rename_i hr
      have hown : 0 < (b.registry r).owners := by simpa [hasRegistry] using hr
      have hno : ¬b.isCurrent r (b.handler h).name h = true := fun hc => hs r ⟨hreg, hr, hc⟩
      rw [removeIfCurrent_eq, isCurrent_ownRegistry, if_neg hno, Talk.ensuring,
        disownRegistry_ownRegistry hown]
    · rfl

/-- At most one handler has changed. The entry of its name was taken out of each registry in which
it was seated, if it has ended, and there is no other change in any registry. -/
structure Resigns (h : HandlerId) (b b' : Board) : Prop where
  /-- The others are as before. -/
  others : ∀ x ≠ h, b'.handler x = b.handler x
  /-- The handler shows the same alert. -/
  fields : (b'.handler h).fields = (b.handler h).fields
  /-- It leads to the same registry. -/
  home : (b'.handler h).registry = (b.handler h).registry
  /-- It stays over if it was. -/
  final : b.phase h = .unregistered → b'.phase h = .unregistered
  /-- What has become of the registries. -/
  table : ∀ r, b'.registry r =
    if b.Seated r h ∧ b.phase h ≠ .unregistered ∧ b'.phase h = .unregistered then
      (b.registry r).erase (b.handler h).name
    else b.registry r

namespace Resigns

/-- A change that ends nobody and leaves registries alone. -/
theorem of_registries (hr : b.registries = a.registries)
    (hothers : ∀ x ≠ h, b.handler x = a.handler x)
    (hfields : (b.handler h).fields = (a.handler h).fields)
    (hhome : (b.handler h).registry = (a.handler h).registry)
    (hphase : b.phase h = .unregistered ↔ a.phase h = .unregistered) : a.Resigns h b where
  others := hothers
  fields := hfields
  home := hhome
  final := hphase.mpr
  table r := by
    rw [if_neg fun hc => hc.2.1 (hphase.mp hc.2.2)]
    exact registry_of_registries hr r

/-- A change that concerns neither handlers nor registries. -/
theorem of_handlers (hh : b.handlers = a.handlers) (hr : b.registries = a.registries) :
    a.Resigns h b := by
  have hsame : ∀ x, b.handler x = a.handler x := fun x => by rw [handler, hh, handler]
  exact .of_registries hr (fun x _ => hsame x) (by rw [hsame]) (by rw [hsame])
    (by rw [phase, hsame, phase])

theorem refl (b : Board) : b.Resigns h b := .of_handlers rfl rfl

theorem trans (hab : a.Resigns h b) (hbc : b.Resigns h c) : a.Resigns h c where
  others x hx := (hbc.others x hx).trans (hab.others x hx)
  fields := hbc.fields.trans hab.fields
  home := hbc.home.trans hab.home
  final hp := hbc.final (hab.final hp)
  table r := by
    by_cases hb : b.phase h = .unregistered
    · -- it had ended before, so nothing more is taken out
      rw [hbc.table, if_neg fun hc => hc.2.1 hb, hab.table]
      simp only [hb, hbc.final hb]
    · have hsame : ∀ r, b.registry r = a.registry r := fun r => by
        rw [hab.table, if_neg fun hc => hb hc.2.2]
      have hname : (b.handler h).name = (a.handler h).name := by
        rw [Handler.name, hab.fields, Handler.name]
      have ha : a.phase h ≠ .unregistered := fun ha => hb (hab.final ha)
      rw [hbc.table]
      simp only [seated_congr hname hab.home (hsame r), hsame r, hname, hb, ha, ne_eq,
        not_false_eq_true, true_and]

/-- A handler changes without ending. -/
theorem update {f : Handler → Handler} (hf : (f (b.handler h)).fields = (b.handler h).fields)
    (hr : (f (b.handler h)).registry = (b.handler h).registry)
    (hp : (f (b.handler h)).phase = .unregistered ↔ b.phase h = .unregistered) :
    b.Resigns h (b.update h f) := by
  have hself : (b.update h f).handler h = f (b.handler h) ∨
      (b.update h f).handler h = b.handler h := by
    rw [handler_update]
    split
    · exact .inl rfl
    · exact .inr rfl
  refine .of_registries rfl (fun x hx => ?_) ?_ ?_ ?_
  · rw [handler_update_of_ne hx]
  · rcases hself with he | he <;> rw [he]
    exact hf
  · rcases hself with he | he <;> rw [he]
    exact hr
  · rw [phase]
    rcases hself with he | he <;> rw [he]
    · exact hp
    · exact Iff.rfl

theorem releaseToast (toast : Option ToastId) : b.Resigns h (b.releaseToast toast) :=
  .of_handlers (by cases toast <;> rfl) (sameButToasts_releaseToast toast).registries

/-- A hold on a handler is given back. -/
theorem letGo : b.Resigns h (b.letGo h) := by
  have hreap : ∀ d : Board, d.Resigns h (d.reap h) := by
    intro d
    unfold reap
    split
    · exact .refl d
    · exact (Resigns.update (f := fun hd => { hd with registration := none }) rfl rfl .rfl).trans
        (.releaseToast _)
  have hgone : b.Resigns h { b with held := b.held.erase h } := .of_handlers rfl rfl
  exact hgone.trans (hreap _)

end Resigns

/-- A handler that is not seated ends, and nothing is taken out. -/
theorem resigns_dismissed (hp : b.phase h ≠ .unregistered) (hs : ∀ r, ¬b.Seated r h) :
    b.Resigns h (b.dismissed h) := by
  obtain ⟨honward, hregistries, hphase⟩ := dismissed_quiet b h
  have hlt := lt_of_phase_ne hp
  refine ⟨fun x hx => handler_dismissed hx, honward.fields h hlt, honward.registry h hlt,
    fun hu => absurd hu hp, fun r => ?_⟩
  rw [if_neg fun hc => hs r hc.1]
  exact registry_of_registries hregistries r

/-- Leaving a registry concerns neither other handlers nor other registries. -/
theorem departed_others (hr : 0 < (b.registry r).owners) (h : HandlerId) :
    (∀ x ≠ h, (b.departed r h).handler x = b.handler x) ∧
      ∀ q ≠ r, (b.departed r h).registry q = b.registry q := by
  have hhandler : ∀ x, ((b.ownRegistry r).takeEntry r (b.handler h).name).2.handler x =
      b.handler x := fun x => by rw [takeEntry_eq]; rfl
  have htable : ∀ q ≠ r, ((b.ownRegistry r).takeEntry r (b.handler h).name).2.registry q =
      b.registry q := fun q hq => by
    rw [takeEntry_eq, registry_updateRegistry, if_neg fun hc => hq hc.1]
    exact (registry_updateRegistry ..).trans (if_neg fun hc => hq hc.1)
  have hleaving := registry_departing hr h
  rw [departed_eq hr]
  generalize ((b.ownRegistry r).takeEntry r (b.handler h).name).2 = k at *
  have hpos : 0 < (((k.dismissed h).letGo h).registry r).owners := by
    rw [hleaving]
    exact Nat.succ_pos _
  constructor
  · intro x hx
    have hgone : ((k.dismissed h).letGo h).handler x = (k.dismissed h).handler x :=
      Resigns.letGo.others x hx
    exact hgone.trans ((handler_dismissed hx).trans (hhandler x))
  · intro q hq
    rw [registry_disowned hpos, if_neg hq, ← htable q hq]
    exact registry_of_registries
      ((sameButToasts_letGo h).registries.trans (dismissed_quiet k h).2.1) q

/-- A handler that leaves the registry in which it is seated. -/
theorem resigns_departed (hp : b.phase h ≠ .unregistered) (hs : b.Seated r h) :
    b.Resigns h (b.departed r h) := by
  obtain ⟨hhome, hhas, hcurrent⟩ := hs
  have hr : 0 < (b.registry r).owners := by simpa [hasRegistry] using hhas
  obtain ⟨honward, htable, hphase⟩ := departed_quiet hr h
  obtain ⟨hothers, htables⟩ := departed_others hr h
  have hlt := lt_of_phase_ne hp
  have hover : (b.departed r h).phase h = .unregistered := by rw [hphase, if_pos rfl]
  refine ⟨hothers, honward.fields h hlt, honward.registry h hlt, fun hu => absurd hu hp,
    fun q => ?_⟩
  by_cases hq : q = r
  · subst hq
    rw [htable, if_pos ⟨⟨hhome, hhas, hcurrent⟩, hp, hover⟩]
  · rw [if_neg fun hc => hq (Option.some.inj (hc.1.1.symm.trans hhome))]
    exact htables q hq

end Board

/-- While listeners only return, a computation returns, at most one handler ends by itself, and
something holds of what is left. -/
def Talk.Resigns (t : Talk Board Telling Unit) (h : HandlerId) (b : Board) (P : Board → Prop) :
    Prop :=
  ∃ b', t.quietly = (some (), b') ∧ b.Resigns h b' ∧ P b'

namespace Talk.Resigns

variable {t : Talk Board Telling Unit} {next : Unit → Board → Talk Board Telling Unit}
  {P Q : Board → Prop}

theorem ended (hd : b.Resigns h d) (hp : P d) :
    (Talk.ended (some ()) d : Talk Board Telling Unit).Resigns h b P := ⟨d, rfl, hd, hp⟩

theorem mono (ht : t.Resigns h b P) (hPQ : ∀ d, P d → Q d) : t.Resigns h b Q := by
  obtain ⟨d, ht, hd, hp⟩ := ht
  exact ⟨d, ht, hd, hPQ d hp⟩

/-- What comes before may have ended the same handler. -/
theorem since (hab : a.Resigns h b) (ht : t.Resigns h b P) : t.Resigns h a P := by
  obtain ⟨d, ht, hd, hp⟩ := ht
  exact ⟨d, ht, hab.trans hd, hp⟩

theorem andThen (ht : t.Resigns h b P) (hn : ∀ d, P d → (next () d).Resigns h d Q) :
    (t.andThen next).Resigns h b Q := by
  obtain ⟨d, ht, hd, hp⟩ := ht
  obtain ⟨e, he, hde, hq⟩ := hn d hp
  refine ⟨e, ?_, hd.trans hde, hq⟩
  rw [Talk.quietly_andThen, ht]
  exact he

theorem ensuring {f : Board → Board} (ht : t.Resigns h b P)
    (hf : ∀ d, P d → d.Resigns h (f d) ∧ Q (f d)) : (t.ensuring f).Resigns h b Q := by
  obtain ⟨d, ht, hd, hp⟩ := ht
  obtain ⟨hde, hq⟩ := hf d hp
  refine ⟨f d, ?_, hd.trans hde, hq⟩
  rw [Talk.quietly_ensuring, ht]

theorem caught (ht : t.Resigns h b P) : t.caught.Resigns h b P := by
  obtain ⟨d, ht, hd, hp⟩ := ht
  exact ⟨d, by rw [Talk.quietly_caught, ht], hd, hp⟩

end Talk.Resigns

/-- A handler that ends by itself leaves its registry if it is seated, and only ends otherwise. -/
theorem quietly_removeSelf (h : HandlerId) (b : Board) :
    (∃ r, b.Seated r h ∧ (removeSelf h b).quietly = (some (), b.departed r h)) ∨
      (∀ r, ¬b.Seated r h) ∧ (removeSelf h b).quietly = (some (), b.dismissed h) := by
  rw [removeSelf_eq]
  by_cases hs : ∃ r, b.Seated r h
  · obtain ⟨r, hs⟩ := hs
    have hleave := quietly_leaveRegistry hs.1 (by simpa [hasRegistry] using hs.2.1)
    rw [if_pos hs.2.2] at hleave
    refine .inl ⟨r, hs, ?_⟩
    rw [Talk.quietly_andThen, hleave]
    rfl
  · have hno : ∀ r, ¬b.Seated r h := fun r hr => hs ⟨r, hr⟩
    rw [leaveRegistry_unseated hno]
    exact .inr ⟨hno, quietly_unregister h b⟩

/-- A handler that is not over and ends by itself is over. -/
theorem resigns_removeSelf (hp : b.phase h ≠ .unregistered) :
    (removeSelf h b).Resigns h b fun d => d.phase h = .unregistered := by
  rcases quietly_removeSelf h b with ⟨r, hs, hquiet⟩ | ⟨hno, hquiet⟩
  · have hr : 0 < (b.registry r).owners := by simpa [hasRegistry] using hs.2.1
    exact ⟨_, hquiet, resigns_departed hp hs, ((departed_quiet hr h).2.2 h).trans (if_pos rfl)⟩
  · exact ⟨_, hquiet, resigns_dismissed hp hno, ((dismissed_quiet b h).2.2 h).trans (if_pos rfl)⟩

/-- What comes of a report about a handler that exists: it is over if it was live; if it is being
registered it keeps the report for later; otherwise nothing happens. -/
def Board.Heeded (b : Board) (h : HandlerId) (o : Outcome) (d : Board) : Prop :=
  match b.phase h with
  | .live => d.phase h = .unregistered
  | .initializing => d = b.update h fun hd => hd.deferred o
  | _ => d = b

theorem resigns_handleOutcome (h : HandlerId) (o : Outcome) (b : Board) :
    (handleOutcome h o b).Resigns h b (b.Heeded h o) := by
  rw [handleOutcome_eq]
  unfold Heeded
  cases hp : b.phase h with
  | live =>
    have hreport : (report h o b).Resigns h b fun d => d.phase h ≠ .unregistered :=
      ⟨_, quietly_report h o b, .of_handlers rfl rfl, by
        change b.phase h ≠ _
        rw [hp]
        exact Phase.noConfusion⟩
    exact hreport.andThen fun d hd => resigns_removeSelf hd
  | initializing =>
    refine .ended (.update ?_ ?_ ?_) rfl <;> rw [deferred_eq]
    exact Iff.rfl
  | created => exact .ended (.refl b) rfl
  | initFailed => exact .ended (.refl b) rfl
  | unregistered => exact .ended (.refl b) rfl

/-- A handler to which the screen points hears what it reports if it still exists. -/
theorem resigns_hear (h : HandlerId) (o : Outcome) (b : Board) :
    (hear h o b).Resigns h b fun d => if b.refersTo h = true then b.Heeded h o d else d = b := by
  by_cases hr : b.refersTo h = true
  · simp only [if_pos hr]
    by_cases hl : b.phase h = .live
    · have hheld : (b.hold h).phase h = .live := hl
      have hhandle : (handleOutcome h o (b.hold h)).Resigns h (b.hold h)
          fun d => d.phase h = .unregistered :=
        (resigns_handleOutcome h o (b.hold h)).mono fun d hd => by rwa [Heeded, hheld] at hd
      have hgone : ((handleOutcome h o (b.hold h)).ensuring (·.letGo h)).Resigns h (b.hold h)
          fun d => d.phase h = .unregistered :=
        hhandle.ensuring fun d hd => ⟨.letGo, ((sameButToasts_letGo h).phase h).trans hd⟩
      have hall : (Act.holding h (handleOutcome h o) b).Resigns h b
          fun d => d.phase h = .unregistered :=
        Talk.Resigns.since (b := b.hold h) (.of_handlers rfl rfl) hgone
      rw [hear_eq, if_pos hr]
      refine hall.mono fun d hd => ?_
      rw [Heeded, hl]
      exact hd
    · rw [hear_of_not_live hr hl]
      have hkeep : b.Resigns h (b.update h fun hd => hd.deferred o) := by
        refine .update ?_ ?_ ?_ <;> rw [deferred_eq]
        exact Iff.rfl
      unfold Heeded
      cases hp : b.phase h with
      | live => exact absurd hp hl
      | initializing => exact .ended hkeep rfl
      | created => exact .ended (.refl b) rfl
      | initFailed => exact .ended (.refl b) rfl
      | unregistered => exact .ended (.refl b) rfl
  · rw [hear_eq, if_neg hr]
    exact .ended (.refl b) (by rw [if_neg hr])

/-- A handler whose registration is refused is over. -/
theorem resigns_reject (h : HandlerId) (b : Board) :
    (reject h b).Resigns h b fun d => d.phase h = .unregistered := by
  rw [reject_eq]
  split
  · rename_i hp
    exact .ended (.refl b) hp
  · rename_i hp
    have hself : (b.setPhase h .initFailed).phase h = .initFailed :=
      phase_setPhase (lt_of_phase_ne hp) _
    have hfailed : b.Resigns h (b.setPhase h .initFailed) :=
      .update rfl rfl ⟨fun hc => Phase.noConfusion hc, fun hc => absurd hc hp⟩
    exact (resigns_removeSelf (by rw [hself]; exact Phase.noConfusion)).since hfailed

/-- A handler that becomes live is over as soon as it has heard what was kept for it. -/
theorem resigns_goLive (hp : b.phase h ≠ .unregistered) (toast : ToastId)
    (pending : Option Outcome) :
    (goLive h toast pending b).Resigns h b fun d => pending ≠ none → d.phase h = .unregistered := by
  have hself : (b.live h toast).phase h = .live :=
    phase_settled (lt_of_phase_ne hp) ..
  have hlive : b.Resigns h (b.live h toast) :=
    .update rfl rfl ⟨fun hc => Phase.noConfusion hc, fun hc => absurd hc hp⟩
  have htold : (notify h .shown none (b.live h toast)).Resigns h (b.live h toast)
      fun d => d.phase h = .live :=
    ⟨_, quietly_notify .., .of_handlers handlers_announce (by rw [announce_eq]),
      (congrArg Handler.phase (handler_announce h)).trans hself⟩
  rw [goLive_eq]
  refine (htold.andThen fun d hd => ?_).since hlive
  cases pending with
  | none => exact .ended (.refl d) fun hc => absurd rfl hc
  | some o =>
    refine (resigns_handleOutcome h o d).mono fun e he _ => ?_
    rwa [Heeded, hd] at he

/-- A handler that has heard something before its registration is done is over afterwards. -/
theorem resigns_complete (h : HandlerId) (toast : ToastId) (b : Board) :
    (complete h toast b).Resigns h b fun d =>
      (b.handler h).pending ≠ none ∨ b.phase h = .unregistered → d.phase h = .unregistered := by
  rw [complete_eq]
  split
  · rename_i hp
    exact .ended (.releaseToast _) fun _ => by rw [phase_releaseToast, hp]
  · rename_i hp
    have hlive : ∀ pending, (b.handler h).pending = pending →
        (goLive h toast pending b).Resigns h b fun d =>
          (b.handler h).pending ≠ none ∨ b.phase h = .unregistered → d.phase h = .unregistered := by
      rintro _ rfl
      refine (resigns_goLive hp toast _).mono fun d hd hor => hd (hor.resolve_right hp)
    split
    · have hself : (b.refuse h toast).phase h = .initFailed :=
        phase_settled (lt_of_phase_ne hp) ..
      have hrefused : b.Resigns h (b.refuse h toast) :=
        .update rfl rfl ⟨fun hc => Phase.noConfusion hc, fun hc => absurd hc hp⟩
      exact ((resigns_removeSelf (by rw [hself]; exact Phase.noConfusion)).since hrefused).mono
        fun d hd _ => hd
    · exact hlive _ rfl

/-- Whether a registration is refused, or its handler has heard from the screen by the time it is
done. -/
def Board.Doomed (b : Board) (h : HandlerId) : Prop :=
  b.screen.faults.register ≠ none ∨ (b.handler h).pending ≠ none ∨ b.screen.faults.early ≠ none

/-- Something is kept for a handler that was deferred. -/
theorem pending_deferred (hd : Handler) (o : Outcome) : (hd.deferred o).pending ≠ none := by
  unfold Handler.deferred
  split
  · exact Option.some_ne_none o
  · rename_i hp
    rw [hp]
    exact Option.some_ne_none _

/-- Once a handler has heard from the screen it is over, or something is kept for it, unless it is
not concerned. -/
theorem resigns_hear_early (hr : b.refersTo h = true) (o : Outcome) :
    (hear h o b).Resigns h b fun d => ((d.handler h).pending ≠ none ∨ d.phase h = .unregistered) ∨
      b.phase h = .created ∨ b.phase h = .initFailed := by
  refine (resigns_hear h o b).mono fun d hd => ?_
  rw [if_pos hr, Heeded] at hd
  cases hp : b.phase h with
  | created => exact .inr (.inl rfl)
  | initFailed => exact .inr (.inr rfl)
  | live =>
    rw [hp] at hd
    exact .inl (.inr hd)
  | unregistered =>
    rw [hp] at hd
    have hsame : d = b := hd
    exact .inl (.inr (by rw [hsame, hp]))
  | initializing =>
    rw [hp] at hd
    have hsame : d = b.update h fun hd => hd.deferred o := hd
    have hlt := lt_of_phase_ne (by rw [hp]; exact Phase.noConfusion)
    refine .inl (.inl ?_)
    rw [hsame, handler_update_self hlt]
    exact pending_deferred _ o

/-- A handler that was registered is over if the registration was refused, or if it has heard from
the screen before. -/
theorem resigns_register (hr : b.refersTo h = true) : (register h b).Resigns h b fun d =>
    b.Doomed h → d.phase h = .unregistered ∨ b.phase h = .created ∨ b.phase h = .initFailed := by
  cases hf : b.screen.faults.register with
  | some reason =>
    rw [register_refused hf]
    generalize hd : ({ b with screen := { b.screen with faults := { b.screen.faults with
      register := none } } } : Board) = d
    have hsame : b.Resigns h d := hd ▸ .of_handlers rfl rfl
    exact ((resigns_reject h d).mono fun e he _ => .inl he).since hsame
  | none =>
    have hsame : b.Resigns h (b.recorded h) := .of_handlers rfl rfl
    rw [register_recorded hf]
    cases he : b.screen.faults.early with
    | none =>
      refine ((resigns_complete h _ (b.recorded h)).mono fun e he' hdoomed => ?_).since hsame
      have hkept := (hdoomed.resolve_left fun hn => hn hf).resolve_right fun hn => hn he
      exact .inl (he' (.inl hkept))
    | some o =>
      have hearly := resigns_hear_early (b := b.recorded h) hr o
      refine (hearly.andThen fun d hd =>
        (resigns_complete h _ d).mono fun e he' _ => ?_).since hsame
      exact hd.imp_left he'

/-- A worker that finishes an attempt concerns no other handler than that of the attempt. -/
theorem resigns_finish {attempt : Attempt} (hi : b.inside? s = some attempt)
    (hf : attempt.fate = .proceeds) :
    ((Deed.finish s).act b).Resigns attempt.handler b fun d => b.Doomed attempt.handler →
      d.phase attempt.handler = .unregistered ∨ b.phase attempt.handler = .created ∨
        b.phase attempt.handler = .initFailed := by
  obtain ⟨h, thread, fate⟩ := attempt
  cases hf
  have hregister := (resigns_register (b := (b.hold h).updateStation s fun st =>
    { st with inside := none }) (refersTo_of_held List.mem_cons_self)).caught
  have hall : (Act.holding h (conclude s ⟨h, thread, .proceeds⟩) b).Resigns h b fun d =>
      b.Doomed h → d.phase h = .unregistered ∨ b.phase h = .created ∨ b.phase h = .initFailed := by
    refine Talk.Resigns.since (b := (b.hold h).updateStation s fun st => { st with inside := none })
      (.of_handlers rfl rfl) (hregister.ensuring fun d hd => ⟨.letGo, fun hdoomed => ?_⟩)
    exact (hd hdoomed).imp_left ((sameButToasts_letGo h).phase h).trans
  obtain ⟨d, hd, hresigns, hp⟩ := hall
  refine ⟨d, ?_, hresigns, hp⟩
  change ((finish s b).andThen
    fun _ b => (.ended (some ()) b : Talk Board Telling Unit)).quietly = _
  rw [finish_eq, hi]
  simp only
  rw [Talk.quietly_andThen, Talk.quietly_andThen, hd]
  rfl

/-- The deeds by which the screen reports something about a handler to which it points. -/
inductive Board.Reports (b : Board) (h : HandlerId) (o : Outcome) : Deed → Prop where
  /-- It reports about the newest toast of a name. -/
  | emitted {name : String} (sink : b.screen.sinkOf? name = some h) : Reports b h o (.emit name o)
  /-- It reports about an attempt to register. -/
  | delivered {n : Nat} {attempt : Attempt} (tried : b.screen.attempts[n]? = some attempt)
      (whose : attempt.handler = h) : Reports b h o (.deliver n o)

/-- A report is heard. -/
theorem resigns_reports {deed : Deed} (hd : b.Reports h o deed) : (deed.act b).Resigns h b
    fun d => if b.refersTo h = true then b.Heeded h o d else d = b := by
  cases hd with
  | @emitted name hsink =>
    obtain ⟨d, hd, hresigns, hp⟩ := resigns_hear h o b
    refine ⟨d, ?_, hresigns, hp⟩
    change ((emit name o b).andThen fun _ b =>
      (.ended (some ()) b : Talk Board Telling Unit)).quietly = _
    rw [emit_eq, hsink]
    simp only
    rw [Talk.quietly_andThen, Talk.quietly_andThen, hd]
    rfl
  | @delivered n attempt htried hwhose =>
    rw [Deed.act_deliver, htried]
    exact hwhose ▸ resigns_hear attempt.handler o b

/-- The deeds by which a handler can end by itself: a report about it, and the end of a registration
that is refused or about which it has heard from the screen before. -/
inductive Board.SelfEnding (b : Board) (h : HandlerId) : Deed → Prop where
  /-- The screen reports something about it. -/
  | reported {o : Outcome} {deed : Deed} (report : b.Reports h o deed) : SelfEnding b h deed
  /-- A worker is done with its registration. -/
  | registered {s : StationId} {attempt : Attempt} (inside : b.inside? s = some attempt)
      (whose : attempt.handler = h) (proceeds : attempt.fate = .proceeds) (doomed : b.Doomed h) :
      SelfEnding b h (.finish s)

/-- A handler that can end by itself takes itself out of the registry in which it is seated if it
does, and there is no other change in any registry or to any other handler. It does end if it is
live or being registered, unless a report is only kept for later; and a report about a handler that
is gone or over has no effect. -/
theorem handlers_remove_themselves {deed : Deed} (hd : b.SelfEnding h deed) :
    (deed.act b).quietly = (some (), deed.quietly b) ∧
    (∀ r, (deed.quietly b).registry r =
      if b.Seated r h ∧ b.phase h ≠ .unregistered ∧ (deed.quietly b).phase h = .unregistered then
        (b.registry r).erase (b.handler h).name
      else b.registry r) ∧
    (∀ r, b.hasRegistry r = false ∨ b.current? r (b.handler h).name ≠ some h →
      (deed.quietly b).registry r = b.registry r) ∧
    (∀ x ≠ h, (deed.quietly b).handler x = b.handler x) ∧
    (b.refersTo h = true → (deed.quietly b).phase h = .unregistered ∨ b.phase h = .created ∨
      b.phase h = .initFailed ∨ (b.phase h = .initializing ∧ ∃ o, b.Reports h o deed ∧
        deed.quietly b = b.update h fun hd => hd.deferred o)) ∧
    (∀ o, b.Reports h o deed → b.refersTo h = false ∨ b.phase h = .unregistered →
      deed.quietly b = b) := by
  have hall : (deed.act b).Resigns h b fun d => b.refersTo h = true →
      d.phase h = .unregistered ∨ b.phase h = .created ∨ b.phase h = .initFailed ∨
        (b.phase h = .initializing ∧ ∃ o, b.Reports h o deed ∧
          d = b.update h fun hd => hd.deferred o) := by
    cases hd with
    | @reported o _ hreport =>
      refine (resigns_reports hreport).mono fun d hd href => ?_
      rw [if_pos href, Heeded] at hd
      cases hp : b.phase h with
      | created => exact .inr (.inl rfl)
      | initFailed => exact .inr (.inr (.inl rfl))
      | live =>
        rw [hp] at hd
        exact .inl hd
      | initializing =>
        rw [hp] at hd
        exact .inr (.inr (.inr ⟨rfl, o, hreport, hd⟩))
      | unregistered =>
        rw [hp] at hd
        have hsame : d = b := hd
        exact .inl (by rw [hsame, hp])
    | @registered s attempt hin hwhose hproceeds hdoomed =>
      subst hwhose
      exact (resigns_finish hin hproceeds).mono fun d hd _ =>
        (hd hdoomed).imp_right fun hor => hor.imp_right .inl
  obtain ⟨d, hquiet, hresigns, hphase⟩ := hall
  have hd' : deed.quietly b = d := congrArg Prod.snd hquiet
  rw [hd']
  refine ⟨hquiet, hresigns.table, fun r hr => ?_, hresigns.others, hphase,
    fun o hreport hgone => ?_⟩
  · rw [hresigns.table, if_neg]
    rintro ⟨⟨-, hhas, hcurrent⟩, -⟩
    rcases hr with hr | hr
    · rw [hhas] at hr
      cases hr
    · exact hr (by simpa [isCurrent] using hcurrent)
  · obtain ⟨e, he, -, hheeded⟩ := resigns_reports hreport
    have hde : d = e := hd'.symm.trans (congrArg Prod.snd he)
    rw [hde]
    rcases hgone with hno | hover
    · rwa [if_neg (Bool.eq_false_iff.mp hno)] at hheeded
    · rw [Heeded, hover] at hheeded
      exact (ite_self _).mp hheeded

/-- What is read from an alert that has nothing but a name. -/
def plainSnapshot (name : String) : Snapshot :=
  { cookie := "", name, title := "", text := "", textClickable := false, source := "",
    requireInteraction := false, actions := [], imageUrl := "" }

/-- Two alerts with the same fields are live in the same registry, and only the first one stands
under their name; a third one is being registered and is going to be refused. -/
def alikeAlerts : List Event :=
  [.deed (.setUp {} { supported := true, identity := .ok "id" }),
    .deed (.showAlert 0 (Alert.asSource { name := "a" }) (some 0)), .deed (.advance 0),
    .deed (.finish 0), .reply true, .deed (.create (plainSnapshot "a") (some 1) (some 0)),
    .deed (.submit 0 1), .deed (.advance 0), .deed (.finish 0), .reply true,
    .deed (.showAlert 0 (Alert.asSource { name := "b" }) (some 2)), .deed (.advance 0),
    .deed (.arm { register := some "full" })]

/-- The one that does not stand under its name ends without a change in the registry, the other one
takes itself out, and so does the one that is refused, whereas a report about it is only kept. -/
theorem handlers_remove_themselves_alike :
    (((Deed.deliver 1 .dismissed).quietly (alikeAlerts.foldl Moment.after {}).world.board).registry
      0).entries = [("a", 0), ("b", 2)] ∧
    ((Deed.deliver 1 .dismissed).quietly (alikeAlerts.foldl Moment.after {}).world.board).phase 0 =
      .live ∧
    (((Deed.deliver 2 .dismissed).quietly (alikeAlerts.foldl Moment.after {}).world.board).registry
      0).entries = [("a", 0), ("b", 2)] ∧
    (((Deed.deliver 0 .dismissed).quietly (alikeAlerts.foldl Moment.after {}).world.board).registry
      0).entries = [("b", 2)] ∧
    (((Deed.finish 0).quietly (alikeAlerts.foldl Moment.after {}).world.board).registry
      0).entries = [("a", 0)] := by
  have hreport : ∀ (n : Nat) (attempt : Attempt),
      (alikeAlerts.foldl Moment.after {}).world.board.screen.attempts[n]? = some attempt →
      (alikeAlerts.foldl Moment.after {}).world.board.SelfEnding attempt.handler
        (.deliver n .dismissed) := fun _ _ htried => .reported (.delivered htried rfl)
  have hsecond := handlers_remove_themselves (hreport 1 _ rfl)
  have hthird := handlers_remove_themselves (hreport 2 _ rfl)
  have hfirst := handlers_remove_themselves (hreport 0 _ rfl)
  have hfinish : (alikeAlerts.foldl Moment.after {}).world.board.SelfEnding 2 (.finish 0) :=
    .registered rfl rfl rfl (.inl (Option.some_ne_none _))
  have hrefused := handlers_remove_themselves hfinish
  refine ⟨congrArg Registry.entries (hsecond.2.2.1 0 (.inr (by decide))), ?_, ?_, ?_, ?_⟩
  · exact congrArg Handler.phase (hsecond.2.2.2.1 0 Nat.zero_ne_one)
  · exact congrArg Registry.entries ((hthird.2.1 0).trans (if_neg (by decide)))
  · exact congrArg Registry.entries ((hfirst.2.1 0).trans (if_pos (by decide)))
  · exact congrArg Registry.entries ((hrefused.2.1 0).trans (if_pos (by decide)))

end ToastBoard
