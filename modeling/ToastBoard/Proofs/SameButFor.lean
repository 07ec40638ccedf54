import ToastBoard.Proofs.SelfRemoval

/-!
# Boards that are the same but for one handler

In which order holders are written down makes no difference. What a handler does and tells when it
hears from the screen is the same on boards that differ in this only, and the boards that it leaves
differ in this only, as long as this is so for whatever its listener does. A handler that ends by
itself leaves nearly the same as well if it has come further on one board than on the other, or if
something else was kept for it.
-/

namespace ToastBoard

open Board

variable {odd : Option HandlerId} {a b b' c c' : Board} {h x : HandlerId} {r : RegistryId}
  {α β : Type}

/-- Handlers that differ at most in how far they have come and in what is kept for them. -/
def Handler.SameButProgress (hd hd' : Handler) : Prop :=
  hd' = { hd with phase := hd'.phase, pending := hd'.pending }

namespace Handler.SameButProgress

variable {hd hd' hd'' : Handler}

theorem refl (hd : Handler) : hd.SameButProgress hd := rfl

theorem trans (h : hd.SameButProgress hd') (h' : hd'.SameButProgress hd'') :
    hd.SameButProgress hd'' := by
  rw [Handler.SameButProgress, h] at h'
  exact h'

theorem name (h : hd.SameButProgress hd') : hd'.name = hd.name :=
  (congrArg Handler.name h :)

theorem registry (h : hd.SameButProgress hd') : hd'.registry = hd.registry :=
  (congrArg Handler.registry h :)

/-- They have the same toast to release. -/
theorem registration (h : hd.SameButProgress hd') : hd'.registration = hd.registration :=
  (congrArg Handler.registration h :)

/-- They may be assigned any phases. -/
theorem rephase (h : hd.SameButProgress hd') (p p' : Phase) :
    { hd with phase := p }.SameButProgress { hd' with phase := p' } := by
  have hsame := congrArg (fun hd : Handler => { hd with phase := p' }) h
  exact hsame

end Handler.SameButProgress

namespace Board

/-- Boards that differ at most in the order in which holders are written down, and, if there is an
odd handler, in how far that one has come, in what is kept for it, and in what was told. -/
structure SameButFor (odd : Option HandlerId) (b b' : Board) : Prop where
  /-- Nothing else differs. -/
  rest : b' = { b with handlers := b'.handlers, held := b'.held, told := b'.told }
  /-- The same handlers are held. -/
  held : b.held.Perm b'.held
  /-- There are as many handlers. -/
  length : b'.handlers.length = b.handlers.length
  /-- Each handler differs at most in how far it has come and in what is kept for it. -/
  handler : ∀ x, (b.handler x).SameButProgress (b'.handler x)
  /-- Those that are not odd are the same. -/
  same : ∀ x, some x ≠ odd → b'.handler x = b.handler x
  /-- The same was told if none is odd. -/
  told : odd = none → b'.told = b.told

/-- A change that has nothing to do with handlers, holders and what was told. -/
def Aloof (f : Board → Board) : Prop :=
  ∀ (b : Board) handlers held told,
    f { b with handlers, held, told } = { f b with handlers, held, told }

/-- Releasing a toast has to do with the screen only. -/
theorem aloof_releaseToast (toast : Option ToastId) : Aloof (·.releaseToast toast) := by
  intro b handlers held told
  cases toast <;> rfl

theorem aloof_updateRegistry (r : RegistryId) (f : Registry → Registry) :
    Aloof (·.updateRegistry r f) := fun _ _ _ _ => rfl

namespace SameButFor

theorem refl (b : Board) : b.SameButFor odd b :=
  ⟨rfl, .refl _, rfl, fun _ => .refl _, fun _ _ => rfl, fun _ => rfl⟩

theorem trans (h : a.SameButFor odd b) (h' : b.SameButFor odd c) : a.SameButFor odd c where
  rest := by
    rw [h'.rest, h.rest]
  held := h.held.trans h'.held
  length := h'.length.trans h.length
  handler x := (h.handler x).trans (h'.handler x)
  same x hx := (h'.same x hx).trans (h.same x hx)
  told ho := (h'.told ho).trans (h.told ho)

/-- Where no handler is odd, any one may be. -/
theorem weaken (hb : b.SameButFor none b') : b.SameButFor odd b' :=
  ⟨hb.rest, hb.held, hb.length, hb.handler, fun x _ => hb.same x (Option.some_ne_none x),
    fun _ => hb.told rfl⟩

/-- The registries are the same. -/
theorem registries (hb : b.SameButFor odd b') : b'.registries = b.registries :=
  (congrArg Board.registries hb.rest :)

theorem stations (hb : b.SameButFor odd b') : b'.stations = b.stations :=
  (congrArg Board.stations hb.rest :)

/-- The screen is the same. -/
theorem screen (hb : b.SameButFor odd b') : b'.screen = b.screen :=
  (congrArg Board.screen hb.rest :)

/-- The same handlers exist. -/
theorem refersTo (hb : b.SameButFor odd b') (x : HandlerId) : b'.refersTo x = b.refersTo x := by
  have hheld : b'.held.contains x = b.held.contains x := by
    rw [Bool.eq_iff_iff, List.contains_iff_mem, List.contains_iff_mem]
    exact hb.held.symm.mem_iff
  simp only [Board.refersTo, stationHandlers, hheld, hb.registries, hb.stations, hb.screen]

/-- The same registries exist. -/
theorem hasRegistry (hb : b.SameButFor odd b') (r : RegistryId) :
    b'.hasRegistry r = b.hasRegistry r := by
  exact hasRegistry_of_registries hb.registries r

/-- Who is current is the same. -/
theorem isCurrent (hb : b.SameButFor odd b') (name : String) :
    b'.isCurrent r name x = b.isCurrent r name x := by
  rw [Board.isCurrent, current_of_registries hb.registries, Board.isCurrent]

/-- A handler has its seat on both boards, or on neither. -/
theorem seated_iff (hb : b.SameButFor odd b') : b'.Seated r x ↔ b.Seated r x :=
  seated_congr (hb.handler x).name (hb.handler x).registry
    (registry_of_registries hb.registries r)

/-- A change that has nothing to do with handlers, holders and what was told makes no difference. -/
theorem aloof {f : Board → Board} (hf : Aloof f) (hb : b.SameButFor odd b') :
    (f b).SameButFor odd (f b') := by
  have hmoved : f b' = { f b with handlers := b'.handlers, held := b'.held, told := b'.told } := by
    conv_lhs => rw [hb.rest]
    exact hf ..
  have hleft : f b = { f b with handlers := b.handlers, held := b.held, told := b.told } :=
    hf b b.handlers b.held b.told
  have hhandler : ∀ x, (f b).handler x = b.handler x := fun x => by rw [hleft]; rfl
  have hhandler' : ∀ x, (f b').handler x = b'.handler x := fun x => by rw [hmoved]; rfl
  refine ⟨by rw [hmoved], ?_, ?_, fun x => ?_, fun x hx => ?_, fun ho => ?_⟩
  · rw [hmoved, hleft]
    exact hb.held
  · rw [hmoved, hleft]
    exact hb.length
  · rw [hhandler, hhandler']
    exact hb.handler x
  · rw [hhandler, hhandler']
    exact hb.same x hx
  · rw [hmoved, hleft]
    exact hb.told ho

theorem hold (hb : b.SameButFor odd b') (x : HandlerId) : (b.hold x).SameButFor odd (b'.hold x) :=
  ⟨congrArg (fun d : Board => { d with held := x :: b'.held }) hb.rest, hb.held.cons x, hb.length,
    hb.handler, hb.same, hb.told⟩

/-- A handler may be changed on both boards, differently only if it is the odd one. -/
theorem update {f f' : Handler → Handler} (hb : b.SameButFor odd b')
    (hf : (f (b.handler x)).SameButProgress (f' (b'.handler x)))
    (hsame : some x ≠ odd → f' (b'.handler x) = f (b.handler x)) :
    (b.update x f).SameButFor odd (b'.update x f') := by
  refine ⟨congrArg (fun d : Board => { d with handlers := b'.handlers.modify x f' }) hb.rest,
    hb.held, ?_, fun y => ?_, fun y hy => ?_, hb.told⟩
  · rw [length_update, length_update, hb.length]
  · rw [handler_update, handler_update, hb.length]
    split
    · rename_i hy
      rw [hy.1]
      exact hf
    · exact hb.handler y
  · rw [handler_update, handler_update, hb.length]
    split
    · rename_i hx
      rw [hx.1] at hy ⊢
      exact hsame hy
    · exact hb.same y hy

/-- A handler to which nothing refers is ended on both boards, or on neither. -/
theorem reap (hb : b.SameButFor odd b') (x : HandlerId) :
    (b.reap x).SameButFor odd (b'.reap x) := by
  unfold Board.reap
  rw [hb.refersTo, (hb.handler x).registration]
  split
  · exact hb
  · refine (hb.update ?_ fun hx => ?_).aloof (aloof_releaseToast _)
    · exact congrArg (fun hd : Handler => { hd with registration := none }) (hb.handler x)
    · rw [hb.same x hx]

/-- The same for some handlers. -/
theorem reapAll (hb : b.SameButFor odd b') (hs : List HandlerId) :
    (hs.foldl Board.reap b).SameButFor odd (hs.foldl Board.reap b') := by
  induction hs generalizing b b' with
  | nil => exact hb
  | cons h hs ih => exact ih (hb.reap h)

/-- A handler may be given back on both boards. -/
theorem letGo (hb : b.SameButFor odd b') (x : HandlerId) :
    (b.letGo x).SameButFor odd (b'.letGo x) := by
  have herased : { b with held := b.held.erase x }.SameButFor odd
      { b' with held := b'.held.erase x } :=
    ⟨congrArg (fun d : Board => { d with held := b'.held.erase x }) hb.rest, hb.held.erase x,
      hb.length, hb.handler, hb.same, hb.told⟩
  exact herased.reap x

theorem ownRegistry (hb : b.SameButFor odd b') (r : RegistryId) :
    (b.ownRegistry r).SameButFor odd (b'.ownRegistry r) := hb.aloof (aloof_updateRegistry r _)

/-- A registry may be given up on both boards. -/
theorem disownRegistry (hb : b.SameButFor odd b') (r : RegistryId) :
    (b.disownRegistry r).SameButFor odd (b'.disownRegistry r) := by
  have hleft := hb.aloof (aloof_updateRegistry r fun reg => { reg with owners := reg.owners - 1 })
  unfold Board.disownRegistry
  generalize b.updateRegistry r _ = d at hleft ⊢
  generalize b'.updateRegistry r _ = d' at hleft ⊢
  have hempty := hleft.aloof (aloof_updateRegistry r fun reg => { reg with entries := [] })
  simp only [hleft.hasRegistry r, registry_of_registries hleft.registries]
  split
  · exact hleft
  · exact hempty.reapAll _

/-- The same handler is taken out from under a name on both boards. -/
theorem takeEntry (hb : b.SameButFor odd b') (r : RegistryId) (name : String) :
    (b.takeEntry r name).2.SameButFor odd (b'.takeEntry r name).2 := by
  have hcurrent : b'.current? r name = b.current? r name :=
    congrArg (·.get? name) (registry_of_registries hb.registries r)
  have hheld : { b with held := (b.current? r name).toList ++ b.held }.SameButFor odd
      { b' with held := (b.current? r name).toList ++ b'.held } :=
    ⟨congrArg (fun d : Board => { d with held := (b.current? r name).toList ++ b'.held }) hb.rest,
      hb.held.append_left _, hb.length, hb.handler, hb.same, hb.told⟩
  rw [takeEntry_eq, takeEntry_eq, hcurrent]
  exact hheld.aloof (aloof_updateRegistry r _)

/-- A handler may end on both boards. -/
theorem retire (hb : b.SameButFor odd b') (x : HandlerId) :
    (b.retire x).SameButFor odd (b'.retire x) := by
  unfold Board.retire
  rw [(hb.handler x).registration]
  refine (hb.update ?_ fun hx => ?_).aloof (aloof_releaseToast _)
  · exact congrArg Handler.retired (hb.handler x)
  · rw [hb.same x hx]

/-- A listener may be told something on both boards. -/
theorem announce (hb : b.SameButFor none b') (x : HandlerId) (topic : Topic)
    (action : Option String) :
    (b.announce x topic action).SameButFor none (b'.announce x topic action) := by
  have htold : (b'.announce x topic action).told = (b.announce x topic action).told := by
    rw [told_announce, told_announce, hb.same x (Option.some_ne_none x), hb.told rfl]
  rw [announce_eq, announce_eq (b := b'), htold]
  exact ⟨congrArg (fun d : Board => { d with told := (b.announce x topic action).told }) hb.rest,
    hb.held, hb.length, hb.handler, hb.same, fun _ => rfl⟩

/-- The odd handler may be assigned any phases. -/
theorem setPhase (hb : b.SameButFor (some h) b') (p p' : Phase) :
    (b.setPhase h p).SameButFor (some h) (b'.setPhase h p') :=
  hb.update ((hb.handler h).rephase p p') fun ho => absurd rfl ho

/-- What was told does not matter where a handler is odd. -/
theorem retell (hb : b.SameButFor (some h) b') (told told' : List Telling) :
    (b.retell told).SameButFor (some h) (b'.retell told') :=
  ⟨congrArg (fun d : Board => { d with told := told' }) hb.rest, hb.held, hb.length, hb.handler,
    hb.same, fun ho => absurd ho (Option.some_ne_none h)⟩

/-- The odd handler may end on both boards, whatever it was. -/
theorem dismissed (hb : b.SameButFor (some h) b') (hp : b.phase h ≠ .unregistered)
    (hp' : b'.phase h ≠ .unregistered) : (b.dismissed h).SameButFor (some h) (b'.dismissed h) := by
  rw [dismissed_eq, dismissed_eq, closed, closed, if_neg hp, if_neg hp']
  exact (hb.retire h).retell ..

/-- The odd handler may leave its registry and end on both boards. -/
theorem departed (hb : b.SameButFor (some h) b') (hp : b.phase h ≠ .unregistered)
    (hp' : b'.phase h ≠ .unregistered) (r : RegistryId) :
    (b.departed r h).SameButFor (some h) (b'.departed r h) := by
  have htaken := (hb.ownRegistry r).takeEntry r (b.handler h).name
  have hphase : ∀ (d : Board) name,
      ((d.ownRegistry r).takeEntry r name).2.phase h = d.phase h := fun d name => by
    rw [takeEntry_eq]
    rfl
  unfold Board.departed
  rw [(hb.handler h).name]
  exact ((htaken.dismissed ((hphase b _).trans_ne hp) ((hphase b' _).trans_ne hp')).letGo
    h).disownRegistry r

/-- How far a handler has come hardly matters for what it leaves when it ends by itself. -/
theorem quietly_removeSelf (hb : b.SameButFor (some h) b') (hp : b.phase h ≠ .unregistered)
    (hp' : b'.phase h ≠ .unregistered) :
    (removeSelf h b).quietly.2.SameButFor (some h) (removeSelf h b').quietly.2 := by
  rcases ToastBoard.quietly_removeSelf h b with ⟨r, hs, hq⟩ | ⟨hno, hq⟩ <;>
    rcases ToastBoard.quietly_removeSelf h b' with ⟨r', hs', hq'⟩ | ⟨hno', hq'⟩ <;> rw [hq, hq']
  · have hr : r' = r :=
      Option.some.inj (hs'.1.symm.trans ((hb.handler h).registry.trans hs.1))
    rw [hr]
    exact hb.departed hp hp' r
  · exact absurd (hb.seated_iff.mpr hs) (hno' r)
  · exact absurd (hb.seated_iff.mp hs') (hno r')
  · exact hb.dismissed hp hp'

end SameButFor

/-- A handler that ends by itself tells no more than that it ends. -/
theorem told_quietly_removeSelf (h : HandlerId) (b : Board) :
    (removeSelf h b).quietly.2.told = b.told ++ b.parting h := by
  have hdismissed : ∀ d : Board, (d.dismissed h).told = d.told ++ d.parting h := fun d => by
    rw [dismissed_eq]
    rfl
  rcases ToastBoard.quietly_removeSelf h b with ⟨r, -, hq⟩ | ⟨-, hq⟩ <;> rw [hq]
  · change (b.departed r h).told = _
    have hletGo := (sameButToasts_letGo
        (b := ((b.ownRegistry r).takeEntry r (b.handler h).name).2.dismissed
      h) h).told
    unfold departed
    rw [(disownRegistry_quiet _ r).2, hletGo, takeEntry_eq]
    exact hdismissed _
  · exact hdismissed b

end Board

/-- Computations that tell the same on boards that are the same but for the order of holders, as
long as those who are told do the same there. -/
inductive Talk.TellsSame : Talk Board Telling α → Talk Board Telling α → Prop where
  /-- They end alike. -/
  | ended (a : Option α) {b b' : Board} (hb : b.SameButFor none b') : TellsSame (.ended a b)
    (.ended a b')
  /-- They tell the same, and go on alike. -/
  | told (m : Telling) {b b' : Board} {resume resume' : Bool → Board → Talk Board Telling α}
      (hb : b.SameButFor none b')
      (rest : ∀ returned c c', c.SameButFor none c' → TellsSame (resume returned c)
        (resume' returned c')) :
      TellsSame (.told m b resume) (.told m b' resume')

namespace Talk.TellsSame

variable {t t' : Talk Board Telling α}

/-- Computations tell the same one after the other. -/
theorem andThen {next next' : α → Board → Talk Board Telling β} (ht : t.TellsSame t')
    (hn : ∀ a {c c'}, c.SameButFor none c' → (next a c).TellsSame (next' a c')) :
    (t.andThen next).TellsSame (t'.andThen next') := by
  induction ht with
  | ended a hb =>
    cases a with
    | none => exact .ended none hb
    | some a => exact hn a hb
  | told m hb _ ih => exact .told m hb ih

/-- What is done in any case at the end has to do the same on both boards. -/
theorem ensuring {f : Board → Board} (ht : t.TellsSame t')
    (hf : ∀ {c c' : Board}, c.SameButFor none c' → (f c).SameButFor none (f c')) :
    (t.ensuring f).TellsSame (t'.ensuring f) := by
  induction ht with
  | ended a hb => exact .ended a (hf hb)
  | told m hb _ ih => exact .told m hb ih

end Talk.TellsSame

namespace Board

variable (hb : b.SameButFor none b')

include hb

/-- A listener is told the same on both boards. -/
theorem tellsSame_notify (h : HandlerId) (topic : Topic) (action : Option String) :
    (notify h topic action b).TellsSame (notify h topic action b') := by
  rw [notify_eq, notify_eq, hb.same h (Option.some_ne_none h)]
  cases (b.handler h).listener with
  | none => exact .ended _ hb
  | some l => exact .told _ (hb.announce h topic action) fun returned _ _ hc => .ended _ hc

/-- A handler ends the same way on both boards. -/
theorem tellsSame_unregister (h : HandlerId) : (unregister h b).TellsSame (unregister h b') := by
  have hphase : b'.phase h = b.phase h :=
    congrArg Handler.phase (hb.same h (Option.some_ne_none h))
  rw [unregister_eq, unregister_eq, hphase]
  split
  · exact .ended _ hb
  · split
    · exact tellsSame_notify (hb.retire h) ..
    · exact .ended _ (hb.retire h)

/-- A current handler is taken out and ended on both boards, or on neither. -/
theorem tellsSame_removeIfCurrent (r : RegistryId) (name : String) (h : HandlerId) :
    (removeIfCurrent r name h b).TellsSame (removeIfCurrent r name h b') := by
  rw [removeIfCurrent_eq, removeIfCurrent_eq, hb.isCurrent]
  split
  · have hend : (Act.thenLetGo h (unregister h) (b.takeEntry r name).2).TellsSame
        (Act.thenLetGo h (unregister h) (b'.takeEntry r name).2) :=
      (tellsSame_unregister (hb.takeEntry r name) h).ensuring fun hc => hc.letGo h
    exact hend.andThen fun _ _ _ hc => .ended _ hc
  · exact .ended _ hb

/-- A handler leaves its registry the same way on both boards. -/
theorem tellsSame_leaveRegistry (h : HandlerId) :
    (leaveRegistry h b).TellsSame (leaveRegistry h b') := by
  rw [leaveRegistry_eq, leaveRegistry_eq, hb.same h (Option.some_ne_none h)]
  cases (b.handler h).registry with
  | none => exact .ended _ hb
  | some r =>
    simp only [hb.hasRegistry r]
    split
    · exact (tellsSame_removeIfCurrent (hb.ownRegistry r) r _ h).ensuring fun hc =>
        hc.disownRegistry r
    · exact .ended _ hb

/-- A handler ends by itself the same way on both boards. -/
theorem tellsSame_removeSelf (h : HandlerId) : (removeSelf h b).TellsSame (removeSelf h b') := by
  rw [removeSelf_eq, removeSelf_eq]
  refine (tellsSame_leaveRegistry hb h).andThen fun removed _ _ hc => ?_
  cases removed with
  | true => exact .ended _ hc
  | false => exact tellsSame_unregister hc h

/-- What is told of an outcome is the same on both boards. -/
theorem tellsSame_report (h : HandlerId) (o : Outcome) :
    (report h o b).TellsSame (report h o b') := by
  rw [report_eq, report_eq, hb.same h (Option.some_ne_none h)]
  cases o with
  | activated action =>
    cases action with
    | none =>
      simp only
      split
      · exact tellsSame_notify hb ..
      · exact .ended _ hb
    | some action => exact tellsSame_notify hb ..
  | dismissed => exact .ended _ hb
  | failed reason => exact .ended _ hb

/-- A handler that hears from the screen does not ask in which order holders are written down. -/
theorem tellsSame_handleOutcome (h : HandlerId) (o : Outcome) :
    (handleOutcome h o b).TellsSame (handleOutcome h o b') := by
  have hself := hb.same h (Option.some_ne_none h)
  rw [handleOutcome_eq, handleOutcome_eq, phase, phase, hself]
  cases (b.handler h).phase with
  | live => exact (tellsSame_report hb h o).andThen fun _ _ _ hc => tellsSame_removeSelf hc h
  | initializing => exact .ended _ (hb.update (hself ▸ .refl _) fun _ => by rw [hself])
  | created => exact .ended _ hb
  | initFailed => exact .ended _ hb
  | unregistered => exact .ended _ hb

end Board

end ToastBoard
