import ToastBoard.Proofs.Traffic
import ToastBoard.Proofs.Turns

/-!
# The order of visits

In which order the handlers of a registry are visited when it is drained does not matter if their
listeners only return: but for the order in which different listeners are told, the board is the
same in the end. Two handlers that end one after the other could as well have ended the other way
round, and every order comes about by such exchanges.
-/

namespace ToastBoard

namespace Board

variable {b b' : Board} {h : HandlerId} {r : RegistryId} {c : CoordinatorId} {s : StationId}

/-- The same board, on which other things were told. -/
def retell (b : Board) (told : List Telling) : Board := { b with told }

/-- Boards that differ at most in the order in which different listeners were told. -/
structure SameButTellingOrder (b b' : Board) : Prop where
  /-- Nothing else differs. -/
  rest : b' = b.retell b'.told
  /-- The same was told. -/
  told : b'.told.Perm b.told
  /-- Each listener was told in the same order. -/
  heard : ∀ h, b'.heard h = b.heard h

namespace SameButTellingOrder

theorem refl (b : Board) : b.SameButTellingOrder b := ⟨rfl, .refl _, fun _ => rfl⟩

theorem trans {c : Board} (h : b.SameButTellingOrder b') (h' : b'.SameButTellingOrder c) :
    b.SameButTellingOrder c where
  rest := by
    rw [h'.rest, h.rest]
    rfl
  told := h'.told.trans h.told
  heard x := (h'.heard x).trans (h.heard x)

end SameButTellingOrder

/-- A change that has nothing to do with what was told. -/
def Deaf (f : Board → Board) : Prop :=
  ∀ (b : Board) (told : List Telling), f (b.retell told) = (f b).retell told

namespace Deaf

variable {f g : Board → Board}

theorem told (hf : Deaf f) (b : Board) : (f b).told = b.told :=
  (congrArg Board.told (hf b b.told) :)

/-- Changes that have nothing to do with what was told may come one after the other. -/
theorem comp (hf : Deaf f) (hg : Deaf g) : Deaf fun b => g (f b) := fun b told =>
  (congrArg g (hf b told)).trans (hg (f b) told)

/-- A change that is chosen without regard to what was told has nothing to do with it, either. -/
theorem ite {p : Board → Prop} [DecidablePred p] (hp : ∀ b told, p (b.retell told) ↔ p b)
    (hf : Deaf f) (hg : Deaf g) : Deaf fun b => if p b then f b else g b := by
  intro b told
  change (if p (b.retell told) then _ else _) = Board.retell (if p b then _ else _) told
  by_cases hb : p b
  · rw [if_pos hb, if_pos ((hp b told).mpr hb)]
    exact hf b told
  · rw [if_neg hb, if_neg fun h => hb ((hp b told).mp h)]
    exact hg b told

/-- A change for each of some things has nothing to do with what was told if none of them has. -/
theorem foldl {α : Type} {f : Board → α → Board} (hf : ∀ a, Deaf (f · a)) (l : List α) :
    Deaf (l.foldl f ·) := by
  induction l with
  | nil => exact fun _ _ => rfl
  | cons a l ih => exact comp (hf a) ih

end Deaf

/-- A change that has nothing to do with what was told can be made before or after. -/
theorem SameButTellingOrder.deaf {f : Board → Board} (hf : Deaf f) (hb : b.SameButTellingOrder b') :
    (f b).SameButTellingOrder (f b') := by
  have hmoved : f b' = (f b).retell b'.told := by
    rw [hb.rest]
    exact hf b b'.told
  refine ⟨?_, ?_, fun x => ?_⟩
  · rw [hmoved]
    rfl
  · rw [hmoved, hf.told]
    exact hb.told
  · rw [hmoved, heard_of_told (b := b') (c := (f b).retell b'.told) rfl, hb.heard x,
      heard_of_told (hf.told b)]

/-- Releasing a toast does not depend on what was told. -/
theorem deaf_releaseToast (toast : Option ToastId) : Deaf (·.releaseToast toast) := by
  intro b told
  cases toast <;> rfl

/-- Ending a handler to which nothing refers does not depend on what was told. -/
theorem deaf_reap (h : HandlerId) : Deaf (·.reap h) :=
  Deaf.ite (f := id) (fun _ _ => .rfl) (fun _ _ => rfl) fun b told =>
    deaf_releaseToast (b.handler h).registration
      (b.update h fun hd => { hd with registration := none }) told

/-- Giving a registry up does not depend on what was told. -/
theorem deaf_disownRegistry (r : RegistryId) : Deaf (·.disownRegistry r) := by
  have hgone : Deaf fun b => (b.registry r).handlers.foldl reap
      (b.updateRegistry r fun reg => { reg with entries := [] }) := fun b told =>
    Deaf.foldl deaf_reap (b.registry r).handlers
      (b.updateRegistry r fun reg => { reg with entries := [] }) told
  have hleft : Deaf fun b => if b.hasRegistry r then b else (b.registry r).handlers.foldl reap
      (b.updateRegistry r fun reg => { reg with entries := [] }) :=
    Deaf.ite (f := id) (fun _ _ => .rfl) (fun _ _ => rfl) hgone
  exact fun b told =>
    hleft (b.updateRegistry r fun reg => { reg with owners := reg.owners - 1 }) told

/-- Giving a coordinator up does not depend on what was told. -/
theorem deaf_disownCoordinator (c : CoordinatorId) : Deaf (·.disownCoordinator c) := by
  have hgone : Deaf fun b =>
      (b.disownRegistry (b.coordinator c).registry).setWorker (b.coordinator c).station
        ((b.disownRegistry (b.coordinator c).registry).station
          (b.coordinator c).station).worker.stop := fun b told =>
    congrArg (fun a : Board => a.setWorker (b.coordinator c).station
      (a.station (b.coordinator c).station).worker.stop)
      (deaf_disownRegistry (b.coordinator c).registry b told)
  have hleft : Deaf fun b => if b.hasCoordinator c then b else
      (b.disownRegistry (b.coordinator c).registry).setWorker (b.coordinator c).station
        ((b.disownRegistry (b.coordinator c).registry).station
          (b.coordinator c).station).worker.stop :=
    Deaf.ite (f := id) (fun _ _ => .rfl) (fun _ _ => rfl) hgone
  exact fun b told =>
    hleft (b.updateCoordinator c fun co => { co with owners := co.owners - 1 }) told

/-- A handler ends without a word. -/
def closed (b : Board) (h : HandlerId) : Board :=
  if b.phase h = .unregistered then b else b.retire h

/-- What is told when a handler ends. -/
def parting (b : Board) (h : HandlerId) : List Telling :=
  if b.phase h = .live ∧ (b.handler h).listener ≠ none then
    [⟨h, (b.handler h).notice .finished none⟩]
  else []

/-- A handler ends whatever was told. -/
theorem deaf_retire (h : HandlerId) : Deaf (·.retire h) := fun b told =>
  deaf_releaseToast (b.handler h).registration (b.update h Handler.retired) told

/-- A handler leaves the screen whatever was told. -/
theorem deaf_closed (h : HandlerId) : Deaf (·.closed h) :=
  Deaf.ite (f := id) (fun _ _ => .rfl) (fun _ _ => rfl) (deaf_retire h)

/-- A handler that ends is closed, and that is told. -/
theorem dismissed_eq (b : Board) (h : HandlerId) :
    b.dismissed h = (b.closed h).retell (b.told ++ b.parting h) := by
  have htold : (b.retire h).told = b.told := told_retire
  unfold dismissed closed parting
  split
  · rename_i hp
    rw [if_neg (by rw [hp]; exact fun hl => Phase.noConfusion hl.1), List.append_nil]
    rfl
  · split
    · rename_i hp hl
      have hsame : (b.retire h).handler h = (b.handler h).retired := by
        rw [handler_retire, if_pos ⟨rfl, lt_of_phase_ne hp⟩]
      rw [announce_eq, told_announce, htold, hsame]
      change retell _ (b.told ++ if (b.handler h).listener = none then [] else
        [⟨h, (b.handler h).notice .finished none⟩]) = _
      by_cases hn : (b.handler h).listener = none
      · rw [if_pos hn, if_neg fun h => h.2 hn]
      · rw [if_neg hn, if_pos ⟨hl, hn⟩]
    · rename_i hp hl
      rw [if_neg fun hn => hl hn.1, List.append_nil, ← htold]
      rfl

/-- A handler that ends does so whatever was told before. -/
theorem SameButTellingOrder.dismissed (hb : b.SameButTellingOrder b') (h : HandlerId) :
    (b.dismissed h).SameButTellingOrder (b'.dismissed h) := by
  have hclosed := hb.deaf (deaf_closed h)
  have hparting : b'.parting h = b.parting h := by
    rw [hb.rest]
    rfl
  rw [dismissed_eq, dismissed_eq, hparting]
  refine ⟨?_, hb.told.append_right _, fun x => ?_⟩
  · rw [hclosed.rest]
    rfl
  · have hx : List.map _ (List.filter _ b'.told) = List.map _ (List.filter _ b.told) := hb.heard x
    change List.map _ (List.filter _ (b'.told ++ _)) = List.map _ (List.filter _ (b.told ++ _))
    rw [List.filter_append, List.filter_append, List.map_append, List.map_append, hx]

/-- Changes of different handlers can be made in any order. -/
theorem update_comm {x y : HandlerId} (hxy : x ≠ y) (f g : Handler → Handler) :
    (b.update x f).update y g = (b.update y g).update x f := by
  have hsame : (b.handlers.modify x f).modify y g = (b.handlers.modify y g).modify x f := by
    refine List.ext_getElem? fun i => ?_
    by_cases hx : x = i
    · have hy : y ≠ i := fun hy => hxy (hx.trans hy.symm)
      simp [hx, hy]
    · simp [List.getElem?_modify, hx]
  unfold update
  rw [hsame]

/-- It makes no difference whether a toast is released before a handler changes or after. -/
theorem update_releaseToast (toast : Option ToastId) (f : Handler → Handler) :
    (b.releaseToast toast).update h f = (b.update h f).releaseToast toast := by
  cases toast <;> rfl

/-- Toasts can be withdrawn in any order. -/
theorem releaseToast_comm (s t : Option ToastId) :
    (b.releaseToast s).releaseToast t = (b.releaseToast t).releaseToast s := by
  cases s with
  | none => rfl
  | some s =>
    cases t with
    | none => rfl
    | some t =>
      have hscreen : (b.screen.release s).release t = (b.screen.release t).release s := by
        unfold Screen.release
        simp only [List.map_map, List.filter_filter, Bool.and_comm]
        congr 1
        refine List.map_congr_left fun toast _ => ?_
        simp only [Function.comp_apply]
        split <;> split <;> simp_all
      exact congrArg (fun screen : Screen => { b with screen }) hscreen

/-- A handler that ends does not concern another one. -/
theorem handler_closed {x y : HandlerId} (hxy : y ≠ x) :
    (b.closed x).handler y = b.handler y := by
  unfold closed
  split
  · rfl
  · rw [handler_retire, if_neg fun h => hxy h.1]

/-- Handlers end in any order. -/
theorem closed_comm (x y : HandlerId) : (b.closed x).closed y = (b.closed y).closed x := by
  by_cases hxy : x = y
  · rw [hxy]
  have hretire : (b.retire x).retire y = (b.retire y).retire x := by
    have hx : (b.retire x).handler y = b.handler y := by
      rw [handler_retire, if_neg fun h => hxy h.1.symm]
    have hy : (b.retire y).handler x = b.handler x := by
      rw [handler_retire, if_neg fun h => hxy h.1]
    have hfirst : (b.retire x).retire y = ((b.retire x).update y Handler.retired).releaseToast
      ((b.retire x).handler y).registration := rfl
    have hsecond : (b.retire y).retire x = ((b.retire y).update x Handler.retired).releaseToast
      ((b.retire y).handler x).registration := rfl
    rw [hfirst, hsecond, hx, hy, retire, retire, update_releaseToast, update_releaseToast,
      update_comm hxy, releaseToast_comm]
  have hx : (b.closed x).phase y = b.phase y := by
    rw [phase, handler_closed fun h => hxy h.symm, phase]
  have hy : (b.closed y).phase x = b.phase x := by
    rw [phase, handler_closed hxy, phase]
  by_cases hpx : b.phase x = .unregistered <;> by_cases hpy : b.phase y = .unregistered <;>
    simp_all [closed]

/-- But for the order in which their listeners are told, two handlers end in any order. -/
theorem dismissed_comm (b : Board) (x y : HandlerId) :
    ((b.dismissed x).dismissed y).SameButTellingOrder ((b.dismissed y).dismissed x) := by
  by_cases hxy : x = y
  · rw [hxy]
    exact .refl _
  have hboth : ∀ {x y}, y ≠ x → (b.dismissed x).dismissed y =
      ((b.closed x).closed y).retell (b.told ++ b.parting x ++ b.parting y) := by
    intro x y hxy
    have hparting : (b.dismissed x).parting y = b.parting y := by
      rw [dismissed_eq]
      change parting (b.closed x) y = _
      rw [parting, phase, handler_closed hxy, parting, phase]
    rw [dismissed_eq, hparting, dismissed_eq]
    have hsame : ((b.closed x).retell (b.told ++ b.parting x)).closed y =
        ((b.closed x).closed y).retell (b.told ++ b.parting x) := deaf_closed y (b.closed x) _
    rw [hsame]
    rfl
  rw [hboth fun h => hxy h.symm, hboth hxy, closed_comm y x]
  have hswap : (b.told ++ b.parting y ++ b.parting x).Perm
      (b.told ++ b.parting x ++ b.parting y) := by
    rw [List.append_assoc, List.append_assoc]
    exact List.perm_append_comm.append_left _
  refine ⟨rfl, hswap, fun z => ?_⟩
  have hother : ∀ {x}, z ≠ x → (b.parting x).filter (·.handler = z) = [] := by
    intro x hz
    unfold parting
    split
    · exact List.filter_eq_nil_iff.mpr fun n hn => by
        rw [List.mem_singleton.mp hn]
        simpa using fun h => hz h.symm
    · rfl
  change List.map _ (List.filter _ (_ ++ _ ++ _)) = List.map _ (List.filter _ (_ ++ _ ++ _))
  simp only [List.filter_append]
  by_cases hz : z = x
  · rw [hother (x := y) fun h => hxy (hz.symm.trans h), List.append_nil, List.append_nil]
  · rw [hother hz, List.append_nil, List.append_nil]

/-- But for the order in which their listeners are told, handlers end in any order. -/
theorem sameButTellingOrder_of_perm {hs hs' : List HandlerId} (hp : hs.Perm hs')
    (hb : b.SameButTellingOrder b') :
    (hs.foldl dismissed b).SameButTellingOrder (hs'.foldl dismissed b') := by
  induction hp generalizing b b' with
  | nil => exact hb
  | cons x _ ih => exact ih (hb.dismissed x)
  | swap x y hs =>
    have hrest : ∀ {hs : List HandlerId} {a a' : Board}, a.SameButTellingOrder a' →
        (hs.foldl dismissed a).SameButTellingOrder (hs.foldl dismissed a') := by
      intro hs
      induction hs with
      | nil => exact id
      | cons z hs ih => exact fun ha => ih (ha.dismissed z)
    exact hrest (((hb.dismissed y).dismissed x).trans (dismissed_comm b' y x))
  | trans _ _ ih ih' => exact (ih hb).trans (ih' (.refl b'))

/-- Who is over has nothing to release. -/
def Bare (b : Board) : Prop :=
  ∀ h, b.phase h = .unregistered → (b.handler h).registration = none

/-- A board is bare as long as handlers stay the same. -/
theorem Bare.of_handlers {d : Board} (hb : b.Bare) (hh : d.handlers = b.handlers) : d.Bare := by
  intro x hp
  rw [handler, hh]
  exact hb x (by rwa [phase, handler, hh] at hp)

/-- A handler may change as long as it has nothing to release while it is not live. -/
theorem Bare.update (hb : b.Bare) {f : Handler → Handler}
    (hf : (f (b.handler h)).registration = none) : (b.update h f).Bare := by
  intro x hp
  rw [phase] at hp
  rw [handler_update] at hp ⊢
  split
  · rename_i hx
    rw [hx.1, hf]
  · rename_i hx
    rw [if_neg hx] at hp
    exact hb x hp

theorem Bare.releaseToast (hb : b.Bare) (toast : Option ToastId) : (b.releaseToast toast).Bare :=
  hb.of_handlers (by cases toast <;> rfl)

/-- A board stays bare when a handler to which nothing refers is ended. -/
theorem Bare.reap (hb : b.Bare) (h : HandlerId) : (b.reap h).Bare := by
  unfold Board.reap
  split
  · exact hb
  · exact (hb.update rfl).releaseToast _

/-- A board stays bare under changes for each of some things. -/
theorem Bare.foldl {α : Type} {f : Board → α → Board} (hf : ∀ a {b : Board}, b.Bare → (f b a).Bare)
    (l : List α) (hb : b.Bare) : (l.foldl f b).Bare := by
  induction l generalizing b with
  | nil => exact hb
  | cons a l ih => exact ih (hf a hb)

theorem Bare.letGoAll (hb : b.Bare) (hs : List HandlerId) : (b.letGoAll hs).Bare :=
  Bare.foldl (f := letGo) (fun h b ha =>
    Bare.reap (b := { b with held := b.held.erase h }) (ha.of_handlers rfl) h) hs hb

/-- A board stays bare when a registry is given up. -/
theorem Bare.disownRegistry (hb : b.Bare) (r : RegistryId) : (b.disownRegistry r).Bare := by
  unfold Board.disownRegistry
  simp only
  split
  · exact hb.of_handlers rfl
  · exact Bare.foldl (fun h _ ha => ha.reap h) _ (hb.of_handlers rfl)

/-- A board stays bare when a coordinator is given up. -/
theorem Bare.disownCoordinator (hb : b.Bare) (c : CoordinatorId) :
    (b.disownCoordinator c).Bare := by
  unfold Board.disownCoordinator
  simp only
  generalize hd : (b.updateCoordinator c fun co => { co with owners := co.owners - 1 }) = d
  have hbare : d.Bare := hd ▸ hb.of_handlers rfl
  split
  · exact hbare
  · exact (hbare.disownRegistry (d.coordinator c).registry).of_handlers rfl

/-- A board stays bare when a handler ends. -/
theorem Bare.dismissed (hb : b.Bare) (h : HandlerId) : (b.dismissed h).Bare := by
  rw [dismissed_eq]
  refine Bare.of_handlers (b := b.closed h) ?_ rfl
  unfold closed
  split
  · exact hb
  · exact (hb.update rfl).releaseToast _

/-- Nothing comes of reaping a handler that has nothing to release. -/
theorem reap_of_none (hn : (b.handler h).registration = none) : b.reap h = b := by
  have hsame : b.handlers.modify h (fun hd => { hd with registration := none }) = b.handlers := by
    refine List.ext_getElem? fun i => ?_
    rw [List.getElem?_modify]
    cases hi : b.handlers[i]? with
    | none => rfl
    | some hd =>
      by_cases hx : h = i
      · have hget : b.handler h = hd := by
          rw [handler, List.getD_eq_getElem?_getD, hx, hi]
          rfl
        rw [hget] at hn
        simp [hx, ← hn]
      · simp [hx]
  unfold reap
  split
  · rfl
  · rw [hn, releaseToast, update, hsame]

/-- Nothing comes of giving back holds on handlers that have nothing to release. -/
theorem letGoAll_bare {hs : List HandlerId} (hn : ∀ h ∈ hs, (b.handler h).registration = none) :
    b.letGoAll hs = { b with held := hs.foldl List.erase b.held } := by
  induction hs generalizing b with
  | nil => rfl
  | cons h hs ih =>
    have hgone : b.letGo h = { b with held := b.held.erase h } :=
      reap_of_none (hn h List.mem_cons_self)
    change (b.letGo h).letGoAll hs = _
    rw [hgone, ih (b := { b with held := b.held.erase h }) fun x hx =>
      hn x (List.mem_cons_of_mem h hx)]
    rfl

/-- What comes of handlers that end one after the other while their listeners only return. -/
theorem quietly_unregisterAll (hs : List HandlerId) (b : Board) :
    (Action.forEach hs unregister b).quietly = (some (), hs.foldl dismissed b) := by
  induction hs generalizing b with
  | nil => rfl
  | cons h hs ih =>
    have hthen := Talk.quietly_andThen (unregister h b) fun _ => Action.forEach hs unregister
    rw [quietly_unregister] at hthen
    exact hthen.trans (ih (b.dismissed h))

/-- A board stays bare when some handlers end. -/
theorem bare_dismissedAll (hb : b.Bare) (hs : List HandlerId) : (hs.foldl dismissed b).Bare :=
  Bare.foldl (f := dismissed) (fun h _ ha => ha.dismissed h) hs hb

/-- Everybody who was to end is over. -/
theorem over_dismissedAll {hs : List HandlerId} (hh : h ∈ hs ∨ b.phase h = .unregistered) :
    (hs.foldl dismissed b).phase h = .unregistered := by
  induction hs generalizing b with
  | nil => exact hh.resolve_left List.not_mem_nil
  | cons x hs ih =>
    have hphase := (dismissed_quiet b x).2.2 h
    refine ih ?_
    by_cases hx : h = x
    · exact .inr (hphase.trans (if_pos hx))
    · rw [if_neg hx] at hphase
      exact hh.imp (fun hm => (List.mem_cons.mp hm).resolve_left hx) fun hp => hphase.trans hp

variable {visit visit' : Visit}

/-- What comes of a drain while listeners only return. -/
def drainedIn (visit : Visit) (r : RegistryId) (b : Board) : Board :=
  ((visit r (b.takeAll r).1).foldl dismissed (b.takeAll r).2).letGoAll (visit r (b.takeAll r).1)

/-- What comes of a coordinator that shuts down while listeners only return. -/
def shutInto (visit : Visit) (b : Board) (c : CoordinatorId) : Board :=
  if b.hasCoordinator c then
    ((b.ownCoordinator c).drainedIn visit (b.coordinator c).registry).disownCoordinator c
  else b

/-- What is left of a table when nobody does anything meanwhile. -/
theorem quietly_drain (r : RegistryId) (b : Board) :
    (drain visit r b).quietly = (some (), b.drainedIn visit r) := by
  change ((Action.forEach (visit r (b.takeAll r).1) unregister (b.takeAll r).2).ensuring _).quietly
    = _
  rw [Talk.quietly_ensuring, quietly_unregisterAll]
  rfl

/-- What is left of a coordinator when nobody does anything meanwhile. -/
theorem quietly_shutDown (c : CoordinatorId) (b : Board) :
    (shutDown visit c b).quietly = (some (), b.shutInto visit c) := by
  change Talk.quietly ((if b.hasCoordinator c = true then
    withCoordinator c fun co => drain visit co.registry else pure ()) b) = _
  unfold shutInto
  split
  · change ((drain visit (b.coordinator c).registry (b.ownCoordinator c)).ensuring _).quietly = _
    rw [Talk.quietly_ensuring, quietly_drain]
  · rfl

/-- What is left of some coordinators when nobody does anything meanwhile. -/
theorem quietly_shutDownAll (observers : List CoordinatorId) (b : Board) :
    (Action.forEach observers (shutDown visit) b).quietly =
      (some (), observers.foldl (shutInto visit) b) := by
  induction observers generalizing b with
  | nil => rfl
  | cons c observers ih =>
    have hthen := Talk.quietly_andThen (shutDown visit c b) fun _ =>
      Action.forEach observers (shutDown visit)
    rw [quietly_shutDown] at hthen
    exact hthen.trans (ih (b.shutInto visit c))

/-- What comes of a signal that fires while listeners only return. -/
theorem quietly_fire (b : Board) : (fire visit b).quietly =
    (some b.signal.fire.1.length, b.signal.fire.1.foldl (shutInto visit) b.fired) := by
  rw [fire_eq, Talk.quietly_andThen, quietly_shutDownAll]
  rfl

/-- A board stays bare when a table is drained. -/
theorem Bare.drainedIn (hb : b.Bare) (r : RegistryId) : (b.drainedIn visit r).Bare :=
  (bare_dismissedAll (hb.of_handlers (d := (b.takeAll r).2) rfl) _).letGoAll _

/-- A board stays bare when a coordinator is shut down. -/
theorem Bare.shutInto (hb : b.Bare) (c : CoordinatorId) : (b.shutInto visit c).Bare := by
  unfold Board.shutInto
  split
  · exact ((hb.of_handlers (d := b.ownCoordinator c) rfl).drainedIn _).disownCoordinator c
  · exact hb

section Fair

/-- A registry is drained in any order. -/
theorem SameButTellingOrder.drainedIn (hb : b.SameButTellingOrder b') (hbare : b.Bare)
    (r : RegistryId) :
    (b.drainedIn visit r).SameButTellingOrder (b'.drainedIn visit' r) := by
  have htaken : (b.takeAll r).2.SameButTellingOrder (b'.takeAll r).2 :=
    hb.deaf (f := fun b => (b.takeAll r).2) fun _ _ => rfl
  have hsame : (b'.takeAll r).1 = (b.takeAll r).1 := by
    rw [hb.rest]
    rfl
  have hperm : (visit r (b.takeAll r).1).Perm (visit' r (b'.takeAll r).1) := by
    rw [hsame]
    exact (visit.fair r _).trans (visit'.fair r _).symm
  have hbare' : b'.Bare := by
    rw [hb.rest]
    exact hbare.of_handlers rfl
  have hnothing : ∀ {b : Board} (hs : List HandlerId), b.Bare → ∀ h ∈ hs,
      ((hs.foldl Board.dismissed (b.takeAll r).2).handler h).registration = none :=
    fun {b} hs hb h hh => bare_dismissedAll (hb.of_handlers (d := (b.takeAll r).2) rfl) hs h
      (over_dismissedAll (.inl hh))
  have herase : ∀ held : List HandlerId, (visit' r (b'.takeAll r).1).foldl List.erase held =
      (visit r (b.takeAll r).1).foldl List.erase held := fun held =>
    (hperm.foldl_eq' (fun x _ y _ _ => List.erase_comm x y) held).symm
  have hended := sameButTellingOrder_of_perm hperm htaken
  unfold Board.drainedIn
  rw [letGoAll_bare (hnothing _ hbare), letGoAll_bare (hnothing _ hbare'), herase]
  exact hended.deaf (f := fun a =>
    { a with held := (visit r (b.takeAll r).1).foldl List.erase a.held }) fun _ _ => rfl

/-- A coordinator shuts down in any order. -/
theorem SameButTellingOrder.shutInto (hb : b.SameButTellingOrder b') (hbare : b.Bare)
    (c : CoordinatorId) :
    (b.shutInto visit c).SameButTellingOrder (b'.shutInto visit' c) := by
  have hthere : b'.hasCoordinator c = b.hasCoordinator c := by
    rw [hb.rest]
    rfl
  have hregistry : (b'.coordinator c).registry = (b.coordinator c).registry := by
    rw [hb.rest]
    rfl
  unfold Board.shutInto
  rw [hthere, hregistry]
  split
  · have howned : (b.ownCoordinator c).SameButTellingOrder (b'.ownCoordinator c) :=
      hb.deaf (f := (·.ownCoordinator c)) fun _ _ => rfl
    exact (howned.drainedIn (hbare.of_handlers rfl) _).deaf (deaf_disownCoordinator c)
  · exact hb

/-- But for the order in which different listeners are told, nothing depends on the order in which
handlers are visited when the signal fires while listeners only return. -/
theorem sameButTellingOrder_fire (hbare : b.Bare) :
    (fire visit b).quietly.1 = (fire visit' b).quietly.1 ∧
      (fire visit b).quietly.2.SameButTellingOrder (fire visit' b).quietly.2 := by
  have hall : ∀ (observers : List CoordinatorId) {a a' : Board}, a.Bare → a.SameButTellingOrder a' →
      (observers.foldl (Board.shutInto visit) a).SameButTellingOrder
        (observers.foldl (Board.shutInto visit') a') := by
    intro observers
    induction observers with
    | nil => exact fun _ ha => ha
    | cons c observers ih =>
      exact fun hbare ha => ih (hbare.shutInto c) (ha.shutInto hbare c)
  rw [quietly_fire, quietly_fire]
  exact ⟨rfl, hall _ (hbare.of_handlers rfl) (.refl _)⟩

end Fair

end Board

end ToastBoard
