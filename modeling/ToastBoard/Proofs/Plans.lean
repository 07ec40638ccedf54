import ToastBoard.Proofs.Operations
import ToastBoard.Proofs.Succession

/-!
# What a coordinator was asked for

A plan says what the operations of a coordinator come to, whatever its worker has got round to: the
alerts that were shown, in order, the handlers that have to end, and the table. A board follows a
plan if it agrees with that. Every operation takes a board that follows a plan to one that follows
the plan after it, and a step of the worker leaves it following the plan that it had.
-/

namespace ToastBoard

open Board

/-- What the operations of a coordinator come to. -/
structure Plan where
  /-- The alerts that handlers were made for, with their listeners. -/
  shown : List (Snapshot × Option ListenerId) := []
  /-- The handlers that have been displaced, closed or drained. -/
  ended : List HandlerId := []
  /-- Who stands under each name. -/
  table : Registry := {}
  /-- Whether new alerts are dropped. -/
  suppressed : Bool := false
  /-- Whether the signal has fired. -/
  fired : Bool := false

namespace Plan

variable {p : Plan}

/-- The plan after an alert was given to be shown. -/
def offer (p : Plan) (source : Source) (listener : Option ListenerId) : Plan :=
  if p.suppressed = true then p
  else match source.read.result with
    | .error _ => p
    | .ok fields =>
      { p with
        shown := p.shown ++ [(fields, listener)]
        ended := (p.table.get? fields.name).toList ++ p.ended
        table := p.table.insert fields.name p.shown.length }

/-- The plan after a name was closed. -/
def close (p : Plan) (name : String) : Plan :=
  { p with ended := (p.table.get? name).toList ++ p.ended, table := p.table.erase name }

/-- The plan after the signal was fired. -/
def shut (p : Plan) : Plan :=
  if p.fired = true then p
  else { p with fired := true, ended := p.table.handlers ++ p.ended,
                table := { p.table with entries := [] } }

/-- Showing does not change whether alerts are dropped. -/
theorem suppressed_offer (source : Source) (listener : Option ListenerId) :
    (p.offer source listener).suppressed = p.suppressed := by
  unfold offer
  split
  · rfl
  · cases source.read.result <;> rfl

/-- Nor does the signal. -/
theorem suppressed_shut : p.shut.suppressed = p.suppressed := by
  unfold shut
  split <;> rfl

/-- The plan after an operation. -/
def after (p : Plan) : Operation → Plan
  | .showAlert source listener => p.offer source listener
  | .closeAlert name => p.close name
  | .suppress suppressed => { p with suppressed }
  | .fire _ => p.shut

/-- There is one entry to a name, and whoever was shown has ended or stands in the table. -/
structure Whole (p : Plan) : Prop where
  /-- There is one entry to a name. -/
  single : p.table.OnePerName
  /-- An entry stands under the name of its alert. -/
  named : ∀ {name h}, (name, h) ∈ p.table.entries →
    (p.shown[h]?).map (·.1.name) = some name
  /-- Handlers that were made have ended or stand in the table. -/
  settled : ∀ h, h < p.shown.length ↔ h ∈ p.table.handlers ++ p.ended
  /-- None has ended twice, or has ended and stands in the table. -/
  once : (p.table.handlers ++ p.ended).Nodup

namespace Whole

theorem start : Whole {} :=
  ⟨List.nodup_nil, by simp, fun h => ⟨fun hlt => absurd hlt (Nat.not_lt_zero h),
    fun hm => by cases hm⟩, List.nodup_nil⟩

/-- What stands under a name ends, and the rest stays in the table. -/
theorem taken (hp : p.Whole) (name : String) : (p.table.handlers ++ p.ended).Perm
    ((p.table.erase name).handlers ++ ((p.table.get? name).toList ++ p.ended)) := by
  rw [← List.append_assoc]
  exact ((Registry.perm_handlers hp.single name).trans List.perm_append_comm).append_right _

theorem offer (hp : p.Whole) (source : Source) (listener : Option ListenerId) :
    (p.offer source listener).Whole := by
  unfold Plan.offer
  split
  · exact hp
  · cases source.read.result with
    | error e => exact hp
    | ok fields =>
      have htaken := hp.taken fields.name
      have hperm : (p.shown.length :: (p.table.handlers ++ p.ended)).Perm
          ((p.table.insert fields.name p.shown.length).handlers ++
            ((p.table.get? fields.name).toList ++ p.ended)) := by
        rw [Registry.handlers_insert, List.append_assoc]
        exact (htaken.cons _).trans List.perm_middle.symm
      refine ⟨Registry.onePerName_insert _ _ hp.single, fun {name h} hm => ?_, fun h => ?_,
        hperm.nodup_iff.mp (List.nodup_cons.mpr ⟨fun hm => ?_, hp.once⟩)⟩
      · change Option.map _ (p.shown ++ [(fields, listener)])[h]? = _
        rcases Registry.mem_entries_insert.mp hm with ⟨hm, -⟩ | ⟨rfl, rfl⟩
        · have hlt := (hp.settled h).mpr
            (List.mem_append_left _ (Registry.mem_handlers.mpr ⟨_, hm⟩))
          rw [List.getElem?_append_left hlt]
          exact hp.named hm
        · rw [List.getElem?_concat_length]
          rfl
      · rw [← hperm.mem_iff, List.mem_cons, ← hp.settled, List.length_append]
        exact Nat.lt_succ_iff_lt_or_eq.trans or_comm
      · exact Nat.lt_irrefl _ ((hp.settled _).mpr hm)

theorem close (hp : p.Whole) (name : String) : (p.close name).Whole :=
  ⟨Registry.onePerName_erase _ hp.single, fun hm => hp.named (Registry.mem_entries_erase.mp hm).1,
    fun h => (hp.settled h).trans (hp.taken name).mem_iff, (hp.taken name).nodup_iff.mp hp.once⟩

theorem shut (hp : p.Whole) : p.shut.Whole := by
  unfold Plan.shut
  split
  · exact hp
  · exact ⟨List.nodup_nil, by simp, hp.settled, hp.once⟩

theorem after (hp : p.Whole) : (op : Operation) → (p.after op).Whole
  | .showAlert source listener => hp.offer source listener
  | .closeAlert name => hp.close name
  | .suppress _ => ⟨hp.single, hp.named, hp.settled, hp.once⟩
  | .fire _ => hp.shut

end Whole

end Plan

namespace Board

variable {b b' : Board} {h : HandlerId} {p : Plan} {co : Coordinator} {identity : Option String}

/-- What handlers were made for, in the order in which they were made. -/
def alerts (b : Board) : List (Snapshot × Option ListenerId) :=
  (List.range b.handlers.length).map fun h => ((b.handler h).fields, (b.handler h).listener)

theorem length_alerts (b : Board) : b.alerts.length = b.handlers.length := by simp [alerts]

/-- What a handler was made for stays. -/
theorem alerts_onward (ho : b.Onward b') (hl : b'.handlers.length = b.handlers.length) :
    b'.alerts = b.alerts := by
  rw [alerts, hl]
  refine List.map_congr_left fun x hx => ?_
  have hlt := List.mem_range.mp hx
  rw [ho.fields x hlt, ho.listener x hlt]

/-- A new handler comes after the others. -/
theorem alerts_create (b : Board) (hd : Handler) :
    (b.create hd).2.alerts = b.alerts ++ [(hd.fields, hd.listener)] := by
  have hlength := length_create b hd
  have hnew := handler_create_self b hd
  have honward := onward_create b hd
  rw [alerts, hlength, List.range_succ, List.map_append]
  refine congrArg₂ _ (List.map_congr_left fun x hx => ?_) ?_
  · have hlt := List.mem_range.mp hx
    rw [honward.fields x hlt, honward.listener x hlt]
  · rw [List.map_singleton, hnew]

/-- A board whose worker may be behind with a plan, but for the coordinator whose worker it is. -/
structure Follows (p : Plan) (b : Board) : Prop where
  /-- Nothing goes wrong. -/
  steady : b.Steady 0
  /-- Handlers are registered in the order in which they were made. -/
  lined : b.Lined 0
  /-- Handlers are those of the plan. -/
  made : b.alerts = p.shown
  /-- Those that have to end are over. -/
  gone : ∀ h < b.handlers.length, b.phase h = .unregistered ↔ h ∈ p.ended
  /-- All have been submitted. -/
  begun : ∀ h, b.phase h ≠ .created
  /-- They were made for the registry. -/
  home : ∀ h < b.handlers.length, (b.handler h).registry = some 0
  /-- There is one registry, with the table of the plan. -/
  registries : b.registries = [p.table]
  /-- One coordinator observes the signal until that fires. -/
  signal : b.signal = { fired := p.fired, observers := if p.fired then [] else [0] }

namespace Follows

theorem length (hb : b.Follows p) : b.handlers.length = p.shown.length := by
  rw [← hb.made, length_alerts]

theorem registry (hb : b.Follows p) : b.registry 0 = p.table := by
  rw [Board.registry, hb.registries]
  rfl

/-- An entry stands under the name of its handler. -/
theorem name_of_entry (hb : b.Follows p) (hp : p.Whole) {name : String}
    (he : (name, h) ∈ p.table.entries) : (b.handler h).name = name := by
  have hlt : h < b.handlers.length := by
    rw [hb.length]
    exact (hp.settled h).mpr (List.mem_append_left _ (Registry.mem_handlers.mpr ⟨name, he⟩))
  have hname := hp.named he
  rw [← hb.made, alerts, List.getElem?_map, List.getElem?_range hlt] at hname
  exact Option.some.inj hname

/-- A step of the worker is not part of a plan. -/
theorem work (hb : b.Follows p) (hj : b.Jobs) : (b.work 0).Follows p := by
  have htoils := hb.steady.toils hj
  refine ⟨hb.steady.work hj, hb.lined.work hb.steady hj, ?_, fun h hlt => ?_, fun h hp =>
    hb.begun h ((htoils.unbegun h).mp hp), fun h hlt => ?_, htoils.registries.trans hb.registries,
    htoils.signal.trans hb.signal⟩
  · rw [alerts_onward htoils.onward htoils.length, hb.made]
  · rw [htoils.gone]
    exact hb.gone h (htoils.length ▸ hlt)
  · rw [htoils.length] at hlt
    rw [htoils.onward.registry h hlt]
    exact hb.home h hlt

/-- Some handlers end. -/
theorem ends (hb : b.Follows p) {hs : List HandlerId} (he : b.Ends hs b') :
    b'.Follows { p with ended := hs ++ p.ended } := by
  refine ⟨hb.steady.stirs he.toStirs, hb.lined.stirs he.toStirs, ?_, fun h hlt => ?_, fun h => ?_,
    fun h hlt => ?_, he.registries.trans hb.registries, he.signal.trans hb.signal⟩
  · rw [alerts_onward he.onward he.length, hb.made]
  · rw [he.stands, List.mem_append, ← hb.gone h (he.length ▸ hlt)]
    split <;> rename_i hm <;> simp [hm]
  · rw [he.stands]
    split
    · exact Phase.noConfusion
    · exact hb.begun h
  · rw [he.length] at hlt
    rw [he.onward.registry h hlt]
    exact hb.home h hlt

/-- The table changes. -/
theorem retable (hb : b.Follows p) {table : Registry} (hh : b'.handlers = b.handlers)
    (hs : b'.stations = b.stations) (hscreen : b'.screen = b.screen)
    (hr : b'.registries = [table]) (hsignal : b'.signal = b.signal) :
    b'.Follows { p with table } := by
  have hstirs : b.Stirs b' := stirs_of_handlers hh hs hscreen
  have hphase : ∀ x, b'.phase x = b.phase x := fun x => by rw [phase, handler, hh]; rfl
  refine ⟨hb.steady.stirs hstirs, hb.lined.stirs hstirs, ?_, fun h hlt => ?_, fun h => ?_,
    fun h hlt => ?_, hr, hsignal.trans hb.signal⟩
  · rw [alerts_onward hstirs.onward (by rw [hh]), hb.made]
  · rw [hphase]
    exact hb.gone h (hh ▸ hlt)
  · rw [hphase]
    exact hb.begun h
  · rw [hh] at hlt
    rw [hstirs.onward.registry h hlt]
    exact hb.home h hlt

/-- Coordinators do not matter. -/
theorem same (hb : b.Follows p) (hh : b'.handlers = b.handlers) (hs : b'.stations = b.stations)
    (hscreen : b'.screen = b.screen) (hr : b'.registries = b.registries)
    (hsignal : b'.signal = b.signal) : b'.Follows p :=
  hb.retable hh hs hscreen (hr.trans hb.registries) hsignal

end Follows

section Entrusting

variable {hd : Handler}

/-- A new handler that was queued is initializing, and the others are as they were. -/
theorem phase_entrusted (b : Board) (co : Coordinator) (hd : Handler) (x : HandlerId) :
    ((b.create hd).2.entrusted co b.handlers.length).phase x =
      if x = b.handlers.length then .initializing else b.phase x := by
  have hhandlers := handlers_install (b := (b.create hd).2) (r := co.registry)
    ((b.create hd).2.handler b.handlers.length).name b.handlers.length
  have hlt : b.handlers.length < ((b.create hd).2.install co.registry
      ((b.create hd).2.handler b.handlers.length).name b.handlers.length).2.handlers.length := by
    rw [hhandlers, length_create]
    exact Nat.lt_succ_self _
  rw [entrusted, phase_queued hlt]
  split
  · rfl
  · rename_i hx
    rw [phase, handler, hhandlers]
    exact phase_create_of_ne hx hd

theorem length_entrusted (b : Board) (co : Coordinator) (hd : Handler) :
    ((b.create hd).2.entrusted co b.handlers.length).handlers.length = b.handlers.length + 1 := by
  rw [entrusted, queued, setWorker]
  exact (length_update ..).trans (by rw [handlers_install, length_create])

/-- What a new handler was made for stays when it is put under its name and queued. -/
theorem onward_entrusted (hb : b.Steady co.station) (hcreated : hd.phase = .created)
    (hnone : hd.registration = none) (hpending : hd.pending = none) :
    (b.create hd).2.Onward ((b.create hd).2.entrusted co b.handlers.length) := by
  have hinstall := stirs_install (b := (b.create hd).2) co.registry
    ((b.create hd).2.handler b.handlers.length).name b.handlers.length
  have hphase : ((b.create hd).2.install co.registry
      ((b.create hd).2.handler b.handlers.length).name b.handlers.length).2.phase
        b.handlers.length = .created := by
    rw [phase_install]
    exact (phase_create_self b hd).trans hcreated
  have hsubmit := (hb.stirs ((stirs_create hcreated hnone hpending).trans hinstall)).submit hphase
  have hquiet := submit_quiet ((b.create hd).2.install co.registry
    ((b.create hd).2.handler b.handlers.length).name b.handlers.length).2 co.station
      b.handlers.length
  rw [hsubmit] at hquiet
  exact hinstall.onward.trans hquiet.1

/-- A new handler that is put under its name and queued comes last in line. -/
theorem lined_entrusted (hb : b.Steady co.station) (hl : b.Lined co.station)
    (hcreated : hd.phase = .created) (hnone : hd.registration = none)
    (hpending : hd.pending = none) :
    ((b.create hd).2.entrusted co b.handlers.length).Steady co.station ∧
      ((b.create hd).2.entrusted co b.handlers.length).Lined co.station := by
  have hstirs : b.Stirs ((b.create hd).2.install co.registry
      ((b.create hd).2.handler b.handlers.length).name b.handlers.length).2 :=
    (stirs_create hcreated hnone hpending).trans (stirs_install ..)
  have hsteady := hb.stirs hstirs
  have hlt : b.handlers.length < ((b.create hd).2.install co.registry
      ((b.create hd).2.handler b.handlers.length).name b.handlers.length).2.handlers.length := by
    rw [handlers_install, length_create]
    exact Nat.lt_succ_self _
  refine ⟨hsteady.queued hlt, (hl.stirs hstirs).queued hsteady.lt_stations hlt fun x hx => ?_⟩
  rw [hstirs.line] at hx
  exact hl.known x hx

end Entrusting

namespace Follows

/-- A new handler is put under its name and queued. -/
theorem entrusted (hb : b.Follows p) (hp : p.Whole) (hstation : co.station = 0)
    (hregistry : co.registry = 0) (hd : Handler) (hhome : hd.registry = some 0)
    (hcreated : hd.phase = .created)
    (hnone : hd.registration = none) (hpending : hd.pending = none) :
    ((b.create hd).2.entrusted co b.handlers.length).Follows
      { p with shown := p.shown ++ [(hd.fields, hd.listener)]
               table := p.table.insert hd.name p.shown.length } := by
  have hphase := phase_entrusted b co hd
  have hlength := length_entrusted b co hd
  have hsteady : b.Steady co.station := hstation ▸ hb.steady
  have hline : b.Lined co.station := hstation ▸ hb.lined
  have honward := onward_entrusted hsteady hcreated hnone hpending
  have hlined := lined_entrusted hsteady hline hcreated hnone hpending
  rw [hstation] at hlined
  have hentrusted : (b.create hd).2.entrusted co b.handlers.length =
      ((b.create hd).2.install 0 hd.name b.handlers.length).2.queued 0 b.handlers.length := by
    rw [Board.entrusted, hstation, hregistry, handler_create_self]
  refine ⟨hlined.1, hlined.2, ?_, fun x hx => ?_, fun x => ?_, fun x hx => ?_, ?_, ?_⟩
  · rw [alerts_onward honward (hlength.trans (length_create b hd).symm), alerts_create, hb.made]
  · rw [hphase]
    split
    · rename_i hx
      refine ⟨fun hp => Phase.noConfusion hp, fun hm => ?_⟩
      have hold := (hp.settled x).mpr (List.mem_append_right _ hm)
      rw [hx, hb.length] at hold
      exact absurd hold (Nat.lt_irrefl _)
    · rename_i hne
      rw [hlength] at hx
      exact hb.gone x (Nat.lt_of_le_of_ne (Nat.le_of_lt_succ hx) hne)
  · rw [hphase]
    split
    · exact Phase.noConfusion
    · exact hb.begun x
  · rw [hlength] at hx
    rw [honward.registry x (by rwa [length_create])]
    rcases Nat.lt_succ_iff_lt_or_eq.mp hx with hx | hx
    · exact ((onward_create b hd).registry x hx).trans (hb.home x hx)
    · rw [hx, handler_create_self]
      exact hhome
  · rw [hentrusted, ← hb.length]
    change ((b.create hd).2.install 0 hd.name b.handlers.length).2.registries = _
    rw [install_eq]
    change b.registries.modify 0 _ = _
    rw [hb.registries]
    rfl
  · rw [hentrusted]
    change ((b.create hd).2.install 0 hd.name b.handlers.length).2.signal = _
    rw [install_eq]
    exact hb.signal

/-- An alert is shown. -/
theorem offered (hb : b.Follows p) (hp : p.Whole) (hstation : co.station = 0)
    (hregistry : co.registry = 0) (hsuppressed : co.suppressed = p.suppressed) (source : Source)
    (listener : Option ListenerId) :
    (b.offered co source listener).Follows (p.offer source listener) := by
  unfold Board.offered Plan.offer
  rw [hsuppressed]
  split
  · exact hb
  · cases source.read.result with
    | error e => exact hb
    | ok fields =>
      have hentrusted := hb.entrusted hp hstation hregistry
        { fields, listener, registry := some co.registry } (congrArg some hregistry) rfl rfl rfl
      have hends := ends_presented
        (b := (b.create { fields, listener, registry := some co.registry }).2) co b.handlers.length
      have hname : ((b.create { fields, listener, registry := some co.registry }).2.handler
          b.handlers.length).name = fields.name :=
        congrArg Handler.name (handler_create_self b _)
      have hcurrent : (b.create { fields, listener, registry := some co.registry }).2.current?
          co.registry fields.name = p.table.get? fields.name := by
        rw [hregistry, ← hb.registry]
        rfl
      rw [hname, hcurrent] at hends
      exact hentrusted.ends hends

/-- A name is closed. -/
theorem closedUp (hb : b.Follows p) (name : String) :
    (b.closedUp 0 name).Follows (p.close name) := by
  have htaken : (b.takeEntry 0 name).2.Follows { p with table := p.table.erase name } := by
    refine hb.retable ?_ ?_ ?_ ?_ ?_ <;> rw [takeEntry_eq]
    any_goals rfl
    change b.registries.modify 0 _ = _
    rw [hb.registries]
    rfl
  have hends := ends_closedUp (b := b) 0 name
  rw [show b.current? 0 name = p.table.get? name from congrArg (Registry.get? · name) hb.registry]
    at hends
  exact htaken.ends hends

/-- The signal fires. -/
theorem fired (hb : b.Follows p) : b.fired.Follows { p with fired := true } := by
  refine ⟨hb.steady.same rfl rfl rfl, hb.lined.stirs (stirs_of_handlers rfl rfl rfl), hb.made,
    hb.gone, hb.begun, hb.home, hb.registries, ?_⟩
  change b.signal.fire.2 = _
  rw [hb.signal, Signal.fire]
  cases p.fired <;> rfl

/-- The registry is drained, in any order. -/
theorem drainedIn (hb : b.Follows p) (visit : Visit) :
    (b.drainedIn visit 0).Follows
      { p with ended := p.table.handlers ++ p.ended, table := { p.table with entries := [] } } := by
  have htaken : (b.takeAll 0).2.Follows { p with table := { p.table with entries := [] } } := by
    refine hb.retable rfl rfl rfl ?_ rfl
    change b.registries.modify 0 _ = _
    rw [hb.registries]
    rfl
  have hends := ends_drainedIn (b := b) visit 0
  rw [hb.registry] at hends
  exact htaken.ends hends

end Follows

/-- A board on which nobody but a coordinator and its owner have anything. -/
def founded : Terms where
  holders := []
  owners := []
  coords := []
  founders := [0]
  ending := []
  reported := []

/-- A board with one coordinator that has a plan, with which its worker may be behind. -/
structure Heeds (identity : Option String) (p : Plan) (b : Board) : Prop where
  /-- The plan is whole. -/
  whole : p.Whole
  /-- The plan is followed. -/
  follows : b.Follows p
  /-- There is one coordinator, with one owner. -/
  coordinators : b.coordinators =
    [{ registry := 0, station := 0, suppressed := p.suppressed, identity }]

namespace Heeds

theorem coordinator (hb : b.Heeds identity p) : b.coordinator 0 =
    { registry := 0, station := 0, suppressed := p.suppressed, identity } := by
  rw [Board.coordinator, hb.coordinators]
  rfl

theorem owners (hb : b.Heeds identity p) : 0 < (b.coordinator 0).owners := by
  rw [hb.coordinator]
  exact Nat.one_pos

/-- Who is over has had to end. -/
theorem over_iff (hb : b.Heeds identity p) : b.phase h = .unregistered ↔
    h ∈ p.ended ∨ p.shown.length ≤ h := by
  rcases Nat.lt_or_ge h b.handlers.length with hlt | hge
  · rw [hb.follows.gone h hlt, ← hb.follows.length]
    exact (or_iff_left (Nat.not_le_of_lt hlt)).symm
  · rw [phase, handler_of_le hge, ← hb.follows.length]
    exact ⟨fun _ => .inr hge, fun _ => rfl⟩

/-- A live handler stands in the table. -/
theorem refersTo_of_live (hb : b.Heeds identity p) (hp : b.phase h = .live) :
    b.refersTo h = true := by
  have hlt : h < b.handlers.length := lt_of_phase_ne (by rw [hp]; exact Phase.noConfusion)
  have hsettled := (hb.whole.settled h).mp (hb.follows.length ▸ hlt)
  have hended : h ∉ p.ended := by
    rw [← hb.follows.gone h hlt, hp]
    exact Phase.noConfusion
  obtain ⟨name, hm⟩ := Registry.mem_handlers.mp
    ((List.mem_append.mp hsettled).resolve_right hended)
  rw [← hb.follows.registry] at hm
  exact refersTo_of_entry 0 name hm

/-- A step of the worker. -/
theorem work (hb : b.Heeds identity p) (hj : b.Jobs) : (b.work 0).Heeds identity p where
  whole := hb.whole
  follows := hb.follows.work hj
  coordinators := (hb.follows.steady.toils hj).coordinators.trans hb.coordinators

/-- An alert is given to be shown. -/
theorem showAlert (hb : b.Heeds identity p) (source : Source) (listener : Option ListenerId) :
    (Board.showAlert 0 source listener b).quietly.2.Heeds identity (p.offer source listener) := by
  have hco := hb.coordinator
  have howned : (b.ownCoordinator 0).Follows p := hb.follows.same rfl rfl rfl rfl rfl
  rw [quietly_showAlert (hco ▸ hb.follows.steady) hb.owners, hco]
  refine ⟨hb.whole.offer source listener, (howned.offered hb.whole rfl rfl rfl source
    listener).same rfl rfl rfl rfl rfl, hb.coordinators.trans ?_⟩
  rw [Plan.suppressed_offer]

/-- A name is closed. -/
theorem closeAlert (hb : b.Heeds identity p) (name : String) :
    (Board.closeAlert 0 name b).quietly.2.Heeds identity (p.close name) := by
  have howned : (b.ownCoordinator 0).Follows p := hb.follows.same rfl rfl rfl rfl rfl
  rw [quietly_closeAlert hb.owners, hb.coordinator]
  exact ⟨hb.whole.close name, (howned.closedUp name).same rfl rfl rfl rfl rfl, hb.coordinators⟩

/-- New alerts are dropped, or no longer. -/
theorem suppress (hb : b.Heeds identity p) (suppressed : Bool) :
    (b.setSuppression 0 suppressed).Heeds identity { p with suppressed } := by
  have hsame : (b.setSuppression 0 suppressed).Follows p := hb.follows.same rfl rfl rfl rfl rfl
  refine ⟨hb.whole.after (.suppress suppressed), ⟨hsame.steady, hsame.lined, hsame.made, hsame.gone,
    hsame.begun, hsame.home, hsame.registries, hsame.signal⟩, ?_⟩
  change b.coordinators.modify 0 _ = _
  rw [hb.coordinators]
  rfl

/-- The signal fires, whatever the order of visits is. -/
theorem fire (hb : b.Heeds identity p) (visit : Visit) :
    (fire visit b).quietly.2.Heeds identity p.shut := by
  have hsignal := hb.follows.signal
  cases hf : p.fired with
  | true =>
    have hsame : p.shut = p := if_pos hf
    rw [quietly_fire_again (by rw [hsignal, hf]), hsame]
    exact hb
  | false =>
    have hshut : p.shut = { p with
        fired := true
        ended := p.table.handlers ++ p.ended
        table := { p.table with entries := [] } } := if_neg (by rw [hf]; exact Bool.noConfusion)
    have hfired : (b.fired.ownCoordinator 0).Follows { p with fired := true } :=
      hb.follows.fired.same rfl rfl rfl rfl rfl
    rw [quietly_fire_once visit hb.owners (by rw [hsignal, hf]; rfl), hb.coordinator]
    refine ⟨hb.whole.shut, ?_, ?_⟩
    · rw [hshut]
      exact (hfired.drainedIn visit).same rfl rfl rfl rfl rfl
    · rw [Plan.suppressed_shut]
      exact hb.coordinators

/-- An operation. -/
theorem after (hb : b.Heeds identity p) (op : Operation) :
    ((op.deed 0).quietly b).Heeds identity (p.after op) := by
  cases op with
  | showAlert source listener =>
    have hdeed : (Deed.showAlert 0 source listener).quietly b = _ := quietly_void _
    exact hdeed ▸ hb.showAlert source listener
  | closeAlert name => exact hb.closeAlert name
  | suppress suppressed => exact hb.suppress suppressed
  | fire visit =>
    have hdeed : (Deed.fire visit).quietly b = _ := quietly_void _
    exact hdeed ▸ hb.fire visit

end Heeds

/-- A board in order with one coordinator, whose worker may be behind with a plan. -/
structure Pursues (identity : Option String) (p : Plan) (b : Board) : Prop extends
    Heeds identity p b where
  /-- The board is in order. -/
  sound : b.Sound false {} founded

namespace Pursues

theorem coordinator (hb : b.Pursues identity p) : b.coordinator 0 =
    { registry := 0, station := 0, suppressed := p.suppressed, identity } :=
  hb.toHeeds.coordinator

/-- A step of the worker. -/
theorem work (hb : b.Pursues identity p) : (b.work 0).Pursues identity p where
  toHeeds := hb.toHeeds.work hb.sound.jobs
  sound := hb.sound.work hb.follows.steady.faults

/-- An operation. -/
theorem after (hb : b.Pursues identity p) (op : Operation) :
    ((op.deed 0).quietly b).Pursues identity (p.after op) where
  toHeeds := hb.toHeeds.after op
  sound := by
    cases op with
    | fire visit => exact hb.sound.deed (d := .fire visit) trivial rfl
    | showAlert source listener =>
      exact hb.sound.deed (d := .showAlert 0 source listener) List.mem_cons_self rfl
    | closeAlert name => exact hb.sound.deed (d := .closeAlert 0 name) List.mem_cons_self rfl
    | suppress suppressed =>
      exact hb.sound.deed (d := .suppress 0 suppressed) List.mem_cons_self rfl

end Pursues

end Board

end ToastBoard
