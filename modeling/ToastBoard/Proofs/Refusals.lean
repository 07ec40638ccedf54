import Mathlib.Data.List.Nodup
import ToastBoard.Proofs.Operations
import ToastBoard.Proofs.Shutdown

/-!
# Alerts that are not shown

An alert is not shown while alerts are dropped, when something about it cannot be read, and when the
worker does not take it. Nothing is left of such an alert but, in the last case, a handler that is
over: the table of the coordinator is what it was, unless the name led to a handler that had failed
or ended, which is not put back.
-/

namespace ToastBoard

open Board

variable {c : CoordinatorId} {co : Coordinator} {source : Source} {listener : Option ListenerId}

namespace Source

/-- What there is to complain about in the answer of a getter. -/
def complaint {α : Type} (field : String) : Answer α → Option Failure
  | .ok _ => none
  | .error e => some (.ofField field e)

/-- What there is to complain about in a name that was read. -/
def namelessness : Answer String → Option Failure
  | .ok name => if name.isEmpty then some (.invalidArgument "alert name is empty") else none
  | .error _ => none

/-- Everything there is to complain about in an alert, in the order in which it would come up. -/
def complaints (s : Source) : List Failure :=
  [complaint "cookie" s.cookie, complaint "name" s.name, namelessness s.name,
    complaint "title" s.title, complaint "text" s.text, complaint "textClickable" s.textClickable,
    complaint "source" s.source, complaint "requireInteraction" s.requireInteraction,
    complaint "actions" s.actions, complaint "imageURL" s.imageUrl].filterMap id

variable {α β : Type} {field : String} {answer : Answer α} {rest : List (Option Failure)}

/-- A getter that fails is the first to complain; otherwise the reading goes on. -/
theorem fails_field_iff {next : α → Reading β} {e : Failure}
    (hnext : ∀ a, answer = .ok a →
      ((next a).result = .error e ↔ (rest.filterMap id).head? = some e)) :
    (Reading.andThen (.field field answer) next).result = .error e ↔
      ((complaint field answer :: rest).filterMap id).head? = some e := by
  cases answer with
  | error chain => simp [Reading.andThen, Reading.field, Except.mapError, complaint]
  | ok a => exact hnext a rfl

/-- An alert cannot be read if there is something to complain about, and what comes up first is
told. -/
theorem read_error_iff (s : Source) (e : Failure) :
    s.read.result = .error e ↔ s.complaints.head? = some e := by
  refine fails_field_iff fun cookie _ => fails_field_iff fun name hname => ?_
  rw [hname, namelessness]
  split
  · constructor <;> intro h <;> cases h <;> rfl
  · refine fails_field_iff fun title _ => fails_field_iff fun text _ =>
      fails_field_iff fun textClickable _ => fails_field_iff fun source _ =>
        fails_field_iff fun requireInteraction _ => fails_field_iff fun actions _ =>
          fails_field_iff fun imageUrl _ => ?_
    constructor <;> intro h <;> cases h

/-- An alert about which there is nothing to complain is read. -/
theorem read_ok_of_complaints {s : Source} (hs : s.complaints = []) :
    ∃ fields, s.read.result = .ok fields := by
  cases hr : s.read.result with
  | ok fields => exact ⟨fields, rfl⟩
  | error e =>
    rw [read_error_iff, hs] at hr
    cases hr

end Source

namespace Registry

variable (reg : Registry) (name : String) (h p : HandlerId)

/-- A table from which a new handler of a name was taken back, with the one that is put back. -/
def restored (previous : Option HandlerId) : Registry :=
  match previous with
  | some p => reg.insert name p
  | none => reg.erase name

@[simp] theorem erase_insert : (reg.insert name h).erase name = reg.erase name := by
  simp [insert, erase, List.filter_append, List.filter_filter]

@[simp] theorem insert_insert : (reg.insert name h).insert name p = reg.insert name p := by
  rw [insert, erase_insert]
  rfl

/-- It does not matter who stood under the name. -/
@[simp] theorem restored_insert (previous : Option HandlerId) :
    (reg.insert name h).restored name previous = reg.restored name previous := by
  cases previous <;> simp [restored]

variable {reg name p}

/-- What stands under a name may be put there again. -/
theorem insert_get? (hr : reg.OnePerName) (hp : reg.get? name = some p) :
    (reg.insert name p).entries.Perm reg.entries ∧ (reg.insert name p).get? = reg.get? := by
  obtain ⟨entries, owners⟩ := reg
  have hmem := (mem_entries_iff hr).mpr hp
  refine ⟨?_, funext fun key => ?_⟩
  · -- both sides are without repetition, so it is enough that they have the same members
    have hnodup := List.Nodup.of_map _ (onePerName_insert name p hr)
    refine (List.perm_ext_iff_of_nodup hnodup (List.Nodup.of_map _ hr)).mpr ?_
    rintro ⟨key, x⟩
    rw [mem_entries_insert]
    constructor
    · rintro (⟨hm, -⟩ | ⟨rfl, rfl⟩)
      · exact hm
      · exact hmem
    · intro hm
      by_cases hk : key = name
      · subst hk
        exact .inr ⟨rfl, eq_of_mem_entries hr hm hmem⟩
      · exact .inl ⟨hm, hk⟩
  · rw [get?_insert]
    split
    · rename_i hk
      rw [hk, hp]
    · rfl

end Registry

namespace Board

variable {b : Board} {hd : Handler} {e : Failure} {f : Handler → Handler}

/-- A change of the last handler. -/
theorem modify_concat {α : Type} (l : List α) (a : α) (f : α → α) :
    (l ++ [a]).modify l.length f = l ++ [f a] := by
  induction l with
  | nil => rfl
  | cons x l ih => exact congrArg (x :: ·) ih

/-- Who is put back when a new handler of a name is taken back. -/
def spared (b : Board) (r : RegistryId) (name : String) : Option HandlerId :=
  (b.current? r name).filter fun p => (b.phase p).isActive

/-- A board on which a new handler was made that has failed, and stands under its name. -/
def declined (b : Board) (r : RegistryId) (hd : Handler) : Board :=
  { b with
    handlers := b.handlers ++ [{ hd with phase := .initFailed }]
    registries := b.registries.modify r fun reg => reg.insert hd.name b.handlers.length
    held := (b.current? r hd.name).toList ++ b.handlers.length :: b.held }

/-- A board on which a new handler was made and is over, and its name was given back. -/
def withdrawn (b : Board) (r : RegistryId) (hd : Handler) : Board :=
  { b with
    handlers := b.handlers ++ [hd.retired]
    registries := b.registries.modify r fun reg => reg.restored hd.name (b.spared r hd.name) }

theorem handler_concat {b d : Board} (hh : d.handlers = b.handlers ++ [hd]) (x : HandlerId) :
    d.handler x = if x = b.handlers.length then hd else b.handler x := by
  rw [handler, hh]
  exact getD_concat ..

/-- A worker that does not take a new handler leaves it failed. -/
theorem submit_declined {r : RegistryId} {s : StationId} (hp : hd.phase = .created)
    (he : (b.station s).worker.dispatch b.handlers.length = .error e) :
    ((b.create hd).2.install r hd.name b.handlers.length).2.submit s b.handlers.length =
      (.error e, b.declined r hd) := by
  have hphase : ((b.create hd).2.install r hd.name b.handlers.length).2.phase b.handlers.length =
      .created := by
    rw [phase_install]
    exact (phase_create_self b hd).trans hp
  unfold submit
  rw [hphase]
  simp only
  have hstation : (((b.create hd).2.install r hd.name b.handlers.length).2.setPhase
      b.handlers.length .initializing).station s = b.station s := by
    rw [install_eq]
    rfl
  rw [hstation, he, install_eq]
  refine congrArg (Prod.mk _) ?_
  change ({ b with
    handlers := ((b.handlers ++ [hd]).modify b.handlers.length _).modify b.handlers.length _
    registries := _
    held := _ } : Board) = _
  rw [modify_concat, modify_concat]
  rfl

/-- A new handler that has failed stands under its name. -/
theorem isCurrent_declined {r : RegistryId} (hr : r < b.registries.length) :
    (b.declined r hd).isCurrent r hd.name b.handlers.length = true := by
  have htable : (b.declined r hd).registry r = (b.registry r).insert hd.name b.handlers.length :=
    (registry_updateRegistry b r r _).trans (if_pos ⟨rfl, hr⟩)
  rw [isCurrent, current?, htable, Registry.get?_insert, if_pos rfl]
  exact beq_self_eq_true _

/-- A new handler that has failed has nothing to release, so what becomes of the table is all that
matters when it is taken back. -/
theorem reap_declined {r : RegistryId} (hn : hd.registration = none)
    (previous : Option HandlerId) : ((b.declined r hd).updateRegistry r fun reg =>
      reg.restored hd.name previous).reap b.handlers.length = { b.declined r hd with
        registries := b.registries.modify r fun reg => reg.restored hd.name previous } := by
  have hsame : (b.declined r hd).updateRegistry r (fun reg => reg.restored hd.name previous) =
      { b.declined r hd with
        registries := b.registries.modify r fun reg => reg.restored hd.name previous } := by
    change ({ b.declined r hd with
      registries := (b.registries.modify r _).modify r _ } : Board) = _
    rw [List.modify_modify_eq]
    refine congrArg (fun f => ({ b.declined r hd with registries := b.registries.modify r f } :
      Board)) (funext fun reg => ?_)
    exact Registry.restored_insert ..
  have hlast : Board.handler { b.declined r hd with
      registries := b.registries.modify r fun reg => reg.restored hd.name previous }
        b.handlers.length = { hd with phase := .initFailed } :=
    (handler_concat rfl _).trans (if_pos rfl)
  rw [hsame]
  exact reap_of_none ((congrArg Handler.registration hlast).trans hn)

/-- When a new handler that has failed is taken back, its name is given back. -/
theorem restore_declined {r : RegistryId} (hr : r < b.registries.length)
    (hn : hd.registration = none)
    (hknown : ∀ p, b.current? r hd.name = some p → p < b.handlers.length)
    (hbare : ∀ p, (b.phase p).isActive = false → (b.handler p).registration = none) :
    ((b.declined r hd).restore r hd.name b.handlers.length (b.current? r hd.name)).2 =
      { b.declined r hd with
        registries := b.registries.modify r fun reg => reg.restored hd.name (b.spared r hd.name)
        held := b.handlers.length :: b.held } := by
  have hback := reap_declined (b := b) (r := r) hn
  unfold restore
  rw [if_pos (isCurrent_declined hr)]
  cases hcur : b.current? r hd.name with
  | none =>
    have hspared : b.spared r hd.name = none := by rw [spared, hcur, Option.filter_none]
    rw [hspared]
    refine (hback none).trans ?_
    rw [declined, hcur]
    rfl
  | some p =>
    have hlt := hknown p hcur
    have hp : ∀ d : Board, d.handlers = (b.declined r hd).handlers →
        d.handler p = b.handler p :=
      fun d hd' => (handler_concat hd' p).trans (if_neg (Nat.ne_of_lt hlt))
    have hphase : (b.declined r hd).phase p = b.phase p := congrArg Handler.phase (hp _ rfl)
    have hheld : (b.declined r hd).held.erase p = b.handlers.length :: b.held := by
      rw [declined, hcur]
      exact List.erase_cons_head ..
    cases ha : (b.phase p).isActive with
    | true =>
      have hspared : b.spared r hd.name = some p := by
        rw [spared, hcur, Option.filter_some, if_pos ha]
      rw [hspared, Option.filter_some, if_pos (by rw [hphase, ha])]
      change (((b.declined r hd).updateRegistry r fun reg =>
        reg.restored hd.name (some p)).reap b.handlers.length).letGo p = _
      rw [hback, letGo, reap, if_pos, ← hheld]
      refine refersTo_of_entry r hd.name ?_
      have hput : Board.registry { b.declined r hd with
          registries := b.registries.modify r fun reg => reg.restored hd.name (some p)
          held := (b.declined r hd).held.erase p } r = (b.registry r).insert hd.name p :=
        (registry_updateRegistry b r r _).trans (if_pos ⟨rfl, hr⟩)
      exact hput ▸ Registry.mem_entries_insert.mpr (.inr ⟨rfl, rfl⟩)
    | false =>
      have hspared : b.spared r hd.name = none := by
        rw [spared, hcur, Option.filter_some, if_neg (Bool.eq_false_iff.mp ha)]
      rw [hspared, Option.filter_some, if_neg (by rw [hphase, ha]; exact Bool.false_ne_true)]
      change (((b.declined r hd).updateRegistry r fun reg =>
        reg.restored hd.name none).reap b.handlers.length).letGo p = _
      rw [hback, letGo, reap_of_none, ← hheld]
      exact (congrArg Handler.registration (hp _ rfl)).trans (hbare p ha)

/-- A new handler that has failed ends without a word. -/
theorem unregister_declined {d : Board}
    (hd' : d.handlers = b.handlers ++ [{ hd with phase := .initFailed }])
    (hn : hd.registration = none) : unregister b.handlers.length d =
      .ended (some ()) { d with handlers := b.handlers ++ [hd.retired] } := by
  have hself : d.handler b.handlers.length = { hd with phase := .initFailed } :=
    (handler_concat hd' _).trans (if_pos rfl)
  have hphase : d.phase b.handlers.length = .initFailed := congrArg Handler.phase hself
  have hregistration : (d.handler b.handlers.length).registration = none := by rw [hself, hn]
  have hretire : d.retire b.handlers.length =
      { d with handlers := b.handlers ++ [hd.retired] } := by
    rw [retire, hregistration, releaseToast, update, hd', modify_concat]
    rfl
  rw [unregister_eq, hphase, if_neg Phase.noConfusion, if_neg Phase.noConfusion, hretire]

/-- A coordinator whose worker does not take a new handler takes it back. -/
theorem present_refused (hr : co.registry < b.registries.length) (hp : hd.phase = .created)
    (hn : hd.registration = none)
    (hknown : ∀ p, b.current? co.registry hd.name = some p → p < b.handlers.length)
    (hbare : ∀ p, (b.phase p).isActive = false → (b.handler p).registration = none)
    (he : (b.station co.station).worker.dispatch b.handlers.length = .error e) :
    Act.thenLetGo b.handlers.length (present co b.handlers.length) (b.create hd).2 =
      .ended (some (.error e)) (b.withdrawn co.registry hd) := by
  have hname : ((b.create hd).2.handler b.handlers.length).name = hd.name :=
    congrArg Handler.name (handler_create_self b hd)
  have hold : ((b.create hd).2.install co.registry hd.name b.handlers.length).1 =
      b.current? co.registry hd.name := by
    rw [install_eq]
    rfl
  have hsubmit := submit_declined (r := co.registry) hp he
  have hend : rollBack co.registry hd.name b.handlers.length (b.current? co.registry hd.name)
      (b.declined co.registry hd) = .ended (some ()) { b.withdrawn co.registry hd with
        held := b.handlers.length :: b.held } := by
    change unregister b.handlers.length ((b.declined co.registry hd).restore co.registry hd.name
      b.handlers.length (b.current? co.registry hd.name)).2 = _
    rw [restore_declined hr hn hknown hbare]
    exact unregister_declined rfl hn
  change (present co b.handlers.length (b.create hd).2).ensuring (·.letGo b.handlers.length) = _
  rw [present_eq, hname, hold, entrust_refused (by rw [hsubmit]), hsubmit, hend]
  refine congrArg (Talk.ended _) ?_
  have hlast : (b.withdrawn co.registry hd).held = (b.handlers.length :: b.held).erase
      b.handlers.length := (List.erase_cons_head ..).symm
  have hself : (b.withdrawn co.registry hd).handler b.handlers.length = hd.retired :=
    (handler_concat rfl _).trans (if_pos rfl)
  have hgone : (b.withdrawn co.registry hd).reap b.handlers.length = b.withdrawn co.registry hd :=
    reap_of_none (congrArg Handler.registration hself)
  exact (congrArg (fun held => Board.reap { b.withdrawn co.registry hd with held }
    b.handlers.length) hlast.symm).trans hgone

/-- What is left of a new handler that a worker did not take: it is over, and nothing else has
changed but that its name may have been taken out of the table. -/
structure TurnsAway (b : Board) (r : RegistryId) (hd : Handler) (b' : Board) : Prop where
  /-- Everybody is as before, and the new handler is over. -/
  handlers : b'.handlers = b.handlers ++ [{ hd with phase := .unregistered }]
  /-- Nothing is queued. -/
  stations : b'.stations = b.stations
  /-- Nothing is shown, or withdrawn. -/
  screen : b'.screen = b.screen
  /-- No listener was told anything. -/
  told : b'.told = b.told
  /-- The same handlers are held. -/
  held : b'.held = b.held
  /-- The same coordinators. -/
  coordinators : b'.coordinators = b.coordinators
  /-- The same signal. -/
  signal : b'.signal = b.signal
  /-- Other registries are as before. -/
  others : ∀ q ≠ r, b'.registry q = b.registry q
  /-- As many registries, with the same owners. -/
  owners : b'.registries.length = b.registries.length ∧
    (b'.registry r).owners = (b.registry r).owners
  /-- If nobody stood under the name, or somebody who has neither failed nor ended, then the same
  handlers stand under the same names. -/
  same : (∀ p, b.current? r hd.name = some p →
      b.phase p = .created ∨ b.phase p = .initializing ∨ b.phase p = .live) →
    (b'.registry r).entries.Perm (b.registry r).entries ∧
      ∀ name, b'.current? r name = b.current? r name
  /-- Otherwise the name is taken out. -/
  cleared : (∃ p, b.current? r hd.name = some p ∧
      (b.phase p = .initFailed ∨ b.phase p = .unregistered)) →
    b'.registry r = (b.registry r).erase hd.name

/-- Nothing else is left of a handler that was withdrawn. -/
theorem turnsAway_withdrawn {r : RegistryId} (hr : r < b.registries.length)
    (hone : (b.registry r).OnePerName) (hn : hd.registration = none) :
    b.TurnsAway r hd (b.withdrawn r hd) := by
  have hother : ∀ q ≠ r, (b.withdrawn r hd).registry q = b.registry q := fun q hq =>
    (registry_updateRegistry b r q _).trans (if_neg fun h => hq h.1)
  have htable : (b.withdrawn r hd).registry r =
      (b.registry r).restored hd.name (b.spared r hd.name) :=
    (registry_updateRegistry b r r _).trans (if_pos ⟨rfl, hr⟩)
  have hspared : ∀ {p}, b.current? r hd.name = some p →
      b.spared r hd.name = if (b.phase p).isActive = true then some p else none := fun hp => by
    rw [spared, hp, Option.filter_some]
  refine ⟨?_, rfl, rfl, rfl, rfl, rfl, rfl, hother, ⟨List.length_modify .., ?_⟩, ?_, ?_⟩
  · exact congrArg (b.handlers ++ [·]) (congrArg (fun x => { hd with
      phase := .unregistered, registration := x }) hn.symm)
  · rw [htable]
    cases b.spared r hd.name <;> rfl
  · intro hactive
    simp only [current?, htable]
    cases hcur : b.current? r hd.name with
    | none =>
      have hnobody : b.spared r hd.name = none := by rw [spared, hcur, Option.filter_none]
      have hsame : (b.registry r).restored hd.name none = b.registry r :=
        Registry.erase_of_get?_none hone hcur
      rw [hnobody, hsame]
      exact ⟨.refl _, fun _ => rfl⟩
    | some p =>
      have ha : (b.phase p).isActive = true := by
        rcases hactive p hcur with hp | hp | hp <;> rw [hp] <;> rfl
      obtain ⟨hperm, hget⟩ := Registry.insert_get? hone hcur
      rw [hspared hcur, if_pos ha]
      exact ⟨hperm, congrFun hget⟩
  · rintro ⟨p, hcur, hp⟩
    have ha : ¬(b.phase p).isActive = true := by
      rcases hp with hp | hp <;> rw [hp] <;> exact Bool.false_ne_true
    rw [htable, hspared hcur, if_neg ha]
    rfl

/-- What is done in the name of a coordinator, tells nobody and does not concern coordinators. -/
theorem withCoordinator_ended {α : Type} {act : Coordinator → Act α} {a : Option α} {d : Board}
    (hc : 0 < (b.coordinator c).owners)
    (hact : act (b.coordinator c) (b.ownCoordinator c) = .ended a d)
    (hd : d.coordinators = (b.ownCoordinator c).coordinators) :
    withCoordinator c act b = .ended a { d with coordinators := b.coordinators } := by
  change (act (b.coordinator c) (b.ownCoordinator c)).ensuring (·.disownCoordinator c) = _
  rw [hact]
  exact congrArg (Talk.ended a) (disownCoordinator_of_owned hc hd)

end Board

/-- A worker that does not take a job says why. -/
theorem Worker.dispatch_error {Job : Type} {w : Worker Job} {job : Job} {e : Failure}
    (he : w.dispatch job = .error e) : ∃ reason, e = .dispatch reason := by
  unfold dispatch send at he
  split at he
  · exact ⟨_, (Except.error.inj he).symm⟩
  · split at he
    · exact ⟨_, (Except.error.inj he).symm⟩
    · cases he

/-- Whatever has happened before, an alert that is not shown leaves everything as it was: while
alerts are dropped none of its getters is called, what comes up first is told if it cannot be read,
and if the worker does not take it, it is taken back. -/
theorem unshown_alert_leaves_nothing {m : Moment} (course : FreeCourse m)
    (hc : m.world.board.hasCoordinator c = true) (source : Source)
    (listener : Option ListenerId) :
    ((m.world.board.coordinator c).suppressed = true →
      showAlert c source listener m.world.board = .ended (some ⟨.ok (), []⟩) m.world.board) ∧
    ((m.world.board.coordinator c).suppressed = false →
      (∀ e, source.complaints.head? = some e →
        showAlert c source listener m.world.board =
          .ended (some ⟨.error e, source.read.called⟩) m.world.board) ∧
      (source.complaints = [] → ∀ e,
        (m.world.board.station (m.world.board.coordinator c).station).worker.dispatch
          m.world.board.handlers.length = .error e →
        (∃ reason, e = .dispatch reason) ∧ ∃ fields b', source.read.result = .ok fields ∧
          showAlert c source listener m.world.board =
            .ended (some ⟨.error e, source.read.called⟩) b' ∧
          m.world.board.TurnsAway (m.world.board.coordinator c).registry
            { fields, listener, registry := some (m.world.board.coordinator c).registry } b')) := by
  obtain ⟨g, hsound⟩ := sound_of_freeCourse course
  have hknown : ∀ {r name x}, (name, x) ∈ (m.world.board.registry r).entries →
      x < m.world.board.handlers.length := (known_of_freeCourse course).entries
  generalize m.world.board = b at *
  have hpos : 0 < (b.coordinator c).owners := by simpa [hasCoordinator] using hc
  have hr := lt_of_owners (hsound.books.pos_of_backing hpos)
  refine ⟨fun hs => ?_, fun hs => ⟨fun e he => ?_, fun hn e he => ⟨?_, ?_⟩⟩⟩
  · rw [showAlert_eq]
    exact withCoordinator_ended (d := b.ownCoordinator c) hpos (if_pos hs) rfl
  · rw [showAlert_eq]
    refine withCoordinator_ended (d := b.ownCoordinator c) hpos ?_ rfl
    exact offer_of_error hs ((source.read_error_iff e).mpr he)
  · exact Worker.dispatch_error he
  · obtain ⟨fields, hread⟩ := Source.read_ok_of_complaints hn
    have hbare : ∀ p, (b.phase p).isActive = false → (b.handler p).registration = none := by
      intro p hp
      by_contra hid
      obtain ⟨id, hid⟩ := Option.ne_none_iff_exists'.mp hid
      rw [hsound.toasts.live hid (Option.some_ne_none p)] at hp
      cases hp
    let hd : Handler := { fields, listener, registry := some (b.coordinator c).registry }
    have hpresent : Act.thenLetGo (b.ownCoordinator c).handlers.length
        (present (b.coordinator c) (b.ownCoordinator c).handlers.length)
          ((b.ownCoordinator c).create hd).2 = .ended (some (.error e))
            ((b.ownCoordinator c).withdrawn (b.coordinator c).registry hd) :=
      present_refused hr rfl rfl
        (fun p hp => hknown ((Registry.mem_entries_iff (hsound.tables _)).mpr hp)) hbare he
    refine ⟨fields, _, hread, ?_, turnsAway_withdrawn hr (hsound.tables _) rfl⟩
    rw [showAlert_eq]
    refine withCoordinator_ended (d := (b.ownCoordinator c).withdrawn _ _) hpos ?_ rfl
    exact (offer_of_ok hs hread).trans (congrArg (Talk.andThen · _) hpresent)

/-- One alert is live, one was ended by somebody who had got hold of it and still stands under its
name, and with the third one the worker was lost. -/
def lostWorker : List Event :=
  [.deed (.setUp {} { supported := true, identity := .ok "id" }),
    .deed (.showAlert 0 (Alert.asSource (plainAlert "a")) (some 0)), .deed (.advance 0),
    .deed (.finish 0), .reply true,
    .deed (.showAlert 0 (Alert.asSource (plainAlert "b")) (some 1)), .deed (.grab 0 "b"),
    .deed (.unregister 1), .deed (.arm { crashAttempt := true }),
    .deed (.showAlert 0 (Alert.asSource (plainAlert "c")) (some 2)), .deed (.advance 0),
    .deed (.advance 0), .deed (.finish 0)]

/-- Without the worker, another alert of the live one's name leaves the table as it was, and one of
the ended one's name clears it away; an alert without a name or a title is told to have no name; and
nothing is read of it once alerts are dropped. -/
theorem unshown_alert_leaves_nothing_lost : FreeCourse (lostWorker.foldl Moment.after {}) ∧
    ((lostWorker.foldl Moment.after {}).world.board.registry 0).entries =
      [("a", 0), ("b", 1), ("c", 2)] ∧
    (∃ b', showAlert 0 (Alert.asSource (plainAlert "a")) none
        (lostWorker.foldl Moment.after {}).world.board =
          .ended (some ⟨.error (.dispatch "background dispatcher is stopped"),
            (Alert.asSource (plainAlert "a")).read.called⟩) b' ∧
      (b'.registry 0).entries.Perm [("a", 0), ("b", 1), ("c", 2)] ∧
      b'.screen.toasts.map (·.releases) = [0]) ∧
    (∃ b', showAlert 0 (Alert.asSource (plainAlert "b")) none
        (lostWorker.foldl Moment.after {}).world.board =
          .ended (some ⟨.error (.dispatch "background dispatcher is stopped"),
            (Alert.asSource (plainAlert "b")).read.called⟩) b' ∧
      (b'.registry 0).entries = [("a", 0), ("c", 2)] ∧ b'.phase 3 = .unregistered) ∧
    showAlert 0 { Alert.asSource (plainAlert "") with title := .error { cause := "gone" } } none
      (lostWorker.foldl Moment.after {}).world.board =
        .ended (some ⟨.error (.invalidArgument "alert name is empty"), ["cookie", "name"]⟩)
          (lostWorker.foldl Moment.after {}).world.board ∧
    showAlert 0 (Alert.asSource (plainAlert "d")) none
      ((lostWorker ++ [Event.deed (.suppress 0 true)]).foldl Moment.after {}).world.board =
        .ended (some ⟨.ok (), []⟩)
          ((lostWorker ++ [Event.deed (.suppress 0 true)]).foldl Moment.after {}).world.board := by
  have hcourse : FreeCourse (lostWorker.foldl Moment.after {}) :=
    Course.start.follow ⟨trivial, trivial, List.mem_cons_self, trivial, trivial, trivial, trivial,
      trivial, List.cons_ne_nil _ _, trivial, List.mem_cons_self, trivial, List.mem_cons_self,
      trivial, List.mem_cons_self, trivial, trivial, trivial, List.mem_cons_self, trivial, trivial,
      trivial, trivial, trivial, trivial, trivial, trivial⟩
  have hdropped :
      FreeCourse ((lostWorker ++ [Event.deed (.suppress 0 true)]).foldl Moment.after {}) := by
    rw [List.foldl_append]
    exact hcourse.follow ⟨List.mem_cons_self, trivial, trivial⟩
  have hshow := fun source => (unshown_alert_leaves_nothing hcourse (c := 0) rfl source none).2 rfl
  refine ⟨hcourse, rfl, ?_, ?_, (hshow _).1 _ rfl,
    (unshown_alert_leaves_nothing hdropped (c := 0) rfl _ none).1 rfl⟩
  · obtain ⟨-, fields, b', hread, hb', haway⟩ :=
      (hshow (Alert.asSource (plainAlert "a"))).2 rfl _ rfl
    cases hread
    refine ⟨b', hb', (haway.same fun p hp => ?_).1, by rw [haway.screen]; rfl⟩
    cases hp
    exact .inr (.inr rfl)
  · obtain ⟨-, fields, b', hread, hb', haway⟩ :=
      (hshow (Alert.asSource (plainAlert "b"))).2 rfl _ rfl
    cases hread
    refine ⟨b', hb', ?_, ?_⟩
    · exact congrArg Registry.entries (haway.cleared ⟨1, rfl, .inr rfl⟩)
    · rw [phase, handler, haway.handlers]
      rfl

end ToastBoard
