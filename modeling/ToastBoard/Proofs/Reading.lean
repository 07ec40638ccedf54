import Mathlib.Data.List.Basic
import ToastBoard.Board.Coordinator
import ToastBoard.Board.Work

/-!
# Reading a changed board

What handlers, registries, stations and coordinators look like after each small change of a board,
and when something refers to a handler.
-/

namespace ToastBoard

/-- What stands at a place after a change at a place. -/
theorem getD_modify {α : Type} (l : List α) (i j : Nat) (f : α → α) (d : α) :
    (l.modify i f).getD j d = if j = i ∧ i < l.length then f (l.getD j d) else l.getD j d := by
  rw [List.getD_eq_getElem?_getD, List.getD_eq_getElem?_getD, List.getElem?_modify]
  by_cases hi : i < l.length
  · by_cases hj : j = i
    · subst hj
      simp [hi]
    · simp [hj, Ne.symm hj]
  · by_cases hj : j = i
    · subst hj
      simp [hi]
    · simp [hi, Ne.symm hj]

/-- What stands at a place after something was put at the end. -/
theorem getD_concat {α : Type} (l : List α) (a : α) (j : Nat) (d : α) :
    (l ++ [a]).getD j d = if j = l.length then a else l.getD j d := by
  rw [List.getD_eq_getElem?_getD, List.getD_eq_getElem?_getD, List.getElem?_append]
  by_cases hj : j < l.length
  · simp [hj, Nat.ne_of_lt hj]
  · by_cases he : j = l.length
    · simp [he]
    · have ho : ([a] : List α)[j - l.length]? = none := by simp; omega
      simp [hj, he, ho]

namespace Registry

variable (r : Registry) (name other : String) (h : HandlerId)

/-- The handlers of a registry are those of its entries. -/
theorem mem_handlers {r : Registry} {h : HandlerId} :
    h ∈ r.handlers ↔ ∃ name, (name, h) ∈ r.entries := by
  simp [handlers]

/-- Leaving a name out leaves the other entries. -/
theorem mem_entries_erase {r : Registry} {name key : String} {h : HandlerId} :
    (key, h) ∈ (r.erase name).entries ↔ (key, h) ∈ r.entries ∧ key ≠ name := by
  simp [erase]

/-- A new entry comes in the place of those of its name. -/
theorem mem_entries_insert {r : Registry} {name key : String} {h g : HandlerId} :
    (key, h) ∈ (r.insert name g).entries ↔
      ((key, h) ∈ r.entries ∧ key ≠ name) ∨ (key = name ∧ h = g) := by
  rw [insert, List.mem_append, mem_entries_erase]
  simp

/-- At most one entry to a name. -/
def OnePerName (r : Registry) : Prop := (r.entries.map (·.1)).Nodup

/-- Leaving a name out leaves one entry to a name. -/
theorem onePerName_erase {r : Registry} (hr : r.OnePerName) : (r.erase name).OnePerName :=
  hr.sublist (List.Sublist.map _ List.filter_sublist)

/-- A new entry leaves one entry to a name. -/
theorem onePerName_insert {r : Registry} (hr : r.OnePerName) : (r.insert name h).OnePerName := by
  have he := onePerName_erase name hr
  simp only [OnePerName, insert, List.map_append, List.map_cons, List.map_nil] at he ⊢
  rw [List.nodup_append]
  refine ⟨he, by simp, ?_⟩
  intro a ha b hb
  simp only [List.mem_singleton] at hb
  subst hb
  obtain ⟨e, hm, rfl⟩ := List.mem_map.mp ha
  have hne := (List.mem_filter.mp hm).2
  simpa using hne

/-- With one entry to a name, what stands under it is what is found there. -/
theorem mem_entries_iff {r : Registry} (hr : r.OnePerName) {name : String} {h : HandlerId} :
    (name, h) ∈ r.entries ↔ r.get? name = some h := by
  obtain ⟨entries, owners⟩ := r
  simp only [OnePerName, get?] at hr ⊢
  induction entries with
  | nil => simp
  | cons e rest ih =>
    obtain ⟨key, g⟩ := e
    simp only [List.map_cons, List.nodup_cons] at hr
    by_cases hk : name = key
    · subst hk
      have hnot : (name, h) ∉ rest := fun hm => hr.1 (List.mem_map_of_mem hm)
      simp [hnot, eq_comm]
    · have hb : (name == key) = false := by simpa using hk
      rw [List.lookup_cons, hb]
      simpa [hk] using ih hr.2

/-- With one entry to a name, nobody else stands there. -/
theorem eq_of_mem_entries {r : Registry} (hr : r.OnePerName) {name : String} {g h : HandlerId}
    (hg : (name, g) ∈ r.entries) (hh : (name, h) ∈ r.entries) : g = h :=
  Option.some.inj (((mem_entries_iff hr).mp hg).symm.trans ((mem_entries_iff hr).mp hh))

/-- Where nothing stands under a name, there is nothing to leave out. -/
theorem erase_of_get?_none {r : Registry} (hr : r.OnePerName) {name : String}
    (hn : r.get? name = none) : r.erase name = r := by
  have hkept : r.entries.filter (fun e => e.1 ≠ name) = r.entries := by
    refine List.filter_eq_self.mpr fun ⟨key, h⟩ he => decide_eq_true fun hkey : key = name => ?_
    rw [(mem_entries_iff hr).mp (hkey ▸ he)] at hn
    cases hn
  rw [erase, hkept]

/-- What stands under a name after something was put there. -/
@[simp] theorem get?_insert :
    (r.insert name h).get? other = if other = name then some h else r.get? other := by
  have he := get?_erase r name other
  simp only [get?, insert] at he ⊢
  rw [List.lookup_append, he]
  by_cases ho : other = name
  · simp [ho]
  · have hb : (other == name) = false := by simpa using ho
    rw [List.lookup_cons, hb]
    simp [ho]

end Registry

namespace Board

variable (b : Board) (h x : HandlerId) (r q : RegistryId) (s t : StationId) (c d : CoordinatorId)

/-- A handler after a handler was changed. -/
theorem handler_update (f : Handler → Handler) : (b.update h f).handler x =
    if x = h ∧ h < b.handlers.length then f (b.handler x) else b.handler x :=
  getD_modify ..

/-- A handler that was made is as it was changed. -/
theorem handler_update_self {b : Board} {h : HandlerId} (hlt : h < b.handlers.length)
    (f : Handler → Handler) : (b.update h f).handler h = f (b.handler h) := by
  rw [handler_update, if_pos ⟨rfl, hlt⟩]

/-- The others stay as they are when a handler is changed. -/
theorem handler_update_of_ne {b : Board} {h x : HandlerId} (hne : x ≠ h)
    (f : Handler → Handler) : (b.update h f).handler x = b.handler x := by
  rw [handler_update, if_neg fun hc => hne hc.1]

theorem phase_update_of_ne {b : Board} {h x : HandlerId} (hne : x ≠ h)
    (f : Handler → Handler) : (b.update h f).phase x = b.phase x := by
  rw [phase, handler_update_of_ne hne, phase]

@[simp] theorem length_update (f : Handler → Handler) :
    (b.update h f).handlers.length = b.handlers.length := List.length_modify ..

/-- A handler that was never made is over and has nothing. -/
theorem handler_of_le {b : Board} {h : HandlerId} (hh : b.handlers.length ≤ h) :
    b.handler h = default := by
  simp [handler, List.getD_eq_getElem?_getD, List.getElem?_eq_none hh]

/-- A handler that is not over was made. -/
theorem lt_of_phase_ne {b : Board} {h : HandlerId} (hp : b.phase h ≠ .unregistered) :
    h < b.handlers.length := by
  by_contra hlt
  exact hp (by rw [phase, handler_of_le (Nat.le_of_not_lt hlt)]; rfl)

/-- A handler that was assigned a phase is in that phase. -/
theorem phase_setPhase {b : Board} {h : HandlerId} (hlt : h < b.handlers.length) (p : Phase) :
    (b.setPhase h p).phase h = p := by
  rw [phase, setPhase, handler_update_self hlt]

/-- The others stay as they are when a handler is assigned a phase. -/
theorem handler_setPhase_of_ne {b : Board} {h x : HandlerId} (hne : x ≠ h) (p : Phase) :
    (b.setPhase h p).handler x = b.handler x := by
  rw [setPhase, handler_update_of_ne hne]

theorem phase_setPhase_of_ne {b : Board} {h x : HandlerId} (hne : x ≠ h) (p : Phase) :
    (b.setPhase h p).phase x = b.phase x := by
  rw [phase, handler_setPhase_of_ne hne, phase]

/-- Nothing but its phase changes when a handler is assigned one. -/
theorem handler_setPhase (p : Phase) : (b.setPhase h p).handler x =
    { b.handler x with phase := (b.setPhase h p).phase x } := by
  rw [phase, setPhase, handler_update]
  split <;> rfl

/-- A handler with a toast to release was made. -/
theorem lt_of_registration {b : Board} {h : HandlerId} {id : ToastId}
    (hr : (b.handler h).registration = some id) : h < b.handlers.length := by
  by_contra hlt
  rw [handler_of_le (Nat.le_of_not_lt hlt)] at hr
  exact Option.some_ne_none _ hr.symm

/-- A handler whose listener can be told was made. -/
theorem lt_of_listener {b : Board} {h : HandlerId} {l : ListenerId}
    (hl : (b.handler h).listener = some l) : h < b.handlers.length := by
  by_contra hlt
  rw [handler_of_le (Nat.le_of_not_lt hlt)] at hl
  exact Option.some_ne_none _ hl.symm

/-- A registry after a registry was changed. -/
theorem registry_updateRegistry (f : Registry → Registry) : (b.updateRegistry r f).registry q =
    if q = r ∧ r < b.registries.length then f (b.registry q) else b.registry q :=
  getD_modify ..

/-- A station after a station was changed. -/
theorem station_updateStation (f : Station → Station) : (b.updateStation s f).station t =
    if t = s ∧ s < b.stations.length then f (b.station t) else b.station t :=
  getD_modify ..

@[simp] theorem length_updateRegistry (f : Registry → Registry) :
    (b.updateRegistry r f).registries.length = b.registries.length := List.length_modify ..

@[simp] theorem length_updateStation (f : Station → Station) :
    (b.updateStation s f).stations.length = b.stations.length := List.length_modify ..

@[simp] theorem length_updateCoordinator (f : Coordinator → Coordinator) :
    (b.updateCoordinator c f).coordinators.length = b.coordinators.length := List.length_modify ..

/-- A coordinator after a coordinator was changed. -/
theorem coordinator_updateCoordinator (f : Coordinator → Coordinator) :
    (b.updateCoordinator c f).coordinator d =
      if d = c ∧ c < b.coordinators.length then f (b.coordinator d) else b.coordinator d :=
  getD_modify ..

/-- A registry with an owner was made. -/
theorem lt_of_owners {b : Board} {r : RegistryId} (hr : 0 < (b.registry r).owners) :
    r < b.registries.length := by
  by_contra hlt
  have hn : b.registries[r]? = none := List.getElem?_eq_none (Nat.le_of_not_lt hlt)
  simp [registry, List.getD_eq_getElem?_getD, hn] at hr

/-- A registry with entries was made. -/
theorem lt_of_entry {b : Board} {r : RegistryId} {e : String × HandlerId}
    (he : e ∈ (b.registry r).entries) : r < b.registries.length := by
  by_contra hlt
  have hn : b.registries[r]? = none := List.getElem?_eq_none (Nat.le_of_not_lt hlt)
  simp [registry, List.getD_eq_getElem?_getD, hn] at he

/-- A change that leaves the entries of each registry leaves all entries. -/
theorem entries_updateRegistry {b : Board} {r : RegistryId} {f : Registry → Registry}
    (hf : ∀ reg, (f reg).entries = reg.entries) (q : RegistryId) :
    ((b.updateRegistry r f).registry q).entries = (b.registry q).entries := by
  rw [registry_updateRegistry]
  split
  · exact hf _
  · rfl

/-- Another owner of a registry changes no entry. -/
theorem entries_ownRegistry (b : Board) (r q : RegistryId) :
    ((b.ownRegistry r).registry q).entries = (b.registry q).entries :=
  entries_updateRegistry (f := fun reg => { reg with owners := reg.owners + 1 }) (fun _ => rfl) q

/-- A registry that is gone is gone after a change that does not give it an owner. -/
theorem gone_updateRegistry {b : Board} {r q : RegistryId} {f : Registry → Registry}
    (hf : (b.registry r).owners = 0 → (f (b.registry r)).owners = 0)
    (hq : b.hasRegistry q = false) : (b.updateRegistry r f).hasRegistry q = false := by
  have hnone : (b.registry q).owners = 0 := Nat.eq_zero_of_not_pos (of_decide_eq_false hq)
  refine decide_eq_false (Nat.not_lt.mpr (Nat.le_of_eq ?_))
  rw [registry_updateRegistry]
  split
  · rename_i hqr
    obtain ⟨rfl, -⟩ := hqr
    exact hf hnone
  · exact hnone

/-- Registries are there or gone as before after a change that neither takes the last owner nor
gives a first one. -/
theorem hasRegistry_updateRegistry {b : Board} {r : RegistryId} {f : Registry → Registry}
    (hf : (f (b.registry r)).owners = 0 ↔ (b.registry r).owners = 0) (q : RegistryId) :
    (b.updateRegistry r f).hasRegistry q = b.hasRegistry q := by
  rw [hasRegistry, hasRegistry, registry_updateRegistry]
  split
  · rename_i hqr
    obtain ⟨rfl, -⟩ := hqr
    exact decide_eq_decide.mpr (by omega)
  · rfl

/-- The entries that are left when a name is taken out of a registry. -/
theorem mem_erased {b : Board} {r q : RegistryId} {name key : String} {x : HandlerId} :
    (key, x) ∈ ((b.updateRegistry r fun reg => reg.erase name).registry q).entries ↔
      (key, x) ∈ (b.registry q).entries ∧ ¬(q = r ∧ key = name) := by
  rw [registry_updateRegistry]
  split
  · rename_i hq
    rw [Registry.mem_entries_erase, and_iff_right hq.1]
  · rename_i hq
    have hkept : (key, x) ∈ (b.registry q).entries → ¬(q = r ∧ key = name) := fun hx hkey =>
      hq ⟨hkey.1, hkey.1 ▸ lt_of_entry hx⟩
    exact (and_iff_left_of_imp hkept).symm

/-- The entries after a handler was put under a name in a registry. -/
theorem mem_inserted {b : Board} {r q : RegistryId} {name key : String} {h x : HandlerId} :
    (key, x) ∈ ((b.updateRegistry r fun reg => reg.insert name h).registry q).entries ↔
      ((key, x) ∈ (b.registry q).entries ∧ ¬(q = r ∧ key = name)) ∨
        ((q = r ∧ r < b.registries.length) ∧ key = name ∧ x = h) := by
  rw [registry_updateRegistry]
  split
  · rename_i hq
    rw [Registry.mem_entries_insert, and_iff_right hq.1, and_iff_right hq]
  · rename_i hq
    have hkept : (key, x) ∈ (b.registry q).entries → ¬(q = r ∧ key = name) := fun hx hkey =>
      hq ⟨hkey.1, hkey.1 ▸ lt_of_entry hx⟩
    rw [or_iff_left fun hx => hq hx.1, and_iff_left_of_imp hkept]

/-- The entries that are left when a registry is emptied. -/
theorem mem_emptied {b : Board} {r q : RegistryId} {key : String} {x : HandlerId} :
    (key, x) ∈ ((b.updateRegistry r fun reg => { reg with entries := [] }).registry q).entries ↔
      (key, x) ∈ (b.registry q).entries ∧ q ≠ r := by
  rw [registry_updateRegistry]
  split
  · rename_i hq
    exact ⟨fun hx => absurd hx List.not_mem_nil, fun hx => absurd hq.1 hx.2⟩
  · rename_i hq
    have hkept : (key, x) ∈ (b.registry q).entries → q ≠ r := fun hx hqr =>
      hq ⟨hqr, hqr ▸ lt_of_entry hx⟩
    exact (and_iff_left_of_imp hkept).symm

/-- Nobody stands under a name in a registry that was never made. -/
theorem current_of_le {b : Board} {r : RegistryId} (hr : b.registries.length ≤ r)
    (name : String) : b.current? r name = none := by
  rw [current?, registry, List.getD_eq_getElem?_getD, List.getElem?_eq_none hr]
  rfl

/-- Who stands under a name when one is taken out of a registry. -/
theorem current_erased (b : Board) (r : RegistryId) (name : String) (q : RegistryId)
    (key : String) : (b.updateRegistry r fun reg => reg.erase name).current? q key =
      if q = r ∧ key = name then none else b.current? q key := by
  rw [current?, registry_updateRegistry]
  split
  · rename_i hq
    simp only [Registry.get?_erase, hq.1, true_and]
    rfl
  · rename_i hq
    split
    · rename_i hkey
      exact current_of_le (hkey.1 ▸ Nat.le_of_not_lt fun hlt => hq ⟨hkey.1, hlt⟩) key
    · rfl

/-- Who stands under a name when a registry is emptied. -/
theorem current_emptied (b : Board) (r q : RegistryId) (key : String) :
    (b.updateRegistry r fun reg => { reg with entries := [] }).current? q key =
      if q = r then none else b.current? q key := by
  rw [current?, registry_updateRegistry]
  by_cases hq : q = r
  · rw [if_pos hq]
    split
    · rfl
    · rename_i hlt
      exact current_of_le (hq ▸ Nat.le_of_not_lt fun hc => hlt ⟨hq, hc⟩) key
  · rw [if_neg hq, if_neg fun hc => hq hc.1]
    rfl

/-- A registry that is made is empty, and the entries of the others stay. -/
theorem entries_of_concat {b b' : Board} (hr : b'.registries = b.registries ++ [({} : Registry)])
    (r : RegistryId) : (b'.registry r).entries = (b.registry r).entries := by
  rw [registry, registry, hr, getD_concat]
  split
  · rename_i hlen
    rw [hlen, List.getD_eq_getElem?_getD, List.getElem?_eq_none (Nat.le_refl _)]
    rfl
  · rfl

/-- Looking up takes a hold on what is found. -/
theorem lookUp_eq (b : Board) (r : RegistryId) (name : String) : b.lookUp r name =
    (b.current? r name, { b with held := (b.current? r name).toList ++ b.held }) := by
  unfold lookUp
  cases b.current? r name <;> rfl

/-- What an install displaces, and the board after it. -/
theorem install_eq (b : Board) (r : RegistryId) (name : String) (h : HandlerId) :
    b.install r name h = (b.current? r name,
      { b with held := (b.current? r name).toList ++ b.held }.updateRegistry r
        fun reg => reg.insert name h) := by
  simp only [install, lookUp_eq]

@[simp] theorem handlers_install {b : Board} {r : RegistryId} (name : String) (h : HandlerId) :
    (b.install r name h).2.handlers = b.handlers := by
  rw [install_eq]
  rfl

@[simp] theorem handler_install {b : Board} {r : RegistryId} (name : String) (h x : HandlerId) :
    (b.install r name h).2.handler x = b.handler x := by
  rw [handler, handlers_install, handler]

@[simp] theorem phase_install {b : Board} {r : RegistryId} (name : String) (h x : HandlerId) :
    (b.install r name h).2.phase x = b.phase x := by
  rw [phase, handler_install, phase]

/-- What is taken out from under a name, and the board after it. -/
theorem takeEntry_eq (b : Board) (r : RegistryId) (name : String) :
    b.takeEntry r name = (b.current? r name,
      { b with held := (b.current? r name).toList ++ b.held }.updateRegistry r
        fun reg => reg.erase name) := by
  simp only [takeEntry, lookUp_eq]

/-- The entries after the one of a name was taken out. -/
theorem mem_takeEntry {b : Board} {r q : RegistryId} {name key : String} {x : HandlerId} :
    (key, x) ∈ ((b.takeEntry r name).2.registry q).entries ↔
      (key, x) ∈ (b.registry q).entries ∧ ¬(q = r ∧ key = name) := by
  rw [takeEntry_eq]
  exact mem_erased

/-- The entries after a handler was put under a name. -/
theorem mem_install {b : Board} {r q : RegistryId} {name key : String} {h x : HandlerId} :
    (key, x) ∈ ((b.install r name h).2.registry q).entries ↔
      ((key, x) ∈ (b.registry q).entries ∧ ¬(q = r ∧ key = name)) ∨
        ((q = r ∧ r < b.registries.length) ∧ key = name ∧ x = h) := by
  rw [install_eq]
  exact mem_inserted

/-- The entries after all of a registry were taken out. -/
theorem mem_takeAll {b : Board} {r q : RegistryId} {key : String} {x : HandlerId} :
    (key, x) ∈ ((b.takeAll r).2.registry q).entries ↔
      (key, x) ∈ (b.registry q).entries ∧ q ≠ r := mem_emptied

/-- How many owners a coordinator has is told by the coordinators alone. -/
theorem owners_coordinator {b b' : Board} (hc : b'.coordinators = b.coordinators)
    (c : CoordinatorId) :
    (b'.coordinator c).owners = (b.coordinator c).owners := by
  rw [coordinator, coordinator, hc, List.getD_eq_getElem?_getD, List.getD_eq_getElem?_getD]
  cases b.coordinators[c]? <;> rfl

/-- Which registry a coordinator has is told by the coordinators, and by how many registries there
are. -/
theorem registry_coordinator {b b' : Board} (hc : b'.coordinators = b.coordinators)
    (hr : b'.registries.length = b.registries.length) (c : CoordinatorId) :
    (b'.coordinator c).registry = (b.coordinator c).registry := by
  rw [coordinator, coordinator, hc, List.getD_eq_getElem?_getD, List.getD_eq_getElem?_getD]
  cases b.coordinators[c]? with
  | none => exact hr
  | some _ => rfl

/-- A coordinator that was set up is the same wherever the coordinators are. -/
theorem coordinator_of_lt {b b' : Board} (hc : b'.coordinators = b.coordinators) (c : CoordinatorId)
    (hlt : c < b.coordinators.length) : (b'.coordinator c).registry = (b.coordinator c).registry ∧
      (b'.coordinator c).station = (b.coordinator c).station := by
  rw [coordinator, coordinator, hc, List.getD_eq_getElem?_getD, List.getD_eq_getElem?_getD,
    List.getElem?_eq_getElem hlt]
  exact ⟨rfl, rfl⟩

/-- A coordinator with an owner was set up. -/
theorem lt_of_coordinator_owners {b : Board} {c : CoordinatorId}
    (hc : 0 < (b.coordinator c).owners) : c < b.coordinators.length := by
  by_contra hlt
  have hn : b.coordinators[c]? = none := List.getElem?_eq_none (Nat.le_of_not_lt hlt)
  simp [coordinator, List.getD_eq_getElem?_getD, hn] at hc

/-- The registry of a coordinator that was set up. -/
theorem getElem?_registries {b : Board} {c : CoordinatorId} (hc : c < b.coordinators.length) :
    (b.coordinators.map (·.registry))[c]? = some (b.coordinator c).registry := by
  rw [List.getElem?_map, coordinator, List.getD_eq_getElem?_getD, List.getElem?_eq_getElem hc]
  rfl

/-- The handlers whose registration is queued at a station. -/
def jobs (b : Board) (s : StationId) : List HandlerId :=
  (b.station s).worker.queue.flatMap messageHandlers

/-- A station with a job was made. -/
theorem lt_of_mem_jobs {b : Board} {s : StationId} {h : HandlerId} (hj : h ∈ b.jobs s) :
    s < b.stations.length := by
  by_contra hlt
  have hn : b.stations[s]? = none := List.getElem?_eq_none (Nat.le_of_not_lt hlt)
  simp [jobs, station, List.getD_eq_getElem?_getD, hn] at hj

/-- A station inside an attempt was made. -/
theorem lt_of_inside {b : Board} {s : StationId} {i : Nat} (hi : (b.station s).inside = some i) :
    s < b.stations.length := by
  by_contra hlt
  have hn : b.stations[s]? = none := List.getElem?_eq_none (Nat.le_of_not_lt hlt)
  simp [station, List.getD_eq_getElem?_getD, hn] at hi

/-- Who was just made comes after the others. -/
theorem handler_create (b : Board) (hd : Handler) (x : HandlerId) :
    (b.create hd).2.handler x = if x = b.handlers.length then hd else b.handler x := getD_concat ..

@[simp] theorem length_create (b : Board) (hd : Handler) :
    (b.create hd).2.handlers.length = b.handlers.length + 1 := List.length_append

/-- The others stay as they are when a handler is made. -/
theorem handler_create_of_ne {b : Board} {x : HandlerId} (hne : x ≠ b.handlers.length)
    (hd : Handler) : (b.create hd).2.handler x = b.handler x := by
  rw [handler_create, if_neg hne]

theorem phase_create_of_ne {b : Board} {x : HandlerId} (hne : x ≠ b.handlers.length)
    (hd : Handler) : (b.create hd).2.phase x = b.phase x := by
  rw [phase, handler_create_of_ne hne, phase]

/-- A handler is as it was made. -/
@[simp] theorem handler_create_self (b : Board) (hd : Handler) :
    (b.create hd).2.handler b.handlers.length = hd := by
  rw [handler_create, if_pos rfl]

@[simp] theorem phase_create_self (b : Board) (hd : Handler) :
    (b.create hd).2.phase b.handlers.length = hd.phase := by
  rw [phase, handler_create_self]

/-- Boards with the same registries have the same tables. -/
theorem registry_of_registries {b b' : Board} (hr : b'.registries = b.registries) (r : RegistryId) :
    b'.registry r = b.registry r := by rw [registry, hr, registry]

theorem current_of_registries {b b' : Board} (hr : b'.registries = b.registries) (r : RegistryId)
    (name : String) : b'.current? r name = b.current? r name := by
  rw [current?, registry_of_registries hr, current?]

theorem hasRegistry_of_registries {b b' : Board} (hr : b'.registries = b.registries)
    (r : RegistryId) : b'.hasRegistry r = b.hasRegistry r := by
  rw [hasRegistry, registry_of_registries hr, hasRegistry]

/-- A member of a list is what stands at some place of it. -/
theorem exists_getD_of_mem {α : Type} {l : List α} {a : α} (d : α) (ha : a ∈ l) :
    ∃ i < l.length, l.getD i d = a := by
  obtain ⟨i, hi, rfl⟩ := List.getElem_of_mem ha
  exact ⟨i, hi, by simp [List.getD_eq_getElem?_getD, hi]⟩

/-- What refers to a handler: somebody who holds it, an entry, a job, or the attempt under way. -/
theorem refersTo_iff {b : Board} {h : HandlerId} : b.refersTo h = true ↔
    h ∈ b.held ∨ (∃ r, h ∈ (b.registry r).handlers) ∨ (∃ s, h ∈ b.jobs s) ∨
      ∃ s a, b.inside? s = some a ∧ a.handler = h := by
  have hregistries : b.registries.any (·.handlers.contains h) = true ↔
      ∃ r, h ∈ (b.registry r).handlers := by
    rw [List.any_eq_true]
    constructor
    · rintro ⟨reg, hm, hc⟩
      obtain ⟨r, -, rfl⟩ := exists_getD_of_mem { owners := 0 } hm
      exact ⟨r, by simpa [registry] using hc⟩
    · rintro ⟨r, hr⟩
      obtain ⟨name, he⟩ := Registry.mem_handlers.mp hr
      have hlt := lt_of_entry he
      refine ⟨b.registry r, ?_, by simpa using hr⟩
      simp [registry, List.getD_eq_getElem?_getD, hlt]
  have hstations : b.stations.any (fun s => (b.stationHandlers s).contains h) = true ↔
      (∃ s, h ∈ b.jobs s) ∨ ∃ s a, b.inside? s = some a ∧ a.handler = h := by
    rw [List.any_eq_true]
    constructor
    · rintro ⟨st, hm, hc⟩
      obtain ⟨s, -, rfl⟩ := exists_getD_of_mem
        { worker := { name := "", accepting := false, alive := false } } hm
      have hc' : h ∈ b.stationHandlers (b.station s) := by simpa [station] using hc
      rw [stationHandlers, List.mem_append] at hc'
      rcases hc' with hq | hi
      · exact .inl ⟨s, hq⟩
      · simp only [Option.mem_toList, Option.map_eq_some_iff] at hi
        obtain ⟨a, ha, rfl⟩ := hi
        exact .inr ⟨s, a, ha, rfl⟩
    · have key : ∀ s, h ∈ b.stationHandlers (b.station s) → s < b.stations.length →
          ∃ st ∈ b.stations, (b.stationHandlers st).contains h = true := by
        intro s hs hlt
        refine ⟨b.station s, ?_, by simpa using hs⟩
        simp [station, List.getD_eq_getElem?_getD, hlt]
      rintro (⟨s, hq⟩ | ⟨s, a, ha, rfl⟩)
      · exact key s (List.mem_append_left _ hq) (lt_of_mem_jobs hq)
      · obtain ⟨i, hi, -⟩ := Option.bind_eq_some_iff.mp ha
        refine key s (List.mem_append_right _ ?_) (lt_of_inside hi)
        simp only [Option.mem_toList, Option.map_eq_some_iff]
        exact ⟨a, ha, rfl⟩
  rw [refersTo, Bool.or_eq_true, Bool.or_eq_true, hregistries, hstations, or_assoc]
  simp

end Board

end ToastBoard
