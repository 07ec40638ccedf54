import ToastBoard.Proofs.Onward

/-!
# Books of holders and owners

Who holds handlers, who owns registries and who owns coordinators, each of them counted. A registry
is owned by people, by operations that work on it, and by its coordinator as long as that exists; a
registry that nobody owns has no entries.
-/

namespace ToastBoard.Board

variable {b b' : Board} {h : HandlerId} {r : RegistryId} {c : CoordinatorId}

/-- The registries of the coordinators that exist, once for each. -/
def backing (b : Board) : List RegistryId :=
  (b.coordinators.filter (0 < ·.owners)).map (·.registry)

/-- The books of those who hold handlers, own registries and own coordinators. -/
structure Books (holders : List HandlerId) (owners : List RegistryId)
    (masters : List CoordinatorId) (b : Board) : Prop where
  /-- Handlers are held by the holders. -/
  held : b.held.Perm holders
  /-- Registries are owned by the owners and by coordinators. -/
  owned : ∀ r, (b.registry r).owners = owners.count r + b.backing.count r
  /-- Coordinators are owned by the masters. -/
  mastered : ∀ c, (b.coordinator c).owners = masters.count c
  /-- A registry without an owner is empty. -/
  vacant : ∀ r, (b.registry r).owners = 0 → (b.registry r).entries = []
  /-- No two coordinators have the same registry. -/
  apart : (b.coordinators.map (·.registry)).Nodup
  /-- The registry of a coordinator was made. -/
  founded : ∀ co ∈ b.coordinators, co.registry < b.registries.length

variable {holders holders' : List HandlerId} {owners : List RegistryId}
  {masters : List CoordinatorId}

theorem Books.mastered_of (hb : b.Books holders owners masters)
    (hc : b'.coordinators = b.coordinators) (c : CoordinatorId) :
    (b'.coordinator c).owners = masters.count c :=
  (owners_coordinator hc c).trans (hb.mastered c)

/-- Holders come and go while registries and coordinators stay. -/
theorem Books.frame (hb : b.Books holders owners masters) (hh : b'.held.Perm holders')
    (hr : b'.registries = b.registries) (hc : b'.coordinators = b.coordinators) :
    b'.Books holders' owners masters := by
  have hregistry : ∀ r, b'.registry r = b.registry r := fun r => by rw [registry, registry, hr]
  have hbacking : b'.backing = b.backing := by rw [backing, backing, hc]
  refine ⟨hh, ?_, hb.mastered_of hc, ?_, ?_, ?_⟩
  · intro r
    rw [hregistry, hbacking]
    exact hb.owned r
  · intro r
    rw [hregistry]
    exact hb.vacant r
  · rw [hc]
    exact hb.apart
  · rw [hc, hr]
    exact hb.founded

/-- What is on the screen does not matter for the books. -/
theorem Books.sameButToasts (hb : b.Books holders owners masters) (ha : b.SameButToasts b') :
    b'.Books holders owners masters :=
  hb.frame (by rw [ha.held]; exact hb.held) ha.registries ha.coordinators

/-- The order in which holders and owners are written down does not matter. -/
theorem Books.perm (hb : b.Books holders owners masters) {owners' : List RegistryId}
    {masters' : List CoordinatorId} (hh : holders.Perm holders') (ho : owners.Perm owners')
    (hm : masters.Perm masters') : b.Books holders' owners' masters' := by
  refine ⟨hb.held.trans hh, ?_, ?_, hb.vacant, hb.apart, hb.founded⟩
  · intro r
    rw [hb.owned, ho.count_eq]
  · intro c
    rw [hb.mastered, hm.count_eq]

/-- Somebody who is written down as an owner does own the registry. -/
theorem Books.pos_of_owner (hb : b.Books holders owners masters) (hr : r ∈ owners) :
    0 < (b.registry r).owners := by
  have hc := List.count_pos_iff.mpr hr
  rw [hb.owned]
  omega

/-- A coordinator that exists backs its registry. -/
theorem mem_backing (hc : 0 < (b.coordinator c).owners) :
    (b.coordinator c).registry ∈ b.backing := by
  have hlt := lt_of_coordinator_owners hc
  have hmem : b.coordinator c ∈ b.coordinators := by
    rw [coordinator, List.getD_eq_getElem?_getD, List.getElem?_eq_getElem hlt]
    exact List.getElem_mem hlt
  refine List.mem_map_of_mem (f := (·.registry)) (List.mem_filter.mpr ⟨hmem, ?_⟩)
  simpa using hc

/-- A coordinator that exists owns its registry. -/
theorem Books.pos_of_backing (hb : b.Books holders owners masters)
    (hc : 0 < (b.coordinator c).owners) : 0 < (b.registry (b.coordinator c).registry).owners := by
  have hpos := List.count_pos_iff.mpr (mem_backing hc)
  rw [hb.owned]
  omega

/-- The entries of a registry may change if it has an owner, and are none otherwise. -/
theorem Books.updateRegistry (hb : b.Books holders owners masters) {f : Registry → Registry}
    (hf : (f (b.registry r)).owners = (b.registry r).owners)
    (hv : (b.registry r).owners = 0 → (f (b.registry r)).entries = []) :
    (b.updateRegistry r f).Books holders owners masters := by
  refine ⟨hb.held, ?_, hb.mastered_of rfl, ?_, hb.apart, ?_⟩
  · intro q
    have hq := hb.owned q
    rw [registry_updateRegistry]
    split
    · rename_i he
      obtain ⟨rfl, -⟩ := he
      rw [hf]
      exact hq
    · exact hq
  · intro q
    rw [registry_updateRegistry]
    split
    · rename_i he
      obtain ⟨rfl, -⟩ := he
      rw [hf]
      exact hv
    · exact hb.vacant q
  · rw [length_updateRegistry]
    exact hb.founded

/-- A registry gets another owner. -/
theorem Books.own (hb : b.Books holders owners masters) (hr : 0 < (b.registry r).owners) :
    (b.ownRegistry r).Books holders (r :: owners) masters := by
  have hlt := lt_of_owners hr
  refine ⟨hb.held, ?_, hb.mastered_of rfl, ?_, hb.apart, ?_⟩
  · intro q
    have hq := hb.owned q
    change _ = _ + b.backing.count q
    rw [ownRegistry, registry_updateRegistry, List.count_cons]
    by_cases he : q = r
    · subst he
      simp only [hlt, and_self, if_true, beq_self_eq_true]
      omega
    · rw [if_neg (fun hc => he hc.1), if_neg (by simpa using Ne.symm he)]
      omega
  · intro q hq
    rw [ownRegistry, registry_updateRegistry] at hq ⊢
    split at hq
    · cases hq
    · rename_i he
      rw [if_neg he]
      exact hb.vacant q hq
  · rw [ownRegistry, length_updateRegistry]
    exact hb.founded

/-- A registry after an owner has left it: with the last one its entries are gone. -/
def disowned (b : Board) (r : RegistryId) : Board :=
  b.updateRegistry r fun reg =>
    { entries := if 1 < reg.owners then reg.entries else [], owners := reg.owners - 1 }

/-- The handlers that an owner loses to a registry by leaving it. -/
def orphans (b : Board) (r : RegistryId) : List HandlerId :=
  if 1 < (b.registry r).owners then [] else (b.registry r).handlers

/-- A registry that was made after an owner has left it. -/
theorem registry_disowned (hr : 0 < (b.registry r).owners) (q : RegistryId) :
    (b.disowned r).registry q = if q = r then
      { entries := if 1 < (b.registry r).owners then (b.registry r).entries else []
        owners := (b.registry r).owners - 1 } else b.registry q := by
  rw [disowned, registry_updateRegistry]
  by_cases hq : q = r
  · subst hq
    rw [if_pos ⟨rfl, lt_of_owners hr⟩, if_pos rfl]
  · rw [if_neg (fun hc => hq hc.1), if_neg hq]

/-- What becomes of a registry that loses an owner, and of those who are lost with it. -/
theorem disownRegistry_eq (hr : 0 < (b.registry r).owners) :
    b.disownRegistry r = (b.orphans r).foldl reap (b.disowned r) := by
  have hlt := lt_of_owners hr
  have hreg : (b.updateRegistry r fun reg => { reg with owners := reg.owners - 1 }).registry r =
      { b.registry r with owners := (b.registry r).owners - 1 } := by
    rw [registry_updateRegistry, if_pos ⟨rfl, hlt⟩]
  have hget : b.registries[r]? = some (b.registry r) := by
    rw [registry, List.getD_eq_getElem?_getD, List.getElem?_eq_getElem hlt, Option.getD_some]
  have hmodify : ∀ f g : Registry → Registry, f (b.registry r) = g (b.registry r) →
      b.registries.modify r f = b.registries.modify r g := by
    intro f g hfg
    apply List.ext_getElem?
    intro i
    rw [List.getElem?_modify, List.getElem?_modify]
    by_cases hi : r = i
    · subst hi
      rw [hget]
      simp [hfg]
    · simp [hi]
  simp only [disownRegistry, hasRegistry, hreg, orphans, disowned, decide_eq_true_eq]
  by_cases h1 : 1 < (b.registry r).owners
  · have h2 : 0 < (b.registry r).owners - 1 := by omega
    simp only [h1, h2, if_true, List.foldl_nil, Board.updateRegistry]
    rw [hmodify]
    simp only [h1, if_true]
  · have h2 : ¬0 < (b.registry r).owners - 1 := by omega
    simp only [h1, h2, if_false, Board.updateRegistry, List.modify_modify_eq, Registry.handlers]
    rw [hmodify]
    simp only [Function.comp, h1, if_false]

/-- The books after an owner has left a registry. -/
theorem Books.disown (hb : b.Books holders owners masters) (hr : r ∈ owners) :
    (b.disowned r).Books holders (owners.erase r) masters := by
  have hpos := hb.pos_of_owner hr
  have hcount := List.count_pos_iff.mpr hr
  refine ⟨hb.held, ?_, hb.mastered_of rfl, ?_, hb.apart, ?_⟩
  · intro q
    have hq := hb.owned q
    change _ = _ + b.backing.count q
    rw [registry_disowned hpos]
    by_cases he : q = r
    · subst he
      rw [if_pos rfl, List.count_erase_self]
      simp only
      omega
    · rw [if_neg he, List.count_erase_of_ne he]
      exact hq
  · intro q hq
    rw [registry_disowned hpos] at hq ⊢
    by_cases he : q = r
    · subst he
      rw [if_pos rfl] at hq ⊢
      simp only at hq ⊢
      rw [if_neg (by omega)]
    · rw [if_neg he] at hq ⊢
      exact hb.vacant q hq
  · rw [disowned, length_updateRegistry]
    exact hb.founded

/-- A new registry has one owner. -/
theorem Books.openRegistry (hb : b.Books holders owners masters) :
    b.openRegistry.2.Books holders (b.openRegistry.1 :: owners) masters := by
  have hzero := hb.owned b.registries.length
  have hnew : (b.registry b.registries.length).owners = 0 := by
    simp [registry, List.getD_eq_getElem?_getD]
  have hreg : ∀ q, b.openRegistry.2.registry q =
      if q = b.registries.length then {} else b.registry q :=
    fun q => getD_concat ..
  refine ⟨hb.held, ?_, hb.mastered_of rfl, ?_, hb.apart, ?_⟩
  · intro q
    have hq := hb.owned q
    change _ = (b.registries.length :: owners).count q + b.backing.count q
    rw [hreg, List.count_cons]
    by_cases he : q = b.registries.length
    · subst he
      rw [if_pos rfl, if_pos (by simp)]
      simp only
      omega
    · rw [if_neg he, if_neg (by simpa using Ne.symm he)]
      exact hq
  · intro q hq
    rw [hreg] at hq ⊢
    split at hq
    · cases hq
    · rename_i he
      rw [if_neg he]
      exact hb.vacant q hq
  · intro co hco
    have hlt := hb.founded co hco
    have hlen : b.openRegistry.2.registries.length = b.registries.length + 1 :=
      List.length_append
    rw [hlen]
    exact Nat.lt_succ_of_lt hlt

/-- Somebody who is written down as an owner does own the coordinator. -/
theorem Books.pos_of_master (hb : b.Books holders owners masters) (hc : c ∈ masters) :
    0 < (b.coordinator c).owners := by
  rw [hb.mastered]
  exact List.count_pos_iff.mpr hc

/-- What a coordinator that changes its owners means for its registry. -/
theorem count_backing_update {f : Coordinator → Coordinator} (hc : c < b.coordinators.length)
    (hf : (f (b.coordinator c)).registry = (b.coordinator c).registry) (q : RegistryId) :
    (b.updateCoordinator c f).backing.count q +
        (if 0 < (b.coordinator c).owners ∧ (b.coordinator c).registry = q then 1 else 0) =
      b.backing.count q +
        (if 0 < (f (b.coordinator c)).owners ∧ (b.coordinator c).registry = q then 1 else 0) := by
  have hget : b.coordinators[c] = b.coordinator c := by
    rw [coordinator, List.getD_eq_getElem?_getD, List.getElem?_eq_getElem hc, Option.getD_some]
  have hold : b.coordinators =
      b.coordinators.take c ++ b.coordinator c :: b.coordinators.drop (c + 1) := by
    rw [← hget, List.getElem_cons_drop, List.take_append_drop]
  have hnew : (b.updateCoordinator c f).coordinators =
      b.coordinators.take c ++ f (b.coordinator c) :: b.coordinators.drop (c + 1) := by
    rw [updateCoordinator, List.modify_eq_take_cons_drop hc, hget]
  have hcount : ∀ (l l' : List Coordinator) (co : Coordinator),
      (((l ++ co :: l').filter (0 < ·.owners)).map (·.registry)).count q =
        ((l.filter (0 < ·.owners)).map (·.registry)).count q +
          (if 0 < co.owners ∧ co.registry = q then 1 else 0) +
          ((l'.filter (0 < ·.owners)).map (·.registry)).count q := by
    intro l l' co
    by_cases ho : 0 < co.owners
    · by_cases hq : co.registry = q
      · simp [ho, hq]
        omega
      · simp [ho, hq]
    · simp [ho]
  have h1 := hcount (b.coordinators.take c) (b.coordinators.drop (c + 1)) (b.coordinator c)
  have h2 := hcount (b.coordinators.take c) (b.coordinators.drop (c + 1)) (f (b.coordinator c))
  rw [← hold] at h1
  rw [← hnew, hf] at h2
  simp only [backing]
  omega

/-- The owners of a coordinator may change, and with them those of its registry. -/
theorem Books.updateCoordinator (hb : b.Books holders owners masters)
    {f : Coordinator → Coordinator} {owners' : List RegistryId} {masters' : List CoordinatorId}
    (hf : (f (b.coordinator c)).registry = (b.coordinator c).registry)
    (hm : ∀ d, ((b.updateCoordinator c f).coordinator d).owners = masters'.count d)
    (ho : ∀ q, owners.count q + b.backing.count q =
      owners'.count q + (b.updateCoordinator c f).backing.count q) :
    (b.updateCoordinator c f).Books holders owners' masters' := by
  have hregistries : (b.updateCoordinator c f).coordinators.map (·.registry) =
      b.coordinators.map (·.registry) := by
    apply List.ext_getElem?
    intro i
    simp only [Board.updateCoordinator, List.getElem?_map, List.getElem?_modify]
    by_cases hi : c = i
    · subst hi
      rw [coordinator, List.getD_eq_getElem?_getD] at hf
      cases hg : b.coordinators[c]? with
      | none => simp
      | some co =>
        rw [hg] at hf
        simpa using hf
    · simp [hi]
  refine ⟨hb.held, ?_, hm, hb.vacant, ?_, ?_⟩
  · intro q
    exact (hb.owned q).trans (ho q)
  · rw [hregistries]
    exact hb.apart
  · intro co hco
    have hmem : co.registry ∈ b.coordinators.map (·.registry) := by
      rw [← hregistries]
      exact List.mem_map_of_mem hco
    obtain ⟨co', hco', he⟩ := List.mem_map.mp hmem
    rw [← he]
    exact hb.founded co' hco'

/-- A coordinator gets another owner. -/
theorem Books.ownCoordinator (hb : b.Books holders owners masters)
    (hc : 0 < (b.coordinator c).owners) :
    (b.ownCoordinator c).Books holders owners (c :: masters) := by
  have hlt := lt_of_coordinator_owners hc
  refine hb.updateCoordinator rfl ?_ ?_
  · intro d
    have hd := hb.mastered d
    rw [coordinator_updateCoordinator, List.count_cons]
    by_cases he : d = c
    · subst he
      rw [if_pos ⟨rfl, hlt⟩, if_pos (by simp)]
      simp only
      omega
    · rw [if_neg (fun h => he h.1), if_neg (by simpa using Ne.symm he)]
      exact hd
  · intro q
    have hq := count_backing_update (f := fun co => { co with owners := co.owners + 1 }) hlt rfl q
    simp only [hc, true_and, Nat.succ_pos] at hq
    omega

/-- A coordinator loses an owner. With the last one it goes, and its registry is left to whoever
comes after. -/
theorem Books.disownCoordinator (hb : b.Books holders owners masters) (hc : c ∈ masters) :
    (b.updateCoordinator c fun co => { co with owners := co.owners - 1 }).Books holders
      (if 1 < (b.coordinator c).owners then owners else (b.coordinator c).registry :: owners)
      (masters.erase c) := by
  have hpos := hb.pos_of_master hc
  have hlt := lt_of_coordinator_owners hpos
  refine hb.updateCoordinator rfl ?_ ?_
  · intro d
    have hd := hb.mastered d
    rw [coordinator_updateCoordinator]
    by_cases he : d = c
    · subst he
      rw [if_pos ⟨rfl, hlt⟩, List.count_erase_self]
      simp only
      omega
    · rw [if_neg (fun h => he h.1), List.count_erase_of_ne he]
      exact hd
  · intro q
    have hq := count_backing_update (f := fun co => { co with owners := co.owners - 1 }) hlt rfl q
    simp only [hpos, true_and] at hq
    by_cases h1 : 1 < (b.coordinator c).owners
    · have h2 : 0 < (b.coordinator c).owners - 1 := by omega
      rw [if_pos h1]
      simp only [h2, true_and] at hq
      omega
    · have h2 : ¬0 < (b.coordinator c).owners - 1 := by omega
      rw [if_neg h1, List.count_cons]
      simp only [h2, false_and, if_false] at hq
      simp only [beq_iff_eq]
      omega

/-- Other changes of a coordinator do not matter for the books. -/
theorem Books.ofCoordinator (hb : b.Books holders owners masters) {f : Coordinator → Coordinator}
    (hf : ∀ co, (f co).registry = co.registry ∧ (f co).owners = co.owners) :
    (b.updateCoordinator c f).Books holders owners masters := by
  refine hb.updateCoordinator (hf _).1 ?_ ?_
  · intro d
    have hd := hb.mastered d
    rw [coordinator_updateCoordinator]
    split
    · rw [(hf _).2]
      exact hd
    · exact hd
  · intro q
    by_cases hlt : c < b.coordinators.length
    · have hq := count_backing_update (f := f) hlt (hf _).1 q
      rw [(hf _).2] at hq
      omega
    · have hsame : b.updateCoordinator c f = b := by
        rw [Board.updateCoordinator, List.modify_eq_self (Nat.le_of_not_lt hlt)]
      rw [hsame]

/-- A coordinator that was just set up has one owner, and the others have those that they had. -/
theorem owners_openCoordinator (b : Board) (worker : Worker HandlerId) (identity : Option String)
    (d : CoordinatorId) : ((b.openCoordinator worker identity).2.coordinator d).owners =
      if d = b.coordinators.length then 1 else (b.coordinator d).owners := by
  have hcoordinators : (b.openCoordinator worker identity).2.coordinators = b.coordinators ++
      [{ registry := b.registries.length, station := b.stations.length, identity }] := rfl
  rw [coordinator, hcoordinators, getD_concat, apply_ite Coordinator.owners]
  congr 1
  rw [coordinator, List.getD_eq_getElem?_getD, List.getD_eq_getElem?_getD]
  cases b.coordinators[d]? <;> rfl

/-- A coordinator that is set up has one owner and a registry of its own. -/
theorem Books.openCoordinator (hb : b.Books holders owners masters) (worker : Worker HandlerId)
    (identity : Option String) :
    (b.openCoordinator worker identity).2.Books holders owners
      ((b.openCoordinator worker identity).1 :: masters) := by
  have hopen := hb.openRegistry
  have hc := hb.mastered b.coordinators.length
  have hnone : (b.coordinator b.coordinators.length).owners = 0 := by
    simp [coordinator, List.getD_eq_getElem?_getD]
  have howners := owners_openCoordinator b worker identity
  generalize hb' : (b.openCoordinator worker identity).2 = b' at howners ⊢
  have hcoordinators : b'.coordinators = b.coordinators ++
      [{ registry := b.registries.length, station := b.stations.length, identity }] := by
    subst hb'
    rfl
  have hregistry : ∀ q, b'.registry q = b.openRegistry.2.registry q := fun q => by subst hb'; rfl
  have hbacking : b'.backing = b.backing ++ [b.registries.length] := by
    rw [backing, hcoordinators, List.filter_append, List.map_append]
    rfl
  refine ⟨?_, ?_, ?_, ?_, ?_, ?_⟩
  · subst hb'
    exact hb.held
  · intro q
    have hq := hopen.owned q
    rw [hregistry, hq, hbacking]
    change (b.registries.length :: owners).count q + b.backing.count q = _
    rw [List.count_cons, List.count_append, List.count_singleton]
    omega
  · intro d
    have hd := hb.mastered d
    change _ = (b.coordinators.length :: masters).count d
    rw [howners, List.count_cons]
    by_cases he : d = b.coordinators.length
    · subst he
      rw [if_pos rfl, if_pos (by simp)]
      omega
    · rw [if_neg he, if_neg (by simpa using Ne.symm he)]
      exact hd
  · intro q
    rw [hregistry]
    exact hopen.vacant q
  · rw [hcoordinators, List.map_append, List.nodup_append]
    refine ⟨hb.apart, by simp, ?_⟩
    intro x hx y hy he
    obtain ⟨co, hco, rfl⟩ := List.mem_map.mp hx
    have hlt := hb.founded co hco
    simp only [List.map_cons, List.map_nil, List.mem_singleton] at hy
    exact Nat.ne_of_lt hlt (he.trans hy)
  · intro co hco
    have hlen : b'.registries.length = b.registries.length + 1 := by
      subst hb'
      exact List.length_append
    rw [hcoordinators, List.mem_append, List.mem_singleton] at hco
    rw [hlen]
    rcases hco with hco | rfl
    · exact Nat.lt_succ_of_lt (hb.founded co hco)
    · exact Nat.lt_succ_self _

end ToastBoard.Board
