import ToastBoard.Proofs.Jobs
import ToastBoard.Proofs.Onward

/-!
# Agreement of registries and handlers

Where only coordinators work on a board, the entries of a registry are the handlers of its
coordinator that are not over, each under its own name. Two kinds of handlers are out of this order
for a time: those that were taken out and are about to end, and one that is unsettled in the middle
of a step. A handler that is initializing has a prospect: it is queued or under way, unless its
attempt came to nothing or its worker was lost.
-/

namespace ToastBoard.Board

variable {b b' : Board} {h : HandlerId} {founders founders' : List CoordinatorId}
  {ending ending' : List HandlerId} {unsettled unsettled' : Option HandlerId}

/-- A handler is on its way to the screen or on it. -/
def Pending (b : Board) (h : HandlerId) : Prop := b.phase h = .initializing ∨ b.phase h = .live

/-- Whether a handler stands under its own name in its own registry. -/
def Listed (b : Board) (h : HandlerId) : Prop :=
  ∃ r, (b.handler h).registry = some r ∧ ((b.handler h).name, h) ∈ (b.registry r).entries

/-- The registries of coordinators agree with the phases of their handlers, but for handlers that
are about to end and for an unsettled one. -/
structure Agreed (founders : List CoordinatorId) (ending : List HandlerId)
    (unsettled : Option HandlerId) (b : Board) : Prop where
  /-- Every handler belongs to a coordinator. -/
  home : ∀ h < b.handlers.length, ∃ c ∈ founders,
    (b.handler h).registry = some (b.coordinator c).registry
  /-- An entry stands under the name of its handler in the registry of its handler. -/
  entry : ∀ {r name h}, (name, h) ∈ (b.registry r).entries →
    (b.handler h).name = name ∧ (b.handler h).registry = some r
  /-- Whoever has an entry is initializing or live. -/
  pending : ∀ {r name h}, (name, h) ∈ (b.registry r).entries → some h ≠ unsettled → b.Pending h
  /-- Whoever is about to end has no entry. -/
  staying : ∀ {r name h}, (name, h) ∈ (b.registry r).entries → h ∉ ending
  /-- Whoever is not over and not about to end has an entry. -/
  listed : ∀ {h}, b.phase h ≠ .unregistered → some h ≠ unsettled → h ∉ ending → b.Listed h
  /-- Only handlers that were made are about to end. -/
  known : ∀ h ∈ ending, h < b.handlers.length

/-- A handler with an entry has no other one. -/
theorem Agreed.entry_unique (hb : b.Agreed founders ending unsettled) {r q : RegistryId}
    {name key : String} (he : (name, h) ∈ (b.registry r).entries)
    (he' : (key, h) ∈ (b.registry q).entries) : q = r ∧ key = name := by
  obtain ⟨hname, hreg⟩ := hb.entry he
  obtain ⟨hkey, hreg'⟩ := hb.entry he'
  rw [hreg] at hreg'
  exact ⟨(Option.some.inj hreg').symm, hkey.symm.trans hname⟩

/-- A handler that was not made has no entry. -/
theorem Agreed.made (hb : b.Agreed founders ending unsettled) {r : RegistryId} {name : String}
    (he : (name, h) ∈ (b.registry r).entries) : h < b.handlers.length := by
  by_contra hlt
  have hreg := (hb.entry he).2
  rw [handler_of_le (Nat.le_of_not_lt hlt)] at hreg
  exact Option.some_ne_none r hreg.symm

/-- Entries come and go. -/
theorem Agreed.table (hb : b.Agreed founders ending unsettled) (hh : b'.handlers = b.handlers)
    (hc : ∀ c ∈ founders, (b'.coordinator c).registry = (b.coordinator c).registry)
    (hnew : ∀ {r name x}, (name, x) ∈ (b'.registry r).entries → x ∉ ending' ∧
      ((name, x) ∈ (b.registry r).entries ∨ (b.handler x).name = name ∧
        (b.handler x).registry = some r ∧ (some x ≠ unsettled → b.Pending x)))
    (hgone : ∀ {r name x}, (name, x) ∈ (b.registry r).entries →
      (name, x) ∈ (b'.registry r).entries ∨ x ∈ ending' ∨ some x = unsettled)
    (hending : ∀ x ∈ ending, x ∈ ending' ∨ b.phase x = .unregistered ∨ b'.Listed x)
    (hknown : ∀ x ∈ ending', x < b.handlers.length) : b'.Agreed founders ending' unsettled := by
  have hhandler : ∀ x, b'.handler x = b.handler x := fun x => by rw [handler, handler, hh]
  have hphase : ∀ x, b'.phase x = b.phase x := fun x => by rw [phase, phase, hhandler]
  constructor
  · intro x hx
    rw [hh] at hx
    obtain ⟨c, hm, hr⟩ := hb.home x hx
    exact ⟨c, hm, by rw [hhandler, hc c hm]; exact hr⟩
  · intro r name x hx
    rw [hhandler]
    rcases (hnew hx).2 with h1 | ⟨h1, h2, -⟩
    · exact hb.entry h1
    · exact ⟨h1, h2⟩
  · intro r name x hx hu
    rw [Pending, hphase]
    rcases (hnew hx).2 with h1 | ⟨-, -, h1⟩
    · exact hb.pending h1 hu
    · exact h1 hu
  · intro r name x hx
    exact (hnew hx).1
  · intro x hp hu he
    rw [hphase] at hp
    by_cases hx : x ∈ ending
    · rcases hending x hx with h1 | h1 | h1
      · exact absurd h1 he
      · exact absurd h1 hp
      · exact h1
    · obtain ⟨r, hr, hm⟩ := hb.listed hp hu hx
      rcases hgone hm with h1 | h1 | h1
      · exact ⟨r, by rw [hhandler]; exact hr, by rw [hhandler]; exact h1⟩
      · exact absurd h1 he
      · exact absurd h1 hu
  · intro x hx
    rw [hh]
    exact hknown x hx

/-- The agreement is kept while handlers and entries stay as they are. -/
theorem Agreed.frame (hb : b.Agreed founders ending unsettled) (hh : b'.handlers = b.handlers)
    (hc : ∀ c ∈ founders, (b'.coordinator c).registry = (b.coordinator c).registry)
    (he : ∀ r, (b'.registry r).entries = (b.registry r).entries) :
    b'.Agreed founders ending unsettled := by
  refine hb.table hh hc ?_ ?_ (fun x hx => .inl hx) hb.known
  · intro r name x hx
    rw [he] at hx
    exact ⟨hb.staying hx, .inl hx⟩
  · intro r name x hx
    rw [he]
    exact .inl hx

/-- Handlers that are over need not be about to end. -/
theorem Agreed.drop (hb : b.Agreed founders ending unsettled) (hs : ∀ x ∈ ending', x ∈ ending)
    (ho : ∀ x ∈ ending, x ∈ ending' ∨ b.phase x = .unregistered) :
    b.Agreed founders ending' unsettled := by
  refine hb.table rfl (fun _ _ => rfl) ?_ (fun hx => .inl hx) ?_ (fun x hx => hb.known x (hs x hx))
  · intro r name x hx
    exact ⟨fun hc => hb.staying hx (hs x hc), .inl hx⟩
  · intro x hx
    rcases ho x hx with h1 | h1
    · exact .inl h1
    · exact .inr (.inl h1)

/-- What is found under a name is taken out and about to end. -/
theorem Agreed.takeEntry (hb : b.Agreed founders ending unsettled) {r : RegistryId} {name : String}
    (ho : (b.registry r).OnePerName) : (b.takeEntry r name).2.Agreed founders
      ((b.takeEntry r name).1.toList ++ ending) unsettled := by
  rw [takeEntry_eq]
  have hfound : ∀ {x}, x ∈ (b.current? r name).toList ↔ (name, x) ∈ (b.registry r).entries := by
    intro x
    rw [Option.mem_toList]
    exact (Registry.mem_entries_iff ho).symm
  refine hb.table rfl (fun c _ => registry_coordinator (by rfl) (length_updateRegistry ..) c) ?_ ?_
    (fun x hx => .inl (List.mem_append_right _ hx)) ?_
  · intro q key x hx
    obtain ⟨hx, hq⟩ := mem_erased.mp hx
    refine ⟨?_, .inl hx⟩
    intro hc
    rcases List.mem_append.mp hc with hc | hc
    · exact hq (hb.entry_unique (hfound.mp hc) hx)
    · exact hb.staying hx hc
  · intro q key x hx
    by_cases hq : q = r ∧ key = name
    · obtain ⟨rfl, rfl⟩ := hq
      exact .inr (.inl (List.mem_append_left _ (hfound.mpr hx)))
    · exact .inl (mem_erased.mpr ⟨hx, hq⟩)
  · intro x hx
    rcases List.mem_append.mp hx with hx | hx
    · exact hb.made (hfound.mp hx)
    · exact hb.known x hx

/-- All that have an entry are taken out and about to end. -/
theorem Agreed.takeAll (hb : b.Agreed founders ending unsettled) (r : RegistryId) :
    (b.takeAll r).2.Agreed founders ((b.takeAll r).1 ++ ending) unsettled := by
  have hfound : ∀ {x}, x ∈ (b.takeAll r).1 ↔ ∃ name, (name, x) ∈ (b.registry r).entries :=
    Registry.mem_handlers
  refine hb.table rfl (fun c _ => registry_coordinator (by rfl) (length_updateRegistry ..) c) ?_ ?_
    (fun x hx => .inl (List.mem_append_right _ hx)) ?_
  · intro q key x hx
    obtain ⟨hx, hq⟩ := mem_takeAll.mp hx
    refine ⟨?_, .inl hx⟩
    intro hc
    rcases List.mem_append.mp hc with hc | hc
    · obtain ⟨name, hm⟩ := hfound.mp hc
      exact hq (hb.entry_unique hm hx).1
    · exact hb.staying hx hc
  · intro q key x hx
    by_cases hq : q = r
    · subst hq
      exact .inr (.inl (List.mem_append_left _ (hfound.mpr ⟨key, hx⟩)))
    · exact .inl (mem_takeAll.mpr ⟨hx, hq⟩)
  · intro x hx
    rcases List.mem_append.mp hx with hx | hx
    · obtain ⟨name, hm⟩ := hfound.mp hx
      exact hb.made hm
    · exact hb.known x hx

/-- A handler that is not settled yet is put under its name, and the one that it displaces is about
to end. -/
theorem Agreed.install (hb : b.Agreed founders ending (some h)) {r : RegistryId} {name : String}
    (ho : (b.registry r).OnePerName) (hname : (b.handler h).name = name)
    (hreg : (b.handler h).registry = some r) (hh : h ∉ ending)
    (hno : ∀ q key, (key, h) ∉ (b.registry q).entries) :
    (b.install r name h).2.Agreed founders ((b.install r name h).1.toList ++ ending) (some h) := by
  rw [install_eq]
  have hfound : ∀ {x}, x ∈ (b.current? r name).toList ↔ (name, x) ∈ (b.registry r).entries := by
    intro x
    rw [Option.mem_toList]
    exact (Registry.mem_entries_iff ho).symm
  refine hb.table rfl (fun c _ => registry_coordinator (by rfl) (length_updateRegistry ..) c) ?_ ?_
    (fun x hx => .inl (List.mem_append_right _ hx)) ?_
  · intro q key x hx
    rcases mem_inserted.mp hx with ⟨hx, hq⟩ | ⟨⟨rfl, -⟩, rfl, rfl⟩
    · refine ⟨?_, .inl hx⟩
      intro hc
      rcases List.mem_append.mp hc with hc | hc
      · exact hq (hb.entry_unique (hfound.mp hc) hx)
      · exact hb.staying hx hc
    · refine ⟨?_, .inr ⟨hname, hreg, fun hu => absurd rfl hu⟩⟩
      intro hc
      rcases List.mem_append.mp hc with hc | hc
      · exact hno _ _ (hfound.mp hc)
      · exact hh hc
  · intro q key x hx
    by_cases hq : q = r ∧ key = name
    · obtain ⟨rfl, rfl⟩ := hq
      exact .inr (.inl (List.mem_append_left _ (hfound.mpr hx)))
    · exact .inl (mem_inserted.mpr (.inl ⟨hx, hq⟩))
  · intro x hx
    rcases List.mem_append.mp hx with hx | hx
    · exact hb.made (hfound.mp hx)
    · exact hb.known x hx

/-- The entry of an unsettled handler is taken out. -/
theorem Agreed.takeOut (hb : b.Agreed founders ending (some h)) {r : RegistryId} {name : String}
    (ho : (b.registry r).OnePerName) (he : (name, h) ∈ (b.registry r).entries) :
    (b.updateRegistry r fun reg => reg.erase name).Agreed founders ending (some h) := by
  refine hb.table rfl (fun c _ => registry_coordinator (by rfl) (length_updateRegistry ..) c) ?_ ?_
    (fun x hx => .inl hx) hb.known
  · intro q key x hx
    have hold := (mem_erased.mp hx).1
    exact ⟨hb.staying hold, .inl hold⟩
  · intro q key x hx
    by_cases hq : q = r ∧ key = name
    · obtain ⟨rfl, rfl⟩ := hq
      exact .inr (.inr (congrArg some (Registry.eq_of_mem_entries ho hx he)))
    · exact .inl (mem_erased.mpr ⟨hx, hq⟩)

/-- A handler that was about to end is put back in place of an unsettled one. -/
theorem Agreed.putBack {p : HandlerId} (hb : b.Agreed founders (p :: ending) (some h))
    {r : RegistryId} {name : String} (ho : (b.registry r).OnePerName)
    (he : (name, h) ∈ (b.registry r).entries) (hp : b.Pending p) (hn : (b.handler p).name = name)
    (hr : (b.handler p).registry = some r) (hnot : p ∉ ending) :
    (b.updateRegistry r fun reg => reg.insert name p).Agreed founders ending (some h) := by
  have hput :
      (name, p) ∈ ((b.updateRegistry r fun reg => reg.insert name p).registry r).entries := by
    exact mem_inserted.mpr (.inr ⟨⟨rfl, lt_of_entry he⟩, rfl, rfl⟩)
  refine hb.table rfl (fun c _ => registry_coordinator (by rfl) (length_updateRegistry ..) c) ?_ ?_
    ?_ (fun x hx => hb.known x (List.mem_cons_of_mem _ hx))
  · intro q key x hx
    rcases mem_inserted.mp hx with ⟨hold, -⟩ | ⟨⟨rfl, -⟩, rfl, rfl⟩
    · exact ⟨fun hc => hb.staying hold (List.mem_cons_of_mem _ hc), .inl hold⟩
    · exact ⟨hnot, .inr ⟨hn, hr, fun _ => hp⟩⟩
  · intro q key x hx
    by_cases hq : q = r ∧ key = name
    · obtain ⟨rfl, rfl⟩ := hq
      exact .inr (.inr (congrArg some (Registry.eq_of_mem_entries ho hx he)))
    · exact .inl (mem_inserted.mpr (.inl ⟨hx, hq⟩))
  · intro x hx
    rcases List.mem_cons.mp hx with rfl | hx
    · exact .inr (.inr ⟨r, hr, hn ▸ hput⟩)
    · exact .inl hx

/-- Where more coordinators are known, handlers belong to them as well. -/
theorem Agreed.found (hb : b.Agreed founders ending unsettled)
    (hs : ∀ c ∈ founders, c ∈ founders') : b.Agreed founders' ending unsettled where
  home x hx := by
    obtain ⟨c, hc, hr⟩ := hb.home x hx
    exact ⟨c, hs c hc, hr⟩
  entry := hb.entry
  pending := hb.pending
  staying := hb.staying
  listed := hb.listed
  known := hb.known

/-- A handler that is made is not settled yet. -/
theorem Agreed.create (hb : b.Agreed founders ending none) {hd : Handler}
    (hc : ∃ c ∈ founders, hd.registry = some (b.coordinator c).registry)
    (hh : b'.handlers = b.handlers ++ [hd]) (hregs : b'.registries = b.registries)
    (hco : b'.coordinators = b.coordinators) :
    b'.Agreed founders ending (some b.handlers.length) := by
  have hhandler : ∀ x, b'.handler x = if x = b.handlers.length then hd else b.handler x := by
    intro x
    rw [handler, hh, getD_concat]
    rfl
  have hold : ∀ {x}, x ≠ b.handlers.length → b'.handler x = b.handler x := by
    intro x hx
    rw [hhandler, if_neg hx]
  have hphase : ∀ {x}, x ≠ b.handlers.length → b'.phase x = b.phase x := by
    intro x hx
    rw [phase, phase, hold hx]
  have hregistry : ∀ r, b'.registry r = b.registry r := fun r => by rw [registry, registry, hregs]
  have hcoordinator := registry_coordinator hco (by rw [hregs])
  constructor
  · intro x hx
    by_cases he : x = b.handlers.length
    · obtain ⟨c, hm, hr⟩ := hc
      exact ⟨c, hm, by rw [hhandler, if_pos he, hcoordinator]; exact hr⟩
    · rw [hh, List.length_append, List.length_singleton] at hx
      obtain ⟨c, hm, hr⟩ := hb.home x (by omega)
      exact ⟨c, hm, by rw [hold he, hcoordinator]; exact hr⟩
  · intro r name x hx
    rw [hregistry] at hx
    rw [hold (Nat.ne_of_lt (hb.made hx))]
    exact hb.entry hx
  · intro r name x hx hu
    rw [hregistry] at hx
    rw [Pending, hphase (Nat.ne_of_lt (hb.made hx))]
    exact hb.pending hx (Option.some_ne_none _)
  · intro r name x hx
    rw [hregistry] at hx
    exact hb.staying hx
  · intro x h0 hu he
    have hx : x ≠ b.handlers.length := fun hc => hu (by rw [hc])
    rw [hphase hx] at h0
    obtain ⟨r, h1, h2⟩ := hb.listed h0 (Option.some_ne_none _) he
    exact ⟨r, by rw [hold hx]; exact h1, by rw [hold hx, hregistry]; exact h2⟩
  · intro x hx
    rw [hh, List.length_append]
    exact Nat.lt_add_right _ (hb.known x hx)

/-- Handlers move on: they stay as they are, are over without an entry, or are on their way to the
screen or on it with an entry or where one is expected. -/
theorem Agreed.phases (hb : b.Agreed founders ending unsettled)
    (hlen : b'.handlers.length = b.handlers.length)
    (hf : ∀ x, (b'.handler x).fields = (b.handler x).fields)
    (hr : ∀ x, (b'.handler x).registry = (b.handler x).registry)
    (hregs : b'.registries = b.registries) (hco : b'.coordinators = b.coordinators)
    (hp : ∀ x, some x ≠ unsettled' →
      (some x ≠ unsettled ∧ b'.phase x = b.phase x) ∨
      (b'.phase x = .unregistered ∧ ∀ r name, (name, x) ∉ (b.registry r).entries) ∨
      (b'.Pending x ∧ (b.Listed x ∨ (b.phase x ≠ .unregistered ∧ some x ≠ unsettled)))) :
    b'.Agreed founders ending unsettled' := by
  have hregistry : ∀ r, b'.registry r = b.registry r := fun r => by rw [registry, registry, hregs]
  have hcoordinator := registry_coordinator hco (by rw [hregs])
  have hname : ∀ x, (b'.handler x).name = (b.handler x).name := fun x => by
    rw [Handler.name, Handler.name, hf]
  have hlisted : ∀ x, b.Listed x → b'.Listed x := by
    rintro x ⟨r, h1, h2⟩
    exact ⟨r, by rw [hr]; exact h1, by rw [hname, hregistry]; exact h2⟩
  constructor
  · intro x hx
    rw [hlen] at hx
    obtain ⟨c, hm, h1⟩ := hb.home x hx
    exact ⟨c, hm, by rw [hr, hcoordinator]; exact h1⟩
  · intro r name x hx
    rw [hregistry] at hx
    rw [hname, hr]
    exact hb.entry hx
  · intro r name x hx hu
    rw [hregistry] at hx
    rcases hp x hu with ⟨h1, h2⟩ | ⟨-, h1⟩ | ⟨h1, -⟩
    · rw [Pending, h2]
      exact hb.pending hx h1
    · exact absurd hx (h1 r name)
    · exact h1
  · intro r name x hx
    rw [hregistry] at hx
    exact hb.staying hx
  · intro x h0 hu he
    rcases hp x hu with ⟨h1, h2⟩ | ⟨h1, -⟩ | ⟨-, h1 | ⟨h1, h2⟩⟩
    · rw [h2] at h0
      exact hlisted x (hb.listed h0 h1 he)
    · exact absurd h1 h0
    · exact hlisted x h1
    · exact hlisted x (hb.listed h1 h2 he)
  · intro x hx
    rw [hlen]
    exact hb.known x hx

/-- A handler is assigned a phase that leaves it unsettled, or that agrees with its entry. -/
theorem Agreed.setPhase (hb : b.Agreed founders ending unsettled) {p : Phase}
    (hothers : ∀ x ≠ h, some x ≠ unsettled' → some x ≠ unsettled)
    (hself : unsettled' = some h ∨ (b.setPhase h p).Pending h ∧ b.Listed h) :
    (b.setPhase h p).Agreed founders ending unsettled' := by
  refine hb.phases (length_update ..) (fun x => by rw [handler_setPhase])
    (fun x => by rw [handler_setPhase]) rfl rfl fun x hx => ?_
  by_cases he : x = h
  · subst he
    rcases hself with hself | ⟨hpending, hlisted⟩
    · exact absurd hself.symm hx
    · exact .inr (.inr ⟨hpending, .inl hlisted⟩)
  · exact .inl ⟨hothers x he hx, phase_setPhase_of_ne he _⟩

/-- The job of a handler was lost with its worker before it was attempted. -/
structure Lost (b : Board) (s : StationId) (h : HandlerId) : Prop where
  /-- The worker was there. -/
  made : s < b.stations.length
  /-- The worker is no longer there. -/
  dead : (b.station s).worker.alive = false
  /-- The handler was never attempted. -/
  untried : ∀ a ∈ b.screen.attempts, a.handler ≠ h
  /-- The handler is not queued anywhere. -/
  idle : ∀ t, h ∉ b.jobs t

/-- What keeps a handler initializing at a station: it is queued or under way there, or its attempt
came to nothing, or its job was lost. -/
def Awaited (b : Board) (s : StationId) (h : HandlerId) : Prop :=
  h ∈ b.jobs s ∨ (∃ a, b.inside? s = some a ∧ a.handler = h) ∨
    (∃ a ∈ b.screen.attempts, a.handler = h ∧ a.fate ≠ .proceeds) ∨ b.Lost s h

/-- Every handler that is initializing is awaited at the station of its coordinator, but for one
whose job was just taken. -/
def Prospects (taken : Option HandlerId) (b : Board) : Prop :=
  ∀ h, b.phase h = .initializing → some h ≠ taken → ∃ c < b.coordinators.length,
    (b.handler h).registry = some (b.coordinator c).registry ∧
      b.Awaited (b.coordinator c).station h

variable {taken taken' : Option HandlerId} {s : StationId}

/-- Prospects are kept where coordinators and the registries of handlers are. -/
theorem Prospects.of (hb : b.Prospects taken)
    (hr : ∀ x, b.phase x = .initializing → (b'.handler x).registry = (b.handler x).registry)
    (hn : b.coordinators.length ≤ b'.coordinators.length)
    (hc : ∀ c < b.coordinators.length, (b'.coordinator c).registry = (b.coordinator c).registry ∧
      (b'.coordinator c).station = (b.coordinator c).station)
    (hp : ∀ x, b'.phase x = .initializing → some x ≠ taken' →
      b.phase x = .initializing ∧ some x ≠ taken ∧ ∀ s, b.Awaited s x → b'.Awaited s x) :
    b'.Prospects taken' := by
  intro x hx ht
  obtain ⟨h1, h2, h3⟩ := hp x hx ht
  obtain ⟨c, hlt, hreg, haw⟩ := hb x h1 h2
  refine ⟨c, Nat.lt_of_lt_of_le hlt hn, ?_, ?_⟩
  · rw [hr x h1, (hc c hlt).1]
    exact hreg
  · rw [(hc c hlt).2]
    exact h3 _ haw

/-- What is awaited is awaited on a board with the same stations and attempts. -/
theorem Awaited.frame (hw : b.Awaited s h) (hs : b'.stations = b.stations)
    (ha : b'.screen.attempts = b.screen.attempts) : b'.Awaited s h := by
  have hstation : ∀ t, b'.station t = b.station t := fun t => by rw [station, station, hs]
  have hjobs : ∀ t, b'.jobs t = b.jobs t := fun t => by rw [jobs, jobs, hstation]
  rcases hw with hw | ⟨a, hi, he⟩ | hw | hw
  · exact .inl (by rw [hjobs]; exact hw)
  · exact .inr (.inl ⟨a, by rw [inside?, hstation, ha]; exact hi, he⟩)
  · exact .inr (.inr (.inl (by rw [ha]; exact hw)))
  · refine .inr (.inr (.inr ⟨by rw [hs]; exact hw.made, by rw [hstation]; exact hw.dead, ?_, ?_⟩))
    · rw [ha]
      exact hw.untried
    · intro t
      rw [hjobs]
      exact hw.idle t

/-- Prospects are kept where stations stay as they are and nobody becomes initializing. -/
theorem Prospects.frame (hb : b.Prospects taken)
    (hr : ∀ x, b.phase x = .initializing → (b'.handler x).registry = (b.handler x).registry)
    (hp : ∀ x, b'.phase x = .initializing → some x ≠ taken' →
      b.phase x = .initializing ∧ some x ≠ taken)
    (hregs : b'.registries.length = b.registries.length)
    (hco : b'.coordinators = b.coordinators) (hs : b'.stations = b.stations)
    (ha : b'.screen.attempts = b.screen.attempts) : b'.Prospects taken' := by
  refine hb.of hr (Nat.le_of_eq (by rw [hco])) ?_ ?_
  · intro c _
    refine ⟨registry_coordinator hco hregs c, ?_⟩
    rw [coordinator, coordinator, hco, hs, hregs]
  · intro x h1 h2
    exact ⟨(hp x h1 h2).1, (hp x h1 h2).2, fun s hw => hw.frame hs ha⟩

end ToastBoard.Board
