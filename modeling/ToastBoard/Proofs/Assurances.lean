import ToastBoard.Proofs.Emission

/-!
# What listeners can rely on

A listener that is told something may do what it likes before it returns, and relies on three things
meanwhile. The handler of whose end it is told has no entry any more. If it returns from being told
of an outcome, its handler is over before anybody is told anything else. And nobody disappears from
under a name because of what goes on around it: whoever stood there still does, or is not active any
more, unless the table is gone, or was emptied because the signal fired. In turn, whoever does the
telling relies on listeners to keep the tables tidy and to bring nobody back.
-/

namespace ToastBoard

open Talk Board

namespace Deed

/-- Whether a deed shows an alert. -/
def shows : Deed → Bool
  | .showAlert .. => true
  | _ => false

end Deed

/-- Whether an event leaves things to coordinators, or gives one of them up. -/
def Event.Orderly (e : Event) : Prop := e.Coordinated ∨ ∃ c, e = .deed (.dropCoordinator c)

/-- A deed is orderly if it is left to coordinators, or gives one of them up. -/
@[simp] theorem Event.orderly_deed {d : Deed} :
    (Event.deed d).Orderly ↔ d.Coordinated ∨ ∃ c, d = .dropCoordinator c := by
  simp [Orderly, Coordinated]

/-- The deed that goes on in an event. -/
def Moment.acting (m : Moment) : Event → Option Deed
  | .deed d => some d
  | .reply _ => m.waiting.head?.map (·.deed)

/-- What is still being told when an event happens: a reply is given to whoever was told last. -/
def Event.outer : Event → List Telling → List Telling
  | .deed _, calls => calls
  | .reply _, calls => calls.tail

variable {strict empties : Bool} {a b b' c start since : Board} {h p : HandlerId}
  {r : RegistryId} {s : StationId} {name : String} {o : Outcome} {α β : Type}

namespace Board

/-- Whoever is active under a name still is, or nobody is there any more: whoever was has ended, or
the table is gone, or it was emptied where tables may be. -/
structure KeepsOrVacates (empties : Bool) (b b' : Board) : Prop where
  /-- Whoever was not active is not. -/
  inactive : ∀ {x}, (b.phase x).isActive = false → (b'.phase x).isActive = false
  /-- Registries are only added. -/
  made : b.registries.length ≤ b'.registries.length
  /-- A registry that is gone is not back. -/
  gone : ∀ {r}, r < b.registries.length → b.hasRegistry r = false → b'.hasRegistry r = false
  /-- Whoever is under a name was there. -/
  subset : ∀ {r name x}, b'.current? r name = some x → b.current? r name = some x
  /-- What has become of those under a name. -/
  current : ∀ {r name x}, b.current? r name = some x → (b.phase x).isActive = true →
    (b'.current? r name = some x ∧ (b'.phase x).isActive = true) ∨
      (b'.current? r name = none ∧
        ((b'.phase x).isActive = false ∨ b'.hasRegistry r = false ∨ empties = true))

/-- Where nobody is under a name nobody gets there. -/
theorem KeepsOrVacates.none (h : b.KeepsOrVacates empties b') (hn : b.current? r name = none) :
    b'.current? r name = none := by
  cases hc : b'.current? r name with
  | none => rfl
  | some x => exact absurd (hn.symm.trans (h.subset hc)) nofun

theorem KeepsOrVacates.refl (b : Board) : b.KeepsOrVacates empties b :=
  ⟨id, Nat.le_refl _, fun _ => id, id, fun hx ha => .inl ⟨hx, ha⟩⟩

theorem KeepsOrVacates.trans (h : a.KeepsOrVacates empties b) (h' : b.KeepsOrVacates empties c) :
    a.KeepsOrVacates empties c where
  inactive hx := h'.inactive (h.inactive hx)
  made := Nat.le_trans h.made h'.made
  gone hlt hr := h'.gone (Nat.lt_of_lt_of_le hlt h.made) (h.gone hlt hr)
  subset hx := h.subset (h'.subset hx)
  current hx ha := by
    rcases h.current hx ha with ⟨hb, hb'⟩ | ⟨hb, hwhy⟩
    · exact h'.current hb hb'
    · refine .inr ⟨h'.none hb, hwhy.imp h'.inactive (.imp_left fun hg => ?_)⟩
      have hlt := lt_of_entry (Registry.mem_of_get? hx)
      exact h'.gone (Nat.lt_of_lt_of_le hlt h.made) hg

/-- Whoever is not active is not while things only end. -/
theorem Ebbs.inactive (he : b.Ebbs b') (hx : (b.phase h).isActive = false) :
    (b'.phase h).isActive = false := by
  rcases he.phase h with hp | hp
  · rwa [hp]
  · rw [hp]
    rfl

/-- Where entries stay, nobody ends who has one, and no registry is back, it does not matter what
else happens. -/
theorem keepsOrVacates_of_entries
    (hi : ∀ {x}, (b.phase x).isActive = false → (b'.phase x).isActive = false)
    (hk : ∀ {r name x}, b.current? r name = some x → (b.phase x).isActive = true →
      (b'.phase x).isActive = true)
    (hl : b.registries.length ≤ b'.registries.length)
    (hg : ∀ {r}, r < b.registries.length → b.hasRegistry r = false → b'.hasRegistry r = false)
    (he : ∀ r, (b'.registry r).entries = (b.registry r).entries) : b.KeepsOrVacates empties b' := by
  have hsame : ∀ r name, b'.current? r name = b.current? r name := fun r name => by
    rw [current?, Registry.get?, he]
    rfl
  exact ⟨hi, hl, hg, fun hx => hsame _ _ ▸ hx, fun hx ha => .inl ⟨(hsame _ _).trans hx, hk hx ha⟩⟩

/-- Names are kept while registries stay the same and whoever stands there stays active. -/
theorem keepsOrVacates_of_registries
    (hi : ∀ {x}, (b.phase x).isActive = false → (b'.phase x).isActive = false)
    (hk : ∀ {r name x}, b.current? r name = some x → (b.phase x).isActive = true →
      (b'.phase x).isActive = true)
    (hr : b'.registries = b.registries) : b.KeepsOrVacates empties b' := by
  refine keepsOrVacates_of_entries hi hk (hr ▸ Nat.le_refl _) (fun {r} _ hg => ?_) fun r => ?_
  · rwa [hasRegistry_of_registries hr]
  · rw [registry_of_registries hr]

/-- It does not matter what happens but to phases and tables. -/
theorem keepsOrVacates_of_phases (hp : ∀ x, b'.phase x = b.phase x)
    (hr : b'.registries = b.registries) :
    b.KeepsOrVacates empties b' :=
  keepsOrVacates_of_registries (fun {x} hx => by rwa [hp]) (fun {_ _ x} _ ha => by rwa [hp]) hr

/-- Names are kept where nothing but toasts changes. -/
theorem SameButToasts.keepsOrVacates (ha : b.SameButToasts b') : b.KeepsOrVacates empties b' :=
  keepsOrVacates_of_phases ha.phase ha.registries

/-- The entry of a name is taken out, of a handler that is not active any more. -/
theorem keepsOrVacates_of_removal
    (hi : ∀ {x}, (b.phase x).isActive = false → (b'.phase x).isActive = false)
    (hk : ∀ {q key x}, ¬(q = r ∧ key = name) → b.current? q key = some x →
      (b.phase x).isActive = true → (b'.phase x).isActive = true)
    (hr : b'.registries = (b.updateRegistry r fun reg => reg.erase name).registries)
    (hover : ∀ x, b.current? r name = some x → (b'.phase x).isActive = false) :
    b.KeepsOrVacates empties b' := by
  have hcurrent : ∀ q key, b'.current? q key =
      if q = r ∧ key = name then none else b.current? q key := fun q key =>
    (current_of_registries hr q key).trans (current_erased ..)
  refine ⟨hi, ?_, fun {q} _ hg => ?_, fun {q key x} hx => ?_, fun {q key x} hx ha => ?_⟩
  · rw [hr, length_updateRegistry]
  · rw [hasRegistry_of_registries hr]
    exact gone_updateRegistry id hg
  · rw [hcurrent] at hx
    split at hx
    · cases hx
    · exact hx
  · rw [hcurrent]
    by_cases hkey : q = r ∧ key = name
    · obtain ⟨rfl, rfl⟩ := hkey
      exact .inr ⟨if_pos ⟨rfl, rfl⟩, .inl (hover x hx)⟩
    · exact .inl ⟨(if_neg hkey).trans hx, hk hkey hx ha⟩

/-- It does not matter what becomes of a handler that is active and remains so. -/
theorem keepsOrVacates_update {f : Handler → Handler} (hp : (b.phase h).isActive = true)
    (hp' : ((b.update h f).phase h).isActive = true) : b.KeepsOrVacates empties (b.update h f) := by
  have hother : ∀ {x}, x ≠ h → (b.update h f).phase x = b.phase x := fun {x} hx => by
    rw [phase_update_of_ne hx]
  refine keepsOrVacates_of_registries (fun {x} hx => ?_) (fun {_ _ x} _ ha => ?_) rfl
  · by_cases hxh : x = h
    · rw [hxh, hp] at hx
      cases hx
    · rwa [hother hxh]
  · by_cases hxh : x = h
    · rwa [hxh]
    · rwa [hother hxh]

/-- What happens to somebody who has ended in the end, and has no entry then, does not matter
before. -/
theorem KeepsOrVacates.of_ended (hy : c.KeepsOrVacates empties b')
    (hr : c.registries = b.registries)
    (hp : ∀ x ≠ h, c.phase x = b.phase x) (hover : b'.phase h = .unregistered)
    (hu : ∀ r name, b'.current? r name ≠ some h) : b.KeepsOrVacates empties b' := by
  have hcurrent := current_of_registries hr
  refine ⟨fun {x} hx => ?_, hr ▸ hy.made, fun {r} hlt hg => hy.gone (hr ▸ hlt) ?_,
    fun {r name x} hx => hcurrent r name ▸ hy.subset hx, fun {r name x} hx ha => ?_⟩
  · by_cases hxh : x = h
    · rw [hxh, hover]
      rfl
    · exact hy.inactive (by rwa [hp x hxh])
  · rwa [hasRegistry_of_registries hr]
  · by_cases hxh : x = h
    · subst hxh
      refine .inr ⟨?_, .inl (by rw [hover]; rfl)⟩
      cases hc : b'.current? r name with
      | none => rfl
      | some z =>
        have hz := hcurrent r name ▸ hy.subset hc
        exact absurd (Option.some.inj (hz.symm.trans hx) ▸ hc) (hu r name)
    · exact hy.current ((hcurrent r name).trans hx) (by rwa [hp x hxh])

theorem registries_announce {topic : Topic} {action : Option String} :
    (b.announce h topic action).registries = b.registries := by
  rw [announce_eq]

theorem phase_announce {topic : Topic} {action : Option String} (x : HandlerId) :
    (b.announce h topic action).phase x = b.phase x := by
  rw [phase, handler_announce]
  rfl

/-- Giving a handler back keeps all names. -/
theorem keepsOrVacates_letGo (h : HandlerId) : b.KeepsOrVacates empties (b.letGo h) :=
  keepsOrVacates_of_phases (sameButToasts_letGo h).phase (sameButToasts_letGo h).registries

theorem keepsOrVacates_letGoAll (hs : List HandlerId) :
    b.KeepsOrVacates empties (b.letGoAll hs) := by
  induction hs generalizing b with
  | nil => exact .refl b
  | cons h hs ih => exact (keepsOrVacates_letGo h).trans ih

/-- Owning a registry keeps all names. -/
theorem keepsOrVacates_ownRegistry (hr : b.hasRegistry r = true) :
    b.KeepsOrVacates empties (b.ownRegistry r) := by
  have hpos : (b.registry r).owners ≠ 0 := Nat.pos_iff_ne_zero.mp (of_decide_eq_true hr)
  exact keepsOrVacates_of_entries id (fun _ => id) (Nat.le_of_eq (length_updateRegistry ..).symm)
    (fun _ => gone_updateRegistry fun h0 => absurd h0 hpos) (entries_ownRegistry b r)

/-- A table is emptied that is gone, or may be emptied. -/
theorem keepsOrVacates_of_emptied (hp : ∀ x, b'.phase x = b.phase x)
    (hr : b'.registries =
      (b.updateRegistry r fun reg => { reg with entries := [] }).registries)
    (hwhy : b.hasRegistry r = false ∨ empties = true) : b.KeepsOrVacates empties b' := by
  have hcurrent : ∀ q key, b'.current? q key = if q = r then none else b.current? q key :=
    fun q key => (current_of_registries hr q key).trans (current_emptied ..)
  have hhas : ∀ {q}, b.hasRegistry q = false → b'.hasRegistry q = false := fun {q} hq =>
    (hasRegistry_of_registries hr q).trans (gone_updateRegistry id hq)
  refine ⟨fun {x} hx => by rwa [hp], ?_, fun _ => hhas, fun {q key x} hx => ?_,
    fun {q key x} hx ha => ?_⟩
  · rw [hr, length_updateRegistry]
  · rw [hcurrent] at hx
    split at hx
    · cases hx
    · exact hx
  · rw [hcurrent]
    by_cases hq : q = r
    · subst hq
      exact .inr ⟨if_pos rfl, .inr (hwhy.imp_left hhas)⟩
    · exact .inl ⟨(if_neg hq).trans hx, by rwa [hp]⟩

/-- A registry that loses an owner stays as it is, or is gone. -/
theorem keepsOrVacates_disownRegistry (r : RegistryId) :
    b.KeepsOrVacates empties (b.disownRegistry r) := by
  have hless : b.KeepsOrVacates empties (b.updateRegistry r fun reg =>
      { reg with owners := reg.owners - 1 }) :=
    keepsOrVacates_of_entries id (fun _ => id) (Nat.le_of_eq (length_updateRegistry ..).symm)
      (fun _ => gone_updateRegistry fun h0 => by rw [h0]) (entries_updateRegistry fun _ => rfl)
  unfold disownRegistry
  simp only
  generalize b.updateRegistry r (fun reg => { reg with owners := reg.owners - 1 }) = d at hless ⊢
  split
  · exact hless
  · rename_i hgone
    have hemptied : d.KeepsOrVacates empties
        (d.updateRegistry r fun reg => { reg with entries := [] }) :=
      keepsOrVacates_of_emptied (fun _ => rfl) rfl (.inl (Bool.eq_false_iff.mpr hgone))
    exact (hless.trans hemptied).trans (sameButToasts_reapAll _).keepsOrVacates

/-- A coordinator that is given up takes its table along, at most. -/
theorem keepsOrVacates_disownCoordinator (c : CoordinatorId) :
    b.KeepsOrVacates empties (b.disownCoordinator c) := by
  have hless : b.KeepsOrVacates empties (b.updateCoordinator c fun co =>
      { co with owners := co.owners - 1 }) := keepsOrVacates_of_phases (fun _ => rfl) rfl
  unfold disownCoordinator
  simp only
  split
  · exact hless
  · exact (hless.trans (keepsOrVacates_disownRegistry _)).trans
      (keepsOrVacates_of_phases (fun _ => rfl) rfl)

/-- A table is emptied. -/
theorem keepsOrVacates_takeAll (r : RegistryId) : b.KeepsOrVacates true (b.takeAll r).2 :=
  keepsOrVacates_of_emptied (fun _ => rfl) rfl (.inr rfl)

/-- A new registry is nobody's that was there before. -/
theorem keepsOrVacates_setUp (settings : Settings) (host : Host) :
    b.KeepsOrVacates empties (b.setUp settings host).2 := by
  rcases setUp_cases b settings host with ⟨worker, identity, -, he⟩ | ⟨he, -⟩
  · rw [he]
    have hregistries : (b.openCoordinator worker identity).2.registries =
        b.registries ++ [({} : Registry)] := rfl
    have hold : ∀ {r}, r < b.registries.length →
        (b.openCoordinator worker identity).2.registry r = b.registry r := fun {r} hlt =>
      (getD_concat ..).trans (if_neg (Nat.ne_of_lt hlt))
    refine keepsOrVacates_of_entries id (fun _ => id) ?_ (fun {r} hlt hr => ?_)
      (entries_of_concat hregistries)
    · rw [hregistries, List.length_append]
      exact Nat.le_add_right _ _
    · rwa [hasRegistry, hold hlt]
  · rw [he]
    exact .refl b

/-- What is kept for a handler concerns no name. -/
theorem keepsOrVacates_deferred (h : HandlerId) (o : Outcome) :
    b.KeepsOrVacates empties (b.update h fun hd => hd.deferred o) := by
  refine keepsOrVacates_of_phases (fun x => ?_) rfl
  rw [phase, handler_update]
  split
  · rename_i hx
    rw [deferred_eq, hx.1]
    rfl
  · rfl

/-- A thread that ends keeps all names. -/
theorem keepsOrVacates_closeStation (s : StationId) :
    b.KeepsOrVacates empties (b.closeStation s) := by
  have hstopped : b.KeepsOrVacates empties (b.setWorker s (b.station s).worker.finish) :=
    keepsOrVacates_of_phases (fun _ => rfl) rfl
  exact hstopped.trans (sameButToasts_reapAll _).keepsOrVacates

/-- Workers take their steps without a look at tables. -/
theorem keepsOrVacates_advance (s : StationId) : b.KeepsOrVacates empties (b.advance s).2 := by
  have hset : ∀ worker, b.KeepsOrVacates empties (b.setWorker s worker) := fun _ =>
    keepsOrVacates_of_phases (fun _ => rfl) rfl
  unfold advance
  split
  · exact .refl b
  · split
    · exact .refl b
    · exact keepsOrVacates_closeStation s
    · exact hset _
    · simp only
      split
      · exact (hset _).trans (sameButToasts_reap _).keepsOrVacates
      · exact keepsOrVacates_of_phases (fun _ => rfl) rfl

/-- Tables in which every entry stands where its handler belongs, at most one under each name, and
none in a registry that is gone. -/
structure Tidy (b : Board) : Prop where
  /-- Every entry stands where its handler belongs. -/
  filed : b.Filed
  /-- There is one entry at most to a name. -/
  tables : ∀ r, (b.registry r).OnePerName
  /-- A registry that is gone is empty. -/
  vacant : ∀ r, (b.registry r).owners = 0 → (b.registry r).entries = []

/-- What listeners may leave: the tables are tidy, and nobody has an entry who had none. -/
structure Leads (b b' : Board) : Prop where
  /-- The tables are tidy. -/
  tidy : b'.Tidy
  /-- Nobody has an entry who had none. -/
  unlisted : ∀ {x}, b.Unlisted x → b'.Unlisted x

/-- Tables stay tidy where entries do and handlers stay where they belong. -/
theorem Tidy.of_registries (ht : b.Tidy) (hr : b'.registries = b.registries)
    (ho : ∀ x, (b'.handler x).origin = (b.handler x).origin) : b'.Tidy := by
  have hregistry : ∀ r, b'.registry r = b.registry r := registry_of_registries hr
  refine ⟨fun r name x hx => (ht.filed r name x (hregistry r ▸ hx)).of_origin (ho x), fun r => ?_,
    fun r h0 => ?_⟩
  · rw [hregistry]
    exact ht.tables r
  · rw [hregistry] at h0 ⊢
    exact ht.vacant r h0

/-- A handler that was made and is not seated anywhere has no entry. -/
theorem Tidy.unlisted (ht : b.Tidy) (hs : ∀ r, ¬b.Seated r h) (hlt : h < b.handlers.length) :
    b.Unlisted h := by
  refine ⟨hlt, fun {q key} hx => hs q ?_⟩
  obtain ⟨hname, hhome⟩ := ht.filed q key h hx
  refine ⟨hhome, ?_, (isCurrent_iff (ht.tables q)).mpr (hname ▸ hx)⟩
  rw [hasRegistry, decide_eq_true_iff]
  refine Nat.pos_of_ne_zero fun h0 => ?_
  rw [ht.vacant q h0] at hx
  cases hx

end Board

namespace Talk

/-- A computation that makes nobody live has not done so by its next stop. -/
theorem Ebbs.stop {t : Talk Board Telling α} (ht : t.Ebbs since) : since.Ebbs t.stop := by
  cases t with
  | ended a b => exact ht
  | told m b resume => exact ht.1

/-- A second computation goes on from where the first one stops. -/
theorem stop_andThen {t : Talk Board Telling α} {next : α → Board → Talk Board Telling β}
    (hn : ∀ a b, (next a b).Ebbs b) : t.stop.Ebbs (t.andThen next).stop := by
  cases t with
  | ended a b =>
    cases a with
    | none => exact .refl b
    | some a => exact (hn a b).stop
  | told m b resume => exact .refl b

/-- The next stop of a computation comes before what is done in any case at its end. -/
theorem stop_ensuring {t : Talk Board Telling α} {f : Board → Board}
    (hf : ∀ b : Board, b.Ebbs (f b)) : t.stop.Ebbs (t.ensuring f).stop := by
  cases t with
  | ended a b => exact hf b
  | told m b resume => exact .refl b

/-- What comes of a computation makes no difference to where it stops. -/
theorem stop_result (t : Talk Board Telling α) (f : α → β) :
    (t.andThen fun a b => .ended (some (f a)) b).stop = t.stop := by
  cases t with
  | ended a b => cases a <;> rfl
  | told m b resume => rfl

/-- What is done in any case at the end does not change what is told first. -/
theorem message_ensuring (t : Talk Board Telling α) (f : Board → Board) :
    (t.ensuring f).message = t.message := by
  cases t <;> rfl

theorem message_result (t : Talk Board Telling α) (f : α → β) :
    (t.andThen fun a b => .ended (some (f a)) b).message = t.message := by
  cases t with
  | ended a b => cases a <;> rfl
  | told m b resume => rfl

theorem stop_caught (t : Talk Board Telling Unit) : t.caught.stop = t.stop := by
  cases t <;> rfl

/-- What a computation assures those that it tells, as long as they leave tables tidy and bring
nobody back, which `strict` says: the handler of whose end they are told has no entry, and whoever
stood under a name keeps it or vacates it. In any case, if they return from being told of an
outcome, its handler is over by the next stop. -/
def Assures (strict empties : Bool) : Board → Talk Board Telling α → Prop
  | since, .ended _ b => strict = true → since.KeepsOrVacates empties b
  | since, .told t b resume =>
    (strict = true → since.KeepsOrVacates empties b ∧
      (t.notice.topic = .finished → b.Unlisted t.handler)) ∧
    ∀ b', (strict = true → b.Leads b') →
      (t.notice.topic.isReport = true →
        (resume true b').stop.phase t.handler = .unregistered) ∧
      ∀ returned, (resume returned b').Assures strict empties b'

namespace Assures

/-- What was before matters only for where a computation stops first. -/
theorem relative {t : Talk Board Telling α} (ht : t.Assures strict empties b)
    (hb : strict = true → b.KeepsOrVacates empties t.stop → since.KeepsOrVacates empties t.stop) :
    t.Assures strict empties since := by
  cases t with
  | ended a b' => exact fun hs => hb hs (ht hs)
  | told m b' resume => exact ⟨fun hs => ⟨hb hs (ht.1 hs).1, (ht.1 hs).2⟩, ht.2⟩

/-- What was before is taken to the first turn. -/
theorem after {t : Talk Board Telling α} (ht : t.Assures strict empties b)
    (hb : strict = true → since.KeepsOrVacates empties b) : t.Assures strict empties since :=
  ht.relative fun hs => (hb hs).trans

/-- Names are kept or vacated up to the next stop of a computation. -/
theorem keepsOrVacates {t : Talk Board Telling α} (ht : t.Assures true empties since) :
    since.KeepsOrVacates empties t.stop := by
  cases t with
  | ended a b => exact ht rfl
  | told m b resume => exact (ht.1 rfl).1

/-- One computation after the other. The second one may count on what is kept while things only end,
and by listeners. -/
theorem andThen {t : Talk Board Telling α} {next : α → Board → Talk Board Telling β}
    {Q : Board → Prop} (hebb : ∀ {b b' : Board}, b.Ebbs b' → Q b → Q b')
    (hleads : ∀ {b b' : Board}, (strict = true → b.Leads b') → Q b → Q b')
    (ht : t.Assures strict empties since) (he : t.Ebbs start) (hq : Q start)
    (hn : ∀ a b, Q b → (next a b).Assures strict empties b) (hend : ∀ a b, (next a b).Ebbs b) :
    (t.andThen next).Assures strict empties since := by
  induction t generalizing since start with
  | ended a b =>
    cases a with
    | none => exact ht
    | some a => exact (hn a b (hebb he hq)).after ht
  | told m b resume ih =>
    refine ⟨ht.1, fun b' hb' => ⟨fun hm => ?_, fun returned => ?_⟩⟩
    · rcases (stop_andThen hend).phase m.handler with hp | hp
      · exact hp.trans ((ht.2 b' hb').1 hm)
      · exact hp
    · exact ih returned b' ((ht.2 b' hb').2 returned) (he.2 returned b')
        (hleads hb' (hebb he.1 hq))

/-- It does not matter what a computation results in. -/
theorem result {t : Talk Board Telling α} {f : α → β} (ht : t.Assures strict empties since) :
    (t.andThen fun a b => .ended (some (f a)) b).Assures strict empties since := by
  induction t generalizing since with
  | ended a b => cases a <;> exact ht
  | told m b resume ih =>
    refine ⟨ht.1, fun b' hb' => ⟨fun hm => ?_, fun returned => ?_⟩⟩
    · rw [stop_result]
      exact (ht.2 b' hb').1 hm
    · exact ih returned b' ((ht.2 b' hb').2 returned)

/-- What is done in any case at the end has to keep or vacate names, too. -/
theorem ensuring {t : Talk Board Telling α} {f : Board → Board}
    (ht : t.Assures strict empties since) (hf : ∀ b : Board, b.Ebbs (f b))
    (hy : ∀ b : Board, b.KeepsOrVacates empties (f b)) :
    (t.ensuring f).Assures strict empties since := by
  induction t generalizing since with
  | ended a b => exact fun hs => (ht hs).trans (hy b)
  | told m b resume ih =>
    refine ⟨ht.1, fun b' hb' => ⟨fun hm => ?_, fun returned => ?_⟩⟩
    · rcases (stop_ensuring hf).phase m.handler with hp | hp
      · exact hp.trans ((ht.2 b' hb').1 hm)
      · exact hp
    · exact ih returned b' ((ht.2 b' hb').2 returned)

/-- Catching a panic breaks no assurance. -/
theorem caught {t : Talk Board Telling Unit} (ht : t.Assures strict empties since) :
    t.caught.Assures strict empties since := by
  induction t generalizing since with
  | ended a b => exact ht
  | told m b resume ih =>
    refine ⟨ht.1, fun b' hb' => ⟨fun hm => ?_, fun returned => ?_⟩⟩
    · rw [stop_caught]
      exact (ht.2 b' hb').1 hm
    · exact ih returned b' ((ht.2 b' hb').2 returned)

/-- A computation for whose time a handler is held. -/
theorem holding {act : Act α} (ha : (act (b.hold h)).Assures strict empties (b.hold h)) :
    (Act.holding h act b).Assures strict empties b :=
  (ha.ensuring (fun _ => ebbs_letGo h) fun _ => keepsOrVacates_letGo h).after
    fun _ => keepsOrVacates_of_phases (fun _ => rfl) rfl

end Assures

end Talk

namespace Board

/-- What is told of anything but the end, before a second computation. -/
theorem assures_notify {topic : Topic} {action : Option String}
    {next : Unit → Board → Talk Board Telling α} (htopic : topic ≠ .finished)
    (hnow : (next () b).Assures strict empties b)
    (hnext : ∀ b', (strict = true → b'.Tidy) → (next () b').Assures strict empties b')
    (hover : topic.isReport = true → ∀ b', (next () b').stop.phase h = .unregistered) :
    ((notify h topic action b).andThen next).Assures strict empties b := by
  rw [notify_eq]
  split
  · exact hnow
  · refine ⟨fun _ => ⟨keepsOrVacates_of_phases phase_announce registries_announce,
      fun ht => absurd ht htopic⟩, fun b' hb' => ⟨fun ht => hover ht b', fun returned => ?_⟩⟩
    cases returned with
    | false => exact fun _ => .refl b'
    | true => exact hnext b' fun hs => (hb' hs).tidy

/-- A handler that has no entry ends, on a board on which something has been done before. -/
theorem assures_unregister_since (hu : strict = true → b.phase h = .live → b.Unlisted h)
    (hy : strict = true → ∀ d, b.Ebbs d → d.registries = b.registries →
      d.phase h = .unregistered → (∀ x ≠ h, d.phase x = b.phase x) →
        since.KeepsOrVacates empties d) :
    (unregister h b).Assures strict empties since := by
  rw [unregister_eq]
  split
  · rename_i hp
    exact fun hs => hy hs b (.refl b) rfl hp fun _ _ => rfl
  · rename_i hp
    have hover : (b.retire h).phase h = .unregistered := by rw [phase_retire hp, if_pos rfl]
    have hothers : ∀ x ≠ h, (b.retire h).phase x = b.phase x := fun x hx => by
      rw [phase_retire hp, if_neg hx]
    split
    · rename_i hl
      rw [notify_eq]
      split
      · exact fun hs => hy hs _ (ebbs_retire h) (registries_retire h) hover hothers
      · have hebb : b.Ebbs ((b.retire h).announce h .finished none) :=
          (ebbs_retire h).trans ebbs_announce
        refine ⟨fun hs => ⟨hy hs _ hebb (registries_announce.trans (registries_retire h))
          ((phase_announce h).trans hover) fun x hx => (phase_announce x).trans (hothers x hx),
          fun _ => (hu hs hl).ebbs hebb⟩, fun b' _ => ⟨fun ht => Bool.noConfusion ht,
            fun _ _ => .refl b'⟩⟩
    · exact fun hs => hy hs _ (ebbs_retire h) (registries_retire h) hover hothers

/-- A handler that has no entry, or is not active anyway, ends. -/
theorem assures_unregister (hu : strict = true → (b.phase h).isActive = true → b.Unlisted h) :
    (unregister h b).Assures strict empties b := by
  refine assures_unregister_since (fun hs hl => hu hs (by rw [hl]; rfl)) fun hs d he hr _ hp => ?_
  refine keepsOrVacates_of_registries he.inactive (fun {r name x} hx ha => ?_) hr
  rw [hp x ?_]
  · exact ha
  · rintro rfl
    exact (hu hs ha).entries (Registry.mem_of_get? hx)

/-- A handler is over where its end stops first. -/
theorem stop_unregister (h : HandlerId) (b : Board) :
    (unregister h b).stop.phase h = .unregistered := by
  rw [unregister_eq]
  split
  · rename_i hp
    exact hp
  · rename_i hp
    have hover : (b.retire h).phase h = .unregistered := by rw [phase_retire hp, if_pos rfl]
    split
    · rw [notify_eq]
      split
      · exact hover
      · rw [stop, phase, handler_announce]
        exact hover
    · exact hover

/-- Whoever is current under a name is taken out and ends. -/
theorem assures_removal (hf : strict = true → b.Filed) (hc : b.current? r name = some h) :
    (Act.thenLetGo h (unregister h) (b.takeEntry r name).2).Assures strict empties b := by
  have htaken : (b.takeEntry r name).2.registries =
      (b.updateRegistry r fun reg => reg.erase name).registries := by
    rw [takeEntry_eq]
    rfl
  have hover : ∀ d, (b.takeEntry r name).2.Ebbs d →
      d.registries = (b.takeEntry r name).2.registries → d.phase h = .unregistered →
        (∀ x ≠ h, d.phase x = (b.takeEntry r name).2.phase x) → b.Filed →
          b.KeepsOrVacates empties d := by
    intro d he hr hp hothers hf
    refine keepsOrVacates_of_removal ((ebbs_takeEntry r name).trans he).inactive
      (fun {q key x} hkey hx ha => ?_) (hr.trans htaken) fun x hx => ?_
    · -- whoever is taken out is nowhere else
      have hxh : x ≠ h := by
        rintro rfl
        have hhome := hf r name x (Registry.mem_of_get? hc)
        have hhome' := hf q key x (Registry.mem_of_get? hx)
        exact hkey ⟨Option.some.inj (hhome'.2.symm.trans hhome.2), hhome'.1.symm.trans hhome.1⟩
      rw [hothers x hxh, takeEntry_eq]
      exact ha
    · rw [hc] at hx
      rw [← Option.some.inj hx, hp]
      rfl
  exact Assures.ensuring (assures_unregister_since (fun hs _ => (hf hs).takeEntry hc)
    fun hs d he hr hp hothers => hover d he hr hp hothers (hf hs)) (fun _ => ebbs_letGo h)
      fun _ => keepsOrVacates_letGo h

/-- A handler that is taken out and ended has no entry when its listener is told. -/
theorem assures_removeIfCurrent (hf : strict = true → b.Filed) (r : RegistryId) (name : String)
    (h : HandlerId) : (removeIfCurrent r name h b).Assures strict empties b := by
  rw [removeIfCurrent_eq]
  split
  · rename_i hc
    exact (assures_removal hf (by simpa [isCurrent] using hc)).result
  · exact fun _ => .refl b

/-- A handler ends by itself. -/
theorem assures_removeSelf (ht : strict = true → b.Tidy) (h : HandlerId) :
    (removeSelf h b).Assures strict empties b := by
  have hnext : ∀ (removed : Bool) (d : Board), (strict = true → d.Unlisted h) →
      ((if removed = true then (pure () : Act Unit) else unregister h) d).Assures strict empties
        d := by
    intro removed d hd
    cases removed with
    | true => exact fun _ => .refl d
    | false => exact assures_unregister fun hs _ => hd hs
  have hend : ∀ (removed : Bool) (d : Board),
      ((if removed = true then (pure () : Act Unit) else unregister h) d).Ebbs d := by
    intro removed d
    cases removed with
    | true => exact Ebbs.refl d
    | false => exact ebbs_unregister h d
  by_cases hs : ∃ r, b.Seated r h
  · obtain ⟨r, hhome, hhas, hcurrent⟩ := hs
    have hcur : (b.ownRegistry r).current? r (b.handler h).name = some h := by
      rw [← isCurrent_ownRegistry] at hcurrent
      simpa [isCurrent] using hcurrent
    have hf : strict = true → (b.ownRegistry r).Filed := fun hs =>
      (ht hs).filed.ebbs (ebbs_ownRegistry r)
    rw [removeSelf_eq, leaveRegistry_eq, hhome]
    simp only
    rw [if_pos hhas, removeIfCurrent_eq, if_pos (by rwa [isCurrent_ownRegistry])]
    have htaken : ((Act.thenLetGo h (unregister h) ((b.ownRegistry r).takeEntry r
        (b.handler h).name).2).andThen fun _ b => .ended (some true) b).Ebbs
        ((b.ownRegistry r).takeEntry r (b.handler h).name).2 :=
      ((ebbs_unregister h).thenLetGo h _).andThen fun _ b => Ebbs.refl b
    have hgone : ((Act.thenLetGo h (unregister h) ((b.ownRegistry r).takeEntry r
        (b.handler h).name).2).andThen fun _ b => .ended (some true) b).Assures strict empties
        (b.ownRegistry r) := (assures_removal hf hcur).result
    exact Assures.andThen (Q := fun d => strict = true → d.Unlisted h)
      (fun he hq hs => (hq hs).ebbs he) (fun hl hq hs => (hl hs).unlisted (hq hs))
      ((hgone.after fun _ => keepsOrVacates_ownRegistry hhas).ensuring
        (fun _ => ebbs_disownRegistry r)
        fun _ => keepsOrVacates_disownRegistry r)
      (htaken.ensuring fun _ => ebbs_disownRegistry r) (fun hs => (hf hs).takeEntry hcur) hnext hend
  · have hno : ∀ r, ¬b.Seated r h := fun r hr => hs ⟨r, hr⟩
    rw [removeSelf_eq, leaveRegistry_unseated hno]
    refine assures_unregister fun hstrict ha => (ht hstrict).unlisted hno (lt_of_phase_ne ?_)
    rintro hp
    rw [hp] at ha
    cases ha

/-- A handler is over where its end by itself stops first. -/
theorem stop_removeSelf (h : HandlerId) (b : Board) :
    (removeSelf h b).stop.phase h = .unregistered := by
  have hover : ∀ {d d' : Board}, d.Ebbs d' → d.phase h = .unregistered →
      d'.phase h = .unregistered := fun he hp => (he.phase h).elim (·.trans hp) id
  by_cases hs : ∃ r, b.Seated r h
  · obtain ⟨r, hhome, hhas, hcurrent⟩ := hs
    rw [removeSelf_eq, leaveRegistry_eq, hhome]
    simp only
    rw [if_pos hhas, removeIfCurrent_eq, if_pos (by rwa [isCurrent_ownRegistry])]
    refine hover (stop_andThen fun removed d => ?_) (hover (stop_ensuring fun _ =>
      ebbs_disownRegistry r) (hover (stop_andThen fun _ b => Ebbs.refl b)
        (hover (stop_ensuring fun _ => ebbs_letGo h) (stop_unregister h _))))
    cases removed with
    | true => exact Ebbs.refl d
    | false => exact ebbs_unregister h d
  · rw [removeSelf_eq, leaveRegistry_unseated fun r hr => hs ⟨r, hr⟩]
    exact stop_unregister h b

/-- A handler hears from the screen: if it is live, it ends once its listener has returned. -/
theorem assures_handleOutcome (ht : strict = true → b.Tidy) (h : HandlerId) (o : Outcome) :
    (handleOutcome h o b).Assures strict empties b := by
  rw [handleOutcome_eq]
  split
  · have htell : ∀ {topic action}, topic ≠ .finished →
        ((notify h topic action b).andThen fun _ => removeSelf h).Assures strict empties b :=
      fun hne => assures_notify hne (assures_removeSelf ht h)
        (fun _ hb' => assures_removeSelf hb' h) fun _ => stop_removeSelf h
    rw [report_eq]
    split
    · split
      · exact htell Topic.noConfusion
      · exact assures_removeSelf ht h
    · exact htell Topic.noConfusion
    · exact assures_removeSelf ht h
    · exact assures_removeSelf ht h
  · exact fun _ => keepsOrVacates_deferred h o
  · exact fun _ => .refl b

/-- Whoever hears from the screen is over by the next stop if its listener returns. -/
theorem assures_hear (ht : strict = true → b.Tidy) (h : HandlerId) (o : Outcome) :
    (hear h o b).Assures strict empties b := by
  rw [hear_eq]
  split
  · have hheld : strict = true → (b.hold h).Tidy := fun hs =>
      (ht hs).of_registries rfl fun _ => rfl
    exact Assures.holding (assures_handleOutcome hheld h o)
  · exact fun _ => .refl b

/-- Whoever the screen reports on is over by the next stop if its listener returns. -/
theorem assures_emit (ht : strict = true → b.Tidy) (name : String) (o : Outcome) :
    (emit name o b).Assures strict empties b := by
  rw [emit_eq]
  cases b.screen.sinkOf? name with
  | none => exact fun _ => .refl b
  | some h => exact (assures_hear ht h o).result

/-- Tables stay tidy where a handler changes and stays where it belongs. -/
theorem Tidy.update {f : Handler → Handler} (ht : b.Tidy) (hf : ∀ hd, (f hd).origin = hd.origin) :
    (b.update h f).Tidy := by
  refine ht.of_registries rfl fun x => ?_
  rw [handler_update]
  split
  · rename_i hx
    rw [hf, hx.1]
  · rfl

/-- A handler whose initialization has failed ends by itself. -/
theorem assures_failure {f : Handler → Handler} (ht : strict = true → b.Tidy)
    (hf : ∀ hd, (f hd).origin = hd.origin) (hu : b.phase h ≠ .unregistered) :
    (removeSelf h (b.update h f)).Assures strict empties b := by
  refine (assures_removeSelf (fun hs => (ht hs).update hf) h).relative fun hs hy => ?_
  have hfailed := (ht hs).update (h := h) hf
  have hlt : h < (b.update h f).handlers.length := by
    rw [length_update]
    exact lt_of_phase_ne hu
  obtain ⟨d, hd, he⟩ := removeSelf_unlists hfailed.filed hfailed.tables hfailed.vacant hlt
  refine hy.of_ended rfl (fun x hx => ?_) (stop_removeSelf h _) fun r name hc =>
    (hd.ebbs he.stop).entries (Registry.mem_of_get? hc)
  rw [phase_update_of_ne hx]

/-- A handler whose registration is refused leaves its name before anybody is told. -/
theorem assures_reject (ht : strict = true → b.Tidy) : (reject h b).Assures strict empties b := by
  rw [reject_eq]
  split
  · exact fun _ => .refl b
  · rename_i hu
    exact assures_failure ht (fun _ => rfl) hu

/-- A handler that becomes live keeps its name, and leaves it once it hears of its end. -/
theorem assures_complete (ht : strict = true → b.Tidy)
    (hi : b.phase h = .initializing ∨ b.phase h = .unregistered) (toast : ToastId) :
    (complete h toast b).Assures strict empties b := by
  rw [complete_eq]
  split
  · exact fun _ => (sameButToasts_releaseToast _).keepsOrVacates
  · rename_i hu
    split
    · exact assures_failure ht (fun _ => rfl) hu
    · have hlive : strict = true → (b.live h toast).Tidy := fun hs => (ht hs).update fun _ => rfl
      have hkeeps : b.KeepsOrVacates empties (b.live h toast) := by
        refine keepsOrVacates_update (by rw [hi.resolve_right hu]; rfl) ?_
        rw [phase, handler_update_self (lt_of_phase_ne hu)]
        rfl
      rw [goLive_eq]
      refine Assures.after (assures_notify Topic.noConfusion ?_ (fun b' hb' => ?_)
        fun hr => Bool.noConfusion hr) fun _ => hkeeps
      all_goals cases (b.handler h).pending with
        | none => exact fun _ => .refl _
        | some o => exact assures_handleOutcome (by assumption) h o

/-- The screen registers a handler that is initializing or over. -/
theorem assures_register (ht : strict = true → b.Tidy)
    (hi : b.phase h = .initializing ∨ b.phase h = .unregistered) (hr : b.refersTo h = true) :
    (register h b).Assures strict empties b := by
  cases hf : b.screen.faults.register with
  | some reason =>
    rw [register_refused hf]
    refine Assures.after (assures_reject fun hs => ?_)
      fun _ => keepsOrVacates_of_phases (fun _ => rfl) rfl
    exact (ht hs).of_registries rfl fun _ => rfl
  | none =>
    have hrecorded : strict = true → (b.recorded h).Tidy := fun hs =>
      (ht hs).of_registries rfl fun _ => rfl
    have hsame : strict = true → b.KeepsOrVacates empties (b.recorded h) := fun _ =>
      keepsOrVacates_of_phases (fun _ => rfl) rfl
    rw [register_recorded hf]
    cases b.screen.faults.early with
    | none => exact (assures_complete hrecorded hi _).after hsame
    | some o =>
      have hl : (b.recorded h).phase h ≠ .live := by
        change b.phase h ≠ .live
        rcases hi with hi | hi <;> rw [hi] <;> exact Phase.noConfusion
      simp only
      rw [hear_of_not_live (b := b.recorded h) hr hl]
      split
      · rename_i hp
        have hkept : strict = true → ((b.recorded h).update h fun hd => hd.deferred o).Tidy :=
          fun hs => (hrecorded hs).update fun hd => by rw [deferred_eq]; rfl
        have hphase : ((b.recorded h).update h fun hd => hd.deferred o).phase h =
            .initializing := by
          rw [phase, handler_update]
          split
          · rw [deferred_eq]
            exact hp
          · exact hp
        exact (assures_complete hkept (.inl hphase) _).after
          fun hs => (hsame hs).trans (keepsOrVacates_deferred h o)
      · exact (assures_complete hrecorded hi _).after hsame

/-- A worker finishes the attempt that is under way. -/
theorem assures_finish (ht : strict = true → b.Tidy) (hj : b.Jobs) (s : StationId) :
    (finish s b).Assures strict empties b := by
  rw [finish_eq]
  cases hin : b.inside? s with
  | none => exact fun _ => .refl b
  | some attempt =>
    have hi := hj.waiting (.inr ⟨s, attempt, hin, rfl⟩)
    have hleft : strict = true → (b.hold attempt.handler).KeepsOrVacates empties
        ((b.hold attempt.handler).updateStation s fun st => { st with inside := none }) :=
      fun _ => keepsOrVacates_of_phases (fun _ => rfl) rfl
    have hconclude : (conclude s attempt (b.hold attempt.handler)).Assures strict empties
        (b.hold attempt.handler) := by
      rw [conclude_eq]
      cases attempt.fate with
      | proceeds =>
        refine Assures.after (Assures.caught (assures_register (fun hs => ?_) hi
          (refersTo_of_held List.mem_cons_self))) hleft
        exact (ht hs).of_registries rfl fun _ => rfl
      | panics => exact hleft
      | crashes => exact fun hs => (hleft hs).trans (keepsOrVacates_closeStation s)
    exact (Assures.holding hconclude).result

/-- What is done in the name of a coordinator. -/
theorem assures_withCoordinator {act : Coordinator → Act α} {c : CoordinatorId}
    (ha : (act (b.coordinator c) (b.ownCoordinator c)).Assures strict empties
      (b.ownCoordinator c)) : (withCoordinator c act b).Assures strict empties b :=
  (ha.ensuring (fun _ => ebbs_disownCoordinator c)
    fun _ => keepsOrVacates_disownCoordinator c).after
    fun _ => keepsOrVacates_of_phases (fun _ => rfl) rfl

/-- An alert that is closed has left its name when its listener is told. -/
theorem assures_closeAlert (ht : strict = true → b.Tidy) (c : CoordinatorId) (name : String) :
    (closeAlert c name b).Assures strict empties b := by
  rw [closeAlert_eq]
  refine assures_withCoordinator ?_
  have htaken := takeEntry_eq (b.ownCoordinator c) (b.coordinator c).registry name
  unfold takeDown
  cases hc : (b.ownCoordinator c).current? (b.coordinator c).registry name with
  | none =>
    rw [htaken, hc]
    have herased : ((b.ownCoordinator c).updateRegistry (b.coordinator c).registry fun reg =>
        reg.erase name).registries = (b.updateRegistry (b.coordinator c).registry fun reg =>
          reg.erase name).registries := rfl
    refine fun _ => keepsOrVacates_of_removal id (fun _ _ => id) herased fun x hx => ?_
    rw [hc] at hx
    cases hx
  | some h =>
    have hfirst : ((b.ownCoordinator c).takeEntry (b.coordinator c).registry name).1 = some h := by
      rw [htaken]
      exact hc
    rw [hfirst]
    exact assures_removal (fun hs => (ht hs).filed) hc

/-- A handler that is removed by hand has left its name when its listener is told. -/
theorem assures_removeHandler (ht : strict = true → b.Tidy) (c : CoordinatorId) (name : String)
    (h : HandlerId) : (Act.holding h (removeHandler c name h) b).Assures strict empties b := by
  refine Assures.holding (assures_withCoordinator (assures_removeIfCurrent (fun hs => ?_) _ name h))
  exact (ht hs).filed

/-- Whoever is displaced by a new handler has no entry any more. -/
theorem Filed.install (hb : b.Filed) (hc : b.current? r name = some p) (hne : p ≠ h) :
    (b.install r name h).2.Unlisted p := by
  have hentry := Registry.mem_of_get? hc
  have hhome := hb r name p hentry
  refine ⟨?_, fun {q key} hx => ?_⟩
  · rw [install_eq]
    exact lt_of_belongs hhome
  rcases mem_install.mp hx with ⟨hmem, hkey⟩ | ⟨-, -, hp⟩
  · have hthere := hb q key p hmem
    exact hkey ⟨Option.some.inj (hthere.2.symm.trans hhome.2), hthere.1.symm.trans hhome.1⟩
  · exact hne hp

/-- A board on which a new handler was put under its name and submitted. -/
def submitted (b : Board) (co : Coordinator) (h : HandlerId) : Board :=
  ((b.install co.registry (b.handler h).name h).2.submit co.station h).2

/-- A board on which this was undone, because the worker did not take it. -/
def takenBack (b : Board) (co : Coordinator) (h : HandlerId) : Board :=
  ((b.submitted co h).restore co.registry (b.handler h).name h
    (b.current? co.registry (b.handler h).name)).2

section Submitted

variable {co : Coordinator}

/-- Submitting a handler leaves the registries as they are after it was installed. -/
theorem registries_submitted :
    (b.submitted co h).registries = (b.install co.registry (b.handler h).name h).2.registries := by
  obtain ⟨-, -, hregistries, -⟩ := submit_quiet
    (b := (b.install co.registry (b.handler h).name h).2) co.station h
  exact hregistries

/-- Whoever a new handler has displaced has no entry any more. -/
theorem Filed.unlisted_submitted (hf : b.Filed)
    (hc : b.current? co.registry (b.handler h).name = some p) (hne : p ≠ h) :
    (b.submitted co h).Unlisted p := by
  have hlength := (submit_rest (b.install co.registry (b.handler h).name h).2 co.station h).1
  have hunlisted := hf.install hc hne
  refine ⟨?_, fun {q key} hx => ?_⟩
  · rw [submitted, hlength]
    exact hunlisted.made
  · rw [registry, registries_submitted] at hx
    exact hunlisted.entries hx

/-- A handler that is submitted is queued. -/
theorem mem_jobs_submit (hp : b.phase h = .created) (hok : (b.submit s h).1 = .ok ()) :
    h ∈ (b.submit s h).2.jobs s := by
  unfold submit at hok ⊢
  rw [hp] at hok ⊢
  simp only at hok ⊢
  cases hw : ((b.setPhase h .initializing).station s).worker.dispatch h with
  | error e =>
    rw [hw] at hok
    cases hok
  | ok worker =>
    simp only
    rw [jobs_setWorker (lt_of_dispatch hw), if_pos rfl, dispatch_eq hw]
    simp [messageHandlers]

theorem rollBack_eq (r : RegistryId) (name : String) (h : HandlerId) (old : Option HandlerId)
    (b : Board) : rollBack r name h old b = unregister h (b.restore r name h old).2 := rfl

/-- A new handler is taken by the worker, and then the one that it displaces ends; or it is not
taken, and then it ends. -/
theorem present_cases (hp : b.phase h = .created) (co : Coordinator) :
    (present co h b = (supersede (b.current? co.registry (b.handler h).name)
      (b.submitted co h)).andThen (fun _ b => .ended (some (.ok ())) b) ∧
      (b.submitted co h).phase h = .initializing ∧ h ∈ (b.submitted co h).jobs co.station) ∨
    ∃ e, present co h b = (unregister h (b.takenBack co h)).andThen
      (fun _ b => .ended (some (.error e)) b) ∧ (b.takenBack co h).phase h = .initFailed := by
  have hold : (b.install co.registry (b.handler h).name h).1 =
      b.current? co.registry (b.handler h).name := by rw [install_eq]
  have hphase : (b.install co.registry (b.handler h).name h).2.phase h = .created := by
    rw [phase_install]
    exact hp
  rw [present_eq, hold]
  unfold takenBack submitted
  rcases submit_phase (b.install co.registry (b.handler h).name h).2 co.station
    (lt_of_phase_ne (by rw [hphase]; exact Phase.noConfusion)) with
    ⟨he, -, hnew⟩ | ⟨e, he, hfailed⟩
  · exact .inl ⟨entrust_accepted he, hnew, mem_jobs_submit hphase he⟩
  · obtain ⟨-, -, hback⟩ := restore_quiet
      (b := ((b.install co.registry (b.handler h).name h).2.submit co.station h).2)
      co.registry (b.handler h).name h (b.current? co.registry (b.handler h).name)
    have hrefused : entrust co (b.handler h).name h (b.current? co.registry (b.handler h).name)
        (b.install co.registry (b.handler h).name h).2 =
          (rollBack co.registry (b.handler h).name h (b.current? co.registry (b.handler h).name)
            ((b.install co.registry (b.handler h).name h).2.submit co.station h).2).andThen
              fun _ b => .ended (some (.error e)) b := entrust_refused he
    rw [rollBack_eq] at hrefused
    refine .inr ⟨e, hrefused, (hback h).trans ?_⟩
    rcases hfailed with ⟨-, hp'⟩ | ⟨hne, -⟩
    · exact hp'
    · exact absurd hphase hne

end Submitted

/-- A new handler takes its place under its name. What went on before the first stop is no matter
here. -/
theorem assures_present (hf : strict = true → b.Filed)
    (hno : strict = true → ∀ r name, (name, h) ∉ (b.registry r).entries)
    (hp : b.phase h = .created) (co : Coordinator) :
    ∃ start, (present co h b).Assures strict empties start := by
  rcases present_cases hp co with ⟨he, -, -⟩ | ⟨e, he, hfailed⟩
  · refine ⟨b.submitted co h, ?_⟩
    rw [he]
    refine Assures.result ?_
    cases hc : b.current? co.registry (b.handler h).name with
    | none => exact fun _ => .refl _
    | some p =>
      have hunlisted : strict = true → (b.submitted co h).Unlisted p := fun hs =>
        (hf hs).unlisted_submitted hc fun hph => hno hs _ _ (hph ▸ Registry.mem_of_get? hc)
      generalize b.submitted co h = d at hunlisted ⊢
      exact Assures.ensuring (assures_unregister fun hs _ => hunlisted hs)
        (fun _ => ebbs_letGo p) fun _ => keepsOrVacates_letGo p
  · refine ⟨b.takenBack co h, ?_⟩
    rw [he]
    generalize b.takenBack co h = d at hfailed ⊢
    refine Assures.result (assures_unregister fun _ ha => ?_)
    rw [hfailed] at ha
    cases ha

/-- A board on which a coordinator has made a handler for what was read from an alert. -/
def drafted (b : Board) (c : CoordinatorId) (fields : Snapshot) (listener : Option ListenerId) :
    Board :=
  ((b.ownCoordinator c).create
    { fields, listener, registry := some (b.coordinator c).registry }).2

section Drafted

variable {d : CoordinatorId} {fields : Snapshot} {listener : Option ListenerId}

/-- A new handler is made for its coordinator, and the others are as they were. -/
theorem handler_drafted (x : HandlerId) : (b.drafted d fields listener).handler x =
    if x = b.handlers.length then
      { fields, listener, registry := some (b.coordinator d).registry }
    else b.handler x := handler_create ..

theorem Filed.drafted (hb : b.Filed) : (b.drafted d fields listener).Filed := by
  intro r name x hx
  have hbelongs := hb r name x hx
  rw [handler_drafted, if_neg (Nat.ne_of_lt (lt_of_belongs hbelongs))]
  exact hbelongs

/-- A handler that was just made has no entry yet. -/
theorem Filed.new (hb : b.Filed) (r : RegistryId) (name : String) :
    (name, b.handlers.length) ∉ ((b.drafted d fields listener).registry r).entries :=
  fun hx => Nat.lt_irrefl _ (lt_of_belongs (hb r name _ hx))

/-- A new handler is created. -/
theorem phase_drafted : (b.drafted d fields listener).phase b.handlers.length = .created := by
  rw [phase, handler_drafted, if_pos rfl]

/-- Either an alert is not shown, or a new handler is presented. -/
theorem showAlert_cases (b : Board) (d : CoordinatorId) (source : Source)
    (listener : Option ListenerId) :
    (∃ result, showAlert d source listener b =
      (Talk.ended (some result) (b.ownCoordinator d)).ensuring (·.disownCoordinator d)) ∨
    ∃ fields, source.read.result = .ok fields ∧ showAlert d source listener b =
      (((present (b.coordinator d) b.handlers.length (b.drafted d fields listener)).ensuring
        (·.letGo b.handlers.length)).andThen fun shown b' =>
          .ended (some ⟨shown, source.read.called⟩) b').ensuring (·.disownCoordinator d) := by
  have hshow : showAlert d source listener b = (offer source listener (b.coordinator d)
      (b.ownCoordinator d)).ensuring (·.disownCoordinator d) := by
    rw [showAlert_eq]
    rfl
  rw [hshow]
  cases hs : (b.coordinator d).suppressed with
  | true => exact .inl ⟨.done (), by rw [offer, if_pos hs]⟩
  | false =>
    cases hr : source.read.result with
    | error e => exact .inl ⟨_, by rw [offer_of_error hs hr]⟩
    | ok fields =>
      refine .inr ⟨fields, rfl, ?_⟩
      rw [offer_of_ok hs hr]
      rfl

end Drafted

/-- A coordinator shows an alert. What went on before the first stop is no matter here. -/
theorem assures_showAlert (hf : strict = true → b.Filed) (c : CoordinatorId) (source : Source)
    (listener : Option ListenerId) :
    ∃ start, (showAlert c source listener b).Assures strict empties start := by
  rcases showAlert_cases b c source listener with ⟨result, he⟩ | ⟨fields, -, he⟩
  · rw [he]
    exact ⟨b.ownCoordinator c, fun _ => keepsOrVacates_disownCoordinator c⟩
  · obtain ⟨start, hpresent⟩ : ∃ start, (present (b.coordinator c) b.handlers.length
        (b.drafted c fields listener)).Assures strict empties start :=
      assures_present (fun hs => (hf hs).drafted) (fun hs => (hf hs).new) phase_drafted _
    rw [he]
    have hshown := ((hpresent.ensuring (fun _ => ebbs_letGo b.handlers.length)
      fun _ => keepsOrVacates_letGo _).result (f := fun shown => (⟨shown, source.read.called⟩ :
        Reading Unit)))
    exact ⟨start, hshown.ensuring (fun _ => ebbs_disownCoordinator c)
      fun _ => keepsOrVacates_disownCoordinator c⟩

/-- Handlers that have no entry end one after the other. -/
theorem assures_unregisterAll {hs : List HandlerId}
    (hu : strict = true → ∀ h ∈ hs, b.Unlisted h) :
    (Action.forEach hs unregister b).Assures strict empties b := by
  induction hs generalizing b with
  | nil => exact fun _ => .refl b
  | cons x hs ih =>
    refine Assures.andThen (t := unregister x b)
      (Q := fun d => strict = true → ∀ h ∈ hs, d.Unlisted h)
      (fun he hq hs h hh => (hq hs h hh).ebbs he)
      (fun hl hq hs h hh => (hl hs).unlisted (hq hs h hh))
      (assures_unregister fun hs _ => hu hs x List.mem_cons_self) (ebbs_unregister x b)
      (fun hs h hh => hu hs h (List.mem_cons_of_mem x hh)) (fun _ _ => ih) fun _ d => ?_
    exact Act.Ebbs.forEach ebbs_unregister hs d

/-- Whoever stood in a table has no entry once it is emptied. -/
theorem Filed.takeAll (hb : b.Filed) (hh : h ∈ (b.registry r).handlers) :
    (b.takeAll r).2.Unlisted h := by
  obtain ⟨name, hentry⟩ := Registry.mem_handlers.mp hh
  have hhome := hb r name h hentry
  refine ⟨lt_of_belongs hhome, fun {q key} hx => ?_⟩
  have hold := (ebbs_takeAll r).entries hx
  have hqr : q = r := Option.some.inj ((hb q key h hold).2.symm.trans hhome.2)
  rw [hqr, entries_takeAll] at hx
  cases hx

/-- Whoever is ended by a coordinator that shuts down has no entry when its listener is told. -/
theorem assures_shutDown (visit : Visit) (hf : strict = true → b.Filed) (c : CoordinatorId) :
    (shutDown visit c b).Assures strict true b := by
  change ((if b.hasCoordinator c = true then
    withCoordinator c fun co => drain visit co.registry else pure ()) b).Assures _ _ _
  split
  · refine assures_withCoordinator ?_
    refine Assures.after ((assures_unregisterAll fun hs h hh => ?_).ensuring
      (fun _ => ebbs_letGoAll _) fun _ => keepsOrVacates_letGoAll _)
        fun _ => keepsOrVacates_takeAll _
    exact Filed.takeAll (b := b.ownCoordinator c) (hf hs) ((visit.fair _ _).mem_iff.mp hh)
  · exact fun _ => .refl b

/-- Whoever is ended when the signal fires has no entry when its listener is told. -/
theorem assures_fire (visit : Visit) (hf : strict = true → b.Filed) :
    (fire visit b).Assures strict true b := by
  have hall : ∀ cs d, (strict = true → d.Filed) →
      (Action.forEach cs (shutDown visit) d).Assures strict true d := by
    intro cs
    induction cs with
    | nil => exact fun d _ _ => .refl d
    | cons c cs ih =>
      refine fun d hd => Assures.andThen (t := shutDown visit c d)
        (Q := fun d => strict = true → d.Filed) (fun he hq hs => (hq hs).ebbs he)
        (fun hl _ hs => (hl hs).tidy.filed) (assures_shutDown visit hd c) (ebbs_shutDown _ c d) hd
        (fun _ => ih) fun _ d => ?_
      exact Act.Ebbs.forEach (ebbs_shutDown _) cs d
  rw [fire_eq]
  exact Assures.result (f := fun _ => b.signal.fire.1.length)
    ((hall _ b.fired hf).after fun _ => keepsOrVacates_of_phases (fun _ => rfl) rfl)

end Board

namespace Deed

/-- What a deed assures those that it tells. Where `strict` is asked for, things are left to
coordinators, or one is given up. What goes on before the first stop is left out for alerts that are
shown. -/
theorem assures {d : Deed} (ht : strict = true → b.Tidy) (hj : b.Jobs)
    (hd : strict = true → (Event.deed d).Orderly) : ∃ start,
      (d.act b).Assures strict d.fires start ∧ (d.shows = false → start = b) := by
  have hcalm : ∀ d' : Board, (strict = true → b.KeepsOrVacates d.fires d') →
      d.act b = .ended (some ()) d' →
      ∃ start, (d.act b).Assures strict d.fires start ∧ (d.shows = false → start = b) :=
    fun d' hy he => ⟨b, he ▸ hy, fun _ => rfl⟩
  have hsame : ∀ d' : Board, (∀ x, d'.handler x = b.handler x) → d'.registries = b.registries →
      strict = true → b.KeepsOrVacates d.fires d' := by
    intro d' hh hr _
    refine keepsOrVacates_of_phases (fun x => ?_) hr
    rw [phase, hh]
    rfl
  have hloose : ¬(Event.deed d).Orderly → ∀ d' : Board,
      strict = true → b.KeepsOrVacates d.fires d' := fun hno _ hs => absurd (hd hs) hno
  cases d with
  | openRegistry => exact hcalm _ (hloose (by simp [Coordinated]) _) rfl
  | shareRegistry r => exact hcalm _ (hloose (by simp [Coordinated]) _) rfl
  | dropRegistry r => exact hcalm _ (hloose (by simp [Coordinated]) _) rfl
  | openStation refusal name =>
    have he := Deed.act_openStation refusal name b
    split at he
    · rename_i worker _
      exact hcalm (b.openStation worker).2 (hsame _ (fun _ => rfl) rfl) he
    · exact hcalm b (hsame b (fun _ => rfl) rfl) he
  | mark s =>
    refine hcalm _ ?_ rfl
    dsimp only
    split
    · exact hsame _ (fun _ => rfl) rfl
    · exact hsame b (fun _ => rfl) rfl
  | stop s =>
    exact hcalm (b.setWorker s (b.station s).worker.stop) (hsame _ (fun _ => rfl) rfl) rfl
  | setUp settings host => exact hcalm _ (fun _ => keepsOrVacates_setUp settings host) rfl
  | shareCoordinator c => exact hcalm (b.ownCoordinator c) (hsame _ (fun _ => rfl) rfl) rfl
  | dropCoordinator c => exact hcalm _ (fun _ => keepsOrVacates_disownCoordinator c) rfl
  | create fields listener registry => exact hcalm _ (hloose (by simp [Coordinated]) _) rfl
  | share h => exact hcalm (b.hold h) (hsame _ (fun _ => rfl) rfl) rfl
  | letGo h => exact hcalm _ (fun _ => keepsOrVacates_letGo h) rfl
  | submit s h => exact hcalm _ (hloose (by simp [Coordinated]) _) rfl
  | unregister h =>
    refine ⟨b, Assures.holding (assures_unregister fun hs => ?_), fun _ => rfl⟩
    exact absurd (hd hs) (by simp [Coordinated])
  | lookUp r name => exact hcalm _ (hloose (by simp [Coordinated]) _) rfl
  | install r name h => exact hcalm _ (hloose (by simp [Coordinated]) _) rfl
  | takeEntry r name => exact hcalm _ (hloose (by simp [Coordinated]) _) rfl
  | takeAll r => exact hcalm _ (hloose (by simp [Coordinated]) _) rfl
  | restore r name h previous => exact hcalm _ (hloose (by simp [Coordinated]) _) rfl
  | removeIfCurrent r name h =>
    have hno : strict = true → False := fun hs => absurd (hd hs) (by simp [Coordinated])
    refine ⟨b, Assures.result (Assures.holding (Assures.after (Assures.ensuring
      (assures_removeIfCurrent (fun hs => (hno hs).elim) r name h)
      (fun _ => ebbs_disownRegistry r) fun _ => keepsOrVacates_disownRegistry r)
      fun hs => (hno hs).elim)), fun _ => rfl⟩
  | grab c name =>
    refine hcalm _ (hsame _ (fun _ => ?_) ?_) rfl
    · dsimp only
      rw [lookUp_eq]
      rfl
    · dsimp only
      rw [lookUp_eq]
  | showAlert c source listener =>
    obtain ⟨start, hshow⟩ : ∃ start, (Board.showAlert c source listener b).Assures strict false
        start := assures_showAlert (fun hs => (ht hs).filed) c source listener
    exact ⟨start, hshow.result, fun hno => Bool.noConfusion hno⟩
  | closeAlert c name => exact ⟨b, assures_closeAlert ht c name, fun _ => rfl⟩
  | removeHandler c name h => exact ⟨b, (assures_removeHandler ht c name h).result, fun _ => rfl⟩
  | suppress c suppressed =>
    exact hcalm (b.setSuppression c suppressed) (hsame _ (fun _ => rfl) rfl) rfl
  | fire visit => exact ⟨b, (assures_fire visit fun hs => (ht hs).filed).result, fun _ => rfl⟩
  | emit name outcome => exact ⟨b, (assures_emit ht name outcome).result, fun _ => rfl⟩
  | deliver n outcome =>
    refine ⟨b, ?_, fun _ => rfl⟩
    rw [Deed.act_deliver]
    cases b.screen.attempts[n]? with
    | none => exact fun _ => .refl b
    | some attempt => exact assures_hear ht attempt.handler outcome
  | arm faults =>
    exact hcalm { b with screen := { b.screen with faults } } (hsame _ (fun _ => rfl) rfl) rfl
  | advance s => exact hcalm _ (fun _ => keepsOrVacates_advance s) rfl
  | finish s => exact ⟨b, (assures_finish ht hj s).result, fun _ => rfl⟩

end Deed

/-- A deed waits for whoever was told something, and will keep what it assured them of. -/
def Waiting.Attends (strict : Bool) (now : Board) (t : Telling) (x : Waiting) : Prop :=
  ∀ b', (strict = true → now.Leads b') →
    (t.notice.topic.isReport = true →
      (x.resume true b').stop.phase t.handler = .unregistered) ∧
    ∀ returned, (x.resume returned b').Assures strict x.deed.fires b'

/-- It may wait longer, while nobody gets an entry back. -/
theorem Waiting.Attends.later {t : Telling} {x : Waiting} (hx : x.Attends strict b t)
    (hu : strict = true → ∀ {h}, b.Unlisted h → b'.Unlisted h) : x.Attends strict b' t :=
  fun c hc => hx c fun hs => ⟨(hc hs).tidy, fun hb => (hc hs).unlisted (hu hs hb)⟩

namespace Moment

variable {m : Moment} {e : Event} {calls : List Telling}

/-- Each deed that waits attends to whoever was told something last. -/
def Attends (strict : Bool) (m : Moment) (calls : List Telling) : Prop :=
  List.Forall₂ (Waiting.Attends strict m.world.board) calls m.waiting

/-- What is assured in an event. -/
theorem Attends.assures (hm : m.Attends strict calls) (ht : strict = true → m.world.board.Tidy)
    (hj : m.world.board.Jobs) (allowed : m.Allows e) (he : strict = true → e.Orderly) :
    ∃ start, (m.computation e).Assures strict ((m.acting e).any Deed.fires) start ∧
      ((∀ d, e = .deed d → d.shows = false) → start = m.world.board) := by
  obtain ⟨w, waiting⟩ := m
  cases e with
  | deed d =>
    obtain ⟨start, hassures, hstart⟩ := Deed.assures ht hj he
    exact ⟨start, hassures, fun hd => hstart (hd d rfl)⟩
  | reply returned =>
    cases hm with
    | nil => exact absurd rfl allowed
    | cons hx hrest =>
      exact ⟨w.board, (hx w.board fun hs => ⟨ht hs, id⟩).2 returned, fun _ => rfl⟩

/-- Whoever waits after an event attends as before. -/
theorem Attends.after (hm : m.Attends strict calls) (ht : strict = true → m.world.board.Tidy)
    (hj : m.world.board.Jobs) (allowed : m.Allows e) (he : strict = true → e.Orderly)
    (hu : strict = true → ∀ {h}, m.world.board.Unlisted h → (m.after e).world.board.Unlisted h) :
    (m.after e).Attends strict ((m.news e).toList ++ e.outer calls) := by
  obtain ⟨start, hassures, -⟩ := hm.assures ht hj allowed he
  have hsettle : ∀ {w : World} {d : Deed} {waiting outer} {t : Talk Board Telling Unit},
      t.Assures strict d.fires start → (strict = true → ∀ {h}, m.world.board.Unlisted h →
        (settle w d waiting t).world.board.Unlisted h) →
      List.Forall₂ (Waiting.Attends strict m.world.board) outer waiting →
      (settle w d waiting t).Attends strict (t.message.toList ++ outer) := by
    intro w d waiting outer t ht hu hw
    have hw' := hw.imp fun _ _ hx => hx.later hu
    cases t with
    | ended a b => exact hw'
    | told x b resume => exact .cons ht.2 hw'
  obtain ⟨w, waiting⟩ := m
  cases e with
  | deed d => exact hsettle hassures hu hm
  | reply returned =>
    cases hm with
    | nil => exact absurd rfl allowed
    | cons hx hrest => exact hsettle hassures hu hrest

end Moment

end ToastBoard
