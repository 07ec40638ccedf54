import ToastBoard.Proofs.Order

/-!
# Order among owners and entries

How the owners of registries and coordinators come and go, and how handlers are put into tables and
taken out of them, while the board stays in order.
-/

namespace ToastBoard.Board

variable {b b' : Board} {h : HandlerId} {r : RegistryId} {c : CoordinatorId} {name : String}
  {strict : Bool} {k : Slack} {T : Terms}

/-- A registry may change as long as it keeps one entry to a name. -/
theorem onePerName_updateRegistry (hb : ∀ q, (b.registry q).OnePerName) {f : Registry → Registry}
    (hf : (f (b.registry r)).OnePerName) (q : RegistryId) :
    ((b.updateRegistry r f).registry q).OnePerName := by
  rw [registry_updateRegistry]
  split
  · rename_i hq
    rw [hq.1]
    exact hf
  · exact hb q

/-- A registry that somebody owns gets another owner. -/
theorem Sound.own (hb : b.Sound strict k T) (hr : 0 < (b.registry r).owners) :
    (b.ownRegistry r).Sound strict k { T with owners := r :: T.owners } := by
  have hentries := entries_ownRegistry b r
  have hrefs : ∀ x, (b.ownRegistry r).refersTo x = true ↔ b.refersTo x = true := by
    intro x
    constructor <;> intro hx
    · refine refersTo_mono hx (fun hm => refersTo_of_held hm) ?_ rfl rfl
      intro q name he
      rw [hentries] at he
      exact refersTo_of_entry q name he
    · refine refersTo_mono hx (fun hm => refersTo_of_held hm) ?_ rfl rfl
      intro q name he
      rw [← hentries] at he
      exact refersTo_of_entry q name he
  refine hb.refer rfl rfl rfl rfl rfl rfl rfl rfl (hb.books.own hr)
    (onePerName_updateRegistry hb.tables (hb.tables r)) hb.founded ?_ (fun _ => id)
    (fun x _ hx => (hrefs x).mpr hx) (fun x _ hx => (hrefs x).mp hx) (Nat.le_refl _) ?_
  · intro hs
    exact (hb.agreed hs).frame rfl
      (fun c _ => registry_coordinator (by rfl) (length_updateRegistry ..) c) hentries
  · exact coordinator_of_lt (by rfl)

/-- The entries that are left when an owner has left a registry: with the last one they go, and
their handlers are lost. -/
theorem mem_disowned (hr : 0 < (b.registry r).owners) {q : RegistryId} {key : String}
    {x : HandlerId} : (key, x) ∈ ((b.disowned r).registry q).entries ↔
      (key, x) ∈ (b.registry q).entries ∧ ¬(q = r ∧ (b.registry r).owners ≤ 1) := by
  rw [registry_disowned hr]
  by_cases hq : q = r
  · rw [if_pos hq, hq]
    by_cases h1 : 1 < (b.registry r).owners
    · simp [h1, Nat.not_le.mpr h1]
    · simp [h1, Nat.le_of_not_lt h1]
  · simp [hq]

/-- A registry without one of its owners has one entry to a name. -/
theorem onePerName_disowned (hb : ∀ q, (b.registry q).OnePerName) (q : RegistryId) :
    ((b.disowned r).registry q).OnePerName := by
  refine onePerName_updateRegistry hb ?_ q
  by_cases h1 : 1 < (b.registry r).owners
  · simp only [h1, if_true]
    exact hb r
  · simp only [h1, if_false]
    exact List.nodup_nil

/-- An owner leaves a registry, and it is in doubt whether anything refers to those who are lost
with it. -/
theorem Sound.disowned (hb : b.Sound strict k { T with owners := r :: T.owners })
    (hs : strict = true → 1 < (b.registry r).owners) :
    (b.disowned r).Sound strict { k with doubtful := b.orphans r ++ k.doubtful } T := by
  have hpos := hb.books.pos_of_owner (r := r) List.mem_cons_self
  have hbooks := hb.books.disown (r := r) List.mem_cons_self
  rw [List.erase_cons_head] at hbooks
  refine hb.refer rfl rfl rfl rfl rfl rfl rfl rfl hbooks (onePerName_disowned hb.tables)
    hb.founded ?_ (fun x hx => List.mem_append_right _ hx) ?_ ?_ (Nat.le_refl _)
    (coordinator_of_lt (by rfl))
  · intro hstrict
    refine (hb.agreed hstrict).frame rfl
      (fun c _ => registry_coordinator (by rfl) (length_updateRegistry ..) c) fun q => ?_
    rw [registry_disowned hpos, if_pos (hs hstrict)]
    split
    · rename_i he
      rw [he]
    · rfl
  · intro x hd hx
    refine refersTo_mono hx (fun hm => refersTo_of_held hm) (fun {q key} he => ?_) rfl rfl
    refine refersTo_of_entry q key ((mem_disowned hpos).mpr ⟨he, ?_⟩)
    rintro ⟨rfl, h1⟩
    refine hd (List.mem_append_left _ ?_)
    rw [orphans, if_neg (Nat.not_lt.mpr h1)]
    exact Registry.mem_handlers.mpr ⟨key, he⟩
  · intro x _ hx
    exact refersTo_mono hx (fun hm => refersTo_of_held hm)
      (fun he => refersTo_of_entry _ _ ((mem_disowned hpos).mp he).1) rfl rfl

/-- A registry loses an owner; where only coordinators work, its coordinator stays. -/
theorem Sound.disown (hb : b.Sound strict k { T with owners := r :: T.owners })
    (hs : strict = true → 1 < (b.registry r).owners) : (b.disownRegistry r).Sound strict k T := by
  rw [disownRegistry_eq (hb.books.pos_of_owner (r := r) List.mem_cons_self)]
  exact (hb.disowned hs).reapAll

/-- A registry gets other entries, and some handlers more holders: nobody who loses an entry goes
without a holder or a doubt, and nobody who gets one was gone. -/
theorem Sound.table (hb : b.Sound strict k T) {l d ending : List HandlerId}
    {f : Registry → Registry} (hf : (f (b.registry r)).owners = (b.registry r).owners)
    (hv : (b.registry r).owners = 0 → (f (b.registry r)).entries = [])
    (ho : (f (b.registry r)).OnePerName)
    (hagreed : strict = true → ({ b with held := l ++ b.held }.updateRegistry r f).Agreed
      T.founders ending k.unsettled)
    (hlost : ∀ {key x}, (key, x) ∈ (b.registry r).entries →
      (key, x) ∈ (f (b.registry r)).entries ∨ x ∈ l ∨ x ∈ d)
    (hput : ∀ {key x}, (key, x) ∈ (f (b.registry r)).entries → b.refersTo x = true)
    (hheld : ∀ x ∈ l, b.refersTo x = true) :
    ({ b with held := l ++ b.held }.updateRegistry r f).Sound strict
      { k with doubtful := d ++ k.doubtful }
      { T with holders := l ++ T.holders, ending } := by
  have hentry : ∀ q, ({ b with held := l ++ b.held }.updateRegistry r f).registry q =
      if q = r ∧ r < b.registries.length then f (b.registry q) else b.registry q := by
    intro q
    rw [registry_updateRegistry]
    rfl
  have hbooks : { b with held := l ++ b.held }.Books (l ++ T.holders) T.owners
      (T.coords ++ T.founders) := hb.books.frame (hb.books.held.append_left _) rfl rfl
  refine hb.refer rfl rfl rfl rfl rfl rfl rfl rfl (hbooks.updateRegistry hf hv)
    (onePerName_updateRegistry hb.tables ho) hb.founded hagreed
    (fun x hx => List.mem_append_right _ hx) ?_ ?_ (Nat.le_refl _) ?_
  · intro x hd hx
    refine refersTo_mono hx (fun hm => refersTo_of_held (List.mem_append_right _ hm)) ?_ rfl rfl
    intro q key he
    by_cases hq : q = r ∧ r < b.registries.length
    · rw [hq.1] at he
      rcases hlost he with h1 | h1 | h1
      · refine refersTo_of_entry r key ?_
        rw [hentry, if_pos ⟨rfl, hq.2⟩]
        exact h1
      · exact refersTo_of_held (List.mem_append_left _ h1)
      · exact absurd (List.mem_append_left _ h1) hd
    · refine refersTo_of_entry q key ?_
      rw [hentry, if_neg hq]
      exact he
  · intro x _ hx
    refine refersTo_mono hx ?_ ?_ rfl rfl
    · intro hm
      rcases List.mem_append.mp hm with hm | hm
      · exact hheld x hm
      · exact refersTo_of_held hm
    · intro q key he
      rw [hentry] at he
      split at he
      · rename_i hq
        rw [hq.1] at he
        exact hput he
      · exact refersTo_of_entry q key he
  · exact coordinator_of_lt (by rfl)

/-- A handler that is found under a name is referred to. -/
theorem refersTo_of_current (ho : ∀ q, (b.registry q).OnePerName) {x : HandlerId}
    (hx : x ∈ (b.current? r name).toList) : b.refersTo x = true := by
  rw [Option.mem_toList] at hx
  exact refersTo_of_entry r name ((Registry.mem_entries_iff (ho r)).mpr hx)

/-- Who has no longer an entry under a name is who was found there. -/
theorem mem_current_of_entry (ho : ∀ q, (b.registry q).OnePerName) {key : String} {x : HandlerId}
    (he : (key, x) ∈ (b.registry r).entries) (hk : key = name) :
    x ∈ (b.current? r name).toList := by
  rw [hk] at he
  rw [Option.mem_toList]
  exact (Registry.mem_entries_iff (ho r)).mp he

/-- What is found under a name is kept by whoever looks it up. -/
theorem Sound.lookUp (hb : b.Sound strict k T) (r : RegistryId) (name : String) :
    (b.lookUp r name).2.Sound strict k
      { T with holders := (b.lookUp r name).1.toList ++ T.holders } := by
  have href : ∀ x ∈ (b.current? r name).toList, b.refersTo x = true :=
    fun x hx => refersTo_of_current hb.tables hx
  rw [lookUp_eq]
  cases hc : b.current? r name with
  | none => exact hb
  | some h =>
    rw [hc] at href
    exact hb.hold fun _ => href h (by simp)

/-- What is found under a name is taken out: it is held, and about to end. -/
theorem Sound.takeEntry (hb : b.Sound strict k T) (r : RegistryId) (name : String) :
    (b.takeEntry r name).2.Sound strict k { T with
      holders := (b.takeEntry r name).1.toList ++ T.holders
      ending := (b.takeEntry r name).1.toList ++ T.ending } := by
  have hagreed : strict = true → (b.takeEntry r name).2.Agreed T.founders
      ((b.takeEntry r name).1.toList ++ T.ending) k.unsettled :=
    fun hs => (hb.agreed hs).takeEntry (hb.tables r)
  rw [takeEntry_eq] at hagreed ⊢
  refine Sound.table (d := []) hb rfl ?_ (Registry.onePerName_erase name (hb.tables r))
    hagreed ?_ ?_ fun x hx => refersTo_of_current hb.tables hx
  · intro h0
    simp [Registry.erase, hb.books.vacant r h0]
  · intro key x he
    by_cases hk : key = name
    · exact .inr (.inl (mem_current_of_entry hb.tables he hk))
    · exact .inl (Registry.mem_entries_erase.mpr ⟨he, hk⟩)
  · intro key x he
    exact refersTo_of_entry r key (Registry.mem_entries_erase.mp he).1

/-- All entries are taken out: their handlers are held, and about to end. -/
theorem Sound.takeAll (hb : b.Sound strict k T) (r : RegistryId) :
    (b.takeAll r).2.Sound strict k { T with
      holders := (b.takeAll r).1 ++ T.holders, ending := (b.takeAll r).1 ++ T.ending } := by
  refine Sound.table (d := []) hb rfl (fun _ => rfl) List.nodup_nil
    (fun hs => (hb.agreed hs).takeAll r) ?_ ?_ ?_
  · intro key x he
    exact .inr (.inl (Registry.mem_handlers.mpr ⟨key, he⟩))
  · intro key x he
    cases he
  · intro x hx
    obtain ⟨key, he⟩ := Registry.mem_handlers.mp hx
    exact refersTo_of_entry r key he

/-- A handler is put under a name: what it displaces is held, and about to end. -/
theorem Sound.install (hb : b.Sound strict k T) (hr : 0 < (b.registry r).owners)
    (hh : b.refersTo h = true)
    (hs : strict = true → k.unsettled = some h ∧ (b.handler h).name = name ∧
      (b.handler h).registry = some r ∧ h ∉ T.ending ∧
      ∀ q key, (key, h) ∉ (b.registry q).entries) :
    (b.install r name h).2.Sound strict k { T with
      holders := (b.install r name h).1.toList ++ T.holders
      ending := (b.install r name h).1.toList ++ T.ending } := by
  have hagreed : strict = true → (b.install r name h).2.Agreed T.founders
      ((b.install r name h).1.toList ++ T.ending) k.unsettled := by
    intro hstrict
    obtain ⟨hu, hname, hreg, hnot, hno⟩ := hs hstrict
    have ha := hb.agreed hstrict
    rw [hu] at ha ⊢
    exact ha.install (hb.tables r) hname hreg hnot hno
  rw [install_eq] at hagreed ⊢
  refine Sound.table (d := []) hb rfl (fun h0 => absurd h0 (Nat.ne_of_gt hr))
    (Registry.onePerName_insert name h (hb.tables r)) hagreed ?_ ?_
    fun x hx => refersTo_of_current hb.tables hx
  · intro key x he
    by_cases hk : key = name
    · exact .inr (.inl (mem_current_of_entry hb.tables he hk))
    · exact .inl (Registry.mem_entries_insert.mpr (.inl ⟨he, hk⟩))
  · intro key x he
    rcases Registry.mem_entries_insert.mp he with he | ⟨-, rfl⟩
    · exact refersTo_of_entry r key he.1
    · exact hh

theorem isCurrent_iff (ho : (b.registry r).OnePerName) :
    b.isCurrent r name h = true ↔ (name, h) ∈ (b.registry r).entries := by
  rw [Registry.mem_entries_iff ho]
  simp [isCurrent, current?]

/-- The handler under a name gives way to one that was about to end. -/
theorem Sound.putBack {p : HandlerId} (hb : b.Sound strict k { T with ending := p :: T.ending })
    (hcur : (name, h) ∈ (b.registry r).entries) (hp : b.refersTo p = true)
    (hs : strict = true → k.unsettled = some h ∧ b.Pending p ∧ (b.handler p).name = name ∧
      (b.handler p).registry = some r ∧ p ∉ T.ending) :
    ((b.updateRegistry r fun reg => reg.insert name p).reap h).Sound strict k T := by
  have hpos : (b.registry r).owners ≠ 0 := by
    intro h0
    rw [hb.books.vacant r h0] at hcur
    cases hcur
  refine Sound.reap (Sound.table (l := []) (d := [h]) hb rfl (fun h0 => absurd h0 hpos)
    (Registry.onePerName_insert name p (hb.tables r)) ?_ ?_ ?_ fun x hx => absurd hx (by simp))
  · intro hstrict
    obtain ⟨hu, hpend, hn, hreg, hnot⟩ := hs hstrict
    have ha := hb.agreed hstrict
    rw [hu] at ha ⊢
    exact ha.putBack (hb.tables r) hcur hpend hn hreg hnot
  · intro key x he
    by_cases hk : key = name
    · subst hk
      exact .inr (.inr (List.mem_singleton.mpr (Registry.eq_of_mem_entries (hb.tables r) he hcur)))
    · exact .inl (Registry.mem_entries_insert.mpr (.inl ⟨he, hk⟩))
  · intro key x he
    rcases Registry.mem_entries_insert.mp he with he | ⟨-, rfl⟩
    · exact refersTo_of_entry r key he.1
    · exact hp

/-- The handler under a name is taken out with nobody in its place. -/
theorem Sound.takeOut (hb : b.Sound strict k T) (hcur : (name, h) ∈ (b.registry r).entries)
    (hs : strict = true → k.unsettled = some h) :
    ((b.updateRegistry r fun reg => reg.erase name).reap h).Sound strict k T := by
  refine Sound.reap (Sound.table (l := []) (d := [h]) hb rfl ?_
    (Registry.onePerName_erase name (hb.tables r)) ?_ ?_ ?_ fun x hx => absurd hx (by simp))
  · intro h0
    simp [Registry.erase, hb.books.vacant r h0]
  · intro hstrict
    have ha := hb.agreed hstrict
    rw [hs hstrict] at ha ⊢
    exact ha.takeOut (hb.tables r) hcur
  · intro key x he
    by_cases hk : key = name
    · subst hk
      exact .inr (.inr (List.mem_singleton.mpr (Registry.eq_of_mem_entries (hb.tables r) he hcur)))
    · exact .inl (Registry.mem_entries_erase.mpr ⟨he, hk⟩)
  · intro key x he
    exact refersTo_of_entry r key (Registry.mem_entries_erase.mp he).1

/-- An install is undone. Where only coordinators work, this comes right after it, so the handler
is still the one under the name. -/
theorem Sound.restore {previous : Option HandlerId} (hb : b.Sound strict k { T with
      holders := previous.toList ++ T.holders, ending := previous.toList ++ T.ending })
    (hs : strict = true → k.unsettled = some h ∧ (name, h) ∈ (b.registry r).entries ∧
      ∀ p ∈ previous, b.Pending p ∧ (b.handler p).name = name ∧
        (b.handler p).registry = some r ∧ p ∉ T.ending) :
    (b.restore r name h previous).2.Sound strict k T := by
  have hletGo : ∀ {b : Board}, b.Sound strict k { T with
      holders := previous.toList ++ T.holders } → (b.letGoIf previous).Sound strict k T :=
    fun hb => hb.letGoAll
  have hactive : ∀ {p}, b.Pending p → (b.phase p).isActive = true := by
    rintro p (hp | hp) <;> rw [hp] <;> rfl
  have hnone : strict = true → (previous.filter fun p => (b.phase p).isActive) = none →
      previous = none := by
    intro hstrict hf
    cases previous with
    | none => rfl
    | some p =>
      have hp := hactive ((hs hstrict).2.2 p rfl).1
      simp [Option.filter, hp] at hf
  have hending : ∀ {b : Board}, (strict = true → previous = none) → b.Sound strict k { T with
      holders := previous.toList ++ T.holders, ending := previous.toList ++ T.ending } →
      b.Sound strict k { T with holders := previous.toList ++ T.holders } := by
    intro b hp hb
    cases strict with
    | false => exact hb.free
    | true =>
      cases hp rfl
      exact hb
  unfold Board.restore
  split
  · rename_i hcurrent
    have hcur := (isCurrent_iff (hb.tables r)).mp hcurrent
    split
    · rename_i p hf
      obtain ⟨rfl, -⟩ := Option.filter_eq_some_iff.mp hf
      have hheld : b.refersTo p = true :=
        refersTo_of_held (hb.books.held.mem_iff.mpr List.mem_cons_self)
      refine Sound.letGo
        (Sound.putBack (T := { T with holders := p :: T.holders }) hb hcur hheld ?_)
      intro hstrict
      exact ⟨(hs hstrict).1, (hs hstrict).2.2 p rfl⟩
    · rename_i hf
      exact hletGo ((hending (hnone · hf) hb).takeOut hcur fun hstrict => (hs hstrict).1)
  · rename_i hcurrent
    have hfree : strict = true → previous = none := by
      intro hstrict
      exact absurd ((isCurrent_iff (hb.tables r)).mpr (hs hstrict).2.1) hcurrent
    exact hletGo (hending hfree hb)

/-- After an install was undone, the new handler has no entry. -/
theorem no_entry_restore {founders : List CoordinatorId} {ending : List HandlerId}
    {unsettled previous : Option HandlerId} (hb : b.Agreed founders ending unsettled)
    (ho : (b.registry r).OnePerName) (hcur : (name, h) ∈ (b.registry r).entries)
    (hp : ∀ p ∈ previous, p ≠ h) (q : RegistryId) (key : String) :
    (key, h) ∉ ((b.restore r name h previous).2.registry q).entries := by
  have hinsert : ∀ p ∈ previous, (key, h) ∉
      ((b.updateRegistry r fun reg => reg.insert name p).registry q).entries := by
    intro p hm hx
    rcases mem_inserted.mp hx with ⟨hold, hkey⟩ | ⟨-, -, rfl⟩
    · exact hkey (hb.entry_unique hcur hold)
    · exact hp _ hm rfl
  have herase : (key, h) ∉ ((b.updateRegistry r fun reg => reg.erase name).registry q).entries :=
    fun hx => (mem_erased.mp hx).2 (hb.entry_unique hcur (mem_erased.mp hx).1)
  unfold Board.restore
  rw [if_pos ((isCurrent_iff ho).mpr hcur)]
  split
  · rename_i p hf
    obtain ⟨rfl, -⟩ := Option.filter_eq_some_iff.mp hf
    rw [registry, (sameButToasts_letGo p).registries]
    change (key, h) ∉ ((Board.reap _ h).registries.getD q _).entries
    rw [(sameButToasts_reap h).registries]
    exact hinsert p rfl
  · rw [registry, letGoIf, registries_letGoAll, (sameButToasts_reap h).registries]
    exact herase

end ToastBoard.Board
