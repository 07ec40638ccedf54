import ToastBoard.Proofs.Jobs

/-!
# Toasts and the handlers that have to release them

A toast that is not released belongs to one handler, which is live and to which something refers;
a live handler that still exists has such a toast. Two things are out of this order for a moment,
in the middle of a step and never while somebody is being told something: a toast that was just
recorded is loose until its handler takes it, and a handler that is about to end may be unsettled.
Where a reference to a handler has just been dropped, it is doubtful whether one is left.
-/

namespace ToastBoard

namespace Toast

/-- Whether a toast was recorded for an alert. -/
structure Shows (t : Toast) (fields : Snapshot) : Prop where
  /-- The name is the alert's. -/
  name : t.name = fields.name
  /-- The cookie is the alert's. -/
  cookie : t.cookie = fields.cookie
  /-- The title is the alert's. -/
  title : t.title = fields.title
  /-- The text is the alert's. -/
  text : t.text = fields.text

/-- A toast after another one, or it, was released. -/
def released (id : Option ToastId) (t : Toast) : Toast :=
  if id = some t.id then { t with releases := t.releases + 1 } else t

@[simp] theorem released_id (id : Option ToastId) (t : Toast) : (t.released id).id = t.id := by
  unfold released
  split <;> rfl

/-- Releasing a toast leaves the others as they are. -/
theorem mem_released {id : Option ToastId} {t : Toast} {ts : List Toast} (ht : t ∈ ts)
    (hne : id ≠ some t.id) : t ∈ ts.map (·.released id) :=
  List.mem_map.mpr ⟨t, ht, by rw [released, if_neg hne]⟩

/-- A toast that is not released afterwards is another one, and was there before. -/
theorem of_unreleased {id : Option ToastId} {t : Toast} {ts : List Toast}
    (ht : t ∈ ts.map (·.released id)) (h0 : t.releases = 0) : t ∈ ts ∧ id ≠ some t.id := by
  obtain ⟨u, hu, rfl⟩ := List.mem_map.mp ht
  have hne : id ≠ some u.id := by
    intro hc
    rw [released, if_pos hc] at h0
    exact Nat.succ_ne_zero _ h0
  rw [released, if_neg hne]
  exact ⟨hu, hne⟩

end Toast

namespace Board

variable {b b' : Board} {h : HandlerId} {id : ToastId}

theorem toasts_releaseToast (toast : Option ToastId) :
    (b.releaseToast toast).screen.toasts = b.screen.toasts.map (·.released toast) := by
  cases toast with
  | none => simp [releaseToast, Toast.released]
  | some id =>
    simp only [releaseToast, Screen.release, Toast.released, Option.some.injEq]
    apply List.map_congr_left
    intro t _
    by_cases ht : t.id = id
    · rw [if_pos ht, if_pos ht.symm]
    · rw [if_neg ht, if_neg (Ne.symm ht)]

@[simp] theorem handler_releaseToast (toast : Option ToastId) (x : HandlerId) :
    (b.releaseToast toast).handler x = b.handler x := by
  cases toast <;> rfl

@[simp] theorem phase_releaseToast (toast : Option ToastId) (x : HandlerId) :
    (b.releaseToast toast).phase x = b.phase x := by
  cases toast <;> rfl

@[simp] theorem refersTo_releaseToast (toast : Option ToastId) (x : HandlerId) :
    (b.releaseToast toast).refersTo x = b.refersTo x := by
  cases toast <;> rfl

@[simp] theorem refersTo_update (f : Handler → Handler) (x : HandlerId) :
    (b.update h f).refersTo x = b.refersTo x := rfl

/-- Toasts and handlers are in order, but for an unsettled handler, a loose toast, and the doubt
whether something refers to some handlers. -/
structure Toasts (unsettled : Option HandlerId) (loose : Option ToastId)
    (doubtful : List HandlerId) (b : Board) : Prop where
  /-- Toasts are numbered from 1 in the order in which they were recorded. -/
  numbered : ∀ {i t}, b.screen.toasts[i]? = some t → t.id = i + 1
  /-- No toast is released twice. -/
  once : ∀ t ∈ b.screen.toasts, t.releases ≤ 1
  /-- What a handler has to release is a toast that was recorded for it and is not released. -/
  shown : ∀ {h id}, (b.handler h).registration = some id →
    ∃ t ∈ b.screen.toasts, t.id = id ∧ t.releases = 0 ∧ t.Shows (b.handler h).fields
  /-- No two handlers have the same toast to release. -/
  distinct : ∀ {h g id}, (b.handler h).registration = some id →
    (b.handler g).registration = some id → h = g
  /-- Who has to release a toast that is not released. -/
  owned : ∀ t ∈ b.screen.toasts, t.releases = 0 →
    loose = some t.id ∨ ∃ h, (b.handler h).registration = some t.id
  /-- A loose toast belongs to nobody. -/
  unowned : ∀ {h id}, loose = some id → (b.handler h).registration ≠ some id
  /-- Who has a toast to release is live. -/
  live : ∀ {h id}, (b.handler h).registration = some id → some h ≠ unsettled → b.phase h = .live
  /-- Something refers to whoever has a toast to release. -/
  referred : ∀ {h id}, (b.handler h).registration = some id → h ∉ doubtful → b.refersTo h = true
  /-- A live handler that exists has a toast to release. -/
  standing : ∀ {h}, b.phase h = .live → b.refersTo h = true → (b.handler h).registration ≠ none

variable {unsettled : Option HandlerId} {loose : Option ToastId} {doubtful : List HandlerId}

/-- Toasts with the same number are the same. -/
theorem Toasts.eq_of_id (hb : b.Toasts unsettled loose doubtful) {t t' : Toast}
    (ht : t ∈ b.screen.toasts) (ht' : t' ∈ b.screen.toasts) (he : t.id = t'.id) : t = t' := by
  obtain ⟨i, hi⟩ := List.getElem?_of_mem ht
  obtain ⟨j, hj⟩ := List.getElem?_of_mem ht'
  have h1 := hb.numbered hi
  have h2 := hb.numbered hj
  have hij : i = j := Nat.succ.inj (h1.symm.trans (he.trans h2))
  subst hij
  exact Option.some.inj (hi.symm.trans hj)

/-- What a handler has to release was recorded. -/
theorem Toasts.recorded (hb : b.Toasts unsettled loose doubtful)
    (hr : (b.handler h).registration = some id) : 0 < id ∧ id ≤ b.screen.toasts.length := by
  obtain ⟨t, ht, rfl, -⟩ := hb.shown hr
  obtain ⟨i, hi⟩ := List.getElem?_of_mem ht
  rw [hb.numbered hi]
  exact ⟨Nat.succ_pos i, (List.getElem?_eq_some_iff.mp hi).1⟩

/-- What was recorded and nobody has to release was released once. -/
theorem Toasts.gone (hb : b.Toasts unsettled none doubtful)
    (hid : 0 < id ∧ id ≤ b.screen.toasts.length) (hn : ∀ h, (b.handler h).registration ≠ some id) :
    ∃ t ∈ b.screen.toasts, t.id = id ∧ t.releases = 1 := by
  have hlt : id - 1 < b.screen.toasts.length :=
    Nat.lt_of_lt_of_le (Nat.sub_lt hid.1 Nat.one_pos) hid.2
  have hget := List.getElem?_eq_getElem hlt
  have hmem := List.mem_of_getElem? hget
  have hnum : b.screen.toasts[id - 1].id = id := (hb.numbered hget).trans (Nat.sub_add_cancel hid.1)
  refine ⟨_, hmem, hnum, Nat.le_antisymm (hb.once _ hmem) (Nat.pos_of_ne_zero fun h0 => ?_)⟩
  rcases hb.owned _ hmem h0 with hl | ⟨h, hh⟩
  · cases hl
  · exact hn h (hnum ▸ hh)

/-- Toasts keep their numbers when one is released. -/
theorem Toasts.numbered_released (hb : b.Toasts unsettled loose doubtful) {toast : Option ToastId}
    {i : Nat} {t : Toast} (ht : (b.screen.toasts.map (·.released toast))[i]? = some t) :
    t.id = i + 1 := by
  rw [List.getElem?_map, Option.map_eq_some_iff] at ht
  obtain ⟨u, hu, rfl⟩ := ht
  rw [Toast.released_id]
  exact hb.numbered hu

/-- No toast is released twice if the one that is released was not. -/
theorem Toasts.once_released (hb : b.Toasts unsettled loose doubtful) {toast : Option ToastId}
    (h0 : ∀ id, toast = some id → ∃ t ∈ b.screen.toasts, t.id = id ∧ t.releases = 0) :
    ∀ t ∈ b.screen.toasts.map (·.released toast), t.releases ≤ 1 := by
  intro t hm
  obtain ⟨u, hu, rfl⟩ := List.mem_map.mp hm
  unfold Toast.released
  split
  · rename_i hid
    obtain ⟨v, hv, he, h0⟩ := h0 _ hid
    rw [hb.eq_of_id hv hu he] at h0
    simp only [h0]
    exact Nat.le_refl 1
  · exact hb.once u hu

/-- The order is kept while handlers keep their toasts and nobody becomes live. -/
theorem Toasts.of_refs (hb : b.Toasts unsettled loose doubtful) {unsettled' : Option HandlerId}
    {doubtful' : List HandlerId} (ht : b'.screen.toasts = b.screen.toasts)
    (hh : ∀ h, (b'.handler h).registration = (b.handler h).registration)
    (hf : ∀ h, (b.handler h).registration ≠ none → (b'.handler h).fields = (b.handler h).fields)
    (hl : ∀ h, (b.handler h).registration ≠ none → some h ≠ unsettled' →
      some h ≠ unsettled ∧ b'.phase h = b.phase h)
    (hr : ∀ h, (b.handler h).registration ≠ none → h ∉ doubtful' → b'.refersTo h = true)
    (hs : ∀ h, b'.phase h = .live → b'.refersTo h = true →
      b.phase h = .live ∧ b.refersTo h = true) :
    b'.Toasts unsettled' loose doubtful' := by
  have hne : ∀ {h id}, (b'.handler h).registration = some id →
      (b.handler h).registration = some id ∧ (b.handler h).registration ≠ none := by
    intro h id hid
    rw [hh] at hid
    exact ⟨hid, by rw [hid]; exact Option.some_ne_none _⟩
  constructor
  · rw [ht]
    exact hb.numbered
  · rw [ht]
    exact hb.once
  · intro h id hid
    obtain ⟨hid, hn⟩ := hne hid
    rw [ht, hf h hn]
    exact hb.shown hid
  · intro h g id h1 h2
    exact hb.distinct (hne h1).1 (hne h2).1
  · intro t h1 h2
    rw [ht] at h1
    simp only [hh]
    exact hb.owned t h1 h2
  · intro h id hid
    rw [hh]
    exact hb.unowned hid
  · intro h id hid hu
    obtain ⟨hid, hn⟩ := hne hid
    obtain ⟨hu, hp⟩ := hl h hn hu
    rw [hp]
    exact hb.live hid hu
  · intro h id hid hd
    exact hr h (hne hid).2 hd
  · intro h h1 h2
    obtain ⟨h1, h2⟩ := hs h h1 h2
    rw [hh]
    exact hb.standing h1 h2

/-- What a board is after a handler gave up its toast, and the toast was withdrawn. -/
structure Withdraws (h : HandlerId) (b b' : Board) : Prop where
  /-- The toast of the handler is released, if it has one. -/
  toasts : b'.screen.toasts = b.screen.toasts.map (·.released (b.handler h).registration)
  /-- The other handlers are as they were. -/
  others : ∀ g ≠ h, b'.handler g = b.handler g
  /-- The handler has no toast any more. -/
  itself : (b'.handler h).registration = none
  /-- What is referred to stays the same. -/
  refs : ∀ g, b'.refersTo g = b.refersTo g

/-- A handler that is changed so that it has no toast, and whose toast is released, gives it up. -/
theorem withdraws_update {f : Handler → Handler} (hf : (f (b.handler h)).registration = none) :
    b.Withdraws h ((b.update h f).releaseToast (b.handler h).registration) where
  toasts := toasts_releaseToast _
  others := fun g hg => by rw [handler_releaseToast, handler_update_of_ne hg]
  itself := by
    rw [handler_releaseToast, handler_update]
    split
    · exact hf
    · rename_i hlt
      rw [handler_of_le (Nat.le_of_not_lt fun hl => hlt ⟨rfl, hl⟩)]
      rfl
  refs := fun g => by rw [refersTo_releaseToast, refersTo_update]

/-- A handler that is live after it gave up its toast is as it was changed. -/
theorem live_of_withdrawn {f : Handler → Handler} {toast : Option ToastId}
    (hl : ((b.update h f).releaseToast toast).phase h = .live) :
    (f (b.handler h)).phase = .live := by
  rw [phase_releaseToast] at hl
  have hne : (b.update h f).phase h ≠ .unregistered := by
    rw [hl]
    exact Phase.noConfusion
  have hlt : h < b.handlers.length := length_update (b := b) h f ▸ lt_of_phase_ne hne
  rwa [phase, handler_update_self hlt] at hl

/-- Who has a toast afterwards is not who gave it up, and had it before. -/
theorem Withdraws.registered (hw : b.Withdraws h b') {g : HandlerId}
    (hid : (b'.handler g).registration = some id) :
    g ≠ h ∧ (b.handler g).registration = some id := by
  have hg : g ≠ h := by
    rintro rfl
    rw [hw.itself] at hid
    cases hid
  rw [hw.others g hg] at hid
  exact ⟨hg, hid⟩

/-- What the others have to release is still there, and not released. -/
theorem Withdraws.shown (hw : b.Withdraws h b') (hb : b.Toasts unsettled loose doubtful)
    {g : HandlerId} (hid : (b'.handler g).registration = some id) :
    ∃ t ∈ b'.screen.toasts, t.id = id ∧ t.releases = 0 ∧ t.Shows (b'.handler g).fields := by
  obtain ⟨hg, hid⟩ := hw.registered hid
  obtain ⟨t, hm, he, h0, hshows⟩ := hb.shown hid
  have hne : (b.handler h).registration ≠ some t.id := by
    intro hc
    exact hg (hb.distinct hid (he ▸ hc))
  refine ⟨t, ?_, he, h0, ?_⟩
  · rw [hw.toasts]
    exact Toast.mem_released hm hne
  · rw [hw.others g hg]
    exact hshows

/-- What is not released afterwards has the owner that it had. -/
theorem Withdraws.owned (hw : b.Withdraws h b') (hb : b.Toasts unsettled loose doubtful)
    {t : Toast} (hm : t ∈ b'.screen.toasts) (h0 : t.releases = 0) :
    loose = some t.id ∨ ∃ g, (b'.handler g).registration = some t.id := by
  rw [hw.toasts] at hm
  obtain ⟨hm, hne⟩ := Toast.of_unreleased hm h0
  rcases hb.owned t hm h0 with hl | ⟨g, hg⟩
  · exact .inl hl
  · have hgh : g ≠ h := fun hc => hne (hc ▸ hg)
    exact .inr ⟨g, by rw [hw.others g hgh]; exact hg⟩

/-- A handler gives up its toast, which is withdrawn; it is settled by that, and no reference to it
is missed. It may not stay live where something refers to it. -/
theorem Toasts.withdraw (hb : b.Toasts unsettled loose doubtful) {unsettled' : Option HandlerId}
    {doubtful' : List HandlerId} {f : Handler → Handler}
    (hf : (f (b.handler h)).registration = none)
    (hp : (f (b.handler h)).phase = .live → b.refersTo h = false)
    (hu : ∀ g ≠ h, some g ≠ unsettled' → some g ≠ unsettled)
    (hd : ∀ g ≠ h, g ∉ doubtful' → g ∉ doubtful) :
    ((b.update h f).releaseToast (b.handler h).registration).Toasts unsettled' loose doubtful' := by
  have hw := withdraws_update (b := b) hf
  have hphase : ((b.update h f).releaseToast (b.handler h).registration).phase h = .live →
      b.refersTo h = false := fun hl => hp (live_of_withdrawn hl)
  revert hw hphase
  generalize (b.update h f).releaseToast (b.handler h).registration = b'
  intro hw hphase
  constructor
  · intro i t hi
    rw [hw.toasts] at hi
    exact hb.numbered_released hi
  · rw [hw.toasts]
    refine hb.once_released fun id hid => ?_
    obtain ⟨v, hv, he, h0, -⟩ := hb.shown hid
    exact ⟨v, hv, he, h0⟩
  · exact hw.shown hb
  · intro g g' id h1 h2
    exact hb.distinct (hw.registered h1).2 (hw.registered h2).2
  · exact fun t => hw.owned hb
  · intro g id hl hc
    exact hb.unowned hl (hw.registered hc).2
  · intro g id hid hg
    obtain ⟨hgh, hid⟩ := hw.registered hid
    rw [phase, hw.others g hgh]
    exact hb.live hid (hu g hgh hg)
  · intro g id hid hg
    obtain ⟨hgh, hid⟩ := hw.registered hid
    rw [hw.refs]
    exact hb.referred hid (hd g hgh hg)
  · intro g hlive hr
    rw [hw.refs] at hr
    by_cases hg : g = h
    · subst hg
      rw [hphase hlive] at hr
      cases hr
    · rw [phase, hw.others g hg] at hlive
      rw [hw.others g hg]
      exact hb.standing hlive hr

/-- Once a handler to which nothing refers has withdrawn its toast, there is no doubt about it. -/
theorem Toasts.reap (hb : b.Toasts unsettled loose (h :: doubtful)) :
    (b.reap h).Toasts unsettled loose doubtful := by
  unfold Board.reap
  split
  · rename_i hr
    refine hb.of_refs rfl (fun _ => rfl) (fun _ _ => rfl) (fun _ _ hu => ⟨hu, rfl⟩) ?_
      (fun _ h1 h2 => ⟨h1, h2⟩)
    intro g hg hd
    by_cases he : g = h
    · rw [he]
      exact hr
    · obtain ⟨id, hid⟩ := Option.ne_none_iff_exists'.mp hg
      exact hb.referred hid (by simp [he, hd])
  · rename_i hr
    refine hb.withdraw rfl (fun _ => by simpa using hr) (fun _ _ hu => hu) ?_
    intro g hg hd
    simp [hg, hd]

/-- The same for some handlers. -/
theorem Toasts.reapAll {hs : List HandlerId} (hb : b.Toasts unsettled loose (hs ++ doubtful)) :
    (hs.foldl Board.reap b).Toasts unsettled loose doubtful := by
  induction hs generalizing b with
  | nil => exact hb
  | cons h hs ih =>
    rw [List.foldl_cons]
    exact ih hb.reap

/-- Who has which toast to release after a handler was given one. -/
theorem registered_update {f : Handler → Handler} (hlt : h < b.handlers.length)
    (hid : (f (b.handler h)).registration = some id) {g : HandlerId} {i : ToastId}
    (hi : ((b.update h f).handler g).registration = some i) :
    (g = h ∧ i = id) ∨ (g ≠ h ∧ (b.handler g).registration = some i) := by
  by_cases hg : g = h
  · subst hg
    rw [handler_update_self hlt, hid] at hi
    exact .inl ⟨rfl, (Option.some.inj hi).symm⟩
  · rw [handler_update_of_ne hg] at hi
    exact .inr ⟨hg, hi⟩

/-- No two handlers have the same toast to release after one took a loose toast. -/
theorem Toasts.distinct_update (hb : b.Toasts unsettled (some id) doubtful)
    {f : Handler → Handler} (hlt : h < b.handlers.length)
    (hid : (f (b.handler h)).registration = some id) {g g' : HandlerId} {i : ToastId}
    (h1 : ((b.update h f).handler g).registration = some i)
    (h2 : ((b.update h f).handler g').registration = some i) : g = g' := by
  rcases registered_update hlt hid h1 with ⟨rfl, rfl⟩ | ⟨-, h1⟩
  · rcases registered_update hlt hid h2 with ⟨rfl, -⟩ | ⟨-, h2⟩
    · rfl
    · exact absurd h2 (hb.unowned rfl)
  · rcases registered_update hlt hid h2 with ⟨-, rfl⟩ | ⟨-, h2⟩
    · exact absurd h1 (hb.unowned rfl)
    · exact hb.distinct h1 h2

/-- A handler takes a loose toast: it is live then, or unsettled. -/
theorem Toasts.take (hb : b.Toasts none (some id) doubtful) {unsettled' : Option HandlerId}
    {f : Handler → Handler} (hlt : h < b.handlers.length) (hr : b.refersTo h = true)
    (hn : (b.handler h).registration = none) (hid : (f (b.handler h)).registration = some id)
    (hf : (f (b.handler h)).fields = (b.handler h).fields)
    (ht : ∃ t ∈ b.screen.toasts, t.id = id ∧ t.releases = 0 ∧ t.Shows (b.handler h).fields)
    (hp : (f (b.handler h)).phase = .live ∨ unsettled' = some h) :
    (b.update h f).Toasts unsettled' none doubtful := by
  have hself : (b.update h f).handler h = f (b.handler h) := handler_update_self hlt f
  have hother : ∀ g ≠ h, (b.update h f).handler g = b.handler g := fun _ hg =>
    handler_update_of_ne hg f
  constructor
  · exact hb.numbered
  · exact hb.once
  · intro g i hi
    rcases registered_update hlt hid hi with ⟨rfl, rfl⟩ | ⟨hg, hi⟩
    · rw [hself, hf]
      exact ht
    · rw [hother g hg]
      exact hb.shown hi
  · exact fun h1 h2 => hb.distinct_update hlt hid h1 h2
  · intro t hm h0
    rcases hb.owned t hm h0 with he | ⟨g, hg⟩
    · exact .inr ⟨h, by rw [hself, hid, he]⟩
    · have hgh : g ≠ h := by
        rintro rfl
        rw [hn] at hg
        cases hg
      exact .inr ⟨g, by rw [hother g hgh]; exact hg⟩
  · intro g i hc
    cases hc
  · intro g i hi hu
    rcases registered_update hlt hid hi with ⟨rfl, -⟩ | ⟨hg, hi⟩
    · rw [phase, hself]
      exact hp.resolve_right (fun he => hu he.symm)
    · rw [phase, hother g hg]
      exact hb.live hi (Option.some_ne_none _)
  · intro g i hi hd
    rcases registered_update hlt hid hi with ⟨rfl, -⟩ | ⟨-, hi⟩
    · exact hr
    · exact hb.referred hi hd
  · intro g hl hg
    by_cases hgh : g = h
    · subst hgh
      rw [hself, hid]
      exact Option.some_ne_none _
    · rw [phase, hother g hgh] at hl
      rw [hother g hgh]
      exact hb.standing hl hg

/-- A loose toast is withdrawn. -/
theorem Toasts.discard (hb : b.Toasts unsettled (some id) doubtful)
    (ht : ∃ t ∈ b.screen.toasts, t.id = id ∧ t.releases = 0) :
    (b.releaseToast (some id)).Toasts unsettled none doubtful := by
  have htoasts : (b.releaseToast (some id)).screen.toasts =
      b.screen.toasts.map (·.released (some id)) := toasts_releaseToast _
  constructor
  · intro i t hi
    rw [htoasts] at hi
    exact hb.numbered_released hi
  · rw [htoasts]
    refine hb.once_released fun i hi => ?_
    rw [← Option.some.inj hi]
    exact ht
  · intro g i hi
    obtain ⟨t, hm, he, h0, hshows⟩ := hb.shown hi
    have hne : some id ≠ some t.id := by
      intro hc
      have hg : (b.handler g).registration = some id := by
        rw [hc, he]
        exact hi
      exact hb.unowned rfl hg
    refine ⟨t, ?_, he, h0, hshows⟩
    rw [htoasts]
    exact Toast.mem_released hm hne
  · exact hb.distinct
  · intro t hm h0
    rw [htoasts] at hm
    obtain ⟨hm, hne⟩ := Toast.of_unreleased hm h0
    exact .inr ((hb.owned t hm h0).resolve_left hne)
  · intro g i hc
    cases hc
  · exact hb.live
  · exact hb.referred
  · exact hb.standing

/-- Toasts stay numbered when one with the next number is recorded. -/
theorem numbered_concat {ts : List Toast} {t : Toast}
    (hts : ∀ {i u}, ts[i]? = some u → u.id = i + 1) (hid : t.id = ts.length + 1) {i : Nat}
    {u : Toast} (hu : (ts ++ [t])[i]? = some u) : u.id = i + 1 := by
  rcases Nat.lt_or_ge i ts.length with hlt | hge
  · rw [List.getElem?_append_left hlt] at hu
    exact hts hu
  · rw [List.getElem?_append_right hge, List.getElem?_singleton] at hu
    split at hu
    · have hi : i = ts.length := by omega
      rw [← Option.some.inj hu, hid, hi]
    · cases hu

/-- A toast that is recorded is loose. -/
theorem Toasts.record (hb : b.Toasts unsettled none doubtful) {screen : Screen} {t : Toast}
    (ht : screen.toasts = b.screen.toasts ++ [t]) (hid : t.id = b.screen.toasts.length + 1)
    (h0 : t.releases = 0) (ha : screen.attempts = b.screen.attempts) :
    { b with screen }.Toasts unsettled (some t.id) doubtful := by
  have hrefs : ∀ g, { b with screen }.refersTo g = b.refersTo g := by
    intro g
    simp only [refersTo, stationHandlers, ha]
  have hmem : ∀ {u}, u ∈ screen.toasts ↔ u ∈ b.screen.toasts ∨ u = t := by
    intro u
    rw [ht, List.mem_append, List.mem_singleton]
  have hold : ∀ {g i}, (b.handler g).registration = some i → i ≠ t.id := by
    intro g i hi he
    have hle := (hb.recorded hi).2
    rw [he, hid] at hle
    exact Nat.not_succ_le_self _ hle
  constructor
  · intro i u hu
    exact numbered_concat hb.numbered hid (ht ▸ hu)
  · intro u hu
    rcases hmem.mp hu with hu | rfl
    · exact hb.once u hu
    · rw [h0]
      exact Nat.zero_le 1
  · intro g i hi
    obtain ⟨u, hu, hrest⟩ := hb.shown hi
    exact ⟨u, hmem.mpr (.inl hu), hrest⟩
  · exact hb.distinct
  · intro u hu hr
    rcases hmem.mp hu with hu | rfl
    · exact .inr ((hb.owned u hu hr).resolve_left (fun hc => Option.some_ne_none _ hc.symm))
    · exact .inl rfl
  · intro g i hi hc
    exact hold hc (Option.some.inj hi).symm
  · exact hb.live
  · intro g i hi hd
    rw [hrefs]
    exact hb.referred hi hd
  · intro g hl hg
    rw [hrefs] at hg
    exact hb.standing hl hg

end Board

end ToastBoard
