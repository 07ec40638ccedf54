import ToastBoard.Proofs.Deeds

/-!
# Coordinators, handlers and the screen agree

Main statement: whenever no deed is under way, on a board on which only coordinators work, the table
of a coordinator holds each of its handlers that is not over, under its own name, and nobody else;
each of them is live or awaits its registration; and the toasts that are not released are those of
live handlers, one to one.
-/

namespace ToastBoard

namespace Board

variable {b : Board} {c d : CoordinatorId} {h : HandlerId} {founders : List CoordinatorId}

/-- What a coordinator has on a board agrees with its handlers and with the screen. -/
structure Coherent (b : Board) (c : CoordinatorId) : Prop where
  /-- Its table has one entry at most to a name. -/
  single : ((b.registry (b.coordinator c).registry).entries.map (·.1)).Nodup
  /-- An entry stands under the name of its handler. -/
  named : ∀ {name h}, (name, h) ∈ (b.registry (b.coordinator c).registry).entries →
    name = (b.handler h).name
  /-- The entries are the handlers that were made for it and are not over. -/
  listed : ∀ h, h ∈ (b.registry (b.coordinator c).registry).handlers ↔
    (b.handler h).registry = some (b.coordinator c).registry ∧ b.phase h ≠ .unregistered
  /-- Each of them is initializing or live. -/
  pending : ∀ h ∈ (b.registry (b.coordinator c).registry).handlers,
    b.phase h = .initializing ∨ b.phase h = .live
  /-- No other coordinator has its table. -/
  own : ∀ d < b.coordinators.length,
    (b.coordinator d).registry = (b.coordinator c).registry → d = c
  /-- When its worker has nothing to do, each of them is live, but for those whose attempt panicked
  or killed the worker, and for those that were lost with a dead worker before they were tried. -/
  quiet : b.isIdle (b.coordinator c).station = true →
    ∀ h ∈ (b.registry (b.coordinator c).registry).handlers, b.phase h = .live ∨
      (∃ a ∈ b.screen.attempts, a.handler = h ∧ (a.fate = .panics ∨ a.fate = .crashes)) ∨
      ((b.station (b.coordinator c).station).worker.alive = false ∧
        ∀ a ∈ b.screen.attempts, a.handler ≠ h)
  /-- Each live one has one toast that is not released, which shows its alert. -/
  shown : ∀ h ∈ (b.registry (b.coordinator c).registry).handlers, b.phase h = .live →
    ∃! t, t ∈ b.screen.toasts ∧ t.releases = 0 ∧ (b.handler h).registration = some t.id ∧
      t.Shows (b.handler h).fields

/-- Two coordinators with the same registry are one. -/
theorem eq_of_registry {holders : List HandlerId} {owners : List RegistryId}
    {masters : List CoordinatorId} (hb : b.Books holders owners masters)
    (hc : c < b.coordinators.length) (hd : d < b.coordinators.length)
    (he : (b.coordinator d).registry = (b.coordinator c).registry) : d = c := by
  refine (List.getElem?_inj ?_ hb.apart).mp ?_
  · rw [List.length_map]
    exact hd
  · rw [getElem?_registries hd, getElem?_registries hc, he]

/-- What is awaited at a station that has nothing to do was attempted in vain, or lost with its
worker. -/
theorem Awaited.of_idle {s : StationId} (hw : b.Awaited s h) (hidle : b.isIdle s = true) :
    (∃ a ∈ b.screen.attempts, a.handler = h ∧ (a.fate = .panics ∨ a.fate = .crashes)) ∨
      ((b.station s).worker.alive = false ∧ ∀ a ∈ b.screen.attempts, a.handler ≠ h) := by
  have hnothing : (b.station s).inside = none ∧ (b.station s).worker.queue = [] := by
    simpa [isIdle] using hidle
  rcases hw with hw | ⟨a, hi, -⟩ | ⟨a, hmem, he, hf⟩ | hw
  · rw [Board.jobs, hnothing.2] at hw
    cases hw
  · rw [inside?, hnothing.1] at hi
    cases hi
  · refine .inl ⟨a, hmem, he, ?_⟩
    cases hfate : a.fate with
    | proceeds => exact absurd hfate hf
    | panics => exact .inl rfl
    | crashes => exact .inr rfl
  · exact .inr ⟨hw.dead, hw.untried⟩

/-- A coordinator on a board in order agrees with its handlers and with the screen. -/
theorem Sound.coherent {T : Terms} (hb : b.Sound true {} T) (hending : T.ending = [])
    (hc : c ∈ T.founders) : b.Coherent c := by
  have ha := hb.agreed rfl
  rw [hending] at ha
  have hlt := hb.lt_of_owned (List.mem_append_right _ hc)
  have hentry : ∀ {h}, h ∈ (b.registry (b.coordinator c).registry).handlers →
      ((b.handler h).name, h) ∈ (b.registry (b.coordinator c).registry).entries := by
    intro h hm
    obtain ⟨name, he⟩ := Registry.mem_handlers.mp hm
    rw [(ha.entry he).1]
    exact he
  have hpending : ∀ h ∈ (b.registry (b.coordinator c).registry).handlers, b.Pending h := by
    intro h hm
    exact ha.pending (hentry hm) (Option.some_ne_none _)
  refine ⟨hb.tables _, fun he => (ha.entry he).1.symm, ?_, hpending,
    fun d hd he => eq_of_registry hb.books hlt hd he, ?_, ?_⟩
  · intro h
    constructor
    · intro hm
      refine ⟨(ha.entry (hentry hm)).2, ?_⟩
      rcases hpending h hm with hp | hp <;> rw [hp] <;> exact Phase.noConfusion
    · rintro ⟨hreg, hp⟩
      obtain ⟨r, hr, he⟩ := ha.listed hp (Option.some_ne_none _) List.not_mem_nil
      rw [hreg] at hr
      rw [← Option.some.inj hr] at he
      exact Registry.mem_handlers.mpr ⟨_, he⟩
  · intro hidle h hm
    rcases hpending h hm with hp | hp
    · obtain ⟨d, hd, hreg, hw⟩ := hb.prospects rfl h hp (Option.some_ne_none _)
      rw [(ha.entry (hentry hm)).2] at hreg
      rw [eq_of_registry hb.books hlt hd (Option.some.inj hreg).symm] at hw
      exact .inr (hw.of_idle hidle)
    · exact .inl hp
  · intro h hm hp
    have href := refersTo_of_entry _ _ (hentry hm)
    obtain ⟨id, hid⟩ := Option.ne_none_iff_exists'.mp (hb.toasts.standing hp href)
    obtain ⟨t, ht, he, h0, hshows⟩ := hb.toasts.shown hid
    refine ⟨t, ⟨ht, h0, by rw [hid, he], hshows⟩, ?_⟩
    rintro t' ⟨ht', -, hid', -⟩
    refine hb.toasts.eq_of_id ht' ht ?_
    rw [hid] at hid'
    rw [← Option.some.inj hid', he]

/-- A toast that is not released is that of one live handler in the table of a coordinator. -/
theorem Sound.entry_of_unreleased {T : Terms} (hb : b.Sound true {} T) (hending : T.ending = [])
    {t : Toast} (ht : t ∈ b.screen.toasts) (h0 : t.releases = 0) :
    ∃! h, (b.handler h).registration = some t.id ∧ b.phase h = .live ∧ ∃ c ∈ T.founders,
      ((b.handler h).name, h) ∈ (b.registry (b.coordinator c).registry).entries := by
  have ha := hb.agreed rfl
  rw [hending] at ha
  rcases hb.toasts.owned t ht h0 with hloose | ⟨h, hr⟩
  · cases hloose
  · have hlive := hb.toasts.live hr (Option.some_ne_none _)
    have hnu : b.phase h ≠ .unregistered := by rw [hlive]; exact Phase.noConfusion
    obtain ⟨r, hreg, he⟩ := ha.listed hnu (Option.some_ne_none _) List.not_mem_nil
    obtain ⟨c, hc, hhome⟩ := ha.home h (lt_of_registration hr)
    rw [hreg] at hhome
    refine ⟨h, ⟨hr, hlive, c, hc, ?_⟩, fun g hg => hb.toasts.distinct hg.1 hr⟩
    rw [← Option.some.inj hhome]
    exact he

end Board

/-- Whenever no deed is under way, after any orderly course, each coordinator agrees with its
handlers and with the screen, each handler belongs to one coordinator, and each toast that is not
released is that of one live handler in the table of a coordinator. -/
theorem coordinators_coherent {m : Moment} (course : Course Orderly m) (hw : m.waiting = []) :
    (∀ c ∈ m.world.coordinators, m.world.board.Coherent c) ∧
    (∀ h < m.world.board.handlers.length, ∃ c ∈ m.world.coordinators,
      (m.world.board.handler h).registry = some (m.world.board.coordinator c).registry) ∧
    ∀ t ∈ m.world.board.screen.toasts, t.releases = 0 →
      ∃! h, (m.world.board.handler h).registration = some t.id ∧ m.world.board.phase h = .live ∧
        ∃ c ∈ m.world.coordinators, ((m.world.board.handler h).name, h) ∈
          (m.world.board.registry (m.world.board.coordinator c).registry).entries := by
  have hupheld := governs_orderly.upholds (sound_start true) course
  have hsound : m.world.board.Sound true {} (Ledger.terms {} m.world) := hupheld.top hw
  exact ⟨fun c hc => hsound.coherent rfl hc, (hsound.agreed rfl).home,
    fun t ht h0 => hsound.entry_of_unreleased rfl ht h0⟩

/-- An alert goes live, and while its listener hears of that it shows another one of the same name;
that one goes live as well, and its listener panics. -/
def shownTwice : List Event :=
  [.deed (.setUp {} { supported := true, identity := .ok "id" }),
    .deed (.showAlert 0 (Alert.asSource
      { cookie := "c", name := "a", title := "t", text := "x", textClickable := true, source := "",
        requireInteraction := false, actions := [], imageUrl := "" }) (some 0)),
    .deed (.advance 0), .deed (.finish 0),
    .deed (.showAlert 0 (Alert.asSource
      { cookie := "d", name := "a", title := "t", text := "y", textClickable := true, source := "",
        requireInteraction := false, actions := [], imageUrl := "" }) (some 0)),
    .reply true, .reply true, .deed (.advance 0), .deed (.finish 0), .reply false]

/-- In the end the second alert is the only entry, and everything agrees. -/
theorem coordinators_coherent_twice : Course Orderly (shownTwice.foldl Moment.after {}) ∧
    (shownTwice.foldl Moment.after {}).waiting = [] ∧
    ((shownTwice.foldl Moment.after {}).world.board.registry 0).entries = [("a", 1)] ∧
    (shownTwice.foldl Moment.after {}).world.board.Coherent 0 := by
  have hcourse : Course Orderly (shownTwice.foldl Moment.after {}) := by
    have hreturns : ∀ {m : Moment}, Orderly m (.reply true) := Bool.noConfusion
    refine Course.start.follow ⟨trivial, trivial, List.mem_cons_self, trivial, trivial, trivial,
      trivial, trivial, List.mem_cons_self, trivial, List.cons_ne_nil _ _, hreturns,
      List.cons_ne_nil _ _, hreturns, trivial, trivial, trivial, trivial, List.cons_ne_nil _ _,
      fun _ => List.forall_mem_singleton.mpr rfl, trivial⟩
  exact ⟨hcourse, rfl, rfl, (coordinators_coherent hcourse rfl).1 0 List.mem_cons_self⟩

end ToastBoard
