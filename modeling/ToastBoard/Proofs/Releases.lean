import ToastBoard.Proofs.Deeds

/-!
# Every toast is released once

Main statement: whatever happens, and whenever somebody outside may act, a toast was released at
most once; it is still to be released exactly if one handler that exists is live with it; and when
everything is given up every toast was released. The screen is called once at most for a handler.
-/

namespace ToastBoard

namespace Board

variable {b : Board} {T : Terms} {h : HandlerId}

/-- A toast is not released exactly if one handler that exists is live with it. -/
theorem Sound.unreleased_iff (hb : b.Sound false {} T) {t : Toast} (ht : t ∈ b.screen.toasts) :
    t.releases = 0 ↔ ∃! h, b.refersTo h = true ∧ b.phase h = .live ∧
      (b.handler h).registration = some t.id := by
  constructor
  · intro h0
    rcases hb.toasts.owned t ht h0 with hloose | ⟨h, hr⟩
    · cases hloose
    · have href := hb.toasts.referred hr List.not_mem_nil
      have hlive := hb.toasts.live hr (Option.some_ne_none _)
      exact ⟨h, ⟨href, hlive, hr⟩, fun g hg => hb.toasts.distinct hg.2.2 hr⟩
  · rintro ⟨h, ⟨-, -, hr⟩, -⟩
    obtain ⟨t', ht', hid, h0, -⟩ := hb.toasts.shown hr
    rw [← hb.toasts.eq_of_id ht' ht hid]
    exact h0

/-- When nobody holds or owns anything and all workers are idle, no handler exists. -/
theorem Books.nobody {b : Board} (hb : b.Books [] [] []) (hidle : ∀ s, b.isIdle s = true)
    (h : HandlerId) : b.refersTo h = false := by
  have hqueue : ∀ s, (b.station s).worker.queue = [] ∧ (b.station s).inside = none := by
    intro s
    have hs := hidle s
    simp only [isIdle, Bool.and_eq_true, Option.isNone_iff_eq_none, List.isEmpty_iff] at hs
    exact ⟨hs.2, hs.1⟩
  have hbacking : ∀ r, b.backing.count r = 0 := by
    intro r
    refine List.count_eq_zero.mpr fun hm => ?_
    obtain ⟨co, hco, -⟩ := List.mem_map.mp hm
    obtain ⟨hmem, hpos⟩ := List.mem_filter.mp hco
    obtain ⟨c, -, hget⟩ := exists_getD_of_mem
      { registry := b.registries.length, station := b.stations.length, owners := 0 } hmem
    have hnone : co.owners = 0 := by
      rw [← hget]
      exact hb.mastered c
    rw [hnone] at hpos
    exact Bool.noConfusion hpos
  have hempty : ∀ r, (b.registry r).entries = [] := by
    intro r
    refine hb.vacant r ?_
    rw [hb.owned, hbacking]
    rfl
  refine Bool.eq_false_iff.mpr fun hr => ?_
  rcases refersTo_iff.mp hr with hm | ⟨r, hm⟩ | ⟨s, hm⟩ | ⟨s, a, hi, -⟩
  · exact absurd (hb.held.mem_iff.mp hm) List.not_mem_nil
  · obtain ⟨name, he⟩ := Registry.mem_handlers.mp hm
    rw [hempty] at he
    cases he
  · rw [jobs, (hqueue s).1] at hm
    cases hm
  · rw [inside?, (hqueue s).2] at hi
    cases hi

end Board

/-- At every moment of any course the screen was called once at most for each handler; each toast
was released once or not at all, and not at all exactly if one handler that exists is live with it;
and when nothing is under way, people have given everything up and the workers have nothing to do,
each toast was released. -/
theorem toasts_released_once {m : Moment} (course : FreeCourse m) :
    (m.world.board.screen.attempts.map (·.handler)).Nodup ∧
    (∀ t ∈ m.world.board.screen.toasts, (t.releases = 0 ∨ t.releases = 1) ∧
      (t.releases = 0 ↔ ∃! h, m.world.board.refersTo h = true ∧ m.world.board.phase h = .live ∧
        (m.world.board.handler h).registration = some t.id)) ∧
    (m.waiting = [] → m.world.kept = [] → m.world.registries = [] → m.world.coordinators = [] →
      (∀ s, m.world.board.isIdle s = true) →
      ∀ t ∈ m.world.board.screen.toasts, t.releases = 1) := by
  have hupheld := governs_free.upholds (sound_start false) course
  obtain ⟨g, hsound⟩ := sound_of_freeCourse course
  have hreleases : ∀ t ∈ m.world.board.screen.toasts, t.releases = 0 ∨ t.releases = 1 := by
    intro t ht
    have hle := hsound.toasts.once t ht
    omega
  refine ⟨hsound.jobs.tried, fun t ht => ⟨hreleases t ht, hsound.unreleased_iff ht⟩, ?_⟩
  intro hw hk hr hc hidle t ht
  have hbooks := (hupheld.top hw).books
  simp only [Ledger.terms, hk, hr, hc, List.append_nil] at hbooks
  rcases hreleases t ht with h0 | h1
  · obtain ⟨h, ⟨href, -⟩, -⟩ := (hsound.unreleased_iff ht).mp h0
    rw [hbooks.nobody hidle h] at href
    cases href
  · exact h1

/-- An alert is shown and goes live; its listener closes it while it hears of that, and panics when
it hears of the end; then the coordinator is given up and its worker ends. -/
def comeAndGone : List Event :=
  [.deed (.setUp {} { supported := true, identity := .ok "id" }),
    .deed (.showAlert 0 (Alert.asSource
      { cookie := "c", name := "a", title := "t", text := "x", textClickable := true, source := "",
        requireInteraction := false, actions := [], imageUrl := "" }) (some 0)),
    .deed (.advance 0), .deed (.finish 0), .deed (.closeAlert 0 "a"), .reply false, .reply true,
    .deed (.dropCoordinator 0), .deed (.advance 0)]

/-- The one toast of that course was released. -/
theorem toasts_released_once_gone : FreeCourse (comeAndGone.foldl Moment.after {}) ∧
    (comeAndGone.foldl Moment.after {}).world.board.screen.toasts.length = 1 ∧
    ∀ t ∈ (comeAndGone.foldl Moment.after {}).world.board.screen.toasts, t.releases = 1 := by
  have hcourse : FreeCourse (comeAndGone.foldl Moment.after {}) := by
    refine Course.start.follow ⟨trivial, trivial, ?_, trivial, trivial, trivial, trivial, trivial,
      ?_, trivial, ?_, trivial, ?_, trivial, ?_, trivial, trivial, trivial, trivial⟩
    · exact List.mem_cons_self
    · exact List.mem_cons_self
    · exact List.cons_ne_nil _ _
    · exact List.cons_ne_nil _ _
    · exact List.mem_cons_self
  have hidle : ∀ s, (comeAndGone.foldl Moment.after {}).world.board.isIdle s = true := by
    rintro (_ | s) <;> rfl
  exact ⟨hcourse, rfl, (toasts_released_once hcourse).2.2 rfl rfl rfl rfl hidle⟩

end ToastBoard
