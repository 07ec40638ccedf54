import ToastBoard.Proofs.Plans

/-!
# The worker's schedule does not matter

Main statement: from a coordinator that was just set up, let alerts be shown and closed, new alerts
be dropped and the signal be fired in some order, with steps of the worker anywhere in between. Once
the worker has done what was left to do, what has come of it depends on what was asked for and not
on when the worker took its steps: a handler that was displaced before its turn was skipped, one
that was displaced while it was being registered had its toast withdrawn at once, and one that was
displaced later was shown and finished, and all of them are over now.
-/

namespace ToastBoard

open Board

/-- What happens next at a board with a coordinator. -/
inductive Beat where
  /-- The coordinator is asked for something. -/
  | asked (operation : Operation)
  /-- Its worker takes a step. -/
  | worked

/-- What is asked for. -/
def Beat.operation? : Beat → Option Operation
  | .asked operation => some operation
  | .worked => none

namespace Board

variable {b b' : Board} {h : HandlerId} {c : CoordinatorId} {p : Plan} {identity : Option String}

/-- A board after the next thing has happened. -/
def beat (c : CoordinatorId) (b : Board) : Beat → Board
  | .asked operation => (operation.deed c).quietly b
  | .worked => b.work (b.coordinator c).station

/-- What comes of some things that happen one after the other, once the worker has done what is left
to do. -/
def outcome (c : CoordinatorId) (b : Board) (beats : List Beat) : Board :=
  (beats.foldl (beat c) b).flush ((beats.foldl (beat c) b).coordinator c).station

/-- A coordinator whose worker has nothing to do, and whose handlers have been shown or not. -/
structure Settled (c : CoordinatorId) (b : Board) : Prop where
  /-- The worker has nothing to do. -/
  idle : b.isIdle (b.coordinator c).station = true
  /-- Each handler is live or over. -/
  final : ∀ h < b.handlers.length, b.phase h = .live ∨ b.phase h = .unregistered
  /-- The listener of a live handler has heard that it is shown. -/
  shown : ∀ h, b.phase h = .live → (b.handler h).listener ≠ none →
    (b.heard h).map (·.topic) = [.shown]
  /-- The listener of a handler that is over has heard nothing or that it was shown and finished. -/
  finished : ∀ h, b.phase h = .unregistered → (b.handler h).listener ≠ none →
    (b.heard h).map (·.topic) = [] ∨ (b.heard h).map (·.topic) = [.shown, .finished]

/-- Boards on which the same has come of what a coordinator was asked for. -/
structure SameOutcome (c : CoordinatorId) (b b' : Board) : Prop where
  /-- The coordinator has the same table. -/
  table : b'.registry (b'.coordinator c).registry = b.registry (b.coordinator c).registry
  /-- The same handlers were made, for the same alerts. -/
  alerts : b'.alerts = b.alerts
  /-- Each handler is in the same phase. -/
  phase : ∀ h, b'.phase h = b.phase h
  /-- The same toasts are to be seen, in the same order. -/
  seen : b'.seen = b.seen

/-- If the screen has reported nothing, nobody was told of a click or a button. -/
theorem Notices.unreported (hb : b.Notices []) {reports : List Topic}
    (hm : ∀ t ∈ reports, t ∈ (b.heard h).map (·.topic)) (hr : ∀ t ∈ reports, t.isReport = true) :
    reports = [] := by
  refine List.eq_nil_iff_forall_not_mem.mpr fun topic ht => ?_
  obtain ⟨n, hn, htopic⟩ := List.mem_map.mp (hm topic ht)
  have hfaithful := hb.faithful h n hn
  have hreport := hr topic ht
  cases topic with
  | shown => cases hreport
  | finished => cases hreport
  | clicked => exact absurd (hfaithful.clicked htopic).2 List.not_mem_nil
  | actionTaken =>
    obtain ⟨a, -, hm⟩ := hfaithful.button htopic
    exact absurd hm List.not_mem_nil

theorem Notices.shown (hb : b.Notices []) (hp : b.phase h = .live)
    (hl : (b.handler h).listener ≠ none) : (b.heard h).map (·.topic) = [.shown] := by
  have hcourse := hb.course h hl
  rw [hp] at hcourse
  obtain ⟨reports, he, hreports⟩ := hcourse
  have hnone := hb.unreported (h := h) (fun t ht => by simp [he, ht]) hreports
  rw [he, hnone]

theorem Notices.finished (hb : b.Notices []) (hp : b.phase h = .unregistered)
    (hl : (b.handler h).listener ≠ none) :
    (b.heard h).map (·.topic) = [] ∨ (b.heard h).map (·.topic) = [.shown, .finished] := by
  have hcourse := hb.course h hl
  rw [hp] at hcourse
  refine hcourse.imp_right ?_
  rintro ⟨reports, he, hreports⟩
  have hnone := hb.unreported (h := h) (fun t ht => by simp [he, ht]) hreports
  rw [he, hnone]
  rfl

/-- A board with a coordinator that was just set up and its worker. -/
def fresh (name : String) (identity : Option String) : Board where
  registries := [{}]
  stations := [{ worker := { name } }]
  coordinators := [{ registry := 0, station := 0, identity }]
  signal := { observers := [0] }

/-- A coordinator is set up where there was nothing. -/
theorem setUp_fresh {settings : Settings} {host : Host}
    (hb : ({} : Board).setUp settings host = (some ⟨.ok c, Host.questions⟩, b)) :
    c = 0 ∧ ∃ name identity, b = fresh name identity := by
  unfold setUp at hb
  split at hb
  · cases hb
  · rename_i identity asked hi
    simp only [Worker.start] at hb
    split at hb
    · cases hb
    · cases hb
    · rename_i worker hw
      split at hw
      · cases hw
      · cases hrefusal : host.threadRefusal with
        | some reason =>
          rw [hrefusal] at hw
          cases hw
        | none =>
          rw [hrefusal] at hw
          cases hw
          cases hb
          exact ⟨rfl, _, _, rfl⟩

/-- A coordinator that was just set up is behind with nothing. -/
theorem pursues_fresh (name : String) (identity : Option String) :
    (fresh name identity).Pursues identity {} := by
  have hworker : ({ name } : Worker HandlerId).queue = [] := rfl
  have hsound := (sound_start false).openCoordinator hworker identity
  have hphase : ∀ h, (fresh name identity).phase h = .unregistered := fun _ => rfl
  refine ⟨⟨.start, ⟨⟨rfl, List.forall_mem_nil _, fun _ => rfl, fun h => ?_, rfl, rfl, rfl,
    fun h hp => ?_⟩, ⟨.nil, List.forall_mem_nil _, fun hi => (by cases hi), rfl,
    fun ht => (by cases ht), fun hr => (by cases hr)⟩, rfl,
    fun _ hlt => absurd hlt (Nat.not_lt_zero _), fun h => ?_,
    fun _ hlt => absurd hlt (Nat.not_lt_zero _), rfl, rfl⟩, rfl⟩, hsound⟩
  · exact Phase.noConfusion
  · rw [hphase] at hp
    cases hp
  · exact Phase.noConfusion

/-- From a coordinator that was just set up, its worker is never behind with anything but what was
asked for. -/
theorem pursues_beats (hb : b.Pursues identity p) (beats : List Beat) :
    (beats.foldl (beat 0) b).Pursues identity
      ((beats.filterMap Beat.operation?).foldl Plan.after p) := by
  induction beats generalizing b p with
  | nil => exact hb
  | cons x beats ih =>
    cases x with
    | asked operation => exact ih (hb.after operation)
    | worked =>
      refine ih (b := b.work (b.coordinator 0).station) ?_
      rw [hb.coordinator]
      exact hb.work

theorem Pursues.flush (hb : b.Pursues identity p) :
    (b.flush 0).Pursues identity p ∧ (b.flush 0).isIdle 0 = true :=
  ⟨workOff_induction (fun _ hd => hd.work) _ hb,
    isIdle_workOff hb.sound hb.follows.steady (Nat.le_refl _)⟩

namespace Pursues

theorem settled (hb : b.Pursues identity p) (hidle : b.isIdle 0 = true) : b.Settled 0 where
  idle := by
    rw [hb.coordinator]
    exact hidle
  final h _ := hb.follows.steady.final hidle (hb.follows.begun h)
  shown h hp hl := hb.sound.notices.shown hp hl
  finished h hp hl := hb.sound.notices.finished hp hl

/-- When there is nothing left to do, all follows from the plan. -/
theorem sameOutcome (hb : b.Pursues identity p) (hb' : b'.Pursues identity p)
    (hidle : b.isIdle 0 = true) (hidle' : b'.isIdle 0 = true) : b.SameOutcome 0 b' := by
  have halerts : b'.alerts = b.alerts := hb'.follows.made.trans hb.follows.made.symm
  have hphase : ∀ h, b'.phase h = b.phase h := by
    intro h
    have hover : b'.phase h = .unregistered ↔ b.phase h = .unregistered :=
      hb'.over_iff.trans hb.over_iff.symm
    rcases hb.follows.steady.final hidle (hb.follows.begun h) with hp | hp
    · rcases hb'.follows.steady.final hidle' (hb'.follows.begun h) with hp' | hp'
      · rw [hp, hp']
      · rw [hover.mp hp'] at hp
        cases hp
    · rw [hp, hover.mpr hp]
  refine ⟨?_, halerts, hphase, ?_⟩
  · rw [hb.coordinator, hb'.coordinator]
    exact hb'.follows.registry.trans hb.follows.registry.symm
  · rw [hb.follows.lined.seen hb.sound hidle fun _ => hb.refersTo_of_live,
      hb'.follows.lined.seen hb'.sound hidle' fun _ => hb'.refersTo_of_live]
    have hlength : b'.handlers.length = b.handlers.length := by
      rw [← length_alerts, halerts, length_alerts]
    rw [alerts, alerts, hlength] at halerts
    rw [hlength, List.filter_congr fun h _ => by rw [hphase]]
    refine List.map_congr_left fun h hh => ?_
    have hsame := List.map_inj_left.mp halerts h (List.mem_filter.mp hh).1
    rw [(Prod.mk.inj hsame).1]

end Pursues

/-- The outcome of what a coordinator is asked for is settled, and it is the same for any two ways
in which its worker takes its steps. -/
theorem outcome_ignores_schedule {settings : Settings} {host : Host}
    (hstart : ({} : Board).setUp settings host = (some ⟨.ok c, Host.questions⟩, b))
      {beats beats' : List Beat}
    (hsame : beats.filterMap Beat.operation? = beats'.filterMap Beat.operation?) :
    (b.outcome c beats).Settled c ∧ (b.outcome c beats').Settled c ∧
      (b.outcome c beats).SameOutcome c (b.outcome c beats') := by
  obtain ⟨rfl, name, identity, rfl⟩ := setUp_fresh hstart
  have hrun : ∀ l : List Beat, ((fresh name identity).outcome 0 l).Pursues identity
      ((l.filterMap Beat.operation?).foldl Plan.after {}) ∧
      ((fresh name identity).outcome 0 l).isIdle 0 = true := by
    intro l
    have hbeats := pursues_beats (pursues_fresh name identity) l
    rw [outcome, hbeats.coordinator]
    exact hbeats.flush
  obtain ⟨hfirst, hidle⟩ := hrun beats
  obtain ⟨hsecond, hidle'⟩ := hrun beats'
  rw [← hsame] at hsecond
  exact ⟨hfirst.settled hidle, hsecond.settled hidle', hfirst.sameOutcome hsecond hidle hidle'⟩

/-- To show an alert of a name. -/
def greet (name text : String) (listener : ListenerId) : Operation :=
  .showAlert (Alert.asSource
    { cookie := "c", name, title := "t", text, textClickable := true, source := "",
      requireInteraction := false, actions := [], imageUrl := "" }) (some listener)

/-- The first alert is live when it is displaced, and the second one is being registered when it is
closed. -/
def keepsPace : List Beat :=
  [.asked (greet "a" "x" 0), .worked, .worked, .asked (greet "b" "y" 1), .worked,
    .asked (.closeAlert "b"), .asked (greet "a" "z" 2)]

/-- The worker comes to none of them in time. -/
def fallsBehind : List Beat :=
  [.asked (greet "a" "x" 0), .asked (greet "b" "y" 1), .asked (.closeAlert "b"),
    .asked (greet "a" "z" 2)]

/-- Three toasts were recorded in one case and one in the other, and the same one is to be seen. -/
theorem outcome_ignores_schedule_behind :
    ({} : Board).setUp {} { supported := true, identity := .ok "id" } =
      (some ⟨.ok 0, Host.questions⟩, fresh "ToastBgThread" (some "id")) ∧
    keepsPace.filterMap Beat.operation? = fallsBehind.filterMap Beat.operation? ∧
    ((fresh "ToastBgThread" (some "id")).outcome 0 keepsPace).SameOutcome 0
      ((fresh "ToastBgThread" (some "id")).outcome 0 fallsBehind) ∧
    ((fresh "ToastBgThread" (some "id")).outcome 0 keepsPace).screen.toasts.map (·.releases) =
      [1, 1, 0] ∧
    ((fresh "ToastBgThread" (some "id")).outcome 0 fallsBehind).screen.toasts.map (·.releases) =
      [0] ∧
    ((fresh "ToastBgThread" (some "id")).outcome 0 fallsBehind).seen = [("a", "c", "t", "z")] := by
  have hstart : ({} : Board).setUp {} { supported := true, identity := .ok "id" } =
      (some ⟨.ok 0, Host.questions⟩, fresh "ToastBgThread" (some "id")) := rfl
  have hsame : keepsPace.filterMap Beat.operation? = fallsBehind.filterMap Beat.operation? := rfl
  exact ⟨hstart, hsame, (outcome_ignores_schedule hstart hsame).2.2, by decide +kernel,
    by decide +kernel, by decide +kernel⟩

end Board

end ToastBoard
