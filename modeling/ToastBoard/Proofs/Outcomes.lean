import Mathlib.Data.List.Induction
import ToastBoard.Proofs.Assurances

/-!
# Outcomes

How often a listener is told what became of its toast. A live handler reports whatever the screen
says and ends when its listener has returned; in between it is still live. So a listener that
returns hears one outcome only. But what the screen says while the listener is being told is
reported as well, and so is everything after a report that a panic cut short: these are the only
ways to hear of two.

A scene is a moment together with the notices whose listeners have not returned yet, the one told
last first, and those whose listeners panicked.
-/

namespace ToastBoard

open Talk Board

variable {m : Moment} {e : Event} {events : List Event} {h : HandlerId} {b : Board} {o : Outcome}

/-- Some notices about what became of a handler. -/
def outcomesOf (h : HandlerId) (tellings : List Telling) : List Telling :=
  tellings.filter fun t => t.handler = h ∧ t.notice.topic.isReport = true

theorem mem_outcomesOf {tellings : List Telling} {t : Telling} : t ∈ outcomesOf h tellings ↔
    t ∈ tellings ∧ t.handler = h ∧ t.notice.topic.isReport = true := by
  simp [outcomesOf]

theorem outcomesOf_append (tellings tellings' : List Telling) :
    outcomesOf h (tellings ++ tellings') = outcomesOf h tellings ++ outcomesOf h tellings' :=
  List.filter_append ..

/-- Nothing was told of the outcomes of a handler that told nothing. -/
theorem outcomesOf_of_silent {tellings : List Telling} (ht : ∀ t ∈ tellings, t ∈ b.told)
    (hn : b.heard h = []) : outcomesOf h tellings = [] := by
  refine List.eq_nil_iff_forall_not_mem.mpr fun t hmem => ?_
  obtain ⟨hin, hh, -⟩ := mem_outcomesOf.mp hmem
  have hheard : t.notice ∈ b.heard h :=
    List.mem_map.mpr ⟨t, List.mem_filter.mpr ⟨ht t hin, by simpa using hh⟩, rfl⟩
  rw [hn] at hheard
  cases hheard

/-- A moment with what is being told and what was cut short. -/
structure Scene where
  /-- The moment. -/
  moment : Moment := {}
  /-- What those are told who have not returned yet, the one told last first. -/
  calls : List Telling := []
  /-- What those were told who panicked. -/
  cut : List Telling := []

namespace Scene

/-- What a panic cuts short in an event. -/
def broken (s : Scene) : Event → List Telling
  | .reply false => s.calls.head?.toList
  | _ => []

/-- The scene after something has happened. -/
def after (s : Scene) (e : Event) : Scene where
  moment := s.moment.after e
  calls := (s.moment.news e).toList ++ e.outer s.calls
  cut := s.broken e ++ s.cut

/-- What is or was told without the listener returning. -/
def pending (s : Scene) : List Telling := s.calls ++ s.cut

end Scene

/-- The scene to which some events lead. -/
def scene (events : List Event) : Scene := events.foldl Scene.after {}

theorem scene_snoc (events : List Event) (e : Event) :
    scene (events ++ [e]) = (scene events).after e := List.foldl_append ..

/-- A scene is set at the moment to which its events lead. -/
theorem moment_scene (events : List Event) :
    (scene events).moment = events.foldl Moment.after {} := by
  induction events using List.reverseRecOn with
  | nil => rfl
  | append_singleton events e ih =>
    rw [scene_snoc, List.foldl_append, ← ih]
    rfl

/-- A scene that can be played is lawful. -/
theorem lawful_scene (ho : Course.Open (fun _ _ => True) {} events) :
    (scene events).moment.Lawful {} := by
  rw [moment_scene]
  exact lawful_of_freeCourse (Course.start.follow ho)

/-- An outcome is told only of a handler that was live before and still is. -/
theorem Moment.Lawful.live_of_report {first : Ledger} (hm : m.Lawful first)
    (allowed : m.Allows e) {t : Telling} (ht : m.news e = some t)
    (hr : t.notice.topic.isReport = true) :
    m.world.board.phase t.handler = .live ∧ (m.after e).world.board.phase t.handler = .live := by
  rcases hm.fits allowed ht with ⟨hs, -⟩ | ⟨-, hp⟩ | ⟨hf, -⟩
  · rw [hs] at hr
    cases hr
  · exact hp
  · rw [hf] at hr
    cases hr

/-- While a handler is not over, what was told of its outcomes are the outcomes whose listeners have
not returned. -/
structure Scene.Accounts (s : Scene) : Prop where
  /-- Each deed that waits attends to whoever was told something last. -/
  attends : s.moment.Attends false s.calls
  /-- What is being told and what was cut short was told. -/
  told : ∀ t ∈ s.pending, t ∈ s.moment.world.board.told
  /-- Nothing else was told of the outcomes of a handler that is not over. -/
  whole : ∀ h, s.moment.world.board.phase h ≠ .unregistered →
    (outcomesOf h s.moment.world.board.told).Perm (outcomesOf h s.pending)

namespace Scene.Accounts

variable {s : Scene} {t : Telling} {rest : List Telling}

/-- A listener that returns from being told of an outcome leaves a handler that is over. -/
theorem ended_of_return (hs : s.Accounts) (hc : s.calls = t :: rest)
    (hr : t.notice.topic.isReport = true) :
    (s.moment.after (.reply true)).world.board.phase t.handler = .unregistered := by
  have hattends := hs.attends
  rw [Moment.Attends, hc] at hattends
  rw [Moment.board_after]
  obtain ⟨⟨w, waiting⟩, calls, cut⟩ := s
  cases hattends with
  | cons hx _ => exact (hx w.board fun hc => Bool.noConfusion hc).1 hr

/-- What is pending after an event of a handler that is not over. -/
theorem pending_after (hs : s.Accounts) (e : Event)
    (hp : (s.moment.after e).world.board.phase h ≠ .unregistered) :
    (outcomesOf h (s.after e).pending).Perm
      (outcomesOf h s.pending ++ outcomesOf h (s.moment.news e).toList) := by
  have hsplit : (outcomesOf h (s.after e).pending).Perm
      (outcomesOf h (e.outer s.calls ++ s.broken e ++ s.cut) ++
        outcomesOf h (s.moment.news e).toList) := by
    have hpending : (s.after e).pending = (s.moment.news e).toList ++
        (e.outer s.calls ++ s.broken e ++ s.cut) := by simp [pending, after]
    rw [hpending, outcomesOf_append]
    exact List.perm_append_comm
  refine hsplit.trans (List.Perm.append_right _ ?_)
  rw [outcomesOf_append (e.outer s.calls ++ s.broken e), pending, outcomesOf_append s.calls]
  refine List.Perm.append_right _ ?_
  cases e with
  | deed d => simp [Event.outer, broken]
  | reply returned =>
    cases hc : s.calls with
    | nil => cases returned <;> simp [Event.outer, broken, hc]
    | cons t rest =>
      have hcons : outcomesOf h (t :: rest) = outcomesOf h [t] ++ outcomesOf h rest :=
        outcomesOf_append [t] rest
      cases returned with
      | false =>
        have hbroken : s.broken (.reply false) = [t] := by simp [broken, hc]
        rw [hbroken, Event.outer, List.tail_cons, outcomesOf_append, hcons]
        exact List.perm_append_comm
      | true =>
        have hnone : outcomesOf h [t] = [] := by
          refine List.eq_nil_iff_forall_not_mem.mpr fun u hu => ?_
          obtain ⟨hmem, hh, hr⟩ := mem_outcomesOf.mp hu
          rw [List.mem_singleton.mp hmem] at hh hr
          exact hp (hh ▸ hs.ended_of_return hc hr)
        rw [hcons, hnone, Event.outer, List.tail_cons]
        simp [broken, outcomesOf]

/-- An event keeps the account. -/
theorem after (hs : s.Accounts) {first : Ledger} (hm : s.moment.Lawful first)
    (allowed : s.moment.Allows e) : (s.after e).Accounts where
  attends := by
    obtain ⟨g, hsound⟩ := hm.sound
    exact hs.attends.after (fun hc => Bool.noConfusion hc) hsound.jobs allowed
      (fun hc => Bool.noConfusion hc) fun hc => Bool.noConfusion hc
  told := by
    intro t ht
    change t ∈ (s.moment.after e).world.board.told
    rw [(hm.tells allowed).2]
    have hcases : t ∈ (s.moment.news e).toList ∨ t ∈ s.pending := by
      rcases List.mem_append.mp ht with ht | ht
      · rcases List.mem_append.mp ht with ht | ht
        · exact .inl ht
        · refine .inr (List.mem_append_left _ ?_)
          cases e with
          | deed d => exact ht
          | reply returned => exact List.mem_of_mem_tail ht
      · rcases List.mem_append.mp ht with ht | ht
        · refine .inr (List.mem_append_left _ ?_)
          unfold broken at ht
          split at ht
          · exact List.mem_of_mem_head? (Option.mem_toList.mp ht)
          · cases ht
        · exact .inr (List.mem_append_right _ ht)
    exact hcases.elim (List.mem_append_right _) fun hp => List.mem_append_left _ (hs.told t hp)
  whole := by
    intro h hp
    change (outcomesOf h (s.moment.after e).world.board.told).Perm _
    obtain ⟨honward, htold⟩ := hm.tells allowed
    rw [htold, outcomesOf_append]
    refine List.Perm.trans (List.Perm.append_right _ ?_) (hs.pending_after e hp).symm
    by_cases hlt : h < s.moment.world.board.handlers.length
    · exact hs.whole h fun hover => hp (honward.over hlt hover)
    · obtain ⟨g, hsound⟩ := hm.sound
      have hsilent : s.moment.world.board.heard h = [] := hsound.notices.silent h <| by
        rw [handler_of_le (Nat.le_of_not_lt hlt)]
        rfl
      rw [outcomesOf_of_silent (fun _ => id) hsilent, outcomesOf_of_silent hs.told hsilent]

end Scene.Accounts

/-- Every scene keeps the account. -/
theorem accounts_scene (ho : Course.Open (fun _ _ => True) {} events) :
    (scene events).Accounts := by
  induction events using List.reverseRecOn with
  | nil => exact ⟨.nil, fun _ ht => absurd ht List.not_mem_nil, fun _ _ => .refl _⟩
  | append_singleton events e ih =>
    obtain ⟨hopen, allowed, -, -⟩ := Course.open_append.mp ho
    rw [scene_snoc]
    exact (ih hopen).after (lawful_scene hopen) (by rwa [moment_scene])

namespace Talk

variable {α β : Type} {t : Telling}

theorem message_andThen {talk : Talk Board Telling α} {next : α → Board → Talk Board Telling β}
    (ht : talk.message = some t) : (talk.andThen next).message = some t := by
  cases talk with
  | ended a b => cases ht
  | told x b resume => exact ht

end Talk

namespace Board

theorem message_notify {topic : Topic} {action : Option String}
    (hl : (b.handler h).listener ≠ none) :
    (notify h topic action b).message = some ⟨h, (b.handler h).notice topic action⟩ := by
  obtain ⟨l, hl⟩ := Option.ne_none_iff_exists'.mp hl
  rw [notify_eq, hl]
  rfl

/-- A live handler to which something refers passes on what the screen reports. -/
theorem message_hear {n : Notice} (hp : b.phase h = .live) (hr : b.refersTo h = true)
    (hn : n ∈ (b.story h).hears o) : (hear h o b).message = some ⟨h, n⟩ := by
  have hl : ((b.hold h).handler h).listener ≠ none := fun hl => by
    rw [Story.hears, if_pos (show (b.story h).listener = none from hl)] at hn
    cases hn
  rw [Story.hears, if_neg (show (b.story h).listener ≠ none from hl)] at hn
  have hreport : (report h o (b.hold h)).message = some ⟨h, n⟩ := by
    rw [report_eq]
    cases o with
    | activated action =>
      cases action with
      | none =>
        simp only [Snapshot.reports] at hn
        split at hn
        · rename_i hc
          rw [List.mem_singleton.mp hn]
          dsimp only
          rw [if_pos (show ((b.hold h).handler h).fields.textClickable = true from hc)]
          exact message_notify hl
        · cases hn
      | some action =>
        rw [List.mem_singleton.mp hn]
        exact message_notify hl
    | dismissed => cases hn
    | failed reason => cases hn
  rw [hear_eq, if_pos hr]
  refine (message_ensuring ..).trans ?_
  rw [handleOutcome_eq, show (b.hold h).phase h = .live from hp]
  exact message_andThen hreport

end Board

/-- Whatever is reported to a live handler to which something refers, its listener is told at
once. -/
theorem news_of_report {d : Deed} {n : Notice} (hj : m.world.board.Jobs)
    (hp : m.world.board.phase h = .live) (hr : m.world.board.refersTo h = true)
    (ho : (h, o) ∈ d.reports m.world.board) (hn : n ∈ (m.world.board.story h).hears o) :
    m.news (.deed d) = some ⟨h, n⟩ := by
  change (d.act m.world.board).message = some ⟨h, n⟩
  cases d with
  | emit name outcome =>
    simp only [Deed.reports, List.mem_map, Option.mem_toList] at ho
    obtain ⟨x, hsink, he⟩ := ho
    obtain ⟨rfl, rfl⟩ := Prod.mk.inj he
    refine message_andThen ?_
    rw [emit_eq, hsink]
    exact message_andThen (message_hear hp hr hn)
  | deliver k outcome =>
    simp only [Deed.reports, List.mem_map, Option.mem_toList] at ho
    obtain ⟨attempt, hattempt, he⟩ := ho
    obtain ⟨rfl, rfl⟩ := Prod.mk.inj he
    rw [Deed.act_deliver, hattempt]
    exact message_hear hp hr hn
  | finish s =>
    -- what a registration reports early is not for a live handler
    simp only [Deed.reports] at ho
    split at ho
    · rename_i x thread hin hf
      simp only [List.mem_map, Option.mem_toList] at ho
      obtain ⟨early, -, he⟩ := ho
      obtain ⟨rfl, -⟩ := Prod.mk.inj he
      rcases hj.waiting (.inr ⟨s, _, hin, rfl⟩) with hi | hi <;>
      · rw [hi] at hp
        cases hp
    · cases ho
  | _ => cases ho

/-- What was told stays told. -/
theorem Moment.Lawful.told_extends {first : Ledger} (hm : m.Lawful first)
    (ho : Course.Open (fun _ _ => True) m events) :
    m.world.board.told <+: (events.foldl Moment.after m).world.board.told := by
  induction events generalizing m with
  | nil => exact List.prefix_rfl
  | cons e rest ih =>
    obtain ⟨allowed, -, hrest⟩ := ho
    refine List.IsPrefix.trans ?_ (ih (hm.after allowed) hrest)
    rw [(hm.tells allowed).2]
    exact List.prefix_append ..

/-- What an event adds to the outcomes that were told. -/
theorem outcomesOf_told_snoc (ho : Course.Open (fun _ _ => True) {} (events ++ [e]))
    (h : HandlerId) : outcomesOf h (scene (events ++ [e])).moment.world.board.told =
      outcomesOf h (scene events).moment.world.board.told ++
        outcomesOf h ((scene events).moment.news e).toList := by
  obtain ⟨hopen, allowed, -, -⟩ := Course.open_append.mp ho
  rw [← moment_scene] at allowed
  rw [scene_snoc, ← outcomesOf_append]
  exact congrArg _ ((lawful_scene hopen).tells allowed).2

/-- One outcome is told at most, unless there is one while another is pending. -/
theorem outcomes_le_one_iff (ho : Course.Open (fun _ _ => True) {} events) (h : HandlerId) :
    (outcomesOf h (scene events).moment.world.board.told).length ≤ 1 ↔
      ∀ before e later, events = before ++ e :: later →
        outcomesOf h ((scene before).moment.news e).toList ≠ [] →
          outcomesOf h (scene before).pending = [] := by
  constructor
  · rintro hone before e later rfl hnews
    have hopen : Course.Open (fun _ _ => True) {} (before ++ [e]) ∧
        Course.Open (fun _ _ => True) ((before ++ [e]).foldl Moment.after {}) later := by
      rw [← Course.open_append, List.append_assoc]
      exact ho
    have hextends : (scene (before ++ [e])).moment.world.board.told <+:
        (scene (before ++ e :: later)).moment.world.board.told := by
      have hall := (lawful_of_freeCourse (Course.start.follow hopen.1)).told_extends hopen.2
      rwa [← List.foldl_append, List.append_assoc, ← moment_scene, ← moment_scene] at hall
    have hle := (hextends.filter fun t => t.handler = h ∧ t.notice.topic.isReport = true).length_le
    change (outcomesOf h _).length ≤ (outcomesOf h _).length at hle
    rw [outcomesOf_told_snoc hopen.1, List.length_append] at hle
    have hnew := List.length_pos_iff.mpr hnews
    refine List.eq_nil_iff_forall_not_mem.mpr fun t ht => ?_
    obtain ⟨hmem, hreport⟩ := mem_outcomesOf.mp ht
    have htold := (accounts_scene (Course.open_append.mp hopen.1).1).told t hmem
    have hold := List.length_pos_of_mem (mem_outcomesOf.mpr ⟨htold, hreport⟩)
    omega
  · intro hall
    induction events using List.reverseRecOn with
    | nil => exact Nat.zero_le 1
    | append_singleton events e ih =>
      obtain ⟨hopen, allowed, -, -⟩ := Course.open_append.mp ho
      rw [← moment_scene] at allowed
      have hbefore := ih hopen fun before x later hevents hnews =>
        hall before x (later ++ [e]) (by rw [hevents, List.append_assoc]; rfl) hnews
      rw [outcomesOf_told_snoc ho, List.length_append]
      by_cases hnews : outcomesOf h ((scene events).moment.news e).toList = []
      · rw [hnews]
        exact hbefore
      · -- an outcome is told of a handler that is live, so all that was told before is pending
        have hpending := hall events e [] rfl hnews
        obtain ⟨t, ht⟩ := List.exists_mem_of_ne_nil _ hnews
        obtain ⟨hmem, rfl, hreport⟩ := mem_outcomesOf.mp ht
        rw [Option.mem_toList] at hmem
        have hlive := ((lawful_scene hopen).live_of_report allowed hmem hreport).1
        have hwhole := (accounts_scene hopen).whole t.handler (by
          rw [hlive]
          exact Phase.noConfusion)
        rw [hpending] at hwhole
        rw [hwhole.eq_nil, hmem, List.length_nil, Nat.zero_add]
        exact List.length_filter_le ..

/-- In every course, whatever listeners do and whether they panic: what was told of the outcomes of
a live handler are the outcomes whose listeners have not returned, because they still run or were
cut short by a panic. If a listener returns from being told of an outcome, its handler is over, and
nothing is told of it any more. Until then whatever the screen reports to the handler is passed on
at once. So a listener hears of one outcome at most, unless it is told of one while it has not
returned from another. -/
theorem one_outcome_iff (ho : Course.Open (fun _ _ => True) {} events) (h : HandlerId) :
    (scene events).moment = events.foldl Moment.after {} ∧
    ((scene events).moment.world.board.phase h = .live →
      (outcomesOf h (scene events).moment.world.board.told).Perm
        (outcomesOf h (scene events).pending)) ∧
    (∀ t rest, (scene events).calls = t :: rest → t.handler = h →
      t.notice.topic.isReport = true →
      ((scene events).moment.after (.reply true)).world.board.phase h = .unregistered ∧
      ∀ later, Course.Open (fun _ _ => True) ((scene events).moment.after (.reply true)) later →
        (later.foldl Moment.after
          ((scene events).moment.after (.reply true))).world.board.heard h =
            ((scene events).moment.after (.reply true)).world.board.heard h) ∧
    (∀ d o n, (scene events).moment.world.board.phase h = .live →
      (scene events).moment.world.board.refersTo h = true →
      (h, o) ∈ Deed.reports (scene events).moment.world.board d →
      n ∈ ((scene events).moment.world.board.story h).hears o →
        (scene events).moment.news (.deed d) = some ⟨h, n⟩) ∧
    ((outcomesOf h (scene events).moment.world.board.told).length ≤ 1 ↔
      ∀ before e later, events = before ++ e :: later →
        outcomesOf h ((scene before).moment.news e).toList ≠ [] →
          outcomesOf h (scene before).pending = []) := by
  have hm := lawful_scene ho
  have haccounts := accounts_scene ho
  obtain ⟨g, hsound⟩ := hm.sound
  refine ⟨moment_scene events, fun hl => haccounts.whole h (by rw [hl]; exact Phase.noConfusion),
    fun t rest hc hh hr => ?_, fun d o n => news_of_report hsound.jobs,
    outcomes_le_one_iff ho h⟩
  subst hh
  have hover := haccounts.ended_of_return hc hr
  have allowed : (scene events).moment.Allows (.reply true) := fun hno => by
    have hattends := haccounts.attends
    rw [Moment.Attends, hc, hno] at hattends
    cases hattends
  refine ⟨hover, fun later => (hm.after allowed).silent ?_ hover⟩
  refine Nat.lt_of_lt_of_le ?_ (hm.tells allowed).1.length
  by_contra hge
  have hsilent : (scene events).moment.world.board.heard t.handler = [] :=
    hsound.notices.silent _ (by rw [handler_of_le (Nat.le_of_not_lt hge)]; rfl)
  have hnone := outcomesOf_of_silent haccounts.told hsilent
  have hpending : t ∈ (scene events).pending := by
    rw [Scene.pending, hc]
    exact List.mem_cons_self
  exact absurd (mem_outcomesOf.mpr ⟨hpending, rfl, hr⟩) (hnone ▸ List.not_mem_nil)

/-- An alert whose text can be clicked is shown and goes live. -/
def clickable : List Event :=
  [.deed (.setUp {} { supported := true, identity := .ok "id" }),
    .deed (.showAlert 0 (Alert.asSource
      { cookie := "c", name := "a", title := "t", text := "x", textClickable := true, source := "",
        requireInteraction := false, actions := [], imageUrl := "" }) (some 0)),
    .deed (.advance 0), .deed (.finish 0), .reply true]

/-- It is clicked, and clicked again while its listener is being told. -/
def clickedMeanwhile : List Event :=
  clickable ++ [.deed (.emit "a" (.activated none)), .deed (.emit "a" (.activated none))]

/-- It is clicked, its listener panics, and it is clicked again. -/
def clickedAgain : List Event :=
  clickable ++ [.deed (.emit "a" (.activated none)), .reply false,
    .deed (.emit "a" (.activated none))]

/-- Either way its listener is told of two outcomes, so it is not true that it hears of one at
most. -/
theorem two_outcomes_told :
    (∃ m, FreeCourse m ∧ (outcomesOf 0 m.world.board.told).length = 2 ∧
      m = clickedMeanwhile.foldl Moment.after {}) ∧
    (∃ m, FreeCourse m ∧ (outcomesOf 0 m.world.board.told).length = 2 ∧
      m = clickedAgain.foldl Moment.after {}) ∧
    ¬∀ m, FreeCourse m → ∀ h, (outcomesOf h m.world.board.told).length ≤ 1 := by
  have hmeanwhile : FreeCourse (clickedMeanwhile.foldl Moment.after {}) := by
    refine Course.start.follow ⟨trivial, trivial, List.mem_cons_self, trivial, trivial, trivial,
      trivial, trivial, List.cons_ne_nil _ _, trivial, trivial, trivial, trivial, trivial, trivial⟩
  have hagain : FreeCourse (clickedAgain.foldl Moment.after {}) := by
    refine Course.start.follow ⟨trivial, trivial, List.mem_cons_self, trivial, trivial, trivial,
      trivial, trivial, List.cons_ne_nil _ _, trivial, trivial, trivial, List.cons_ne_nil _ _,
      trivial, trivial, trivial, trivial⟩
  refine ⟨⟨_, hmeanwhile, rfl, rfl⟩, ⟨_, hagain, rfl, rfl⟩, fun hall => ?_⟩
  have htwo : (outcomesOf 0 (clickedMeanwhile.foldl Moment.after {}).world.board.told).length = 2 :=
    rfl
  have hone := hall _ hmeanwhile 0
  omega

/-- The second click is told while the first one is pending. -/
theorem one_outcome_iff_meanwhile : Course.Open (fun _ _ => True) {} clickedMeanwhile ∧
    (scene clickedMeanwhile).moment.world.board.phase 0 = .live ∧
    (outcomesOf 0 (scene clickedMeanwhile).moment.world.board.told).Perm
      (outcomesOf 0 (scene clickedMeanwhile).pending) ∧
    (∃ before e later, clickedMeanwhile = before ++ e :: later ∧
      outcomesOf 0 ((scene before).moment.news e).toList ≠ [] ∧
      outcomesOf 0 (scene before).pending ≠ []) ∧
    ((scene clickedMeanwhile).moment.after (.reply true)).world.board.phase 0 = .unregistered := by
  have hopen : Course.Open (fun _ _ => True) {} clickedMeanwhile :=
    ⟨trivial, trivial, List.mem_cons_self, trivial, trivial, trivial, trivial, trivial,
      List.cons_ne_nil _ _, trivial, trivial, trivial, trivial, trivial, trivial⟩
  obtain ⟨-, hwhole, hends, -, hiff⟩ := one_outcome_iff hopen 0
  refine ⟨hopen, rfl, hwhole rfl, ?_, (hends _ _ rfl rfl rfl).1⟩
  by_contra hno
  have hle := hiff.mpr fun before e later hevents hnews => by
    by_contra hpending
    exact hno ⟨before, e, later, hevents, hnews, hpending⟩
  exact absurd hle (by decide)

end ToastBoard
