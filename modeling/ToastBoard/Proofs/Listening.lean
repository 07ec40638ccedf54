import ToastBoard.Proofs.Deeds

/-!
# What listeners hear

Main statement: the notices about a handler come in order, first that it is shown, then clicks and
buttons, then that it is finished; its listener hears that it is shown in the very event in which it
becomes live, and that it is finished in the very event in which it ends after having been live; a
handler that ends before tells nobody anything.
-/

namespace ToastBoard

namespace Phase.Hears

variable {p q : Phase} {topics new : List Topic}

/-- A report is a click or a button. -/
theorem isReport_iff {t : Topic} : t.isReport = true ↔ t = .clicked ∨ t = .actionTaken := by
  cases t <;> simp [Topic.isReport]

/-- What was heard by any phase is the beginning of what can be heard. -/
theorem isPrefix (h : p.Hears topics) : ∃ reports : List Topic,
    (∀ t ∈ reports, t = .clicked ∨ t = .actionTaken) ∧
      topics <+: .shown :: (reports ++ [.finished]) := by
  have hnil : topics = [] → ∃ reports : List Topic,
      (∀ t ∈ reports, t = .clicked ∨ t = .actionTaken) ∧
        topics <+: .shown :: (reports ++ [.finished]) := by
    rintro rfl
    exact ⟨[], fun _ ht => absurd ht List.not_mem_nil, List.nil_prefix⟩
  cases p with
  | live =>
    obtain ⟨reports, rfl, hr⟩ := h
    exact ⟨reports, fun t ht => isReport_iff.mp (hr t ht), ⟨[.finished], rfl⟩⟩
  | unregistered =>
    rcases h with h | ⟨reports, rfl, hr⟩
    · exact hnil h
    · exact ⟨reports, fun t ht => isReport_iff.mp (hr t ht), List.prefix_rfl⟩
  | created => exact hnil h
  | initializing => exact hnil h
  | initFailed => exact hnil h

/-- At most one topic heard from scratch: becoming live is what makes the difference. -/
theorem first (h : q.Hears new) (hn : new.length ≤ 1) :
    (q = .live ∧ new = [.shown]) ∨ (q ≠ .live ∧ new = []) := by
  cases q with
  | live =>
    obtain ⟨reports, rfl, -⟩ := h
    have hr : reports = [] := List.eq_nil_of_length_eq_zero (by simpa using hn)
    exact .inl ⟨rfl, by rw [hr]⟩
  | unregistered =>
    rcases h with h | ⟨reports, rfl, -⟩
    · exact .inr ⟨Phase.noConfusion, h⟩
    · simp at hn
  | created => exact .inr ⟨Phase.noConfusion, h⟩
  | initializing => exact .inr ⟨Phase.noConfusion, h⟩
  | initFailed => exact .inr ⟨Phase.noConfusion, h⟩

/-- A list that goes on by one member at most and ends with a certain one has ended so before, or
goes on by that one. -/
theorem eq_concat_of_short {α : Type} {l later new : List α} {a : α} (hn : new.length ≤ 1)
    (he : l ++ new = later ++ [a]) : new = [] ∧ l = later ++ [a] ∨ new = [a] ∧ l = later := by
  cases new with
  | nil => exact .inl ⟨rfl, (List.append_nil l).symm.trans he⟩
  | cons t rest =>
    have hrest : rest = [] := List.eq_nil_of_length_eq_zero (by simpa using hn)
    subst hrest
    exact .inr (List.append_inj' he rfl).symm

/-- Whoever goes on being live hears nothing but reports. -/
theorem reports_of_live (h : Phase.live.Hears topics) (h' : Phase.live.Hears (topics ++ new)) :
    ∀ t ∈ new, t.isReport = true := by
  obtain ⟨reports, rfl, -⟩ := h
  obtain ⟨later, he, hlater⟩ := h'
  have heq : reports ++ new = later := (List.cons.inj he).2
  exact fun t ht => hlater t (heq ▸ List.mem_append_right _ ht)

/-- Whoever ends after having been live hears of the end. -/
theorem finished_of_live (h : Phase.live.Hears topics)
    (h' : Phase.unregistered.Hears (topics ++ new)) (hn : new.length ≤ 1) : new = [.finished] := by
  obtain ⟨reports, rfl, hr⟩ := h
  rcases h' with h' | ⟨later, he, -⟩
  · cases h'
  · rcases eq_concat_of_short hn (List.cons.inj he).2 with ⟨-, hl⟩ | ⟨hnew, -⟩
    · have hm : Topic.finished ∈ reports := hl ▸ List.mem_append_right _ List.mem_cons_self
      exact Bool.noConfusion (hr _ hm)
    · exact hnew

/-- Whoever has heard of the end hears nothing more. -/
theorem nil_of_finished {reports : List Topic}
    (h' : Phase.unregistered.Hears (.shown :: (reports ++ [.finished]) ++ new))
    (hn : new.length ≤ 1) : new = [] := by
  rcases h' with h' | ⟨later, he, hlater⟩
  · cases h'
  · rcases eq_concat_of_short hn (List.cons.inj he).2 with ⟨hnil, -⟩ | ⟨-, hl⟩
    · exact hnil
    · have hm : Topic.finished ∈ later := hl ▸ List.mem_append_right _ List.mem_cons_self
      exact Bool.noConfusion (hlater _ hm)

/-- What is heard in one event is told by the phases before and after it. -/
theorem next (h : p.Hears topics) (h' : q.Hears (topics ++ new)) (hl : p.LeadsTo q)
    (hn : new.length ≤ 1) : (new = [.shown] ↔ p ≠ .live ∧ q = .live) ∧
      (new = [.finished] ↔ p = .live ∧ q = .unregistered) ∧ (p ≠ .live → q ≠ .live → new = []) := by
  have hquiet : p ≠ .live → topics = [] → (new = [.shown] ↔ p ≠ .live ∧ q = .live) ∧
      (new = [.finished] ↔ p = .live ∧ q = .unregistered) ∧
        (p ≠ .live → q ≠ .live → new = []) := by
    rintro hp rfl
    rcases first h' hn with ⟨hq, rfl⟩ | ⟨hq, rfl⟩
    · simp [hp, hq]
    · simp [hp, hq]
  by_cases hp : p = .live
  · subst hp
    rcases hl.of_live with rfl | rfl
    · have hnew := reports_of_live h h'
      refine ⟨⟨?_, fun hc => absurd rfl hc.1⟩, ⟨?_, fun hc => Phase.noConfusion hc.2⟩,
        fun hc => absurd rfl hc⟩
      · rintro rfl
        exact Bool.noConfusion (hnew _ List.mem_cons_self)
      · rintro rfl
        exact Bool.noConfusion (hnew _ List.mem_cons_self)
    · rw [finished_of_live h h' hn]
      simp
  · by_cases hu : p = .unregistered
    · subst hu
      rcases h with rfl | ⟨reports, rfl, -⟩
      · exact hquiet hp rfl
      · obtain rfl := hl.eq_unregistered
        rw [nil_of_finished h' hn]
        simp
    · exact hquiet hp (h.eq_nil hp hu)

end Phase.Hears

open Board

variable {m : Moment} {e : Event} {h : HandlerId}

/-- An event starts on the board from before it. -/
theorem board_onset (m : Moment) (e : Event) : (Law.onset m e).board = m.world.board := by
  cases e with
  | deed d => exact Deed.board_start d m.world
  | reply returned => rfl

/-- What the listener of a handler hears while one thing is told at most. -/
theorem Board.Sound.news {b b' : Board} {T T' : Terms} (hb : b.Sound false {} T)
    (hb' : b'.Sound false {} T') (ho : b.Onward b') {x : Option Telling}
    (ht : b'.told = b.told ++ x.toList) (hl : (b.handler h).listener ≠ none) :
    ∃ news : List Notice, b'.heard h = b.heard h ++ news ∧ news.length ≤ 1 ∧
      (news.map (·.topic) = [.shown] ↔ b.phase h ≠ .live ∧ b'.phase h = .live) ∧
      (news.map (·.topic) = [.finished] ↔ b.phase h = .live ∧ b'.phase h = .unregistered) ∧
      (b.phase h ≠ .live → b'.phase h ≠ .live → news = []) := by
  obtain ⟨l, hlistener⟩ := Option.ne_none_iff_exists'.mp hl
  have hlt := lt_of_listener hlistener
  obtain ⟨news, hnews, hlen⟩ : ∃ news : List Notice,
      b'.heard h = b.heard h ++ news ∧ news.length ≤ 1 := by
    refine ⟨(x.toList.filter (·.handler = h)).map (·.notice), ?_, ?_⟩
    · rw [heard, heard, ht, List.filter_append, List.map_append]
    · rw [List.length_map]
      refine Nat.le_trans (List.length_filter_le _ _) ?_
      cases x <;> simp
  have hl' : (b'.handler h).listener ≠ none := by
    rw [ho.listener h hlt]
    exact hl
  have hcourse := hb.notices.course h hl
  have hcourse' := hb'.notices.course h hl'
  rw [hnews, List.map_append] at hcourse'
  obtain ⟨hshown, hfinished, hquiet⟩ :=
    hcourse.next hcourse' (ho.phase h hlt) (by rw [List.length_map]; exact hlen)
  exact ⟨news, hnews, hlen, hshown, hfinished, fun hp hq => List.map_eq_nil_iff.mp (hquiet hp hq)⟩

/-- While one thing is told at most, it is nothing of a handler that is live neither before nor
after. -/
theorem Board.Sound.hush {b b' : Board} {T T' : Terms} (hb : b.Sound false {} T)
    (hb' : b'.Sound false {} T') (ho : b.Onward b') {x : Option Telling}
    (ht : b'.told = b.told ++ x.toList) (hlt : h < b.handlers.length) (hp : b.phase h ≠ .live)
    (hp' : b'.phase h ≠ .live) : b'.heard h = b.heard h := by
  by_cases hl : (b.handler h).listener = none
  · rw [hb.notices.silent h hl, hb'.notices.silent h ((ho.listener h hlt).trans hl)]
  · obtain ⟨news, hnews, -, -, -, hquiet⟩ := hb.news hb' ho ht hl
    rw [hnews, hquiet hp hp', List.append_nil]

namespace Moment.Lawful

variable {first : Ledger}

/-- An event tells its news, and handlers move on. -/
theorem tells (hm : m.Lawful first) (allowed : m.Allows e) :
    m.world.board.Onward (m.after e).world.board ∧
      (m.after e).world.board.told = m.world.board.told ++ (m.news e).toList := by
  obtain ⟨-, -, honward, htold, -⟩ := governs_free.after hm allowed trivial
  rw [board_onset] at honward htold
  exact ⟨honward, htold⟩

/-- An event tells one thing at most, and handlers move on. -/
theorem turn (hm : m.Lawful first) (allowed : m.Allows e) :
    m.world.board.Onward (m.after e).world.board ∧
      ∃ x : Option Telling, (m.after e).world.board.told = m.world.board.told ++ x.toList :=
  ⟨(hm.tells allowed).1, _, (hm.tells allowed).2⟩

/-- However things go on, handlers move on. -/
theorem onward (hm : m.Lawful first) {events : List Event}
    (ho : Course.Open (fun _ _ => True) m events) :
    m.world.board.Onward (events.foldl Moment.after m).world.board := by
  induction events generalizing m with
  | nil => exact .refl _
  | cons e rest ih =>
    obtain ⟨allowed, -, hrest⟩ := ho
    exact (hm.turn allowed).1.trans (ih (hm.after allowed) hrest)

/-- What the listener of a handler hears in an event. -/
theorem news (hm : m.Lawful first) (allowed : m.Allows e)
    (hl : (m.world.board.handler h).listener ≠ none) : ∃ news : List Notice,
    (m.after e).world.board.heard h = m.world.board.heard h ++ news ∧ news.length ≤ 1 ∧
      (news.map (·.topic) = [.shown] ↔
        m.world.board.phase h ≠ .live ∧ (m.after e).world.board.phase h = .live) ∧
      (news.map (·.topic) = [.finished] ↔
        m.world.board.phase h = .live ∧ (m.after e).world.board.phase h = .unregistered) ∧
      (m.world.board.phase h ≠ .live → (m.after e).world.board.phase h ≠ .live → news = []) := by
  obtain ⟨honward, x, htold⟩ := hm.turn allowed
  obtain ⟨g, hbefore⟩ := hm.sound
  obtain ⟨g', hafter⟩ := (hm.after allowed).sound
  exact hbefore.news hafter honward htold hl

/-- What is told in an event is heard. -/
theorem heard_news (hm : m.Lawful first) (allowed : m.Allows e) {t : Telling}
    (ht : m.news e = some t) :
    (m.after e).world.board.heard t.handler = m.world.board.heard t.handler ++ [t.notice] := by
  rw [heard, (hm.tells allowed).2, ht, List.filter_append, List.map_append, heard]
  simp

/-- What is told in an event fits what becomes of the handler. -/
theorem fits (hm : m.Lawful first) (allowed : m.Allows e) {t : Telling}
    (ht : m.news e = some t) :
    (t.notice.topic = .shown ∧ m.world.board.phase t.handler ≠ .live ∧
      (m.after e).world.board.phase t.handler = .live) ∨
    (t.notice.topic.isReport = true ∧ m.world.board.phase t.handler = .live ∧
      (m.after e).world.board.phase t.handler = .live) ∨
    (t.notice.topic = .finished ∧ m.world.board.phase t.handler = .live ∧
      (m.after e).world.board.phase t.handler = .unregistered) := by
  have hheard := hm.heard_news allowed ht
  obtain ⟨honward, -⟩ := hm.tells allowed
  obtain ⟨g, hbefore⟩ := hm.sound
  obtain ⟨g', hafter⟩ := (hm.after allowed).sound
  by_cases hl : (m.world.board.handler t.handler).listener = none
  · -- whoever had no listener was not made yet, so this is the first thing that is told
    rw [hbefore.notices.silent _ hl, List.nil_append] at hheard
    have hl' : ((m.after e).world.board.handler t.handler).listener ≠ none := fun hno => by
      rw [hafter.notices.silent _ hno] at hheard
      cases hheard
    have hcourse := hafter.notices.course _ hl'
    rw [hheard] at hcourse
    rcases hcourse.first (Nat.le_refl 1) with ⟨hlive, hfirst⟩ | ⟨-, hnone⟩
    · refine .inl ⟨(List.cons.inj hfirst).1, fun hp => hl' ?_, hlive⟩
      exact (honward.listener _ (lt_of_phase_ne (by rw [hp]; exact Phase.noConfusion))).trans hl
    · cases hnone
  · obtain ⟨news, hnews, -, hbegins, hends, hquiet⟩ := hm.news allowed hl
    obtain rfl : news = [t.notice] := List.append_cancel_left (hnews.symm.trans hheard)
    have hlt : t.handler < m.world.board.handlers.length := by
      obtain ⟨l, hlistener⟩ := Option.ne_none_iff_exists'.mp hl
      exact lt_of_listener hlistener
    simp only [List.map_cons, List.map_nil, List.cons.injEq, and_true] at hbegins hends
    by_cases hp : m.world.board.phase t.handler = .live
    · have hleads := honward.phase t.handler hlt
      rw [hp] at hleads
      rcases hleads.of_live with hq | hq
      · refine .inr (.inl ⟨?_, hp, hq⟩)
        cases htopic : t.notice.topic with
        | shown => exact absurd hp (hbegins.mp htopic).1
        | finished => exact absurd (hq.symm.trans (hends.mp htopic).2) Phase.noConfusion
        | clicked => rfl
        | actionTaken => rfl
      · exact .inr (.inr ⟨hends.mpr ⟨hp, hq⟩, hp, hq⟩)
    · by_cases hq : (m.after e).world.board.phase t.handler = .live
      · exact .inl ⟨hbegins.mpr ⟨hp, hq⟩, hp, hq⟩
      · cases hquiet hp hq

/-- A handler that is over tells nobody anything any more. -/
theorem silent (hm : m.Lawful first) (hlt : h < m.world.board.handlers.length)
    (hp : m.world.board.phase h = .unregistered) {events : List Event}
    (ho : Course.Open (fun _ _ => True) m events) :
    (events.foldl Moment.after m).world.board.heard h = m.world.board.heard h := by
  induction events generalizing m with
  | nil => rfl
  | cons e rest ih =>
    obtain ⟨allowed, -, hrest⟩ := ho
    obtain ⟨honward, x, htold⟩ := hm.turn allowed
    obtain ⟨g, hbefore⟩ := hm.sound
    obtain ⟨g', hafter⟩ := (hm.after allowed).sound
    have hover := honward.over hlt hp
    have hlater := ih (hm.after allowed) (Nat.lt_of_lt_of_le hlt honward.length) hover hrest
    exact hlater.trans (hbefore.hush hafter honward htold hlt (by rw [hp]; exact Phase.noConfusion)
      (by rw [hover]; exact Phase.noConfusion))

end Moment.Lawful

/-- What the listener of a handler hears in an event of a course. -/
theorem news_of_event (course : FreeCourse m) (allowed : m.Allows e)
    (hl : (m.world.board.handler h).listener ≠ none) : ∃ news : List Notice,
    (m.after e).world.board.heard h = m.world.board.heard h ++ news ∧ news.length ≤ 1 ∧
      (news.map (·.topic) = [.shown] ↔
        m.world.board.phase h ≠ .live ∧ (m.after e).world.board.phase h = .live) ∧
      (news.map (·.topic) = [.finished] ↔
        m.world.board.phase h = .live ∧ (m.after e).world.board.phase h = .unregistered) ∧
      (m.world.board.phase h ≠ .live → (m.after e).world.board.phase h ≠ .live → news = []) :=
  (lawful_of_freeCourse course).news allowed hl

/-- A handler that is over tells nobody anything any more. -/
theorem silent_after_end (course : FreeCourse m) (hlt : h < m.world.board.handlers.length)
    (hp : m.world.board.phase h = .unregistered) {events : List Event}
    (ho : Course.Open (fun _ _ => True) m events) :
    (events.foldl Moment.after m).world.board.heard h = m.world.board.heard h :=
  (lawful_of_freeCourse course).silent hlt hp ho

/-- At every moment of any course, what the listener of a handler has heard is the beginning of: one
notice that it is shown, clicks and buttons, one notice that it is finished. Each notice carries the
cookie of the alert, clicks are told only of alerts that ask for them, and actions are those that
the screen has reported to this handler and come with buttons only. In any event the listener hears
that it is shown exactly if it becomes live, and that it is finished exactly if it was live and is
over; a handler that is over without having been live has told nothing, and who is over stays
silent. -/
theorem listeners_hear_in_order (course : FreeCourse m) (h : HandlerId) :
    (∃ reports : List Topic, (∀ t ∈ reports, t = .clicked ∨ t = .actionTaken) ∧
      (m.world.board.heard h).map (·.topic) <+: .shown :: (reports ++ [.finished])) ∧
    (∀ n ∈ m.world.board.heard h, n.cookie = (m.world.board.handler h).fields.cookie ∧
      (n.topic = .clicked → (m.world.board.handler h).fields.textClickable = true ∧
        (h, .activated none) ∈ m.world.reported) ∧
      (n.action.isSome = true ↔ n.topic = .actionTaken) ∧
      ∀ a, n.action = some a → (h, .activated (some a)) ∈ m.world.reported) ∧
    ((m.world.board.handler h).listener ≠ none → ∀ e, m.Allows e → ∃ news : List Notice,
      (m.after e).world.board.heard h = m.world.board.heard h ++ news ∧ news.length ≤ 1 ∧
      (news.map (·.topic) = [.shown] ↔
        m.world.board.phase h ≠ .live ∧ (m.after e).world.board.phase h = .live) ∧
      (news.map (·.topic) = [.finished] ↔
        m.world.board.phase h = .live ∧ (m.after e).world.board.phase h = .unregistered) ∧
      (m.world.board.phase h ≠ .live → m.world.board.phase h ≠ .unregistered →
        (m.after e).world.board.phase h = .unregistered →
        (m.after e).world.board.heard h = [])) ∧
    (h < m.world.board.handlers.length → m.world.board.phase h = .unregistered →
      ∀ events, Course.Open (fun _ _ => True) m events →
        (events.foldl Moment.after m).world.board.heard h = m.world.board.heard h) := by
  obtain ⟨g, hsound⟩ := sound_of_freeCourse course
  have hnotices := hsound.notices
  refine ⟨?_, ?_, ?_, fun hlt hp events ho => silent_after_end course hlt hp ho⟩
  · by_cases hl : (m.world.board.handler h).listener = none
    · rw [hnotices.silent h hl]
      exact ⟨[], fun _ ht => absurd ht List.not_mem_nil, List.nil_prefix⟩
    · exact (hnotices.course h hl).isPrefix
  · intro n hn
    have hfaithful := hnotices.faithful h n hn
    refine ⟨hfaithful.cookie, hfaithful.clicked, ⟨?_, ?_⟩, ?_⟩
    · intro hsome
      by_contra ht
      rw [hfaithful.plain ht] at hsome
      cases hsome
    · intro ht
      obtain ⟨a, ha, -⟩ := hfaithful.button ht
      rw [ha]
      rfl
    · intro a ha
      by_cases ht : n.topic = .actionTaken
      · obtain ⟨a', ha', hr⟩ := hfaithful.button ht
        rw [ha] at ha'
        rw [Option.some.inj ha']
        exact hr
      · rw [hfaithful.plain ht] at ha
        cases ha
  · intro hl e allowed
    obtain ⟨news, hnews, hlen, hshown, hfinished, hquiet⟩ := news_of_event course allowed hl
    refine ⟨news, hnews, hlen, hshown, hfinished, fun hp hu hq => ?_⟩
    have hnone := (hnotices.course h hl).eq_nil hp hu
    rw [hnews, hquiet hp (by rw [hq]; exact Phase.noConfusion), List.append_nil]
    exact List.map_eq_nil_iff.mp hnone

/-- An alert goes live, a button is pressed, and the listener panics when it hears of the end. -/
def buttonPressed : List Event :=
  [.deed (.setUp {} { supported := true, identity := .ok "id" }),
    .deed (.showAlert 0 (Alert.asSource
      { cookie := "c", name := "a", title := "t", text := "x", textClickable := false, source := "",
        requireInteraction := false, actions := [], imageUrl := "" }) (some 0)),
    .deed (.advance 0), .deed (.finish 0), .reply true,
    .deed (.emit "a" (.activated (some "go"))), .reply true, .reply false]

/-- Its listener has heard that the alert is shown, of the button, and that it is finished. -/
theorem listeners_hear_in_order_button : FreeCourse (buttonPressed.foldl Moment.after {}) ∧
    ((buttonPressed.foldl Moment.after {}).world.board.heard 0).map (·.topic) =
      [.shown, .actionTaken, .finished] ∧
    (∃ reports : List Topic, (∀ t ∈ reports, t = .clicked ∨ t = .actionTaken) ∧
      ((buttonPressed.foldl Moment.after {}).world.board.heard 0).map (·.topic) <+:
        .shown :: (reports ++ [.finished])) ∧
    ∀ n ∈ (buttonPressed.foldl Moment.after {}).world.board.heard 0, n.cookie = "c" ∧
      ∀ a, n.action = some a →
        (0, .activated (some a)) ∈ (buttonPressed.foldl Moment.after {}).world.reported := by
  have hcourse : FreeCourse (buttonPressed.foldl Moment.after {}) := by
    refine Course.start.follow ⟨trivial, trivial, List.mem_cons_self, trivial, trivial, trivial,
      trivial, trivial, List.cons_ne_nil _ _, trivial, trivial, trivial, List.cons_ne_nil _ _,
      trivial, List.cons_ne_nil _ _, trivial, trivial⟩
  have hall := listeners_hear_in_order hcourse 0
  exact ⟨hcourse, rfl, hall.1, fun n hn => ⟨(hall.2.1 n hn).1, (hall.2.1 n hn).2.2.2⟩⟩

end ToastBoard
