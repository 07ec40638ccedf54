import ToastBoard.Proofs.Contending

/-!
# The newest one stays

Main statement: when all calls that show alerts of one name have returned and the worker has done
what was left to do, the handler that came under the name last is there and live, one toast of the
name is to be seen, and every other handler of the name is over, unless the handler that displaced
it was overtaken: ended by the call of a third one before its own call had submitted it. Then that
call has returned an error and has let go of the handler that it displaced, which is live and not in
the table. So the calls do what they are to do exactly if no handler was overtaken.
-/

namespace ToastBoard

open Board

namespace Board

variable {b : Board} {h : HandlerId} {r : RegistryId} {c : CoordinatorId}

/-- If there is one coordinator, then its registry is the only one that anybody owns. -/
theorem Books.sole {holders : List HandlerId} (hb : b.Books holders [] [c])
    (hr : 0 < (b.registry r).owners) : r = (b.coordinator c).registry := by
  have hcount := hb.owned r
  rw [List.count_nil, Nat.zero_add] at hcount
  obtain ⟨co, hco, rfl⟩ := List.mem_map.mp (List.count_pos_iff.mp (hcount ▸ hr))
  obtain ⟨hm, hpos⟩ := List.mem_filter.mp hco
  obtain ⟨d, -, hd⟩ := exists_getD_of_mem
    { registry := b.registries.length, station := b.stations.length, owners := 0 } hm
  have howners := hb.mastered d
  rw [coordinator, hd] at howners
  have hone : d ∈ [c] := List.count_pos_iff.mp (howners ▸ of_decide_eq_true hpos)
  rw [← List.mem_singleton.mp hone, coordinator, hd]

end Board

namespace Contest

variable {co : Coordinator} {name : String} {t : Contest} {b : Board}

/-- What is left of the calls once they have all returned and the worker has nothing left to do. -/
structure Outcome (co : Coordinator) (name : String) (t : Contest) (b : Board) : Prop where
  /-- The worker has nothing left to do. -/
  idle : b.isIdle co.station = true
  /-- Each call has returned once. -/
  once : (t.answers.map (·.1)).Nodup
  /-- It has returned an error exactly if its handler was overtaken. -/
  answers : ∀ {h r}, (h, r) ∈ t.answers ↔ h ∈ t.newer ∧ r = t.verdict name h
  /-- The newest handler is current. -/
  current : b.current? co.registry name = t.line.head?
  /-- It is live. -/
  newest : ∀ h ∈ t.line.head?, b.phase h = .live
  /-- A displaced handler is over, unless the one that displaced it was overtaken. -/
  displaced : ∀ {q p}, [q, p] <:+: t.line →
    b.phase p = if q ∈ t.overtaken then .live else .unregistered
  /-- Any other handler of the name is over. -/
  others : ∀ h < b.handlers.length, (b.handler h).name = name →
    h ∈ t.line ∨ b.phase h = .unregistered
  /-- The listener of a live handler has heard that it is shown. -/
  shown : ∀ h, b.phase h = .live → (b.handler h).listener ≠ none →
    (b.heard h).map (·.topic) = [.shown]
  /-- The listener of a handler that is over has heard nothing or that it was shown and finished. -/
  finished : ∀ h, b.phase h = .unregistered → (b.handler h).listener ≠ none →
    (b.heard h).map (·.topic) = [] ∨ (b.heard h).map (·.topic) = [.shown, .finished]
  /-- There is one toast of the name to be seen. -/
  seen : ∃! toast, toast ∈ b.screen.toasts ∧ toast.name = name ∧ toast.releases = 0

/-- What the calls are to come to: each of them succeeds, the newest handler is current and live,
all others of the name are over, with their listeners told so if they were told of the beginning,
and there is one toast of the name to be seen. -/
structure LeavesOne (co : Coordinator) (name : String) (t : Contest) (b : Board) : Prop where
  /-- Each call succeeds. -/
  accepted : ∀ h ∈ t.newer, (h, .ok ()) ∈ t.answers
  /-- The newest handler is current and live. -/
  newest : ∃ h, t.line.head? = some h ∧ b.current? co.registry name = some h ∧ b.phase h = .live
  /-- All others are over. -/
  rest : ∀ h < b.handlers.length, (b.handler h).name = name → t.line.head? ≠ some h →
    b.phase h = .unregistered
  /-- Whose listener was told of the beginning, it was told of the end. -/
  finished : ∀ h < b.handlers.length, (b.handler h).name = name → t.line.head? ≠ some h →
    (b.handler h).listener ≠ none → .shown ∈ (b.heard h).map (·.topic) →
    (b.heard h).map (·.topic) = [.shown, .finished]
  /-- There is one toast of the name to be seen. -/
  seen : ∃! toast, toast ∈ b.screen.toasts ∧ toast.name = name ∧ toast.releases = 0

/-- If nobody holds it, a live handler that exists stands in the table under its name. -/
theorem Fair.current_of_live (hf : t.Fair co name) (hs : b.Sound false {} founded)
    (ht : t.board.Toils b) {h : HandlerId} (hname : (b.handler h).name = name)
    (hp : b.phase h = .live) (hr : b.refersTo h = true) :
    b.current? co.registry name = some h := by
  have hplaced := hf.kept.placed
  have htable : b.registry co.registry = t.board.registry co.registry :=
    registry_of_registries ht.registries _
  rcases refersTo_iff.mp hr with hm | ⟨r, hm⟩ | hbusy
  · exact absurd (hs.books.held.mem_iff.mp hm) List.not_mem_nil
  · obtain ⟨key, he⟩ := Registry.mem_handlers.mp hm
    have hpos : 0 < (b.registry r).owners := by
      refine Nat.pos_of_ne_zero fun h0 => ?_
      rw [hs.books.vacant r h0] at he
      cases he
    have hsole : r = co.registry :=
      (hs.books.sole hpos).trans (hs.books.sole (htable ▸ hplaced.owned)).symm
    rw [hsole, htable] at he
    have hhome := hplaced.home h (hplaced.current (Registry.mem_handlers.mpr ⟨key, he⟩))
    have hkey : key = name := by
      rw [← hplaced.named he, ← (ht.onward.home hhome).2]
      exact hname
    rw [current?, htable, ← hkey]
    exact (Registry.mem_entries_iff hplaced.single).mp he
  · refine absurd hbusy (hs.jobs.not_busy ?_ ?_)
    · rw [hp]
      exact Phase.noConfusion
    · rw [hp]
      exact Phase.noConfusion

/-- One toast of the name is to be seen if the handler under the name is live. -/
theorem Fair.seen (hf : t.Fair co name) (hs : b.Sound false {} founded) (ht : t.board.Toils b)
    {h : HandlerId} (hcurrent : b.current? co.registry name = some h) (hp : b.phase h = .live) :
    ∃! toast, toast ∈ b.screen.toasts ∧ toast.name = name ∧ toast.releases = 0 := by
  have hentry := (Registry.mem_entries_iff (hs.tables _)).mpr hcurrent
  have htable : b.registry co.registry = t.board.registry co.registry :=
    registry_of_registries ht.registries _
  have hname : (b.handler h).name = name := by
    rw [current?, htable] at hcurrent
    have hold := hf.kept.placed.under hcurrent
    rw [(ht.onward.home (hf.kept.placed.home h hold.1)).2]
    exact hold.2
  obtain ⟨id, hid⟩ := Option.ne_none_iff_exists'.mp
    (hs.toasts.standing hp (refersTo_of_entry _ name hentry))
  obtain ⟨toast, hm, rfl, h0, hshows⟩ := hs.toasts.shown hid
  refine ⟨toast, ⟨hm, hshows.name.trans hname, h0⟩, ?_⟩
  rintro other ⟨hother, hothername, hother0⟩
  obtain ⟨g, ⟨href, hlive, hreg⟩, -⟩ := (hs.unreleased_iff hother).mp hother0
  obtain ⟨toast', hm', hid', -, hshows'⟩ := hs.toasts.shown hreg
  rw [hs.toasts.eq_of_id hm' hother hid'] at hshows'
  have hcurrent' := hf.current_of_live hs ht (hshows'.name.symm.trans hothername) hlive href
  rw [hcurrent] at hcurrent'
  rw [← Option.some.inj hcurrent', hid] at hreg
  exact hs.toasts.eq_of_id hother hm (Option.some.inj hreg).symm

/-- A call that was refused is one whose handler was overtaken. -/
theorem Judged.overtaken (hj : t.Judged name) {h : HandlerId} {e : Failure}
    (he : (h, .error e) ∈ t.answers) : h ∈ t.overtaken := by
  by_contra hh
  have hrefused := (hj.verdicts he).2
  rw [verdict, if_neg hh] at hrefused
  cases hrefused

/-- A call that was accepted is one whose handler was not overtaken. -/
theorem Judged.not_overtaken (hj : t.Judged name) {h : HandlerId}
    (hok : (h, .ok ()) ∈ t.answers) : h ∉ t.overtaken := by
  intro hh
  have haccepted := (hj.verdicts hok).2
  rw [verdict, if_pos hh] at haccepted
  cases haccepted

/-- Once all calls have returned, each new handler has its answer. -/
theorem Judged.answers_iff (hj : t.Judged name) (returned : t.calls = []) {h : HandlerId}
    {r : Except Failure Unit} : (h, r) ∈ t.answers ↔ h ∈ t.newer ∧ r = t.verdict name h := by
  refine ⟨hj.verdicts, ?_⟩
  rintro ⟨hn, hr⟩
  have hanswered := hj.answered h hn
  rw [returned] at hanswered
  rcases hanswered with hm | ⟨old, hc⟩
  · obtain ⟨a, ha, rfl⟩ := List.mem_map.mp hm
    rw [hr, ← (hj.verdicts ha).2]
    exact ha
  · cases hc

/-- Once all calls have returned, a displaced handler has been let go of if the one that displaced
it was overtaken, and is over otherwise. -/
theorem Fair.fate (hf : t.Fair co name) (returned : t.calls = []) {q p : HandlerId}
    (hqp : [q, p] <:+: t.line) : q ∈ t.overtaken ∧ p ∈ t.abandoned ∨
      q ∉ t.overtaken ∧ t.board.phase p = .unregistered := by
  have hfate := hf.fates hqp
  rw [Fate, returned] at hfate
  rcases hfate with hc | ⟨⟨e, he⟩, hc | hm⟩ | ⟨hok, hc | hp⟩
  · cases hc
  · cases hc
  · exact .inl ⟨hf.judged.overtaken he, hm⟩
  · cases hc
  · exact .inr ⟨hf.judged.not_overtaken hok, hp⟩

/-- Once all calls have returned, nobody is about to be submitted. -/
theorem Kept.begun (hk : t.Kept co name) (returned : t.calls = []) (x : HandlerId) :
    t.board.phase x ≠ .created := by
  intro hx
  have hsome := hk.unbegun x hx
  rw [returned] at hsome
  rcases hsome with hc | ⟨old, hc⟩ <;> cases hc

/-- When the calls have returned and the worker has nothing left to do, all follows from who was
overtaken. -/
theorem Fair.outcome (hf : t.Fair co name) (returned : t.calls = []) (someone : t.line ≠ []) :
    t.Outcome co name (t.board.flush co.station) := by
  have hk := hf.kept
  have hsound : t.board.Sound false {} founded := by
    have hs := hk.sound
    rwa [returned] at hs
  obtain ⟨hs, hsteady, ht, hidle⟩ := flushed hsound hk.steady
  have htable : (t.board.flush co.station).registry co.registry = t.board.registry co.registry :=
    registry_of_registries ht.registries _
  have hcurrent : (t.board.flush co.station).current? co.registry name = t.line.head? :=
    (congrArg (Registry.get? · name) htable).trans hk.entry
  have hlive : ∀ x ∈ t.places co, (t.board.flush co.station).phase x = .live := fun x hx =>
    (hsteady.final hidle fun hb => hk.begun returned x ((ht.unbegun x).mp hb)).resolve_right
      fun hu => hk.standing x hx ((ht.gone x).mp hu)
  have hnewest : ∀ h ∈ t.line.head?, (t.board.flush co.station).phase h = .live := by
    intro h hh
    rw [← hk.entry] at hh
    have he := (Registry.mem_entries_iff hk.placed.single).mpr hh
    exact hlive h (List.mem_append_left _ (Registry.mem_handlers.mpr ⟨name, he⟩))
  refine ⟨hidle, hf.judged.once, fun {h r} => hf.judged.answers_iff returned, hcurrent, hnewest,
    fun {q p} hqp => ?_, fun h hlt hname => ?_, fun h hp hl => hs.notices.shown hp hl,
    fun h hp hl => hs.notices.finished hp hl, ?_⟩
  · rcases hf.fate returned hqp with ⟨hq, hp⟩ | ⟨hq, hp⟩
    · rw [if_pos hq]
      exact hlive p (List.mem_append_right _ (List.mem_append_right _ hp))
    · rw [if_neg hq]
      exact (ht.gone p).mpr hp
  · have hlt' : h < t.board.handlers.length := ht.length ▸ hlt
    have hcovered := hk.covered h hlt' (by
      rw [Handler.name, ← ht.onward.fields h hlt']
      exact hname)
    rw [returned] at hcovered
    rcases hcovered with hm | hp | hc
    · exact .inl hm
    · exact .inr ((ht.gone h).mpr hp)
    · cases hc
  · obtain ⟨h, rest, hline⟩ := List.exists_cons_of_ne_nil someone
    have hhead : t.line.head? = some h := by
      rw [hline]
      rfl
    exact hf.seen hs ht (hcurrent.trans hhead) (hnewest h hhead)

/-- The calls come to what they are to come to exactly if nobody was overtaken. -/
theorem Outcome.leavesOne_iff (hb : t.Outcome co name b) (someone : t.line ≠ [])
    (known : ∀ h ∈ t.overtaken, h ∈ t.newer) : t.LeavesOne co name b ↔ t.overtaken = [] := by
  constructor
  · intro hone
    refine List.eq_nil_iff_forall_not_mem.mpr fun h hm => ?_
    have hverdict := (hb.answers.mp (hone.accepted h (known h hm))).2
    rw [verdict, if_pos hm] at hverdict
    cases hverdict
  · intro hnone
    obtain ⟨h, rest, hline⟩ := List.exists_cons_of_ne_nil someone
    have hhead : t.line.head? = some h := by
      rw [hline]
      rfl
    have hrest : ∀ x < b.handlers.length, (b.handler x).name = name → t.line.head? ≠ some x →
        b.phase x = .unregistered := by
      intro x hlt hname hne
      refine (hb.others x hlt hname).elim (fun hm => ?_) id
      obtain ⟨q, hqx⟩ := exists_before hm hne
      rw [hb.displaced hqx, hnone]
      rfl
    refine ⟨fun x hx => hb.answers.mpr ⟨hx, ?_⟩, ⟨h, hhead, hb.current.trans hhead,
      hb.newest h hhead⟩, hrest, fun x hlt hname hne hl hshown => ?_, hb.seen⟩
    · rw [verdict, hnone]
      rfl
    · refine (hb.finished x (hrest x hlt hname hne) hl).resolve_left fun hnothing => ?_
      rw [hnothing] at hshown
      cases hshown

/-- When all calls that show alerts of one name have returned and the worker has nothing left to do,
what has come of them follows from who was overtaken, and it is what they are to come to exactly if
nobody was. -/
theorem newest_stays (run : Run co name t) (returned : t.calls = []) (someone : t.line ≠ []) :
    t.Outcome co name (t.board.flush co.station) ∧
      (t.LeavesOne co name (t.board.flush co.station) ↔ t.overtaken = []) := by
  have hf := run.fair
  have houtcome := hf.outcome returned someone
  exact ⟨houtcome, houtcome.leavesOne_iff someone fun h hm => (hf.judged.ended h hm).1⟩

/-- What a coordinator with a live alert is asked for before others of its name are shown. -/
def before : List Beat := [.asked (greet "a" "x" 0), .worked, .worked]

/-- The board with that alert. -/
def manned : Board := before.foldl (beat 0) (fresh "ToastBgThread" (some "id"))

theorem run_manned : Run (manned.coordinator 0) "a" (opened (manned.coordinator 0) "a" manned) := by
  have hset : ({} : Board).setUp {} { supported := true, identity := .ok "id" } =
      (some ⟨.ok 0, Host.questions⟩, fresh "ToastBgThread" (some "id")) := rfl
  exact .start before hset rfl

/-- What some moves come to from there. -/
def upon (moves : List Move) : Contest :=
  moves.foldl (after (manned.coordinator 0)) (opened (manned.coordinator 0) "a" manned)

/-- A call to show an alert of the same name. -/
def another (listener : ListenerId) : Move :=
  .shown
    { cookie := "c", name := "a", title := "t", text := "y", textClickable := true, source := "",
      requireInteraction := false, actions := [], imageUrl := "" } (some listener)

/-- Two calls put their handlers under the name before either of them is submitted, and the handlers
are submitted in the order in which they came. -/
def inOrder : List Move :=
  [another 1, another 2, .next 1, .next 1, .next 1, .next 1, .next 0, .next 0, .worked, .next 0,
    .next 0]

/-- The three handlers end up as they should. -/
theorem newest_stays_inOrder : Run (manned.coordinator 0) "a" (upon inOrder) ∧
    (upon inOrder).calls = [] ∧ (upon inOrder).line = [2, 1, 0] ∧
    (upon inOrder).LeavesOne (manned.coordinator 0) "a" ((upon inOrder).board.flush 0) ∧
    ((upon inOrder).board.flush 0).phase 2 = .live := by
  have hrun : Run (manned.coordinator 0) "a" (upon inOrder) :=
    run_manned.follow (by simp [inOrder, another, Move.Names])
  have hline : (upon inOrder).line = [2, 1, 0] := by decide +kernel
  have hsettled := newest_stays hrun (by decide +kernel) (by rw [hline]; exact List.cons_ne_nil _ _)
  exact ⟨hrun, by decide +kernel, hline, hsettled.2.mpr (by decide +kernel), by decide +kernel⟩

/-- The handler that came last is submitted first, and its call ends the one before, which then
cannot be submitted. -/
def outOfOrder : List Move :=
  [another 1, another 2, .next 1, .next 1, .next 0, .next 0, .next 1, .next 0, .next 0, .next 0,
    .next 0]

/-- One of the calls returns an error, and the handler that was there first stays live. -/
theorem call_fails_outOfOrder : Run (manned.coordinator 0) "a" (upon outOfOrder) ∧
    (upon outOfOrder).calls = [] ∧ (upon outOfOrder).line = [2, 1, 0] ∧
    (upon outOfOrder).answers.map (·.1) = [1, 2] ∧
    ((upon outOfOrder).answers.map fun a => a.2.toBool) = [false, true] ∧
    ((upon outOfOrder).board.flush 0).phase 0 = .live ∧
    ¬(upon outOfOrder).LeavesOne (manned.coordinator 0) "a" ((upon outOfOrder).board.flush 0) := by
  have hrun : Run (manned.coordinator 0) "a" (upon outOfOrder) :=
    run_manned.follow (by simp [outOfOrder, another, Move.Names])
  have hlive : ((upon outOfOrder).board.flush 0).phase 0 = .live := by decide +kernel
  refine ⟨hrun, by decide +kernel, by decide +kernel, by decide +kernel, by decide +kernel, hlive,
    fun hone => ?_⟩
  have hover := hone.rest 0 (by decide +kernel) (by decide +kernel) (by decide +kernel)
  rw [hlive] at hover
  cases hover

end Contest

end ToastBoard
