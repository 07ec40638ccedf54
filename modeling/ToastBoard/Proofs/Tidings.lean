import ToastBoard.Proofs.Plans

/-!
# What is told

While listeners only return, it can be said beforehand what they are going to be told. A live
handler that ends says farewell: its listener hears what the screen has reported, if that is why it
ends, and that it is finished. A handler that goes live says that it is shown. Each operation tells
the farewells of those who end by it and nothing else, and the screen goes on to point to the
handlers whose toasts it shows.
-/

namespace ToastBoard

open Board

/-- What became of a handler. -/
structure Story where
  /-- What was read from its alert. -/
  fields : Snapshot
  /-- Its listener. -/
  listener : Option ListenerId
  /-- Where it stands. -/
  phase : Phase
  /-- What its listener was told, oldest first. -/
  heard : List Notice
  deriving DecidableEq

/-- What a listener hears of an outcome that the screen reports. -/
def Snapshot.reports (fields : Snapshot) : Outcome → List Notice
  | .activated none =>
    if fields.textClickable then [{ topic := .clicked, cookie := fields.cookie }] else []
  | .activated (some action) =>
    [{ topic := .actionTaken, cookie := fields.cookie, action := some action }]
  | .dismissed => []
  | .failed _ => []

namespace Story

/-- What the listener hears of an outcome, if there is one. -/
def hears (s : Story) (outcome : Outcome) : List Notice :=
  if s.listener = none then [] else s.fields.reports outcome

/-- What the listener hears when the handler ends, perhaps because of an outcome. -/
def farewell (s : Story) (outcome : Option Outcome) : List Notice :=
  if s.phase = .live ∧ s.listener ≠ none then
    outcome.toList.flatMap s.fields.reports ++ [{ topic := .finished, cookie := s.fields.cookie }]
  else []

/-- The handler ends if it is live. -/
def ended (s : Story) (outcome : Option Outcome) : Story :=
  if s.phase = .live then
    { s with phase := .unregistered, heard := s.heard ++ s.farewell outcome }
  else s

/-- A handler that has just gone live. -/
def begun (fields : Snapshot) (listener : Option ListenerId) : Story where
  fields := fields
  listener := listener
  phase := .live
  heard := if listener = none then [] else [{ topic := .shown, cookie := fields.cookie }]

/-- A live handler that ends because of an outcome tells that first. -/
theorem farewell_some {s : Story} (hs : s.phase = .live) (outcome : Outcome) :
    s.farewell (some outcome) = s.hears outcome ++ s.farewell none := by
  by_cases hl : s.listener = none
  · simp [farewell, hears, hl]
  · simp [farewell, hears, hs, hl]

/-- Who is not live has nothing to say. -/
theorem farewell_of_over {s : Story} (hs : s.phase ≠ .live) (outcome : Option Outcome) :
    s.farewell outcome = [] := if_neg fun h => hs h.1

end Story

namespace Board

variable {a b c d : Board} {h x : HandlerId} {r : RegistryId} {s : StationId} {p : Plan}
  {news news' : List Telling}

/-- What became of a handler on a board. -/
def story (b : Board) (h : HandlerId) : Story where
  fields := (b.handler h).fields
  listener := (b.handler h).listener
  phase := b.phase h
  heard := b.heard h

/-- What is told when a handler ends, perhaps because of an outcome. -/
def farewell (b : Board) (outcome : Option Outcome) (h : HandlerId) : List Telling :=
  ((b.story h).farewell outcome).map fun notice => ⟨h, notice⟩

theorem farewell_none (b : Board) (h : HandlerId) : b.farewell none h = b.parting h := by
  unfold farewell Story.farewell parting
  change List.map _ (if b.phase h = .live ∧ (b.handler h).listener ≠ none then _ else _) = _
  split <;> rfl

/-- A farewell depends on the handler alone. -/
theorem farewell_congr (hc : c.handler h = b.handler h) (outcome : Option Outcome) :
    c.farewell outcome h = b.farewell outcome h := by
  change List.map _ (if (c.handler h).phase = .live ∧ (c.handler h).listener ≠ none then
    outcome.toList.flatMap (c.handler h).fields.reports ++
      [⟨.finished, (c.handler h).fields.cookie, none⟩] else []) = _
  rw [hc]
  rfl

/-- Only the listener of the handler that ends is told farewell. -/
theorem handler_of_farewell {outcome : Option Outcome} {t : Telling}
    (ht : t ∈ b.farewell outcome h) : t.handler = h := by
  obtain ⟨n, -, rfl⟩ := List.mem_map.mp ht
  rfl

/-- What is left out of a table does not matter for another key. -/
theorem lookup_filter_ne {α : Type} (l : List (Nat × α)) {i j : Nat} (hj : j ≠ i) :
    (l.filter fun e => e.1 ≠ i).lookup j = l.lookup j := by
  induction l with
  | nil => rfl
  | cons e l ih =>
    obtain ⟨k, v⟩ := e
    by_cases hk : k = i
    · have hne : (j == k) = false := by simpa using hk ▸ hj
      rw [List.filter_cons_of_neg (by simpa using hk), ih, List.lookup_cons, hne]
    · rw [List.filter_cons_of_pos (by simpa using hk), List.lookup_cons, List.lookup_cons, ih]

/-- The screen points to the handlers that have something to release. -/
structure Points (b : Board) : Prop where
  /-- Whoever has a toast to release is told about it. -/
  sink : ∀ {h id}, (b.handler h).registration = some id → b.screen.sinks.lookup id = some h
  /-- It points to somebody for toasts that were recorded. -/
  recorded : ∀ e ∈ b.screen.sinks, e.1 ≤ b.screen.toasts.length

namespace Points

/-- Nobody but handlers and the screen matters. -/
theorem same (hb : b.Points) (hh : c.handlers = b.handlers) (hs : c.screen = b.screen) :
    c.Points := by
  refine ⟨fun {x id} hx => ?_, ?_⟩
  · rw [handler, hh] at hx
    rw [hs]
    exact hb.sink hx
  · rw [hs]
    exact hb.recorded

/-- A handler changes that has nothing to release then. -/
theorem update (hb : b.Points) {f : Handler → Handler}
    (hf : (f (b.handler h)).registration = none ∨
      (f (b.handler h)).registration = (b.handler h).registration) : (b.update h f).Points := by
  refine ⟨fun {x id} hx => ?_, hb.recorded⟩
  rw [handler_update] at hx
  split at hx
  · rename_i hxh
    rw [hxh.1] at hx ⊢
    rcases hf with hf | hf
    · rw [hf] at hx
      cases hx
    · exact hb.sink (hf ▸ hx)
  · exact hb.sink hx

/-- A toast is withdrawn that nobody has to release. -/
theorem releaseToast (hb : b.Points) {toast : Option ToastId}
    (hn : ∀ id ∈ toast, ∀ x, (b.handler x).registration ≠ some id) :
    (b.releaseToast toast).Points := by
  cases toast with
  | none => exact hb
  | some id =>
    refine ⟨fun {x i} hx => ?_, fun e he => ?_⟩
    · rw [handler_releaseToast] at hx
      have hi : i ≠ id := fun hi => hn id rfl x (hi ▸ hx)
      exact (lookup_filter_ne _ hi).trans (hb.sink hx)
    · rw [toasts_releaseToast, List.length_map]
      exact hb.recorded e (List.mem_filter.mp he).1

/-- A handler withdraws its toast. -/
theorem withdraw (hb : b.Points) {f : Handler → Handler}
    (hf : (f (b.handler h)).registration = none) :
    ((b.update h f).releaseToast (b.handler h).registration).Points := by
  refine (hb.update (.inl hf)).releaseToast fun id hid x hx => ?_
  rw [handler_update] at hx
  split at hx
  · rename_i hxh
    rw [hxh.1, hf] at hx
    cases hx
  · rename_i hxh
    have hsame : x = h := Option.some.inj ((hb.sink hx).symm.trans (hb.sink hid))
    exact hxh ⟨hsame, lt_of_registration hid⟩

/-- It points to nobody for the next toast. -/
theorem unused (hb : b.Points) : b.screen.sinks.lookup (b.screen.toasts.length + 1) = none := by
  refine List.lookup_eq_none_iff.mpr fun e he => bne_iff_ne.mpr fun hid => ?_
  exact absurd (hid ▸ hb.recorded e he) (Nat.not_succ_le_self _)

/-- The attempt under way is over. -/
theorem resolved (hb : b.Points) (s : StationId) (h : HandlerId) : (b.resolved s h).Points := by
  have hsinks : (b.noted s h).screen.sinks =
      b.screen.sinks ++ [(b.screen.toasts.length + 1, h)] := rfl
  have hnoted : (b.noted s h).Points := by
    refine ⟨fun {x id} hx => ?_, fun e he => ?_⟩
    · rw [hsinks, List.lookup_append, hb.sink hx]
      rfl
    · have hlength : (b.noted s h).screen.toasts.length = b.screen.toasts.length + 1 :=
        List.length_append
      rw [hsinks] at he
      rw [hlength]
      rcases List.mem_append.mp he with he | he
      · exact Nat.le_succ_of_le (hb.recorded e he)
      · rw [List.mem_singleton.mp he]
  unfold Board.resolved
  split
  · refine hnoted.releaseToast fun id hid x hx => ?_
    have hold := hb.sink (h := x) (Option.some.inj hid ▸ hx)
    rw [hb.unused] at hold
    cases hold
  · refine ⟨fun {x id} hx => ?_, hnoted.recorded⟩
    change (b.noted s h).screen.sinks.lookup id = some x
    rw [live, handler_update] at hx
    split at hx
    · rename_i hxh
      rw [← Option.some.inj hx, hsinks, List.lookup_append, hb.unused, hxh.1]
      simp
    · exact hnoted.sink hx

end Points

/-- A change by which something is told, after which the screen still points to whom it has to. -/
structure Says (news : List Telling) (b c : Board) : Prop where
  /-- That is told, and nothing else. -/
  told : c.told = b.told ++ news
  /-- The screen points to whom it has to. -/
  points : b.Points → c.Points

namespace Says

theorem refl (b : Board) : Says [] b b := ⟨(List.append_nil _).symm, id⟩

/-- What is said in two steps is said in both. -/
theorem trans (h : Says news b c) (h' : Says news' c d) : Says (news ++ news') b d where
  told := by rw [h'.told, h.told, List.append_assoc]
  points hb := h'.points (h.points hb)

theorem silently (h : Says news b c) (h' : Says [] c d) : Says news b d :=
  List.append_nil news ▸ h.trans h'

theorem after (h : Says [] b c) (h' : Says news c d) : Says news b d := h.trans h'

end Says

/-- Nobody but handlers, the screen and what was told matters. -/
theorem says_of_handlers (hh : c.handlers = b.handlers) (hs : c.screen = b.screen)
    (ht : c.told = b.told ++ news) : Says news b c := ⟨ht, fun hb => hb.same hh hs⟩

/-- Ending a handler to which nothing refers says nothing. -/
theorem says_reap (h : HandlerId) : Says [] b (b.reap h) := by
  refine ⟨(sameButToasts_reap h).told.trans (List.append_nil _).symm, fun hb => ?_⟩
  unfold reap
  split
  · exact hb
  · exact hb.withdraw rfl

/-- Giving a handler back says nothing. -/
theorem says_letGo (h : HandlerId) : Says [] b (b.letGo h) :=
  Says.after (c := { b with held := b.held.erase h })
    (says_of_handlers rfl rfl (List.append_nil _).symm) (says_reap h)

/-- Giving some handlers back says nothing. -/
theorem says_letGoAll (hs : List HandlerId) : Says [] b (b.letGoAll hs) := by
  induction hs generalizing b with
  | nil => exact .refl b
  | cons h hs ih => exact (says_letGo h).after ih

/-- Making a handler says nothing. -/
theorem says_create {hd : Handler} (hn : hd.registration = none) : Says [] b (b.create hd).2 := by
  refine ⟨(List.append_nil _).symm, fun hb => ⟨fun {x id} hx => ?_, hb.recorded⟩⟩
  rw [handler_create] at hx
  split at hx
  · rw [hn] at hx
    cases hx
  · exact hb.sink hx

/-- A handler that ends says farewell. -/
theorem says_dismissed (h : HandlerId) : Says (b.farewell none h) b (b.dismissed h) := by
  refine ⟨?_, fun hb => ?_⟩
  · rw [dismissed_eq, farewell_none]
    rfl
  · have hclosed : (b.closed h).Points := by
      unfold closed
      split
      · exact hb
      · exact hb.withdraw rfl
    rw [dismissed_eq]
    exact hclosed.same rfl rfl

/-- Who tells a listener something says just that, if there is one. -/
theorem says_announce (h : HandlerId) (topic : Topic) (action : Option String) :
    Says (if (b.handler h).listener = none then [] else [⟨h, (b.handler h).notice topic action⟩]) b
      (b.announce h topic action) :=
  says_of_handlers handlers_announce (by rw [announce_eq]) told_announce

/-- A handler that ends does not concern the others. -/
theorem handler_dismissed (hx : x ≠ h) : (b.dismissed h).handler x = b.handler x := by
  rw [dismissed_eq]
  exact handler_closed hx

/-- Handlers that end one after the other say farewell in that order. -/
theorem says_dismissedAll {hs : List HandlerId} (hn : hs.Nodup) :
    Says (hs.flatMap (b.farewell none)) b (hs.foldl dismissed b) := by
  induction hs generalizing b with
  | nil => exact .refl b
  | cons h hs ih =>
    obtain ⟨hh, hn⟩ := List.nodup_cons.mp hn
    have hrest : hs.flatMap ((b.dismissed h).farewell none) = hs.flatMap (b.farewell none) :=
      List.flatMap_congr fun x hx =>
        farewell_congr (handler_dismissed fun hxh : x = h => hh (hxh ▸ hx)) none
    rw [List.flatMap_cons, ← hrest]
    exact (says_dismissed h).trans (ih hn)

/-- Whoever was displaced is told farewell. -/
theorem says_parted (old : Option HandlerId) :
    Says (old.toList.flatMap (b.farewell none)) b (b.parted old) := by
  cases old with
  | none => exact .refl b
  | some h =>
    rw [Option.toList_some, List.flatMap_singleton]
    exact (says_dismissed h).silently (says_letGo h)

/-- A new handler that takes its place displaces the older one, which says farewell. -/
theorem says_presented (co : Coordinator) {old : Option HandlerId}
    (hold : b.current? co.registry (b.handler h).name = old) (hnew : h ∉ old) :
    Says (old.toList.flatMap (b.farewell none)) b (b.presented co h) := by
  have hentrusted : Says [] b (b.entrusted co h) := by
    refine ⟨?_, fun hb => ?_⟩
    · rw [entrusted, install_eq]
      exact (List.append_nil _).symm
    · rw [entrusted, install_eq]
      exact (hb.update (h := h) (f := fun hd => { hd with phase := .initializing })
        (.inr rfl)).same rfl rfl
  have hsame : old.toList.flatMap ((b.entrusted co h).farewell none) =
      old.toList.flatMap (b.farewell none) := by
    refine List.flatMap_congr fun x hx => farewell_congr ?_ none
    have hxh : x ≠ h := fun hxh => hnew (hxh ▸ Option.mem_toList.mp hx)
    rw [entrusted, install_eq]
    exact (handler_update ..).trans (if_neg fun hc => hxh hc.1)
  rw [← hsame, presented, hold]
  exact hentrusted.after ((says_parted old).silently (says_letGo h))

/-- Whoever is taken out of a registry to be closed says farewell. -/
theorem says_closedUp (r : RegistryId) (name : String) :
    Says ((b.current? r name).toList.flatMap (b.farewell none)) b (b.closedUp r name) := by
  have htaken : Says [] b (b.takeEntry r name).2 := by
    rw [takeEntry_eq]
    exact says_of_handlers rfl rfl (List.append_nil _).symm
  have hsame : (b.current? r name).toList.flatMap ((b.takeEntry r name).2.farewell none) =
      (b.current? r name).toList.flatMap (b.farewell none) := by
    rw [takeEntry_eq]
    rfl
  rw [← hsame, closedUp]
  exact htaken.after (says_parted _)

/-- Whoever is taken out of a registry that is drained says farewell, in the order of the visits. -/
theorem says_drainedIn (visit : Visit) (hn : (b.registry r).handlers.Nodup) :
    Says ((visit r (b.registry r).handlers).flatMap (b.farewell none)) b (b.drainedIn visit r) :=
  Says.after (c := (b.takeAll r).2) (says_of_handlers rfl rfl (List.append_nil _).symm)
    ((says_dismissedAll (b := (b.takeAll r).2) ((visit.fair r _).nodup_iff.mpr hn)).silently
      (says_letGoAll _))

/-- A worker that is idle is not moved by waiting for it. -/
theorem flush_idle (hidle : b.isIdle s = true) : b.flush s = b := by
  have hnothing : (b.station s).inside = none ∧ (b.station s).worker.queue = [] := by
    simpa [isIdle] using hidle
  have hload : b.workload s = 0 := by
    rw [workload, jobs, hnothing.1, hnothing.2]
    rfl
  rw [flush, hload]
  rfl

/-- A worker with a single job begins with it. -/
theorem work_single (hb : b.Steady s) (hs : b.Jobs) (hi : (b.station s).inside = none)
    (hj : b.jobs s = [h]) (hp : b.phase h ≠ .unregistered) :
    b.work s = (b.dequeued s).beginAttempt s h := by
  have hworks := hb.works hs
  generalize b.work s = b' at hworks
  cases hworks with
  | idle _ hnone =>
    rw [hj] at hnone
    cases hnone
  | skipped _ hjobs hgone =>
    rw [hj] at hjobs
    cases hjobs
    exact absurd hgone hp
  | entered _ hjobs _ =>
    rw [hj] at hjobs
    cases hjobs
    rfl
  | finished hinside =>
    rw [inside?, hi] at hinside
    cases hinside

/-- A worker with a single job does it. -/
theorem flush_single (hb : b.Steady s) (hs : b.Jobs) (hi : (b.station s).inside = none)
    (hj : b.jobs s = [h]) (hp : b.phase h ≠ .unregistered) : b.flush s =
      ((((b.dequeued s).beginAttempt s h).resolved s h).announce h .shown none).letGo h := by
  have hfirst := work_single hb hs hi hj hp
  obtain ⟨a, rfl, -, hscreen, hstation⟩ := hb.beginAttempt hj
  have hentered := hb.entered hj hi
  have hinside : ((b.dequeued s).beginAttempt s a.handler).inside? s = some a := by
    rw [inside?, hstation, hscreen]
    exact List.getElem?_concat_length
  have hload : b.workload s = 2 := by
    rw [workload, hi, hj]
    rfl
  rw [flush, hload]
  change work s (work s b) = _
  rw [hfirst, work, if_pos (by rw [hstation]; rfl), quietly_finish hentered hinside]
  exact congrArg (letGo · a.handler) (if_neg hp)

/-- A worker with a single job lets its handler say that it is shown. -/
theorem says_flush_single (hb : b.Steady s) (hs : b.Jobs) (hi : (b.station s).inside = none)
    (hj : b.jobs s = [h]) (hp : b.phase h ≠ .unregistered) :
    Says ((Story.begun (b.handler h).fields (b.handler h).listener).heard.map fun n => ⟨h, n⟩) b
      (b.flush s) := by
  rw [flush_single hb hs hi hj hp]
  obtain ⟨a, rfl, -, hscreen, -⟩ := hb.beginAttempt hj
  have hentered : Says [] b ((b.dequeued s).beginAttempt s a.handler) := by
    refine ⟨(List.append_nil _).symm, fun hb => ⟨fun hx => ?_, ?_⟩⟩
    · rw [hscreen]
      exact hb.sink hx
    · rw [hscreen]
      exact hb.recorded
  generalize hd : (b.dequeued s).beginAttempt s a.handler = d at hentered
  have hsame : d.handler a.handler = b.handler a.handler := by
    rw [← hd]
    rfl
  have hlt : a.handler < d.handlers.length := lt_of_phase_ne (by rwa [phase, hsame])
  have hresolved : Says [] d (d.resolved s a.handler) := by
    refine ⟨?_, fun hd => hd.resolved s a.handler⟩
    unfold resolved
    split
    · exact (sameButToasts_releaseToast _).told.trans (List.append_nil _).symm
    · exact (List.append_nil _).symm
  have hself : ((d.resolved s a.handler).handler a.handler).fields = (b.handler a.handler).fields ∧
      ((d.resolved s a.handler).handler a.handler).listener = (b.handler a.handler).listener := by
    rw [handler_resolved_self hlt, hsame]
    split <;> exact ⟨rfl, rfl⟩
  have hannounce := says_announce (b := d.resolved s a.handler) a.handler .shown none
  rw [hself.2, Handler.notice, hself.1] at hannounce
  have hnews : (if (b.handler a.handler).listener = none then [] else
      [⟨a.handler, ⟨.shown, (b.handler a.handler).fields.cookie, none⟩⟩]) =
      (Story.begun (b.handler a.handler).fields (b.handler a.handler).listener).heard.map
        fun n => (⟨a.handler, n⟩ : Telling) := by
    unfold Story.begun
    split <;> rfl
  exact hnews ▸ hentered.after (hresolved.after (hannounce.silently (says_letGo _)))

/-- What is told when the screen reports about a live handler. -/
def reporting (b : Board) (outcome : Outcome) (h : HandlerId) : List Telling :=
  ((b.story h).hears outcome).map fun n => ⟨h, n⟩

/-- A live handler that ends because of a report tells the report before it says farewell. -/
theorem farewell_some (hp : b.phase h = .live) (outcome : Outcome) :
    b.farewell (some outcome) h = b.reporting outcome h ++ b.farewell none h := by
  rw [farewell, Story.farewell_some hp, List.map_append]
  rfl

/-- Telling a listener something adds to what was told, and changes nothing else. -/
theorem announce_retell (topic : Topic) (action : Option String) : b.announce h topic action =
    b.retell (b.told ++ if (b.handler h).listener = none then []
      else [⟨h, (b.handler h).notice topic action⟩]) := by
  rw [announce_eq, told_announce]
  rfl

/-- A report adds what it says to what was told, and changes nothing else. -/
theorem quietly_report (h : HandlerId) (outcome : Outcome) (b : Board) :
    (report h outcome b).quietly = (some (), b.retell (b.told ++ b.reporting outcome h)) := by
  have hsilent : (b.handler h).fields.reports outcome = [] →
      b.retell (b.told ++ b.reporting outcome h) = b := by
    intro hn
    have hnothing : (b.story h).hears outcome = [] := ite_eq_left_iff.mpr fun _ => hn
    rw [reporting, hnothing, List.map_nil, List.append_nil]
    rfl
  have hspoken : ∀ topic action, (b.handler h).fields.reports outcome =
      [(b.handler h).notice topic action] →
      b.announce h topic action = b.retell (b.told ++ b.reporting outcome h) := by
    intro topic action hn
    rw [announce_retell, reporting, Story.hears]
    change _ = b.retell (b.told ++ List.map _ (if (b.handler h).listener = none then [] else
      (b.handler h).fields.reports outcome))
    rw [hn]
    split <;> rfl
  rw [report_eq]
  cases outcome with
  | activated action =>
    cases action with
    | some action => exact (quietly_notify ..).trans (by rw [hspoken _ _ rfl])
    | none =>
      simp only
      split
      · rename_i hclick
        exact (quietly_notify ..).trans (by rw [hspoken _ _ (if_pos hclick)])
      · rename_i hclick
        exact congrArg _ (hsilent (if_neg hclick)).symm
  | dismissed => exact congrArg _ (hsilent rfl).symm
  | failed reason => exact congrArg _ (hsilent rfl).symm

/-- A board on which a current handler has reported an outcome, left its registry and ended. -/
def signedOff (b : Board) (r : RegistryId) (outcome : Outcome) (h : HandlerId) : Board :=
  (((b.hold h).retell (b.told ++ b.reporting outcome h)).departed r h).letGo h

/-- A live handler that is the current one in its registry hears from the screen. -/
theorem quietly_hear (outcome : Outcome) (hp : b.phase h = .live) (href : b.refersTo h = true)
    (hreg : (b.handler h).registry = some r) (hr : 0 < (b.registry r).owners)
    (hc : b.isCurrent r (b.handler h).name h = true) :
    (hear h outcome b).quietly = (some (), b.signedOff r outcome h) := by
  have hlive : (b.hold h).phase h = .live := hp
  have hreport := quietly_report h outcome (b.hold h)
  have hleave := quietly_leaveRegistry
    (b := (b.hold h).retell (b.told ++ b.reporting outcome h)) hreg hr
  have hthere : ((b.hold h).retell (b.told ++ b.reporting outcome h)).isCurrent r
      (((b.hold h).retell (b.told ++ b.reporting outcome h)).handler h).name h = true := hc
  rw [if_pos hthere] at hleave
  have hreported := Talk.quietly_andThen (report h outcome (b.hold h)) fun _ => removeSelf h
  have hself := Talk.quietly_andThen
    (leaveRegistry h ((b.hold h).retell (b.told ++ b.reporting outcome h)))
    fun removed => if removed = true then (pure () : Act Unit) else unregister h
  rw [hreport] at hreported
  rw [hleave] at hself
  rw [hear_eq, if_pos href]
  change ((handleOutcome h outcome (b.hold h)).ensuring (·.letGo h)).quietly = _
  rw [Talk.quietly_ensuring, handleOutcome_eq, hlive]
  exact congrArg (fun q : Option Unit × Board => (q.1, q.2.letGo h)) (hreported.trans hself)

/-- A board on which a current handler has reported an outcome and was taken out. -/
def resigned (b : Board) (r : RegistryId) (outcome : Outcome) (h : HandlerId) : Board :=
  ((((b.hold h).retell (b.told ++ b.reporting outcome h)).ownRegistry r).takeEntry r
    (b.handler h).name).2

/-- What signing off comes to: the handler ends, and the rest is tidied up. -/
theorem signedOff_eq (hr : 0 < (b.registry r).owners) (outcome : Outcome) (h : HandlerId) :
    b.signedOff r outcome h =
      ((((b.resigned r outcome h).dismissed h).letGo h).disowned r).letGo h :=
  congrArg (letGo · h)
    (departed_eq (b := (b.hold h).retell (b.told ++ b.reporting outcome h)) hr h)

/-- A live handler that signs off tells the report and says farewell. -/
theorem says_signedOff (hr : 0 < (b.registry r).owners) (hp : b.phase h = .live)
    (outcome : Outcome) : Says (b.farewell (some outcome) h) b (b.signedOff r outcome h) := by
  have hreported : Says (b.reporting outcome h) b (b.resigned r outcome h) := by
    rw [resigned, takeEntry_eq]
    exact says_of_handlers rfl rfl rfl
  have hsame : (b.resigned r outcome h).farewell none h = b.farewell none h := by
    rw [resigned, takeEntry_eq]
    rfl
  have hdisowned : ∀ a : Board, Says [] a (a.disowned r) := fun a =>
    says_of_handlers rfl rfl (List.append_nil _).symm
  rw [farewell_some hp, ← hsame, signedOff_eq hr]
  exact hreported.trans ((((says_dismissed h).silently (says_letGo h)).silently
    (hdisowned _)).silently (says_letGo h))

/-- A handler that hears of its end stirs the board. -/
theorem stirs_signedOff (hr : 0 < (b.registry r).owners) (outcome : Outcome) (h : HandlerId) :
    b.Stirs (b.signedOff r outcome h) := by
  have hresigned : b.Stirs (b.resigned r outcome h) := by
    rw [resigned, takeEntry_eq]
    exact stirs_of_handlers rfl rfl rfl
  have hdisowned : ∀ a : Board, a.Stirs (a.disowned r) := fun a => stirs_of_handlers rfl rfl rfl
  rw [signedOff_eq hr]
  exact (((hresigned.trans (stirs_dismissed h)).trans (tidies_letGo h).toStirs).trans
    (hdisowned _)).trans (tidies_letGo h).toStirs

/-- A handler that signs off is closed. -/
theorem Heeds.signedOff {identity : Option String} (hb : b.Heeds identity p)
    (hr : 0 < p.table.owners) (hc : p.table.get? (b.handler h).name = some h) (outcome : Outcome) :
    (b.signedOff 0 outcome h).Heeds identity (p.close (b.handler h).name) := by
  have hcoordinators : (b.resigned 0 outcome h).coordinators = b.coordinators := by
    rw [resigned, takeEntry_eq]
    rfl
  have hresigned : (b.resigned 0 outcome h).Follows { p with
      table := { p.table.erase (b.handler h).name with owners := p.table.owners + 1 } } := by
    refine hb.follows.retable ?_ ?_ ?_ ?_ ?_ <;> rw [resigned, takeEntry_eq]
    any_goals rfl
    change (b.registries.modify 0 _).modify 0 _ = _
    rw [hb.follows.registries]
    rfl
  rw [signedOff_eq (by rwa [hb.follows.registry])]
  generalize b.resigned 0 outcome h = d at *
  generalize (b.handler h).name = name at *
  have hended := (hresigned.ends (ends_dismissed h)).ends (tidies_letGo h).ends
  have hleft : (((d.dismissed h).letGo h).disowned 0).Follows (p.close name) := by
    have hp : p.close name =
        { p with table := p.table.erase name, ended := [] ++ ([h] ++ p.ended) } := by
      rw [Plan.close, hc]
      rfl
    rw [hp]
    refine hended.retable rfl rfl rfl ?_ rfl
    change ((d.dismissed h).letGo h).registries.modify 0 _ = _
    rw [hended.registries]
    change [Registry.mk (if 1 < p.table.owners + 1 then (p.table.erase name).entries else [])
      (p.table.owners + 1 - 1)] = _
    rw [if_pos (Nat.succ_lt_succ hr)]
    rfl
  refine ⟨hb.whole.close name, hleft.ends (tidies_letGo h).ends, ?_⟩
  rw [(tidies_letGo h).coordinators]
  change ((d.dismissed h).letGo h).coordinators = _
  rw [(tidies_letGo h).coordinators, (ends_dismissed h).coordinators, hcoordinators]
  exact hb.coordinators

end Board

end ToastBoard
