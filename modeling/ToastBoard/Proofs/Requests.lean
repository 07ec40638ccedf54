import ToastBoard.Proofs.Schedules
import ToastBoard.Proofs.Tidings
import ToastBoard.Rehearsal.Reply

/-!
# Requests

Alerts are shown and closed, new alerts are dropped, the signal is fired and the screen reports, and
after each request the worker does what there is to do. Between requests the board is at rest: every
handler was tried and is live or over, the live ones are those in the table, and the screen reports
to the one of a name. A request leaves a board at rest again, and what comes of it is settled by the
plan: its answer, who goes, who comes, and what is told meanwhile.
-/

namespace ToastBoard

open Board

/-- What is asked of a coordinator, or comes from its screen. -/
inductive Request where
  /-- To show an alert. -/
  | showAlert (source : Source) (listener : Option ListenerId)
  /-- To close the alert of a name. -/
  | closeAlert (name : String)
  /-- The screen reports something about a name. -/
  | emit (name : String) (outcome : Outcome)
  /-- To drop new alerts, or no longer. -/
  | suppress (suppressed : Bool)
  /-- To fire the signal. -/
  | fire

namespace Request

/-- The name that a request is about, if it is about one. An alert may fail to say its name. -/
def name? : Request → Option String
  | .showAlert source _ => source.name.toOption
  | .closeAlert name | .emit name _ => some name
  | .suppress _ | .fire => none

/-- What the screen reports in a request. -/
def outcome? : Request → Option Outcome
  | .emit _ outcome => some outcome
  | _ => none

/-- What is done when a request is made, with some order of visits. -/
def act (visit : Visit) (c : CoordinatorId) : Request → Act Reply
  | .showAlert source listener => do
    let result ← Board.showAlert c source listener
    pure (.ofUnit result.result)
  | .closeAlert name => do
    Board.closeAlert c name
    pure .done
  | .emit name outcome => do
    let there ← Board.emit name outcome
    pure (.truth there)
  | .suppress suppressed => do
    Action.change (·.setSuppression c suppressed)
    pure .done
  | .fire => do
    let observers ← Board.fire visit
    pure (.count observers)

end Request

namespace Plan

variable {p : Plan}

/-- The plan after a request, once the worker has done what there is to do. -/
def answer (p : Plan) : Request → Plan
  | .showAlert source listener => p.offer source listener
  | .closeAlert name | .emit name _ => p.close name
  | .suppress suppressed => { p with suppressed }
  | .fire => p.shut

/-- The answer to a request. -/
def reply (p : Plan) : Request → Reply
  | .showAlert source _ =>
    .ofUnit (if p.suppressed = true then .ok () else source.read.result.map fun _ => ())
  | .closeAlert _ | .suppress _ => .done
  | .emit name _ => .truth (p.table.get? name).isSome
  | .fire => .count (if p.fired = true then 0 else 1)

/-- The alert that a handler is made for when one is given to be shown. -/
def takes (p : Plan) (source : Source) (listener : Option ListenerId) :
    Option (Snapshot × Option ListenerId) :=
  if p.suppressed = true then none
  else source.read.result.toOption.map fun fields => (fields, listener)

/-- The alert that a request has a handler made for. -/
def greets (p : Plan) : Request → Option (Snapshot × Option ListenerId)
  | .showAlert source listener => p.takes source listener
  | _ => none

/-- Who ends by a request, in the order in which they do. -/
def leaves (visit : Visit) (p : Plan) : Request → List HandlerId
  | .showAlert source listener =>
    ((p.takes source listener).bind fun alert => p.table.get? alert.1.name).toList
  | .closeAlert name | .emit name _ => (p.table.get? name).toList
  | .suppress _ => []
  | .fire => if p.fired = true then [] else visit 0 p.table.handlers

/-- Whether a request ends whoever stands under a name. -/
def parts (p : Plan) (name : String) : Request → Bool
  | .showAlert source listener => (p.takes source listener).any (·.1.name = name)
  | .closeAlert other | .emit other _ => other = name
  | .suppress _ => false
  | .fire => !p.fired

/-- What is told about a handler that comes by a request. -/
def greeting (p : Plan) (r : Request) : List Telling :=
  (p.greets r).toList.flatMap fun alert =>
    (Story.begun alert.1 alert.2).heard.map fun n => ⟨p.shown.length, n⟩

/-- An alert that is given to be shown is dropped, or a handler is made for it. -/
theorem offer_cases (p : Plan) (source : Source) (listener : Option ListenerId) :
    (p.takes source listener = none ∧ p.offer source listener = p) ∨
    ∃ fields, p.suppressed = false ∧ source.read.result = .ok fields ∧
      p.takes source listener = some (fields, listener) ∧
      p.offer source listener = { p with
        shown := p.shown ++ [(fields, listener)]
        ended := (p.table.get? fields.name).toList ++ p.ended
        table := p.table.insert fields.name p.shown.length } := by
  unfold takes offer
  cases hs : p.suppressed with
  | true => exact .inl ⟨rfl, rfl⟩
  | false =>
    cases source.read.result with
    | error e => exact .inl ⟨rfl, rfl⟩
    | ok fields => exact .inr ⟨fields, rfl, rfl, rfl, rfl⟩

/-- The signal fires once. -/
theorem shut_cases (p : Plan) : (p.fired = true ∧ p.shut = p) ∨
    (p.fired = false ∧ p.shut = { p with
      fired := true
      ended := p.table.handlers ++ p.ended
      table := { p.table with entries := [] } }) := by
  unfold shut
  cases hf : p.fired with
  | true => exact .inl ⟨rfl, rfl⟩
  | false => exact .inr ⟨rfl, rfl⟩

/-- Whoever comes by a request comes last. -/
theorem shown_answer (p : Plan) (r : Request) :
    (p.answer r).shown = p.shown ++ (p.greets r).toList := by
  cases r with
  | showAlert source listener =>
    change (p.offer source listener).shown = p.shown ++ (p.takes source listener).toList
    rcases p.offer_cases source listener with ⟨ht, ho⟩ | ⟨fields, -, -, ht, ho⟩
    · rw [ht, ho]
      exact (List.append_nil _).symm
    · rw [ht, ho]
      rfl
  | fire =>
    change p.shut.shown = p.shown ++ []
    rcases p.shut_cases with ⟨-, hs⟩ | ⟨-, hs⟩ <;> rw [hs, List.append_nil]
  | closeAlert | emit | suppress => exact (List.append_nil _).symm

/-- Nobody stands under two names. -/
theorem Whole.name_unique (hp : p.Whole) {h : HandlerId} {name other : String}
    (hn : p.table.get? name = some h) (ho : p.table.get? other = some h) : other = name := by
  have hname := hp.named ((Registry.mem_entries_iff hp.single).mpr hn)
  have hother := hp.named ((Registry.mem_entries_iff hp.single).mpr ho)
  exact Option.some.inj (hother.symm.trans hname)

section Fair

variable {visit : Visit} {h : HandlerId} {r : Request}

/-- Whoever goes by a request has ended after it. -/
theorem mem_ended_answer :
    h ∈ (p.answer r).ended ↔ h ∈ p.leaves visit r ∨ h ∈ p.ended := by
  rw [← List.mem_append]
  cases r with
  | showAlert source listener =>
    change h ∈ (p.offer source listener).ended ↔
      h ∈ ((p.takes source listener).bind fun alert => p.table.get? alert.1.name).toList ++ p.ended
    rcases p.offer_cases source listener with ⟨ht, ho⟩ | ⟨fields, -, -, ht, ho⟩
    · rw [ht, ho]
      rfl
    · rw [ht, ho]
      rfl
  | fire =>
    change h ∈ p.shut.ended ↔
      h ∈ (if p.fired = true then [] else visit 0 p.table.handlers) ++ p.ended
    rcases p.shut_cases with ⟨hf, hs⟩ | ⟨hf, hs⟩
    · rw [hs, if_pos hf]
      rfl
    · rw [hs, if_neg (by rw [hf]; exact Bool.noConfusion)]
      simp only [List.mem_append, (visit.fair 0 p.table.handlers).mem_iff]
  | closeAlert | emit | suppress => rfl

/-- Whoever goes by a request stands in the table. -/
theorem mem_of_leaves (hp : p.Whole) (hh : h ∈ p.leaves visit r) : h ∈ p.table.handlers := by
  have hentry : ∀ {name}, p.table.get? name = some h → h ∈ p.table.handlers := fun hg =>
    Registry.mem_handlers.mpr ⟨_, (Registry.mem_entries_iff hp.single).mpr hg⟩
  cases r with
  | showAlert source listener =>
    obtain ⟨alert, -, hg⟩ := Option.bind_eq_some_iff.mp (Option.mem_toList.mp hh)
    exact hentry hg
  | closeAlert name => exact hentry (Option.mem_toList.mp hh)
  | emit name outcome => exact hentry (Option.mem_toList.mp hh)
  | suppress suppressed => cases hh
  | fire =>
    change h ∈ (if p.fired = true then [] else visit 0 p.table.handlers) at hh
    split at hh
    · cases hh
    · exact (visit.fair 0 _).mem_iff.mp hh

/-- Whoever stands under a name goes if that is what the request does to the name. -/
theorem mem_leaves_iff (hp : p.Whole) {name : String} (hg : p.table.get? name = some h) :
    h ∈ p.leaves visit r ↔ p.parts name r = true := by
  have hentry : ∀ other, h ∈ (p.table.get? other).toList ↔ decide (other = name) = true := by
    intro other
    rw [Option.mem_toList, decide_eq_true_iff]
    exact ⟨hp.name_unique hg, fun ho => ho ▸ hg⟩
  cases r with
  | showAlert source listener =>
    change h ∈ ((p.takes source listener).bind fun alert => p.table.get? alert.1.name).toList ↔
      (p.takes source listener).any (·.1.name = name) = true
    cases p.takes source listener with
    | none => exact ⟨fun hm => (by cases hm), fun hm => (by cases hm)⟩
    | some alert => exact hentry alert.1.name
  | closeAlert other => exact hentry other
  | emit other outcome => exact hentry other
  | suppress suppressed => exact ⟨fun hm => (by cases hm), fun hm => (by cases hm)⟩
  | fire =>
    have hm : h ∈ visit 0 p.table.handlers := (visit.fair 0 _).mem_iff.mpr
      (Registry.mem_handlers.mpr ⟨name, (Registry.mem_entries_iff hp.single).mpr hg⟩)
    change h ∈ (if p.fired = true then [] else visit 0 p.table.handlers) ↔ (!p.fired) = true
    cases p.fired <;> simp [hm]

/-- Nobody goes twice. -/
theorem nodup_leaves (hp : p.Whole) (r : Request) : (p.leaves visit r).Nodup := by
  have hone : ∀ o : Option HandlerId, o.toList.Nodup := fun o => by cases o <;> simp
  cases r with
  | showAlert | closeAlert | emit => exact hone _
  | suppress suppressed => exact List.nodup_nil
  | fire =>
    change (if p.fired = true then [] else visit 0 p.table.handlers).Nodup
    split
    · exact List.nodup_nil
    · exact (visit.fair 0 _).nodup_iff.mpr (List.nodup_append.mp hp.once).1

end Fair

end Plan

namespace Board

variable {b c d : Board} {h x : HandlerId} {p p' : Plan} {identity : Option String}
  {visit : Visit} {name : String} {news : List Telling}

/-- What comes of a request, and its answer unless there was a panic: the worker does what there is
to do before the next one. -/
def serve (visit : Visit) (c : CoordinatorId) (b : Board) (r : Request) : Option Reply × Board :=
  let asked := (r.act visit c b).quietly
  (asked.1, asked.2.flush (asked.2.coordinator c).station)

/-- What comes of requests that are made one after the other. -/
def served (visit : Visit) (c : CoordinatorId) (b : Board) (requests : List Request) : Board :=
  requests.foldl (fun b r => (b.serve visit c r).2) b

/-- Requests with their answers. -/
def replies (visit : Visit) (c : CoordinatorId) :
    Board → List Request → List (Request × Option Reply)
  | _, [] => []
  | b, r :: rest => (r, (b.serve visit c r).1) :: replies visit c (b.serve visit c r).2 rest

/-- A board with one coordinator whose worker has done everything that it was asked for. -/
structure Rests (identity : Option String) (p : Plan) (b : Board) : Prop extends
    Heeds identity p b where
  /-- The board is in order. -/
  sound : ∃ reported, b.Sound false {} { founded with reported }
  /-- The worker has nothing to do. -/
  idle : b.isIdle 0 = true
  /-- Every handler was tried. -/
  tried : b.line 0 = List.range b.handlers.length
  /-- The screen points to the handlers that have something to release. -/
  points : b.Points

namespace Rests

theorem table (hb : b.Rests identity p) (name : String) :
    b.current? 0 name = p.table.get? name :=
  congrArg (Registry.get? · name) hb.follows.registry

/-- There is no attempt under way, and no job. -/
theorem jobs (hb : b.Rests identity p) : (b.station 0).inside = none ∧ b.jobs 0 = [] := by
  have hidle : (b.station 0).inside = none ∧ (b.station 0).worker.queue = [] := by
    simpa [isIdle] using hb.idle
  refine ⟨hidle.1, ?_⟩
  rw [Board.jobs, hidle.2]
  rfl

/-- The live handlers are those in the table. -/
theorem live_iff (hb : b.Rests identity p) : b.phase h = .live ↔ h ∈ p.table.handlers := by
  have hsettled := hb.whole.settled h
  have honce := List.nodup_append.mp hb.whole.once
  refine ⟨fun hp => ?_, fun hm => ?_⟩
  · have hlt : h < b.handlers.length := lt_of_phase_ne (by rw [hp]; exact Phase.noConfusion)
    refine (List.mem_append.mp (hsettled.mp (hb.follows.length ▸ hlt))).resolve_right fun he => ?_
    rw [(hb.follows.gone h hlt).mpr he] at hp
    cases hp
  · have hlt : h < b.handlers.length := by
      rw [hb.follows.length]
      exact hsettled.mpr (List.mem_append_left _ hm)
    refine (hb.follows.steady.final hb.idle (hb.follows.begun h)).resolve_right fun hp => ?_
    exact honce.2.2 h hm h ((hb.follows.gone h hlt).mp hp) rfl

/-- Whoever is not live is over. -/
theorem over_of_not_live (hb : b.Rests identity p) (hp : b.phase h ≠ .live) :
    b.phase h = .unregistered :=
  (hb.follows.steady.final hb.idle (hb.follows.begun h)).resolve_left hp

/-- What stands under a name is the live handler of that name. -/
theorem get?_iff (hb : b.Rests identity p) :
    p.table.get? name = some h ↔ b.phase h = .live ∧ (b.handler h).name = name := by
  rw [← Registry.mem_entries_iff hb.whole.single, hb.live_iff, Registry.mem_handlers]
  constructor
  · intro hm
    exact ⟨⟨name, hm⟩, hb.follows.name_of_entry hb.whole hm⟩
  · rintro ⟨⟨key, hm⟩, rfl⟩
    rwa [hb.follows.name_of_entry hb.whole hm]

/-- Whoever has a toast to release is the live handler of its name. -/
theorem get?_of_registration (hb : b.Rests identity p) {t : Toast} (ht : t ∈ b.screen.toasts)
    (hr : (b.handler h).registration = some t.id) : p.table.get? t.name = some h := by
  obtain ⟨reported, hsound⟩ := hb.sound
  obtain ⟨t', ht', hid, -, hshows⟩ := hsound.toasts.shown hr
  refine hb.get?_iff.mpr ⟨hsound.toasts.live hr (Option.some_ne_none _), ?_⟩
  rw [← hsound.toasts.eq_of_id ht' ht hid]
  exact hshows.name.symm

/-- The screen reports about a name to the handler that stands under it. -/
theorem sinkOf? (hb : b.Rests identity p) (name : String) :
    b.screen.sinkOf? name = p.table.get? name := by
  obtain ⟨reported, hsound⟩ := hb.sound
  have howner : ∀ t ∈ b.screen.toasts, t.name = name → t.releases = 0 →
      b.screen.sinks.lookup t.id = p.table.get? name := by
    rintro t ht rfl h0
    rcases hsound.toasts.owned t ht h0 with hloose | ⟨h, hr⟩
    · cases hloose
    · rw [hb.points.sink hr, hb.get?_of_registration ht hr]
  cases hn : b.screen.newest? name with
  | some t =>
    have hfound := List.find?_some hn
    have hm := List.mem_reverse.mp (List.mem_of_find?_eq_some hn)
    simp only [Bool.and_eq_true, beq_iff_eq] at hfound
    rw [Screen.sinkOf?, hn]
    exact howner t hm hfound.1 hfound.2
  | none =>
    have hnone := List.find?_eq_none.mp hn
    rw [Screen.sinkOf?, hn]
    symm
    rw [Option.bind_none, Option.eq_none_iff_forall_ne_some]
    intro h hg
    obtain ⟨hp, hname⟩ := hb.get?_iff.mp hg
    obtain ⟨id, hid⟩ := Option.ne_none_iff_exists'.mp
      (hsound.toasts.standing hp (hb.refersTo_of_live hp))
    obtain ⟨t, ht, -, h0, hshows⟩ := hsound.toasts.shown hid
    refine hnone t (List.mem_reverse.mpr ht) ?_
    simp [h0, hshows.name.trans hname]

end Rests

theorem Stirs.station (hs : b.Stirs d) (s : StationId) : d.station s = b.station s := by
  rw [Board.station, hs.stations, Board.station]

theorem Stirs.jobs (hs : b.Stirs d) (s : StationId) : d.jobs s = b.jobs s := by
  rw [Board.jobs, hs.station, Board.jobs]

theorem stirs_takeEntry (r : RegistryId) (name : String) : b.Stirs (b.takeEntry r name).2 := by
  rw [takeEntry_eq]
  exact stirs_of_handlers rfl rfl rfl

/-- What comes of a request at a board at rest. -/
structure Serves (visit : Visit) (identity : Option String) (p : Plan) (r : Request) (b : Board)
    (after : Option Reply × Board) : Prop where
  /-- It is answered as the plan says. -/
  reply : after.1 = some (p.reply r)
  /-- The board is at rest again, with the plan after the request. -/
  rests : after.2.Rests identity (p.answer r)
  /-- Whoever goes says farewell, and whoever comes is shown. -/
  told : after.2.told =
    b.told ++ ((p.leaves visit r).flatMap (b.farewell r.outcome?) ++ p.greeting r)

namespace Rests

/-- Where no handler was made the worker has nothing to do. -/
theorem quiet (hb : b.Rests identity p) {r : Request}
    (hr : (r.act visit 0 b).quietly = (some (p.reply r), d)) (hd : d.Heeds identity (p.answer r))
    (hsound : ∃ reported, d.Sound false {} { founded with reported }) (hstirs : b.Stirs d)
    (hgreets : p.greets r = none)
    (htold : Says ((p.leaves visit r).flatMap (b.farewell r.outcome?)) b d) :
    Serves visit identity p r b (b.serve visit 0 r) := by
  have hidle : d.isIdle 0 = true := by
    rw [isIdle, hstirs.station]
    exact hb.idle
  have hserve : b.serve visit 0 r = (some (p.reply r), d) := by
    unfold Board.serve
    rw [hr]
    refine Prod.ext rfl ?_
    change d.flush (d.coordinator 0).station = d
    rw [hd.coordinator]
    exact flush_idle hidle
  have hshown := p.shown_answer r
  have hlength : d.handlers.length = b.handlers.length := by
    rw [hd.follows.length, hb.follows.length, hshown, hgreets, Option.toList_none, List.append_nil]
  rw [hserve]
  refine ⟨rfl, ⟨hd, hsound, hidle, ?_, htold.points hb.points⟩, ?_⟩
  · rw [hstirs.line, hlength]
    exact hb.tried
  · rw [Plan.greeting, hgreets]
    exact htold.told.trans (by rw [Option.toList_none, List.flatMap_nil, List.append_nil])

theorem owned (hb : b.Rests identity p) : 0 < p.table.owners := by
  obtain ⟨reported, hsound⟩ := hb.sound
  have hpos := hsound.books.pos_of_backing hb.owners
  rwa [hb.coordinator, hb.follows.registry] at hpos

/-- A deed that hands nothing out leaves the board in order. -/
theorem ordered (hb : b.Rests identity p) {d : Deed} (hd : ∀ T, T.founders = [0] →
    d.Possible (around T b)) (hh : ∀ T, d.holdings (around T b) = around T b) :
    ∃ reported, (d.quietly b).Sound false {} { founded with reported } := by
  obtain ⟨reported, hsound⟩ := hb.sound
  exact ⟨reported ++ d.reports b, hsound.deed (hd _ rfl) (hh _)⟩

theorem serve_closeAlert (hb : b.Rests identity p) (name : String) :
    Serves visit identity p (.closeAlert name) b (b.serve visit 0 (.closeAlert name)) := by
  have hordered : ∃ reported, (Board.closeAlert 0 name b).quietly.2.Sound false {}
      { founded with reported } :=
    hb.ordered (d := .closeAlert 0 name) (fun T hT => by
      change 0 ∈ T.founders
      exact hT ▸ List.mem_cons_self) fun _ => rfl
  have hquietly := quietly_closeAlert hb.owners name
  have hact := quietly_map (Board.closeAlert 0 name b) fun _ => Reply.done
  have hregistry : (b.coordinator 0).registry = 0 := by rw [hb.coordinator]
  have hcurrent : (b.ownCoordinator 0).current? 0 name = p.table.get? name := hb.table name
  have htold := says_closedUp (b := b.ownCoordinator 0) 0 name
  rw [hcurrent] at htold
  have howned : b.Stirs (b.ownCoordinator 0) := stirs_of_handlers rfl rfl rfl
  have hbefore : Says [] b (b.ownCoordinator 0) :=
    says_of_handlers rfl rfl (List.append_nil _).symm
  have hstirs : b.Stirs ((b.ownCoordinator 0).closedUp 0 name) :=
    (howned.trans (stirs_takeEntry 0 name)).trans (ends_closedUp 0 name).toStirs
  rw [hregistry] at hquietly
  rw [hquietly] at hact
  have hheeds := hb.toHeeds.closeAlert name
  rw [hquietly] at hheeds hordered
  exact hb.quiet hact hheeds hordered (hstirs.trans (stirs_of_handlers rfl rfl rfl)) rfl
    (hbefore.after (htold.silently (says_of_handlers rfl rfl (List.append_nil _).symm)))

theorem serve_suppress (hb : b.Rests identity p) (suppressed : Bool) :
    Serves visit identity p (.suppress suppressed) b
      (b.serve visit 0 (.suppress suppressed)) := by
  have hordered : ∃ reported, (b.setSuppression 0 suppressed).Sound false {}
      { founded with reported } :=
    hb.ordered (d := .suppress 0 suppressed) (fun T hT => by
      change 0 ∈ T.founders
      exact hT ▸ List.mem_cons_self) fun _ => rfl
  exact hb.quiet rfl (hb.toHeeds.suppress suppressed) hordered (stirs_of_handlers rfl rfl rfl) rfl
    (says_of_handlers rfl rfl (List.append_nil _).symm)

theorem serve_fire (hb : b.Rests identity p) :
    Serves visit identity p .fire b (b.serve visit 0 .fire) := by
  obtain ⟨reported, hsound⟩ := hb.sound
  have hsignal := hb.follows.signal
  have hfire : (fire visit b).quietly.2.Sound false {} { founded with reported } :=
    Sound.quietly (keeps_fire (fun hs => Bool.noConfusion hs) hsound.around)
  have hheeds := hb.toHeeds.fire visit
  have hact := quietly_map (fire visit b) Reply.count
  cases hf : p.fired with
  | true =>
    have hquietly : (fire visit b).quietly = (some 0, b) :=
      quietly_fire_again (by rw [hsignal, hf])
    have hreply : p.reply .fire = .count 0 := congrArg Reply.count (if_pos hf)
    have hleaves : p.leaves visit .fire = [] := if_pos hf
    rw [hquietly] at hact hheeds hfire
    refine hb.quiet (hreply ▸ hact) hheeds ⟨_, hfire⟩ (.refl b) rfl ?_
    rw [hleaves]
    exact .refl b
  | false =>
    have hquietly := quietly_fire_once visit hb.owners (by rw [hsignal, hf]; rfl)
    have hreply : p.reply .fire = .count 1 :=
      congrArg Reply.count (if_neg (by rw [hf]; exact Bool.noConfusion))
    have hleaves : p.leaves visit .fire = visit 0 p.table.handlers :=
      if_neg (by rw [hf]; exact Bool.noConfusion)
    have hregistry : (b.fired.ownCoordinator 0).registry 0 = p.table := hb.follows.registry
    have hnodup : ((b.fired.ownCoordinator 0).registry 0).handlers.Nodup := by
      rw [hregistry]
      exact (List.nodup_append.mp hb.whole.once).1
    have htold := says_drainedIn visit hnodup
    rw [hregistry] at htold
    have hbefore : Says [] b (b.fired.ownCoordinator 0) :=
      says_of_handlers rfl rfl (List.append_nil _).symm
    have hstirs : b.Stirs ((b.fired.ownCoordinator 0).drainedIn visit 0) :=
      (stirs_of_handlers rfl rfl rfl : b.Stirs ((b.fired.ownCoordinator 0).takeAll 0).2).trans
        (ends_drainedIn visit 0).toStirs
    rw [hb.coordinator] at hquietly
    rw [hquietly] at hact hheeds hfire
    refine hb.quiet (hreply ▸ hact) hheeds ⟨_, hfire⟩
      (hstirs.trans (stirs_of_handlers rfl rfl rfl)) rfl ?_
    rw [hleaves]
    exact hbefore.after (htold.silently (says_of_handlers rfl rfl (List.append_nil _).symm))

/-- The screen has nobody to report to. -/
theorem quietly_emit_none (hb : b.Rests identity p) (hg : p.table.get? name = none)
    (outcome : Outcome) : (Board.emit name outcome b).quietly = (some false, b) := by
  rw [emit_eq, hb.sinkOf? name, hg]
  rfl

/-- The screen reports to the handler that stands under a name, which signs off. -/
theorem quietly_emit_some (hb : b.Rests identity p) (hg : p.table.get? name = some h)
    (outcome : Outcome) :
    (Board.emit name outcome b).quietly = (some true, b.signedOff 0 outcome h) := by
  obtain ⟨hp, hname⟩ := hb.get?_iff.mp hg
  have hlt : h < b.handlers.length := lt_of_phase_ne (by rw [hp]; exact Phase.noConfusion)
  have hr : 0 < (b.registry 0).owners := by
    rw [hb.follows.registry]
    exact hb.owned
  have hcurrent : b.isCurrent 0 (b.handler h).name h = true := by
    rw [isCurrent, hb.table, hname, hg]
    exact beq_self_eq_true _
  have hhear := quietly_hear outcome hp (hb.refersTo_of_live hp) (hb.follows.home h hlt) hr hcurrent
  rw [emit_eq, hb.sinkOf? name, hg]
  simp only
  rw [Talk.quietly_andThen, hhear]
  rfl

theorem serve_emit (hb : b.Rests identity p) (name : String) (outcome : Outcome) :
    Serves visit identity p (.emit name outcome) b (b.serve visit 0 (.emit name outcome)) := by
  have hordered := hb.ordered (d := .emit name outcome) (fun _ _ => trivial) fun _ => rfl
  have hvoid : (Deed.emit name outcome).quietly b = (Board.emit name outcome b).quietly.2 :=
    quietly_void _
  have hact : ((Request.emit name outcome).act visit 0 b).quietly =
      ((Board.emit name outcome b).quietly.1.map .truth, (Board.emit name outcome b).quietly.2) :=
    quietly_map (Board.emit name outcome b) Reply.truth
  have hreply : p.reply (.emit name outcome) = .truth (p.table.get? name).isSome := rfl
  have hleaves : p.leaves visit (.emit name outcome) = (p.table.get? name).toList := rfl
  rw [hvoid] at hordered
  cases hg : p.table.get? name with
  | none =>
    have hanswer : p.answer (.emit name outcome) = p := by
      have herase : p.table.erase name = p.table := Registry.erase_of_get?_none hb.whole.single hg
      change p.close name = p
      rw [Plan.close, hg, herase]
      rfl
    rw [hb.quietly_emit_none hg] at hact
    rw [hg] at hreply hleaves
    refine hb.quiet (hact.trans (by rw [hreply]; rfl)) (hanswer.symm ▸ hb.toHeeds) hb.sound
      (.refl b) rfl ?_
    rw [hleaves]
    exact .refl b
  | some h =>
    obtain ⟨hp, hname⟩ := hb.get?_iff.mp hg
    have hr : 0 < (b.registry 0).owners := by
      rw [hb.follows.registry]
      exact hb.owned
    have hheeds := hb.toHeeds.signedOff hb.owned (by rw [hname]; exact hg) outcome
    rw [hname] at hheeds
    rw [hg] at hreply hleaves
    rw [hb.quietly_emit_some hg] at hact hordered
    simp only at hact hordered
    refine hb.quiet (hact.trans (by rw [hreply]; rfl)) hheeds hordered
      (stirs_signedOff hr outcome h) rfl ?_
    rw [hleaves, Option.toList_some, List.flatMap_singleton]
    exact says_signedOff hr hp outcome

end Rests

/-- What was read from an alert and who listens, for a handler that was made. -/
theorem getElem?_alerts (hlt : h < b.handlers.length) :
    b.alerts[h]? = some ((b.handler h).fields, (b.handler h).listener) := by
  rw [alerts, List.getElem?_map, List.getElem?_range hlt]
  rfl

/-- An alert that is not taken is dropped. -/
theorem offered_none {co : Coordinator} (hs : co.suppressed = p.suppressed) {source : Source}
    {listener : Option ListenerId} (ht : p.takes source listener = none) :
    b.offered co source listener = b := by
  unfold Plan.takes at ht
  unfold offered
  rw [hs]
  split
  · rfl
  · rename_i hp
    rw [if_neg hp] at ht
    cases hr : source.read.result with
    | error e => rfl
    | ok fields =>
      rw [hr] at ht
      cases ht

/-- For an alert that is taken a handler is made and presented. -/
theorem offered_some {co : Coordinator} (hs : co.suppressed = p.suppressed) {source : Source}
    {listener : Option ListenerId} {fields : Snapshot} (hp : p.suppressed = false)
    (hr : source.read.result = .ok fields) : b.offered co source listener =
      (b.create { fields, listener, registry := some co.registry }).2.presented co
        b.handlers.length := by
  unfold offered
  rw [hs, hp, hr]
  rfl

/-- A new handler that takes its place is queued, and nobody else is. -/
theorem queue_presented (co : Coordinator) (hs : co.station < b.stations.length)
    (hlt : h < b.handlers.length) (hc : b.current? co.registry (b.handler h).name ≠ some h) :
    (b.presented co h).jobs co.station = b.jobs co.station ++ [h] ∧
      ((b.presented co h).station co.station).inside = (b.station co.station).inside ∧
      (b.presented co h).line co.station = b.line co.station ++ [h] ∧
      (b.presented co h).phase h = .initializing := by
  have hinstalled := stirs_install (b := b) co.registry (b.handler h).name h
  have hthere : co.station < (b.install co.registry (b.handler h).name h).2.stations.length := by
    rw [hinstalled.stations]
    exact hs
  have hlt' : h < (b.install co.registry (b.handler h).name h).2.handlers.length := by
    rw [handlers_install]
    exact hlt
  have hpresented := ends_presented (b := b) co h
  have hstirs := hpresented.toStirs
  refine ⟨?_, ?_, ?_, ?_⟩
  · rw [hstirs.jobs, entrusted, jobs_queued hthere, hinstalled.jobs]
  · rw [hstirs.station, entrusted, inside_queued, hinstalled.station]
  · rw [hstirs.line, entrusted, line_queued hthere, hinstalled.line]
  · rw [hpresented.stands, if_neg fun hm => hc (Option.mem_toList.mp hm), entrusted,
      phase_queued hlt', if_pos rfl]

/-- A change by which a handler was made and submitted, where the worker has nothing else to do. -/
structure Ushers (news : List Telling) (b d : Board) : Prop where
  /-- Others are told something meanwhile. -/
  said : Says news b d
  /-- It comes last in the line. -/
  line : d.line 0 = b.line 0 ++ [b.handlers.length]
  /-- No attempt is under way. -/
  inside : (d.station 0).inside = none
  /-- Its job is the only one. -/
  jobs : d.jobs 0 = [b.handlers.length]
  /-- It waits for its turn. -/
  phase : d.phase b.handlers.length = .initializing

namespace Rests

/-- A handler that was made last, and whose job is the only one, is shown. -/
theorem flush (hb : b.Rests identity p) {fields : Snapshot} {listener : Option ListenerId}
    (hd : d.Heeds identity p') (hshown : p'.shown = p.shown ++ [(fields, listener)])
    (hsound : ∃ reported, d.Sound false {} { founded with reported }) (hu : Ushers news b d) :
    (d.flush 0).Rests identity p' ∧ (d.flush 0).told = b.told ++
      (news ++ (Story.begun fields listener).heard.map fun n => ⟨p.shown.length, n⟩) := by
  obtain ⟨reported, hsound⟩ := hsound
  have hlength : d.handlers.length = b.handlers.length + 1 := by
    rw [hd.follows.length, hshown, List.length_append, hb.follows.length]
    rfl
  have hnew : ((d.handler b.handlers.length).fields, (d.handler b.handlers.length).listener) =
      (fields, listener) := by
    have hget := getElem?_alerts (Nat.lt_of_lt_of_eq (Nat.lt_succ_self _) hlength.symm)
    rw [hd.follows.made, hshown, hb.follows.length, List.getElem?_concat_length] at hget
    rw [hb.follows.length]
    exact (Option.some.inj hget).symm
  have hpresent : d.phase b.handlers.length ≠ .unregistered := by
    rw [hu.phase]
    exact Phase.noConfusion
  have hflushed : (d.flush 0).Heeds identity p' ∧ ∃ reported, (d.flush 0).Sound false {}
      { founded with reported } :=
    workOff_induction (P := fun d => d.Heeds identity p' ∧ ∃ reported, d.Sound false {}
        { founded with reported })
      (fun d ⟨hd, reported, hs⟩ => ⟨hd.work hs.jobs, reported, hs.work hd.follows.steady.faults⟩) _
      ⟨hd, reported, hsound⟩
  have hsteady := hd.follows.steady
  have hflush := flush_single hsteady hsound.jobs hu.inside hu.jobs hpresent
  have hsaid := says_flush_single hsteady hsound.jobs hu.inside hu.jobs hpresent
  rw [(Prod.mk.inj hnew).1, (Prod.mk.inj hnew).2] at hsaid
  refine ⟨⟨hflushed.1, hflushed.2, isIdle_workOff hsound hsteady (Nat.le_refl _), ?_,
    hsaid.points (hu.said.points hb.points)⟩, ?_⟩
  · have hall : (d.flush 0).line 0 = d.line 0 := by
      rw [hflush, (tidies_letGo _).toStirs.line, tidies_announce.toStirs.line,
        (hsteady.entered hu.jobs hu.inside).line_resolved, hsteady.line_entered hu.jobs]
    have hlater : (d.flush 0).handlers.length = b.handlers.length + 1 := by
      rw [hflushed.1.follows.length, ← hd.follows.length, hlength]
    rw [hall, hlater, hu.line, hb.tried, List.range_succ]
  · rw [hsaid.told, hu.said.told, List.append_assoc, hb.follows.length]

/-- An alert that a coordinator takes, before its worker gets to it. -/
theorem ushers (hb : b.Rests identity p) (fields : Snapshot) (listener : Option ListenerId) :
    Ushers ((p.table.get? fields.name).toList.flatMap (b.farewell none)) b
      { ((b.ownCoordinator 0).create { fields, listener, registry := some 0 }).2.presented
          { registry := 0, station := 0, suppressed := p.suppressed, identity }
          b.handlers.length with
        coordinators := b.coordinators } := by
  generalize he : ((b.ownCoordinator 0).create { fields, listener, registry := some 0 }).2 = e
  have howned : b.Stirs (b.ownCoordinator 0) := stirs_of_handlers rfl rfl rfl
  have hcreated : b.Stirs e := he ▸ howned.trans (stirs_create rfl rfl rfl)
  have hmade : Says [] b e := by
    have hsame : Says [] b (b.ownCoordinator 0) :=
      says_of_handlers rfl rfl (List.append_nil _).symm
    exact he ▸ hsame.after (says_create rfl)
  have hlength : e.handlers.length = b.handlers.length + 1 := by
    rw [← he]
    exact List.length_append
  have hlt : b.handlers.length < e.handlers.length :=
    Nat.lt_of_lt_of_eq (Nat.lt_succ_self _) hlength.symm
  have hname : (e.handler b.handlers.length).name = fields.name := by
    rw [← he]
    exact congrArg Handler.name (handler_create_self b _)
  have hcurrent : e.current? 0 (e.handler b.handlers.length).name = p.table.get? fields.name := by
    rw [hname, ← hb.table, ← he]
    rfl
  have hold : ∀ x ∈ p.table.get? fields.name, x < b.handlers.length := fun x hx =>
    lt_of_phase_ne (by rw [(hb.get?_iff.mp hx).1]; exact Phase.noConfusion)
  have hnot : b.handlers.length ∉ p.table.get? fields.name := fun hx =>
    Nat.lt_irrefl _ (hold _ hx)
  have hstations : 0 < e.stations.length := by
    rw [hcreated.stations]
    exact hb.follows.steady.lt_stations
  have hfarewell : (p.table.get? fields.name).toList.flatMap (e.farewell none) =
      (p.table.get? fields.name).toList.flatMap (b.farewell none) :=
    List.flatMap_congr fun x hx => farewell_congr (by
      rw [← he]
      exact handler_create_of_ne (Nat.ne_of_lt (hold x (Option.mem_toList.mp hx))) _) none
  have htold := says_presented
    { registry := 0, station := 0, suppressed := p.suppressed, identity } hcurrent hnot
  obtain ⟨hjobs, hinside, hline, hphase⟩ := queue_presented
    { registry := 0, station := 0, suppressed := p.suppressed, identity } hstations hlt
    (by rw [hcurrent]; exact hnot)
  rw [hcreated.jobs, hb.jobs.2] at hjobs
  rw [hcreated.station, hb.jobs.1] at hinside
  rw [hcreated.line] at hline
  rw [hfarewell] at htold
  exact ⟨hmade.after (htold.silently (says_of_handlers rfl rfl (List.append_nil _).symm)), hline,
    hinside, hjobs, hphase⟩

/-- Showing an alert leaves the board in order. -/
theorem ordered_showAlert (hb : b.Rests identity p) (source : Source)
    (listener : Option ListenerId) :
    ∃ reported, (Board.showAlert 0 source listener b).quietly.2.Sound false {}
      { founded with reported } := by
  have hvoid : (Deed.showAlert 0 source listener).quietly b =
    (Board.showAlert 0 source listener b).quietly.2 := quietly_void _
  exact hvoid ▸ hb.ordered (d := .showAlert 0 source listener) (fun T hT => by
    change 0 ∈ T.founders
    exact hT ▸ List.mem_cons_self) fun _ => rfl

/-- An alert that is taken has a handler made and submitted. -/
theorem accepted (hb : b.Rests identity p) {source : Source} {fields : Snapshot}
    (hp : p.suppressed = false) (hr : source.read.result = .ok fields)
    (listener : Option ListenerId) :
    (Board.showAlert 0 source listener b).quietly.1 =
        some ⟨.ok (), source.read.called⟩ ∧
      Ushers ((p.table.get? fields.name).toList.flatMap (b.farewell none)) b
        (Board.showAlert 0 source listener b).quietly.2 := by
  have hco := hb.coordinator
  have hquietly := quietly_showAlert (hco ▸ hb.follows.steady) hb.owners source listener
  have hanswer : answerTo (b.coordinator 0) source = ⟨.ok (), source.read.called⟩ := by
    rw [hco, answerTo, hp, hr]
    rfl
  rw [hanswer, hco, offered_some rfl hp hr] at hquietly
  rw [hquietly]
  exact ⟨rfl, hb.ushers fields listener⟩

theorem serve_showAlert (hb : b.Rests identity p) (source : Source)
    (listener : Option ListenerId) : Serves visit identity p (.showAlert source listener) b
      (b.serve visit 0 (.showAlert source listener)) := by
  have hordered := hb.ordered_showAlert source listener
  have hact : ((Request.showAlert source listener).act visit 0 b).quietly =
      ((Board.showAlert 0 source listener b).quietly.1.map fun shown => .ofUnit shown.result,
        (Board.showAlert 0 source listener b).quietly.2) :=
    quietly_map (Board.showAlert 0 source listener b) fun shown => Reply.ofUnit shown.result
  have hheeds := hb.toHeeds.showAlert source listener
  have hco := hb.coordinator
  have hreplied : (answerTo (b.coordinator 0) source).result =
      if p.suppressed = true then .ok () else source.read.result.map fun _ => () := by
    rw [hco, answerTo]
    cases p.suppressed <;> rfl
  have hgreets : p.greets (.showAlert source listener) = p.takes source listener := rfl
  have hleaves : p.leaves visit (.showAlert source listener) = ((p.takes source listener).bind
    fun alert => p.table.get? alert.1.name).toList := rfl
  rcases p.offer_cases source listener with ⟨ht, -⟩ | ⟨fields, hp, hr, ht, -⟩
  · have hquietly := quietly_showAlert (hco ▸ hb.follows.steady) hb.owners source listener
    rw [offered_none (congrArg Coordinator.suppressed hco) ht] at hquietly
    rw [hquietly] at hact hordered hheeds
    rw [Option.map_some, hreplied] at hact
    rw [ht] at hleaves
    refine hb.quiet hact hheeds hordered (.refl b) ht ?_
    rw [hleaves]
    exact .refl b
  · obtain ⟨hanswer, hushers⟩ := hb.accepted hp hr listener
    rw [hanswer] at hact
    generalize (Board.showAlert 0 source listener b).quietly.2 = d at hact hordered hheeds hushers
    have hshown := p.shown_answer (.showAlert source listener)
    rw [hgreets, ht] at hshown
    have hrest := hb.flush hheeds hshown hordered hushers
    have hreply : p.reply (.showAlert source listener) = .ofUnit (.ok ()) := by
      rw [Plan.reply, hp, hr]
      rfl
    have hserve : b.serve visit 0 (.showAlert source listener) =
        (some (p.reply (.showAlert source listener)), d.flush 0) := by
      unfold Board.serve
      rw [hact, hreply]
      refine Prod.ext rfl ?_
      change d.flush (d.coordinator 0).station = _
      rw [hheeds.coordinator]
    rw [hserve]
    refine ⟨rfl, hrest.1, ?_⟩
    rw [hrest.2, hleaves, Plan.greeting, hgreets, ht, Option.toList_some, List.flatMap_singleton]
    rfl

/-- A request leaves a board at rest, and what comes of it is settled by the plan. -/
theorem serve (hb : b.Rests identity p) (visit : Visit) (r : Request) :
    Serves visit identity p r b (b.serve visit 0 r) := by
  cases r with
  | showAlert source listener => exact hb.serve_showAlert source listener
  | closeAlert name => exact hb.serve_closeAlert name
  | emit name outcome => exact hb.serve_emit name outcome
  | suppress suppressed => exact hb.serve_suppress suppressed
  | fire => exact hb.serve_fire

end Rests

end Board

end ToastBoard
