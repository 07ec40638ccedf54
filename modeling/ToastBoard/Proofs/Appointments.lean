import ToastBoard.Proofs.Departures
import ToastBoard.Proofs.Founding
import ToastBoard.Proofs.Precedence

/-!
# Appointments

A coordinator keeps the registry, the station and the identity that it was set up with, and a thread
keeps its name, whatever is done by whomever. So the identity that a coordinator tells is for all
time the one that the platform told, and its worker registers for all time on a thread of the name
that was asked for. Setting up panics if that name has a NUL, and fails as the platform does.
-/

namespace ToastBoard

open Board

variable {b b' : Board} {settings : Settings} {host : Host} {m : Moment} {s : StationId}
  {c : CoordinatorId} {h : HandlerId}

/-- What a coordinator is set up with. -/
def Coordinator.post (co : Coordinator) : RegistryId × StationId × Option String :=
  (co.registry, co.station, co.identity)

namespace Board

/-- What all coordinators are set up with. -/
def posts (b : Board) : List (RegistryId × StationId × Option String) :=
  b.coordinators.map Coordinator.post

/-- Coordinators keep what they were set up with, and threads their names. -/
structure Retains (b b' : Board) : Prop where
  /-- No coordinator is forgotten, and none gets another post. -/
  posts : b.posts <+: b'.posts
  /-- No thread is forgotten, and none gets another name. -/
  crew : b.crew <+: b'.crew

theorem readsCoordination_retains : ReadsCoordination Retains where
  trans h h' := ⟨h.posts.trans h'.posts, h.crew.trans h'.crew⟩
  sameCoordination h := ⟨by simp only [posts, h.coordinators, List.prefix_rfl], h.crew⟩

/-- Another number of owners or another mood is no other post. -/
theorem retains_updateCoordinator {f : Coordinator → Coordinator}
    (hf : ∀ co, (f co).post = co.post) : b.Retains (b.updateCoordinator c f) := by
  have hposts : (b.updateCoordinator c f).posts = b.posts := by
    refine List.ext_getElem? fun i => ?_
    simp only [posts, updateCoordinator, List.getElem?_map, List.getElem?_modify]
    cases b.coordinators[i]? with
    | none => rfl
    | some co =>
      by_cases hc : c = i
      · simp [hc, hf]
      · simp [hc]
  exact ⟨hposts ▸ List.prefix_rfl, List.prefix_rfl⟩

theorem retains_disownCoordinator (b : Board) (c : CoordinatorId) :
    b.Retains (b.disownCoordinator c) :=
  readsCoordination_retains.disownCoordinator (retains_updateCoordinator fun _ => rfl)

theorem retains_setUp (b : Board) (settings : Settings) (host : Host) :
    b.Retains (b.setUp settings host).2 := by
  rcases setUp_cases b settings host with ⟨worker, identity, -, he⟩ | ⟨he, -⟩
  · rw [he]
    exact ⟨⟨_, List.map_append.symm⟩, ⟨_, (crew_openStation worker).symm⟩⟩
  · rw [he]
    exact readsCoordination_retains.refl b

/-- In every turn of every deed. -/
theorem retains_deed (d : Deed) (b : Board) : (d.act b).Within Retains b := by
  have hown : ∀ (b : Board) c, b.Retains (b.ownCoordinator c) :=
    fun _ _ => retains_updateCoordinator fun _ => rfl
  cases hfire : d.fires with
  | true =>
    obtain ⟨visit, rfl⟩ := Deed.fires_iff.mp hfire
    have hall := within_fire readsCoordination_retains.handling (fun b c _ => hown b c)
        retains_disownCoordinator
      (fun _ => ⟨List.prefix_rfl, List.prefix_rfl⟩) visit b
    exact hall.andThen readsCoordination_retains.toTransits fun _ b =>
      readsCoordination_retains.refl b
  | false =>
    exact within_deed readsCoordination_retains hfire (fun c _ b' _ => hown b' c)
      retains_disownCoordinator
      (fun _ _ => retains_updateCoordinator fun _ => rfl) (retains_setUp b)

end Board

theorem within_retains (course : FreeCourse m) : m.Within Retains := by
  induction course with
  | start => exact List.forall_mem_nil _
  | step _ e allowed _ ih =>
    exact (ih.after allowed (by rintro d rfl; exact retains_deed d _)).2

theorem retains_of_open {events : List Event} (hm : m.Within Retains)
    (ho : Course.Open (fun _ _ => True) m events) :
    m.world.board.Retains (events.foldl Moment.after m).world.board := by
  induction events generalizing m with
  | nil => exact readsCoordination_retains.refl _
  | cons e rest ih =>
    obtain ⟨allowed, -, hrest⟩ := ho
    obtain ⟨hturn, hm'⟩ := hm.after allowed (by rintro d rfl; exact retains_deed d _)
    exact readsCoordination_retains.trans hturn (ih hm' hrest)

namespace Board

/-- What stands in a list remains there when more is added. -/
theorem getElem?_of_isPrefix {α : Type} {l l' : List α} {i : Nat} {a : α} (h : l <+: l')
    (ha : l[i]? = some a) : l'[i]? = some a := by
  obtain ⟨rest, rfl⟩ := h
  rw [List.getElem?_append_left (List.getElem?_eq_some_iff.mp ha).1, ha]

theorem post_of_getElem? {post : RegistryId × StationId × Option String}
    (h : b.posts[c]? = some post) : (b.coordinator c).post = post := by
  rw [posts, List.getElem?_map, Option.map_eq_some_iff] at h
  obtain ⟨co, hco, rfl⟩ := h
  rw [coordinator, List.getD_eq_getElem?_getD, hco, Option.getD_some]

theorem name_of_getElem? {name : String} (h : b.crew[s]? = some name) :
    (b.station s).worker.name = name := by
  rw [crew, List.getElem?_map, Option.map_eq_some_iff] at h
  obtain ⟨st, hst, rfl⟩ := h
  rw [station, List.getD_eq_getElem?_getD, hst, Option.getD_some]

/-- What a coordinator was set up with it keeps. -/
theorem Retains.post {post : RegistryId × StationId × Option String} (hb : b.Retains b')
    (h : b.posts[c]? = some post) : (b'.coordinator c).post = post :=
  post_of_getElem? (getElem?_of_isPrefix hb.posts h)

/-- The name that a thread was given it keeps. -/
theorem Retains.thread {name : String} (hb : b.Retains b') (h : b.crew[s]? = some name) :
    (b'.station s).worker.name = name :=
  name_of_getElem? (getElem?_of_isPrefix hb.crew h)

/-- A station with something to do was made. -/
theorem lt_of_queue {message : Message HandlerId} {rest : List (Message HandlerId)}
    (hq : (b.station s).worker.queue = message :: rest) : s < b.stations.length := by
  by_contra hs
  rw [station, List.getD_eq_getElem?_getD, List.getElem?_eq_none (Nat.not_lt.mp hs),
    Option.getD_none] at hq
  cases hq

/-- An attempt that begins at a station is made on its thread. -/
theorem exists_inside?_beginAttempt (hs : s < b.stations.length) :
    ∃ attempt, (b.beginAttempt s h).inside? s = some attempt ∧ attempt.handler = h ∧
      attempt.thread = (b.station s).worker.name := by
  have hstation : ((b.beginAttempt s h).station s).inside = some b.screen.attempts.length := by
    rw [beginAttempt, station_updateStation, if_pos ⟨rfl, hs⟩]
  have hattempts : (b.beginAttempt s h).screen.attempts = _ := attempts_attempt ..
  rw [inside?, hstation, hattempts, Option.bind_some, List.getElem?_concat_length]
  exact ⟨_, rfl, rfl, rfl⟩

/-- A worker that goes into an attempt does so on its own thread. -/
theorem thread_of_entered (he : (b.advance s).1 = .entered h) :
    ∃ attempt, (b.advance s).2.inside? s = some attempt ∧ attempt.handler = h ∧
      attempt.thread = (b.station s).worker.name := by
  unfold advance at he ⊢
  split at he
  · cases he
  · rename_i hinside
    rw [if_neg hinside]
    split at he
    · cases he
    · cases he
    · cases he
    · rename_i x rest hq
      simp only at he
      split at he
      · cases he
      · rename_i hphase
        cases he
        have hs := lt_of_queue hq
        have hlength : s < (b.setWorker s (b.station s).worker.next.2).stations.length := by
          rwa [setWorker, length_updateStation]
        simp only [if_neg hphase]
        obtain ⟨attempt, hattempt, hhandler, hthread⟩ :=
          exists_inside?_beginAttempt hlength (h := h)
        refine ⟨attempt, hattempt, hhandler, hthread.trans ?_⟩
        rw [setWorker, station_updateStation, if_pos ⟨rfl, hs⟩]
        exact Worker.name_next _

end Board

/-- Whether a platform leaves it to the worker whether a coordinator is set up. -/
def Host.Admits (host : Host) (settings : Settings) : Prop :=
  settings.testMode = true ∨ host.supported = true ∧ ∃ id, host.identity = .ok id

theorem Host.admits_iff : host.Admits settings ↔
    (host.identityFor settings.testMode).result = .ok host.identity.toOption := by
  rw [identityFor_ok_iff, and_iff_left rfl, Admits]

/-- Where a platform does not admit a coordinator, it says why. -/
theorem Host.identityFor_of_not_admits (h : ¬host.Admits settings) :
    ∃ failure asked, host.identityFor settings.testMode = ⟨.error failure, asked⟩ := by
  cases hi : (host.identityFor settings.testMode).result with
  | error failure => exact ⟨failure, _, congrArg (Reading.mk · _) hi⟩
  | ok identity => exact absurd (identityFor_ok_iff.mp hi).1 h

/-- What comes of setting up a coordinator on a board. -/
structure Board.Answers (b : Board) (settings : Settings) (host : Host) : Prop where
  /-- It panics if the worker is to be started under a name with a NUL, and only then. -/
  panics : (b.setUp settings host).1 = none ↔
    host.Admits settings ∧ '\x00' ∈ settings.dispatcherThreadName.toList
  /-- Under any other name, it is told that there is no thread, and why. -/
  refused : host.Admits settings → '\x00' ∉ settings.dispatcherThreadName.toList →
    ∀ reason, host.threadRefusal = some reason →
      (b.setUp settings host).1 = some ⟨.error (.workerCreation reason), Host.questions⟩
  /-- Otherwise a coordinator is set up. -/
  succeeds : (∃ c, (b.setUp settings host).1 = some ⟨.ok c, Host.questions⟩) ↔
    host.Admits settings ∧ '\x00' ∉ settings.dispatcherThreadName.toList ∧
      host.threadRefusal = none
  /-- Where none is set up nothing changes: nobody else observes the signal. -/
  failed : (∀ c asked, (b.setUp settings host).1 ≠ some ⟨.ok c, asked⟩) →
    (b.setUp settings host).2 = b

/-- A worker is not started under a name with a NUL, and else if there is a thread for it. -/
theorem Worker.start_eq (refusal : Option String) (name : String) :
    (Worker.start refusal name : Option (Except Failure (Worker HandlerId))) =
      if '\x00' ∈ name.toList then none
      else some (refusal.elim (.ok { name }) fun reason => .error (.workerCreation reason)) := by
  unfold Worker.start
  cases refusal <;> simp

/-- The four things that can come of setting up a coordinator. -/
theorem Board.setUp_outcomes (b : Board) (settings : Settings) (host : Host) :
    (¬host.Admits settings ∧ ∃ failure asked,
      b.setUp settings host = (some ⟨.error failure, asked⟩, b)) ∨
    (host.Admits settings ∧ '\x00' ∈ settings.dispatcherThreadName.toList ∧
      b.setUp settings host = (none, b)) ∨
    (host.Admits settings ∧ '\x00' ∉ settings.dispatcherThreadName.toList ∧
      ∃ reason, host.threadRefusal = some reason ∧
        b.setUp settings host =
          (some ⟨.error (.workerCreation reason), Host.questions⟩, b)) ∨
    (host.Admits settings ∧ '\x00' ∉ settings.dispatcherThreadName.toList ∧
      host.threadRefusal = none ∧
      b.setUp settings host = (some ⟨.ok b.coordinators.length, Host.questions⟩,
        (b.openCoordinator { name := settings.dispatcherThreadName }
          host.identity.toOption).2)) := by
  by_cases hi : host.Admits settings
  · have hresult := Host.admits_iff.mp hi
    have hidentity := Host.identityFor_eq_of_ok hresult
    have hstart := Worker.start_eq host.threadRefusal settings.dispatcherThreadName
    by_cases hname : '\x00' ∈ settings.dispatcherThreadName.toList
    · rw [if_pos hname] at hstart
      refine .inr (.inl ⟨hi, hname, ?_⟩)
      simp only [setUp, hidentity, hstart]
    · rw [if_neg hname] at hstart
      cases hrefusal : host.threadRefusal with
      | some reason =>
        rw [hrefusal] at hstart
        refine .inr (.inr (.inl ⟨hi, hname, reason, rfl, ?_⟩))
        simp only [setUp, hidentity, hrefusal, hstart, Option.elim]
      | none =>
        rw [hrefusal] at hstart
        rw [Option.elim_none, ← hrefusal] at hstart
        exact .inr (.inr (.inr ⟨hi, hname, rfl, setUp_ok hresult hstart⟩))
  · obtain ⟨failure, asked, hfailure⟩ := Host.identityFor_of_not_admits hi
    exact .inl ⟨hi, failure, asked, setUp_error hfailure⟩

/-- Nothing else comes of it. -/
theorem Board.answers (b : Board) (settings : Settings) (host : Host) :
    b.Answers settings host := by
  rcases b.setUp_outcomes settings host with ⟨hi, failure, asked, he⟩ | ⟨hi, hname, he⟩ |
    ⟨hi, hname, reason, hrefusal, he⟩ | ⟨hi, hname, hrefusal, he⟩
  · constructor <;> simp [he, hi]
  · constructor <;> simp [he, hi, hname]
  · constructor <;> simp [he, hi, hname, hrefusal]
  · constructor <;> simp [he, hi, hname, hrefusal]

/-- A coordinator that is set up has a fresh worker of the name that was asked for, and the identity
that the platform told. -/
theorem Board.appointed {b : Board} (h : (b.setUp settings host).1 = some ⟨.ok c, Host.questions⟩) :
    (b.setUp settings host).2.posts[c]? =
        some (b.registries.length, b.stations.length, host.identity.toOption) ∧
      (b.setUp settings host).2.crew[b.stations.length]? = some settings.dispatcherThreadName ∧
      ((b.setUp settings host).2.station b.stations.length).worker =
        { name := settings.dispatcherThreadName } := by
  rcases b.setUp_outcomes settings host with ⟨-, failure, asked, he⟩ | ⟨-, -, he⟩ |
    ⟨-, -, reason, -, he⟩ | ⟨-, -, -, he⟩
  · rw [he] at h
    cases h
  · rw [he] at h
    cases h
  · rw [he] at h
    cases h
  · rw [he] at h ⊢
    cases h
    have hposts : (b.openCoordinator { name := settings.dispatcherThreadName }
        host.identity.toOption).2.posts =
          b.posts ++ [(b.registries.length, b.stations.length, host.identity.toOption)] :=
      List.map_append
    have hcrew : (b.openCoordinator { name := settings.dispatcherThreadName }
        host.identity.toOption).2.crew = b.crew ++ [settings.dispatcherThreadName] :=
      crew_openStation _
    have hstation : ∀ d, (b.openCoordinator { name := settings.dispatcherThreadName }
        host.identity.toOption).2.stations.getD b.stations.length d =
          { worker := { name := settings.dispatcherThreadName } } := fun d =>
      (getD_concat ..).trans (if_pos rfl)
    refine ⟨?_, ?_, ?_⟩
    · have hlength : b.posts.length = b.coordinators.length := List.length_map _
      rw [hposts, ← hlength, List.getElem?_concat_length]
    · have hlength : b.crew.length = b.stations.length := List.length_map _
      rw [hcrew, ← hlength, List.getElem?_concat_length]
    · rw [station, hstation]

/-- What a coordinator was set up with, for all time. -/
theorem appointed_of_open (course : FreeCourse m)
    (hset : (m.world.board.setUp settings host).1 = some ⟨.ok c, Host.questions⟩)
    {events : List Event}
    (ho : Course.Open (fun _ _ => True) (m.after (.deed (.setUp settings host))) events) :
    ((events.foldl Moment.after (m.after (.deed (.setUp settings host)))).world.board.coordinator
        c).post =
      (m.world.board.registries.length, m.world.board.stations.length, host.identity.toOption) ∧
    ((events.foldl Moment.after (m.after (.deed (.setUp settings host)))).world.board.station
        m.world.board.stations.length).worker.name = settings.dispatcherThreadName := by
  obtain ⟨hpost, hname, -⟩ := appointed hset
  have hcourse := course.step (.deed (.setUp settings host)) trivial trivial
  have hretains := retains_of_open (within_retains hcourse) ho
  exact ⟨hretains.post hpost, hretains.thread hname⟩

/-- The worker of a coordinator has a thread of this name, and each of its registrations is made on
it. -/
structure Board.Staffs (b : Board) (c : CoordinatorId) (name : String) : Prop where
  /-- The thread has this name. -/
  thread : (b.station (b.coordinator c).station).worker.name = name
  /-- Whenever the worker goes into an attempt to register, it does so on this thread. -/
  entered : ∀ h, (b.advance (b.coordinator c).station).1 = .entered h → ∃ attempt,
    (b.advance (b.coordinator c).station).2.inside? (b.coordinator c).station = some attempt ∧
      attempt.handler = h ∧ attempt.thread = name

/-- At any moment of a course, setting up a coordinator panics exactly if its worker is to be
started under a name with a NUL; otherwise it fails for the reason that the platform gives and
changes nothing, or there is a coordinator with a fresh worker, and whatever happens then, each of
its registrations is made on a thread of the name that was asked for. -/
theorem setUp_answers (course : FreeCourse m) (settings : Settings) (host : Host) :
    m.world.board.Answers settings host ∧
    ∀ c, (m.world.board.setUp settings host).1 = some ⟨.ok c, Host.questions⟩ →
      (∃ s, ((m.world.board.setUp settings host).2.coordinator c).station = s ∧
        ((m.world.board.setUp settings host).2.station s).worker =
          { name := settings.dispatcherThreadName }) ∧
      ∀ events, Course.Open (fun _ _ => True) (m.after (.deed (.setUp settings host))) events →
        (events.foldl Moment.after (m.after (.deed (.setUp settings host)))).world.board.Staffs c
          settings.dispatcherThreadName := by
  refine ⟨m.world.board.answers settings host, fun c hset => ?_⟩
  obtain ⟨hpost, -, hworker⟩ := appointed hset
  refine ⟨⟨_, congrArg (·.2.1) (post_of_getElem? hpost), hworker⟩, fun events ho => ?_⟩
  obtain ⟨hpost, hname⟩ := appointed_of_open course hset ho
  have hstation := congrArg (·.2.1) hpost
  simp only [Coordinator.post] at hstation
  rw [← hstation] at hname
  refine ⟨hname, fun h hentered => ?_⟩
  obtain ⟨attempt, hinside, hhandler, hthread⟩ := thread_of_entered hentered
  exact ⟨attempt, hinside, hhandler, hthread.trans hname⟩

/-- Under a name with a NUL nothing is set up; where the platform makes no thread that is told; and
otherwise there is a coordinator. -/
theorem setUp_answers_threads :
    (({} : Board).setUp { dispatcherThreadName := "a\x00b" } ⟨true, .ok "id", none⟩).1 = none ∧
    (({} : Board).setUp {} ⟨true, .ok "id", some "too many"⟩).1 =
      some ⟨.error (.workerCreation "too many"), Host.questions⟩ ∧
    (((({} : Moment).after (.deed (.setUp {} ⟨true, .ok "id", none⟩))).after
      (.deed (.suppress 0 true))).world.board.station 0).worker.name = "ToastBgThread" := by
  have hadmits : ∀ settings refusal, Host.Admits ⟨true, .ok "id", refusal⟩ settings :=
    fun _ _ => .inr ⟨rfl, "id", rfl⟩
  refine ⟨?_, ?_, ?_⟩
  · exact (setUp_answers .start _ _).1.panics.mpr ⟨hadmits _ _, by decide⟩
  · exact (setUp_answers .start _ _).1.refused (hadmits _ _) (by decide) "too many" rfl
  · obtain ⟨-, hstaffs⟩ := (setUp_answers .start {} ⟨true, .ok "id", none⟩).2 0 (by rfl)
    exact (hstaffs [.deed (.suppress 0 true)] ⟨List.mem_singleton_self _, trivial, trivial⟩).thread

/-- Settings can be read from a text in which the name of the thread has a NUL; with them setting up
panics on every board. -/
theorem setUp_panics_under_nul : ∃ settings,
    Settings.encoding.read? "\x7b\"dispatcherThreadName\":\"a\\u0000b\"\x7d" = some settings ∧
      ∀ b : Board, b.setUp settings ⟨true, .ok "com.example.test", none⟩ = (none, b) := by
  have hspelled : (Json.object [("dispatcherThreadName", .string "a\x00b")]).IsSpelledBy
      "\x7b\"dispatcherThreadName\":\"a\\u0000b\"\x7d" := by
    exact @Json.isSpelledBy_blanks _ [] _ (Json.IsNumberless.isSpelled (by decide +kernel))
      (List.forall_mem_nil _) (by decide +kernel)
  refine ⟨{ dispatcherThreadName := "a\x00b" }, ?_, fun b => ?_⟩
  · rw [Encoding.read?, hspelled.read_eq]
    decide +kernel
  · have hadmits : Host.Admits ⟨true, .ok "com.example.test", none⟩
        { dispatcherThreadName := "a\x00b" } := .inr ⟨rfl, _, rfl⟩
    rcases b.setUp_outcomes { dispatcherThreadName := "a\x00b" } _ with ⟨hno, -⟩ | ⟨-, -, he⟩ |
      ⟨-, hno, -⟩ | ⟨-, hno, -⟩
    · exact absurd hadmits hno
    · exact he
    · exact absurd (by decide) hno
    · exact absurd (by decide) hno

/-- A configured identity comes from the environment or from the file. Wherever it comes from, the
coordinator tells for all time the identity that the platform told, so the configured one exactly if
that is the same; and with any other configured identity setting up comes to the same. -/
theorem configured_identity_unheeded (course : FreeCourse m) {file : SettingsFile}
    {dotEnv : DotEnvFile} {e : Environment} {configured : String}
    (hload : Settings.load file dotEnv e = some settings)
    (hconfigured : settings.appUserModelId = some configured)
    (hset : (m.world.board.setUp settings host).1 = some ⟨.ok c, Host.questions⟩) :
    (∃ E, e.withFile? dotEnv = some E ∧
      (E.text? Settings.appUserModelIdVariable = some configured ∨
        (Settings.ofFile file).appUserModelId = some configured)) ∧
    (∀ events, Course.Open (fun _ _ => True) (m.after (.deed (.setUp settings host))) events →
      ((events.foldl Moment.after (m.after (.deed (.setUp settings host)))).world.board.coordinator
          c).identity = host.identity.toOption ∧
      (((events.foldl Moment.after (m.after (.deed (.setUp settings host)))).world.board.coordinator
          c).identity = some configured ↔ host.identity = .ok configured)) ∧
    ∀ other, m.world.board.setUp { settings with appUserModelId := other } host =
      m.world.board.setUp settings host := by
  refine ⟨?_, fun events ho => ?_, fun other => rfl⟩
  · obtain ⟨E, hE, rfl⟩ := Option.map_eq_some_iff.mp hload
    refine ⟨E, hE, ?_⟩
    simp only [Settings.override] at hconfigured
    split at hconfigured
    · rename_i text htext
      split at hconfigured
      · exact .inr hconfigured
      · exact .inl (htext.trans hconfigured)
    · exact .inr hconfigured
  · have hidentity := congrArg (·.2.2) (appointed_of_open course hset ho).1
    simp only [Coordinator.post] at hidentity
    refine ⟨hidentity, ?_⟩
    rw [hidentity]
    cases host.identity <;> simp [Except.toOption]

/-- A file that configures an identity. -/
def identityFile : SettingsFile :=
  .contents "\x7b\"appUserModelId\":\"com.example.configured\"\x7d".toUTF8

/-- What is loaded of the file where nothing is set. -/
theorem load_identityFile : Settings.load identityFile .absent {} =
    some { appUserModelId := some "com.example.configured" } := by
  have hspelled : (Json.object [("appUserModelId", .string "com.example.configured")]).IsSpelledBy
      "\x7b\"appUserModelId\":\"com.example.configured\"\x7d" := by
    exact @Json.isSpelledBy_blanks _ [] _ (Json.IsNumberless.isSpelled (by decide +kernel))
      (List.forall_mem_nil _) (by decide +kernel)
  have hholds : identityFile.Holds { appUserModelId := some "com.example.configured" } := by
    refine ⟨_, rfl, ?_⟩
    rw [Encoding.read?, hspelled.read_eq]
    decide +kernel
  have hunset : ∀ name, ({} : Environment).bytes? name = none := fun _ => rfl
  rw [Settings.load_eq rfl, Settings.ofFile_of_holds hholds,
    Settings.override_of_unset _ _ (hunset _) (hunset _)]

/-- The platform tells another identity than the file, and the coordinator tells that one. -/
theorem configured_identity_unheeded_filed :
    ((({} : Moment).after (.deed (.setUp { appUserModelId := some "com.example.configured" }
      ⟨true, .ok "com.example.probed", none⟩))).world.board.coordinator 0).identity =
        some "com.example.probed" :=
  ((configured_identity_unheeded .start load_identityFile rfl (by rfl)).2.1 [] trivial).1

/-- The identity in a file is loaded, a coordinator is set up with it, and it tells another. -/
theorem configured_identity_not_told : ∃ settings,
    Settings.load identityFile .absent {} = some settings ∧
      settings.appUserModelId = some "com.example.configured" ∧
      (({} : Board).setUp settings ⟨true, .ok "com.example.probed", none⟩).1 =
        some ⟨.ok 0, Host.questions⟩ ∧
      ((({} : Board).setUp settings ⟨true, .ok "com.example.probed", none⟩).2.coordinator
        0).identity ≠ some "com.example.configured" :=
  ⟨_, load_identityFile, rfl, rfl, by decide⟩

end ToastBoard
