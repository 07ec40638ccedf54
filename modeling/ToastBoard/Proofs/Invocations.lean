import ToastBoard.CommandLine
import ToastBoard.Proofs.Assignments
import ToastBoard.Proofs.Founding
import ToastBoard.Proofs.Getters
import ToastBoard.Proofs.Names

/-!
# Invocations

What the program does with its arguments, a file of variables and an environment. It gives up for
the first of four reasons, with one line that says why; or it writes the payload of the alert; or it
writes one line when the alert is shown and one when it is gone, whatever stands in the alert. Only
a file of variables with a NUL can make it do anything else: it panics where a variable would have
to be set to a value that none can have.
-/

namespace ToastBoard

namespace Alert

/-- What is read from a plain alert. -/
def snapshot (a : Alert) : Snapshot where
  cookie := a.cookie
  name := a.name
  title := a.title
  text := a.text
  textClickable := a.textClickable
  source := a.source
  requireInteraction := a.requireInteraction
  actions := a.actions
  imageUrl := a.imageUrl

/-- A plain alert with a name is read as it is. -/
theorem read_asSource {a : Alert} (h : a.name ≠ "") :
    a.asSource.read.result = .ok a.snapshot := by
  have hname : a.asSource.name ≠ .ok "" := fun h' => h (Except.ok.inj h')
  have hanswered : ∀ g ∈ a.asSource.getters, g.2 = none := by
    simp [Source.getters, asSource, Answer.error?]
  rw [Source.read_eq_through hname, Reading.through_answered hanswered]
  rfl

/-- An alert without a name is not read. -/
theorem read_asSource_of_nameless {a : Alert} (h : a.name = "") :
    a.asSource.read.result = .error (.invalidArgument "alert name is empty") := by
  have hname : a.asSource.name = .ok "" := congrArg Except.ok h
  have hanswered : ∀ g ∈ a.asSource.getters.take 2, g.2 = none := by
    simp [Source.getters, asSource, Answer.error?]
  rw [Source.read_eq_through_of_nameless hname, Reading.through_answered hanswered]
  rfl

end Alert

namespace Board

variable {b d : Board} {identity : Option String} {p p' : Plan} {news : List Telling}
  {fields : Snapshot}

theorem quietly_eq {α : Type} (act : Act α) (b : Board) : quietly act b = (act b).quietly :=
  ((act b).quietly_eq_run b).symm

/-- For a worker with a single job one round of work is all there is to do. -/
theorem workOnce_of_ushers (hd : d.Heeds identity p')
    (hsound : ∃ reported, d.Sound false {} { founded with reported }) (hu : Ushers news b d) :
    d.workOnce 0 = d.flush 0 := by
  obtain ⟨reported, hsound⟩ := hsound
  have hsteady := hd.follows.steady
  have hpresent : d.phase b.handlers.length ≠ .unregistered := by
    rw [hu.phase]
    exact Phase.noConfusion
  have hfirst := work_single hsteady hsound.jobs hu.inside hu.jobs hpresent
  have hadvance : (d.advance 0).2 = d.work 0 := by
    rw [work, hu.inside]
    rfl
  obtain ⟨a, -, -, -, hstation⟩ := hsteady.beginAttempt hu.jobs
  have hload : d.workload 0 = 2 := by
    rw [workload, hu.inside, hu.jobs]
    rfl
  rw [flush, hload]
  change _ = work 0 (work 0 d)
  rw [workOnce, hadvance, quietly_eq, hfirst, work, if_pos (by rw [hstation]; rfl)]

/-- When the signal fires, those who stand in the table say farewell. -/
theorem told_fire (hb : b.Rests identity p) (hf : p.fired = false) :
    (quietly (fire .inTurn) b).2.told = b.told ++ p.table.handlers.flatMap (b.farewell none) := by
  have hquietly := quietly_fire_once .inTurn hb.owners (by rw [hb.follows.signal, hf]; rfl)
  have hregistry : (b.fired.ownCoordinator 0).registry 0 = p.table := hb.follows.registry
  have hnodup : ((b.fired.ownCoordinator 0).registry 0).handlers.Nodup := by
    rw [hregistry]
    exact (List.nodup_append.mp hb.whole.once).1
  have htold := says_drainedIn .inTurn hnodup
  rw [quietly_eq, hquietly, hb.coordinator]
  rw [hregistry] at htold
  exact htold.told

/-- A live handler with a listener says that it is gone. -/
theorem farewell_of_live {h : HandlerId} {listener : ListenerId} (hp : b.phase h = .live)
    (hmade : b.alerts[h]? = some (fields, some listener)) :
    b.farewell none h = [⟨h, ⟨.finished, fields.cookie, none⟩⟩] := by
  have hlt : h < b.handlers.length := lt_of_phase_ne (by rw [hp]; exact Phase.noConfusion)
  rw [getElem?_alerts hlt] at hmade
  obtain ⟨rfl, hlistener⟩ := Prod.mk.inj (Option.some.inj hmade)
  rw [farewell_none, parting, if_pos ⟨hp, by rw [hlistener]; exact Option.some_ne_none _⟩]
  rfl

/-- An alert that is taken is shown once the worker has worked. -/
theorem shown_workOnce (hb : b.Rests identity p) {source : Source} (hp : p.suppressed = false)
    (hr : source.read.result = .ok fields) (listener : Option ListenerId) :
    ∃ d, quietly (showAlert 0 source listener) b = (some ⟨.ok (), source.read.called⟩, d) ∧
      (d.workOnce (d.coordinator 0).station).Rests identity (p.offer source listener) ∧
      (d.workOnce (d.coordinator 0).station).told = b.told ++
        ((p.table.get? fields.name).toList.flatMap (b.farewell none) ++
          (Story.begun fields listener).heard.map fun n => ⟨p.shown.length, n⟩) := by
  obtain ⟨hanswer, hushers⟩ := hb.accepted hp hr listener
  have hheeds := hb.toHeeds.showAlert source listener
  have hordered := hb.ordered_showAlert source listener
  have hshown : (p.offer source listener).shown = p.shown ++ [(fields, listener)] := by
    rw [Plan.offer, hp, hr]
    rfl
  refine ⟨(showAlert 0 source listener b).quietly.2, ?_, ?_⟩
  · rw [quietly_eq, ← hanswer]
  · have hwork := workOnce_of_ushers hheeds hordered hushers
    rw [hheeds.coordinator, hwork]
    exact hb.flush hheeds hshown hordered hushers

/-- An alert that is shown where nothing was told yet is told about twice: when it is shown, and
when the interrupt ends it. -/
theorem showUntilInterrupted_eq (hb : b.Rests identity {}) (htold : b.told = []) {alert : Alert}
    (hr : alert.asSource.read.result = .ok fields) : b.showUntilInterrupted 0 alert =
      .waits (noticeLines [⟨0, ⟨.shown, fields.cookie, none⟩⟩])
        (noticeLines [⟨0, ⟨.finished, fields.cookie, none⟩⟩]) := by
  obtain ⟨d, hasked, hrests, hsaid⟩ := shown_workOnce hb rfl hr (some 0)
  have hplan : ({} : Plan).offer alert.asSource (some 0) =
      { shown := [(fields, some 0)], table := ({} : Registry).insert fields.name 0 } := by
    rw [Plan.offer, hr]
    rfl
  rw [hplan] at hrests
  rw [showUntilInterrupted, hasked]
  simp only
  generalize d.workOnce (d.coordinator 0).station = shown at *
  have hshown : shown.told = [⟨0, ⟨.shown, fields.cookie, none⟩⟩] := by
    rw [hsaid, htold]
    rfl
  have hlive : shown.phase 0 = .live := hrests.live_iff.mpr List.mem_cons_self
  have hfarewell : shown.farewell none 0 = [⟨0, ⟨.finished, fields.cookie, none⟩⟩] :=
    farewell_of_live hlive (by rw [hrests.follows.made]; rfl)
  have hended : (quietly (fire .inTurn) shown).2.told =
      shown.told ++ [0].flatMap (shown.farewell none) :=
    told_fire hrests rfl
  rw [hended, List.flatMap_singleton, hfarewell, hshown]
  rfl

/-- An alert that cannot be read is refused. -/
theorem showUntilInterrupted_refused (hb : b.Rests identity {}) {alert : Alert} {e : Failure}
    (hr : alert.asSource.read.result = .error e) :
    b.showUntilInterrupted 0 alert = .refused (.failure e) := by
  have hco := hb.coordinator
  have hanswer : answerTo (b.coordinator 0) alert.asSource =
      ⟨.error e, alert.asSource.read.called⟩ := by
    rw [hco, answerTo, hr]
    rfl
  have hquietly := quietly_showAlert (hco ▸ hb.follows.steady) hb.owners alert.asSource (some 0)
  rw [hanswer] at hquietly
  rw [showUntilInterrupted, quietly_eq, hquietly]

/-- The payload of an alert that is read. -/
theorem writePayload_eq (hb : b.Rests identity {}) {alert : Alert}
    (hr : alert.asSource.read.result = .ok fields) :
    b.writePayload alert = .done (Markup.toast fields fields.imageUrl ++ "\n") := by
  rw [writePayload, renderOnly, hr]
  simp only [render, Screen.render, hb.follows.steady.faults]

/-- No payload is written for an alert that is refused. -/
theorem writePayload_refused {alert : Alert} {e : Failure}
    (hr : alert.asSource.read.result = .error e) :
    b.writePayload alert = .refused (.failure e) := by
  rw [writePayload, renderOnly, hr]

/-- Without test mode the platform at hand is not enough. -/
theorem setUpHere_untested {settings : Settings} (h : settings.testMode = false) :
    setUpHere settings = some (.error .unsupportedPlatform) := by
  have hidentity : Host.bare.identityFor settings.testMode =
      ⟨.error .unsupportedPlatform, ["supported"]⟩ := by
    rw [h]
    exact Host.identityFor_unsupported rfl
  rw [setUpHere, setUp_error hidentity]

/-- In test mode a coordinator without an identity is set up. -/
theorem setUpHere_tested {settings : Settings} (h : settings.testMode = true)
    (hname : settings.dispatcherThreadName = "ToastBgThread") :
    setUpHere settings = some (.ok (0, fresh "ToastBgThread" none)) := by
  have hidentity : (Host.bare.identityFor settings.testMode).result = .ok none :=
    Host.identityFor_ok_iff.mpr ⟨.inl h, rfl⟩
  have hworker : (Worker.start Host.bare.threadRefusal settings.dispatcherThreadName :
      Option (Except Failure (Worker HandlerId))) = some (.ok { name := "ToastBgThread" }) := by
    rw [hname]
    rfl
  rw [setUpHere, setUp_ok hidentity hworker]
  rfl

end Board

/-- A line that is written for a notice has no control characters and is read as the notice. -/
structure Notice.IsWritten (n : Notice) (line : String) : Prop where
  /-- It is one line. -/
  single : ∀ c ∈ line.toList, 0x20 ≤ c.toNat
  /-- It is read as the notice. -/
  read : Notice.encoding.read? line = some n

/-- What is written of a notice is read back as that notice. -/
theorem Notice.isWritten_toJson (n : Notice) : n.IsWritten n.toJson.write where
  single _ hc := n.isNumberless_toJson.toNat_of_mem_write hc
  read := Encoding.read?_write n.isNumberless_toJson n.ofJson?_toJson

/-- One notice is written on one line. -/
theorem Board.noticeLines_singleton (t : Telling) :
    noticeLines [t] = t.notice.toJson.write ++ "\n" := by
  simp [noticeLines, String.join]

namespace Transcript

/-- The program gives up for a reason. -/
structure GivesUp (t : Transcript) (reason : Complaint) : Prop where
  /-- It fails. -/
  exitCode : t.exitCode = 1
  /-- It writes nothing to the standard output. -/
  output : t.output = ""
  /-- It says why. -/
  complaintLine : t.complaintLine = some ("Error: " ++ reason.message)

theorem givesUp_refused (reason : Complaint) : (refused reason).GivesUp reason := ⟨rfl, rfl, rfl⟩

end Transcript

namespace Invocation

/-- Whether the first argument is the flag. -/
def Rendering (args : List String) : Prop := args.head? = some "--render"

instance (args : List String) : Decidable (Rendering args) := inferInstanceAs (Decidable (_ = _))

/-- The text of the alert among the arguments: the second one after the flag, and else the first. -/
def text? (args : List String) : Option String := if Rendering args then args[1]? else args[0]?

/-- The alert in the arguments, if there is one. -/
def alert? (args : List String) : Option Alert := (text? args).bind Alert.encoding.read?

/-- What the program is to do with its arguments, where test mode is on or not. -/
structure Fits (args : List String) (testMode : Bool) (t : Transcript) : Prop where
  /-- Without a text it says how it is used. -/
  usage : text? args = none → t.GivesUp .usage
  /-- A text that does not decode is no alert. -/
  undecodable : ∀ text, text? args = some text → Alert.encoding.read? text = none →
    t.GivesUp .invalidAlert
  /-- Without test mode the platform has no toasts. -/
  untested : ∀ alert, alert? args = some alert → testMode = false →
    t.GivesUp (.failure .unsupportedPlatform)
  /-- An alert has to have a name. -/
  nameless : ∀ alert, alert? args = some alert → testMode = true → alert.name = "" →
    t.GivesUp (.failure (.invalidArgument "alert name is empty"))
  /-- With the flag it writes the payload with the picture of the alert, and ends well. -/
  rendered : ∀ alert, alert? args = some alert → testMode = true → alert.name ≠ "" →
    Rendering args → t.exitCode = 0 ∧ t.output = Markup.toast alert.snapshot alert.imageUrl ++ "\n"
  /-- Without the flag it writes a line when the alert is shown, waits for the interrupt, writes a
  line when the alert is gone, and ends well. -/
  shown : ∀ alert, alert? args = some alert → testMode = true → alert.name ≠ "" →
    ¬Rendering args → t.exitCode = 0 ∧ ∃ first second,
      t = .waits (first ++ "\n") (second ++ "\n") ∧ t.output = first ++ "\n" ++ (second ++ "\n") ∧
      Notice.IsWritten ⟨.shown, alert.cookie, none⟩ first ∧
      Notice.IsWritten ⟨.finished, alert.cookie, none⟩ second

/-- A transcript is as promised for arguments, a file of variables and an environment. Test mode is
on if its variable is set once the file has completed the environment; where it cannot be completed
either mode will do. -/
def Kept (args : List String) (dotEnv : DotEnvFile) (e : Environment) (t : Transcript) : Prop :=
  ∃ testMode, (∀ E, e.withFile? dotEnv = some E →
    testMode = (E.bytes? Settings.testProfileVariable).isSome) ∧ Fits args testMode t

variable {args : List String} {dotEnv : DotEnvFile} {e E : Environment} {alert : Alert}
  {settings : Settings}

/-- A request is whether to render, and what. -/
theorem request_eq (args : List String) :
    request args = (decide (Rendering args), text? args) := by
  unfold request text? Rendering
  split
  · rename_i rest
    cases rest <;> simp
  · rename_i hflag
    cases args with
    | nil => simp
    | cons first rest =>
      have hfirst : first ≠ "--render" := fun h => hflag rest (by rw [h])
      simp [hfirst]

/-- Without a text, the program explains its use. -/
theorem givesUp_of_textless (h : text? args = none) : (run args dotEnv e).GivesUp .usage := by
  rw [run, ofArguments, request_eq, h]
  exact Transcript.givesUp_refused _

/-- A text that is no alert is refused. -/
theorem givesUp_of_undecodable {text : String} (h : text? args = some text)
    (hread : Alert.encoding.read? text = none) : (run args dotEnv e).GivesUp .invalidAlert := by
  have hnone : (Json.read text).bind Alert.ofJson? = none := hread
  rw [run, ofArguments, request_eq, h]
  simp only [hnone]
  exact Transcript.givesUp_refused _

/-- An alert among the arguments is what is asked for. -/
theorem ofArguments_of_alert (h : alert? args = some alert) :
    ofArguments args = .ok ⟨decide (Rendering args), alert⟩ := by
  obtain ⟨text, htext, hread⟩ := Option.bind_eq_some_iff.mp h
  have hsome : (Json.read text).bind Alert.ofJson? = some alert := hread
  rw [ofArguments, request_eq, htext]
  simp only [hsome]

/-- Where the environment cannot be completed an alert makes the program panic. -/
theorem run_panics (h : alert? args = some alert) (hE : e.withFile? dotEnv = none) :
    run args dotEnv e = .panicked := by
  rw [run, ofArguments_of_alert h, Settings.ofEnvironment, hE]
  rfl

/-- What is done for an alert, once the file was read, depends on the settings. -/
theorem run_completed (h : alert? args = some alert) (hE : e.withFile? dotEnv = some E) :
    run args dotEnv e =
      carryOut ⟨decide (Rendering args), alert⟩ (({} : Settings).override E) := by
  rw [run, ofArguments_of_alert h, Settings.ofEnvironment, hE]
  rfl

/-- The environment decides whether the program is in test mode. -/
theorem testMode_override (E : Environment) : (({} : Settings).override E).testMode =
    (E.bytes? Settings.testProfileVariable).isSome := by
  unfold Settings.testMode Settings.override
  cases E.bytes? Settings.testProfileVariable <;> rfl

/-- Without test mode, the program has no platform to show anything on. -/
theorem carryOut_untested (i : Invocation) (hmode : settings.testMode = false) :
    i.carryOut settings = .refused (.failure .unsupportedPlatform) := by
  rw [carryOut, Board.setUpHere_untested hmode]

/-- In test mode an alert is rendered, or shown until it is interrupted. -/
theorem carryOut_tested (i : Invocation) (hmode : settings.testMode = true)
    (hname : settings.dispatcherThreadName = "ToastBgThread") : i.carryOut settings =
      if i.renderOnly then (Board.fresh "ToastBgThread" none).writePayload i.alert
      else (Board.fresh "ToastBgThread" none).showUntilInterrupted 0 i.alert := by
  rw [carryOut, Board.setUpHere_tested hmode hname]

/-- Where the environment can be completed the program does what it is to do. -/
theorem fits_run (args : List String) (hE : e.withFile? dotEnv = some E) :
    Fits args (E.bytes? Settings.testProfileVariable).isSome (run args dotEnv e) := by
  have hrests := Board.rests_fresh "ToastBgThread" none
  refine ⟨givesUp_of_textless, fun _ => givesUp_of_undecodable, ?_, ?_, ?_, ?_⟩
  · intro alert h hmode
    rw [← testMode_override] at hmode
    rw [run_completed h hE, carryOut_untested _ hmode]
    exact Transcript.givesUp_refused _
  · intro alert h hmode hname
    have hread := Alert.read_asSource_of_nameless hname
    rw [← testMode_override] at hmode
    rw [run_completed h hE, carryOut_tested _ hmode rfl]
    split
    · rw [Board.writePayload_refused hread]
      exact Transcript.givesUp_refused _
    · rw [Board.showUntilInterrupted_refused hrests hread]
      exact Transcript.givesUp_refused _
  · intro alert h hmode hname hflag
    have hread := Alert.read_asSource hname
    rw [← testMode_override] at hmode
    rw [run_completed h hE, carryOut_tested _ hmode rfl, if_pos (decide_eq_true hflag),
      Board.writePayload_eq hrests hread]
    exact ⟨rfl, rfl⟩
  · intro alert h hmode hname hflag
    have hread := Alert.read_asSource hname
    rw [← testMode_override] at hmode
    rw [run_completed h hE, carryOut_tested _ hmode rfl, if_neg (by simpa using hflag),
      Board.showUntilInterrupted_eq hrests rfl hread, Board.noticeLines_singleton,
      Board.noticeLines_singleton]
    exact ⟨rfl, _, _, rfl, rfl, Notice.isWritten_toJson _, Notice.isWritten_toJson _⟩

/-- Only the flag and the text of the alert count among the arguments. -/
theorem run_congr {others : List String} (hflag : Rendering others ↔ Rendering args)
    (htext : text? others = text? args) : run others dotEnv e = run args dotEnv e := by
  rw [run, run, ofArguments, ofArguments, request_eq, request_eq, htext, decide_eq_decide.mpr hflag]

/-- A panic is never as promised where there is an alert. -/
theorem not_fits_panicked (h : alert? args = some alert) (testMode : Bool) :
    ¬Fits args testMode .panicked := by
  intro hfits
  have hfailed : ¬Transcript.panicked.exitCode = 1 := by decide
  have hended : ¬Transcript.panicked.exitCode = 0 := by decide
  cases testMode with
  | false => exact hfailed (hfits.untested alert h rfl).exitCode
  | true =>
    by_cases hname : alert.name = ""
    · exact hfailed (hfits.nameless alert h rfl hname).exitCode
    · by_cases hflag : Rendering args
      · exact hended (hfits.rendered alert h rfl hname hflag).1
      · exact hended (hfits.shown alert h rfl hname hflag).1

/-- Without an alert in the arguments the environment does not count. -/
theorem fits_run_of_no_alert (h : alert? args = none) (testMode : Bool) :
    Fits args testMode (run args dotEnv e) := by
  have hno : ∀ alert, alert? args ≠ some alert := fun alert halert => by
    rw [h] at halert
    cases halert
  exact ⟨givesUp_of_textless, fun _ => givesUp_of_undecodable, fun a ha => absurd ha (hno a),
    fun a ha => absurd ha (hno a), fun a ha => absurd ha (hno a), fun a ha => absurd ha (hno a)⟩

/-- The program does as promised exactly if it has no alert to deal with or the environment can be
completed; otherwise it panics. Without a NUL in the file and the environment it always does. Only
the flag and the text of the alert count among the arguments. -/
theorem promise_kept_iff (args : List String) (dotEnv : DotEnvFile) (e : Environment) :
    (Kept args dotEnv e (run args dotEnv e) ↔
      ((alert? args).isSome → (e.withFile? dotEnv).isSome)) ∧
    ((alert? args).isSome → e.withFile? dotEnv = none →
      (run args dotEnv e).exitCode = 101 ∧ (run args dotEnv e).output = "") ∧
    (e.NulFree → dotEnv.NulFree →
      ∃ E, e.withFile? dotEnv = some E ∧
        Fits args (E.bytes? Settings.testProfileVariable).isSome (run args dotEnv e)) ∧
    (∀ others, (Rendering others ↔ Rendering args) → text? others = text? args →
      run others dotEnv e = run args dotEnv e) := by
  refine ⟨⟨fun hkept halert => ?_, fun hcompleted => ?_⟩, fun halert hE => ?_,
    fun he hfile => ?_, fun others hflag htext => run_congr hflag htext⟩
  · obtain ⟨testMode, -, hfits⟩ := hkept
    obtain ⟨alert, halert⟩ := Option.isSome_iff_exists.mp halert
    by_contra hnone
    rw [run_panics halert (Option.not_isSome_iff_eq_none.mp hnone)] at hfits
    exact not_fits_panicked halert testMode hfits
  · cases hE : e.withFile? dotEnv with
    | some E =>
      refine ⟨_, fun E' hE' => ?_, fits_run args hE⟩
      rw [Option.some.inj (hE.symm.trans hE')]
    | none =>
      have hno : alert? args = none := by
        cases halert : alert? args with
        | none => rfl
        | some alert =>
          rw [halert, hE] at hcompleted
          exact absurd (hcompleted rfl) Bool.noConfusion
      exact ⟨false, fun E hE' => (by rw [hE] at hE'; cases hE'), fits_run_of_no_alert hno false⟩
  · obtain ⟨alert, halert⟩ := Option.isSome_iff_exists.mp halert
    rw [run_panics halert hE]
    exact ⟨rfl, rfl⟩
  · obtain ⟨E, hE, -⟩ := he.withFile? hfile
    exact ⟨E, hE, fits_run args hE⟩

/-- An alert whose cookie has two lines. -/
def twoLines : Alert := { name := "n", cookie := "a\nb", title := "t" }

/-- The text of that alert. -/
def twoLinesText : String :=
  "\x7b\"name\":\"n\",\"cookie\":\"a\\nb\",\"title\":\"t\",\"text\":\"\",\"source\":\"\"," ++
    "\"textClickable\":false,\"requireInteraction\":false,\"actions\":[],\"imageUrl\":\"\"\x7d"

/-- The text of two lines is that alert. -/
theorem alert?_twoLines {args : List String} (h : text? args = some twoLinesText) :
    alert? args = some twoLines := by
  have hwrite : twoLines.toJson.write = twoLinesText := by decide +kernel
  rw [alert?, h, ← hwrite, Option.bind_some]
  exact Encoding.read?_write twoLines.isNumberless_toJson twoLines.ofJson?_toJson

/-- A file of variables that turns test mode on. -/
def testFile : String := "TOAST_TEST_PROFILE_DIR='/tmp' # tests\n"

/-- Test mode is turned on by the file, so the payload of the alert is written, or a line each for
two notices with its cookie, and further arguments do not count. A file with a NUL does not matter
while there is no alert. -/
theorem promise_kept_iff_twoLines :
    (run ["--render", twoLinesText, "more"] (.ofText testFile) {}).output =
        "<toast duration=\"short\"><visual><binding template=\"ToastGeneric\"><text>t</text>" ++
          "<text></text></binding></visual></toast>\n" ∧
      (∃ first second,
        run [twoLinesText] (.ofText testFile) {} = .waits (first ++ "\n") (second ++ "\n") ∧
          Notice.IsWritten ⟨.shown, "a\nb", none⟩ first ∧
          Notice.IsWritten ⟨.finished, "a\nb", none⟩ second) ∧
      run [twoLinesText, "more"] (.ofText testFile) {} = run [twoLinesText] (.ofText testFile) {} ∧
      Kept [] (.ofText "A=\x00\n") {} (run [] (.ofText "A=\x00\n") {}) := by
  have hfree : ({} : Environment).NulFree := List.forall_mem_nil _
  have hfile : (DotEnvFile.ofText testFile).NulFree := DotEnvFile.nulFree_ofText.mpr (by decide)
  have hentries : (({} : Environment).withFile? (.ofText testFile)).map (·.entries) =
      some [(Settings.testProfileVariable, "/tmp".toUTF8)] := by
    rw [Environment.withFile?_ofText]
    decide +kernel
  have htested : ∀ E, ({} : Environment).withFile? (.ofText testFile) = some E →
      (E.bytes? Settings.testProfileVariable).isSome = true := by
    intro E hE
    rw [hE] at hentries
    have hsame : E.entries = [(Settings.testProfileVariable, "/tmp".toUTF8)] :=
      Option.some.inj hentries
    rw [Environment.bytes?, hsame]
    rfl
  obtain ⟨-, -, hrender, -⟩ :=
    promise_kept_iff ["--render", twoLinesText, "more"] (.ofText testFile) {}
  obtain ⟨-, -, hshow, hignored⟩ := promise_kept_iff [twoLinesText] (.ofText testFile) {}
  obtain ⟨hkept, -, -, -⟩ := promise_kept_iff [] (.ofText "A=\x00\n") {}
  obtain ⟨E, hE, hrender⟩ := hrender hfree hfile
  obtain ⟨E', hE', hshow⟩ := hshow hfree hfile
  have hrendered := hrender.rendered twoLines (alert?_twoLines rfl) (htested E hE) (by decide) rfl
  have hshown := hshow.shown twoLines (alert?_twoLines rfl) (htested E' hE') (by decide)
    (by decide +kernel)
  obtain ⟨-, first, second, hlines, -, hfirst, hsecond⟩ := hshown
  refine ⟨hrendered.2.trans (by decide +kernel), ⟨first, second, hlines, hfirst, hsecond⟩,
    hignored _ (by decide +kernel) rfl, hkept.mpr fun h => ?_⟩
  cases h

/-- An environment in which test mode is on. -/
def tested : Environment := ⟨[(Settings.testProfileVariable, "/tmp".toUTF8)]⟩

/-- A file of variables with a value that no variable can have makes the program panic, although
the payload of the alert was to be written. -/
theorem promise_broken_by_nul :
    alert? ["--render", twoLinesText] = some twoLines ∧
      (tested.bytes? Settings.testProfileVariable).isSome ∧
      (run ["--render", twoLinesText] (.ofText "TOAST_APP_USER_MODEL_ID=a\x00b\n")
        tested).exitCode =
        101 ∧
      ¬Kept ["--render", twoLinesText] (.ofText "TOAST_APP_USER_MODEL_ID=a\x00b\n") tested
        (run ["--render", twoLinesText] (.ofText "TOAST_APP_USER_MODEL_ID=a\x00b\n") tested) := by
  have halert : alert? ["--render", twoLinesText] = some twoLines := alert?_twoLines rfl
  have hE : tested.withFile? (.ofText "TOAST_APP_USER_MODEL_ID=a\x00b\n") = none := by
    rw [Environment.withFile?_ofText, ← Option.isNone_iff_eq_none]
    decide +kernel
  rw [run_panics halert hE]
  refine ⟨halert, rfl, rfl, ?_⟩
  rintro ⟨testMode, -, hfits⟩
  exact not_fits_panicked halert testMode hfits

end Invocation

end ToastBoard
