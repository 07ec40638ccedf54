import ToastBoard.Proofs.Shutdown

/-!
# Setting up coordinators

Whether a coordinator is set up depends on the settings and on what the platform answers: in test
mode always, and otherwise only on a platform with toasts and under an identity that is found out.
Why it fails is told in one order, and a failure leaves nothing behind. So there are at any moment
of a course as many coordinators as were set up successfully, and each of them observes the
signal.
-/

namespace ToastBoard

open Board

variable {b b' : Board} {settings : Settings} {host : Host} {worker : Worker HandlerId} {m : Moment}
  {e : Event} {first : Ledger}

namespace Host

variable {testMode : Bool}

/-- Without toasts nobody asks for an identity. -/
theorem identityFor_unsupported (hs : host.supported = false) :
    host.identityFor false = ⟨.error .unsupportedPlatform, ["supported"]⟩ := by
  rw [identityFor, hs]
  rfl

/-- With toasts it is all up to the identity. -/
theorem identityFor_failure {e : Failure} (hs : host.supported = true)
    (he : host.identity = .error e) :
    host.identityFor false = ⟨.error (identityFailure e), questions⟩ := by
  rw [identityFor, hs, he]
  rfl

/-- Test mode waives both the platform and the identity. -/
theorem identityFor_ok_iff {identity : Option String} :
    (host.identityFor testMode).result = .ok identity ↔
      (testMode = true ∨ host.supported = true ∧ ∃ id, host.identity = .ok id) ∧
        identity = host.identity.toOption := by
  rcases host with ⟨supported, answer, refusal⟩
  cases testMode <;> cases supported <;> cases answer <;>
    simp [identityFor, bind, Reading.andThen, Reading.call, Reading.done, Reading.fail,
      Except.toOption, eq_comm]

/-- An identity to work under is asked for. -/
theorem identityFor_eq_of_ok {identity : Option String}
    (hi : (host.identityFor testMode).result = .ok identity) :
    host.identityFor testMode = ⟨.ok identity, questions⟩ := by
  have hcalled := host.called_identityFor testMode
  rw [if_neg] at hcalled
  · rw [← hi, ← hcalled]
  · rintro ⟨hs, rfl⟩
    rw [identityFor_unsupported hs] at hi
    cases hi

/-- Any failure but that of the identity itself is told by its wording. -/
theorem identityFailure_of_other {e : Failure} (he : ∀ reason, e ≠ .identityUnavailable reason) :
    identityFailure e = .identityUnavailable e.message := by
  cases e with
  | identityUnavailable reason => exact absurd rfl (he reason)
  | unsupportedPlatform | workerCreation | invalidArgument | fieldRead | dispatch | notImplemented
  | platform | io | json | other => rfl

end Host

namespace Board

/-- Setting up fails as finding out the identity does. -/
theorem setUp_error {failure : Failure} {asked : List String}
    (hi : host.identityFor settings.testMode = ⟨.error failure, asked⟩) :
    b.setUp settings host = (some ⟨.error failure, asked⟩, b) := by
  simp only [setUp, hi]

/-- With an identity to work under and a worker a coordinator is set up. -/
theorem setUp_ok {identity : Option String}
    (hi : (host.identityFor settings.testMode).result = .ok identity)
    (hw : Worker.start host.threadRefusal settings.dispatcherThreadName = some (.ok worker)) :
    b.setUp settings host = (some ⟨.ok b.coordinators.length, Host.questions⟩,
      (b.openCoordinator worker identity).2) := by
  simp only [setUp, Host.identityFor_eq_of_ok hi, hw]
  rfl

/-- A coordinator that is set up is the newest one, and has the identity that was found out. -/
theorem identity_openCoordinator (worker : Worker HandlerId) (identity : Option String) :
    ((b.openCoordinator worker identity).2.coordinator b.coordinators.length).identity =
      identity := by
  have hget : ∀ d, (b.openCoordinator worker identity).2.coordinators.getD b.coordinators.length d =
      { registry := b.registries.length, station := b.stations.length, identity } := fun d =>
    (getD_concat ..).trans (if_pos rfl)
  rw [coordinator, hget]

end Board

/-- What comes of setting up a coordinator on a board, where its worker can be started. -/
structure Board.SetsUp (b : Board) (settings : Settings) (host : Host) : Prop where
  /-- It succeeds in test mode, and on a platform with toasts and an identity. -/
  succeeds : (∃ c, (b.setUp settings host).1 = some ⟨.ok c, Host.questions⟩) ↔
    settings.testMode = true ∨ host.supported = true ∧ ∃ id, host.identity = .ok id
  /-- That there are no toasts is told first: nobody asks for the identity. -/
  unsupported : settings.testMode = false → host.supported = false → ∀ identity,
    (b.setUp settings { host with identity }).1 = some ⟨.error .unsupportedPlatform, ["supported"]⟩
  /-- That there is no identity is told as it was told. -/
  unavailable : settings.testMode = false → host.supported = true → ∀ reason,
    host.identity = .error (.identityUnavailable reason) →
      (b.setUp settings host).1 = some ⟨.error (.identityUnavailable reason), Host.questions⟩
  /-- Any other failure to find out the identity is told by its wording. -/
  other : settings.testMode = false → host.supported = true → ∀ failure,
    host.identity = .error failure → (∀ reason, failure ≠ .identityUnavailable reason) →
      (b.setUp settings host).1 =
        some ⟨.error (.identityUnavailable failure.message), Host.questions⟩
  /-- A coordinator that is set up is a new one, which tells the identity that was found out, or
  none. -/
  reports : ∀ c asked, (b.setUp settings host).1 = some ⟨.ok c, asked⟩ →
    asked = Host.questions ∧ c = b.coordinators.length ∧
    ((b.setUp settings host).2.coordinator c).identity = host.identity.toOption
  /-- Where none is set up nothing changes. -/
  failed : (∀ c asked, (b.setUp settings host).1 ≠ some ⟨.ok c, asked⟩) →
    (b.setUp settings host).2 = b

/-- Nothing else comes of setting up a coordinator. -/
theorem setsUp (b : Board)
    (hw : Worker.start host.threadRefusal settings.dispatcherThreadName = some (.ok worker)) :
    b.SetsUp settings host where
  succeeds := by
    cases hi : (host.identityFor settings.testMode).result with
    | ok identity =>
      rw [setUp_ok hi hw]
      exact iff_of_true ⟨_, rfl⟩ (Host.identityFor_ok_iff.mp hi).1
    | error failure =>
      rw [setUp_error (congrArg (Reading.mk · _) hi)]
      refine iff_of_false (by rintro ⟨c, hc⟩; cases hc) fun h => ?_
      rw [Host.identityFor_ok_iff.mpr ⟨h, rfl⟩] at hi
      cases hi
  unsupported ht hs identity := by
    rw [setUp_error (by rw [ht]; exact Host.identityFor_unsupported hs)]
  unavailable ht hs reason he := by
    rw [setUp_error (by rw [ht]; exact Host.identityFor_failure hs he)]
    rfl
  other ht hs failure he hother := by
    rw [setUp_error (by rw [ht]; exact Host.identityFor_failure hs he),
      Host.identityFailure_of_other hother]
  reports c asked hc := by
    cases hi : (host.identityFor settings.testMode).result with
    | ok identity =>
      rw [setUp_ok hi hw] at hc ⊢
      cases hc
      have hsame := (Host.identityFor_ok_iff.mp hi).2
      exact ⟨rfl, rfl, (identity_openCoordinator worker identity).trans hsame⟩
    | error failure =>
      rw [setUp_error (congrArg (Reading.mk · _) hi)] at hc
      cases hc
  failed hno := by
    rcases setUp_cases b settings host with ⟨worker, identity, -, he⟩ | ⟨he, -⟩
    · exact absurd (by rw [he]) (hno (b.openCoordinator worker identity).1 _)
    · exact he

/-- Whether an event sets up a coordinator on a board. -/
def Board.founds (b : Board) : Event → Bool
  | .deed (.setUp settings host) =>
    match (b.setUp settings host).1 with
    | some ⟨.ok _, _⟩ => true
    | _ => false
  | _ => false

/-- How many coordinators were set up. -/
def Trace.founded (tr : Trace) : Nat := tr.countP fun x => x.1.world.board.founds x.2

/-- Who sets up a coordinator makes one more, or changes nothing. -/
theorem length_setUp (b : Board) (settings : Settings) (host : Host) :
    (b.setUp settings host).2.coordinators.length =
      b.coordinators.length + if b.founds (.deed (.setUp settings host)) then 1 else 0 := by
  rcases setUp_cases b settings host with ⟨worker, identity, -, he⟩ | ⟨he, hno⟩
  · simp only [founds, he, if_true]
    exact List.length_append
  · have hnone : b.founds (.deed (.setUp settings host)) = false := by
      unfold founds
      rcases hr : (b.setUp settings host).1 with _ | ⟨failure | c, asked⟩
      · simp only [hr]
      · simp only [hr]
      · exact absurd hr (hno c asked)
    rw [he, hnone]
    rfl

/-- Nobody but who sets up a coordinator makes one. -/
theorem Event.Starts.length_coordinators (hs : e.Starts b b')
    (he : ∀ settings host, e ≠ .deed (.setUp settings host)) :
    b'.coordinators.length = b.coordinators.length := by
  cases hs with
  | still => rfl
  | made fields listener registry => rfl
  | shown c source listener hshown =>
    simpa using congrArg List.length hshown.coordinators
  | installed r name x => rw [install_eq]; rfl
  | restored r name x previous => rw [(sameCoordination_restore ..).coordinators]
  | submitted s x => rw [(sameCoordination_submit ..).coordinators]
  | setUp settings host => exact absurd rfl (he settings host)
  | ripened hin hripe => rw [hripe.coordinators]

namespace Moment.Tame

/-- An event makes one coordinator more if it sets one up. -/
theorem length_coordinators (hm : m.Tame first) (allowed : m.Allows e) :
    (m.after e).world.board.coordinators.length =
      m.world.board.coordinators.length + if m.world.board.founds e then 1 else 0 := by
  by_cases he : ∃ settings host, e = .deed (.setUp settings host)
  · obtain ⟨settings, host, rfl⟩ := he
    exact length_setUp m.world.board settings host
  · have hother : ∀ settings host, e ≠ .deed (.setUp settings host) := fun settings host hs =>
      he ⟨settings, host, hs⟩
    have hnone : m.world.board.founds e = false := by
      unfold founds
      split
      · exact absurd rfl (hother _ _)
      · rfl
    obtain ⟨⟨b', hstarts, hebb⟩, -⟩ := hm.turn allowed
    have hlength := congrArg List.length hebb.coordinators
    rw [List.length_map, List.length_map, hstarts.length_coordinators hother] at hlength
    rw [hlength, hnone]
    rfl

/-- There are as many coordinators as were set up. -/
theorem founded {events : List Event} (hm : m.Tame first)
    (ho : Course.Open (fun _ _ => True) m events) :
    (events.foldl Moment.after m).world.board.coordinators.length =
      m.world.board.coordinators.length + (m.trace events).founded := by
  induction events generalizing m with
  | nil => rfl
  | cons e rest ih =>
    have hrest := ih (hm.turn ho.1).2 ho.2.2
    have hcount : (m.trace (e :: rest)).founded = ((m.after e).trace rest).founded +
        if m.world.board.founds e then 1 else 0 := List.countP_cons ..
    rw [hcount, List.foldl_cons, hrest, hm.length_coordinators ho.1]
    omega

end Moment.Tame

end ToastBoard
