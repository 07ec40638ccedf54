import ToastBoard.Proofs.Obedience

/-!
# Jobs are delivered

Main statement: whatever is asked of a worker from outside and by its jobs, and however that falls
between the steps of the jobs, the jobs that have begun are those that were accepted first, in
order. Whoever is told that the worker has come to a mark finds everything done that was accepted
before, and whoever has seen the worker end finds everything done, unless a job has killed the
thread. Once the worker is stopped or gone it accepts nothing. What orders do that are followed one
by one is such a run of moves.
-/

namespace ToastBoard

variable {τ : Type}

namespace Shift

variable {s : Shift τ} {r : WorkRun τ} {before : List (WorkEntry τ)}

/-- What holds of a worker and its jobs at any time. -/
structure Delivers (s : Shift τ) : Prop where
  /-- The jobs that have begun are those that were accepted first, in order. -/
  begun : s.begun <+: s.accepted
  /-- Whoever was the first to stop the worker and has come back finds everything done. -/
  joined : s.Joined → s.crashed = false → s.done = s.accepted
  /-- The worker is gone only if it was stopped or a job has killed its thread. -/
  ends : s.run.worker.alive = false → s.stops ≠ [] ∨ s.crashed = true
  /-- A job that panics ends, and that is all. -/
  panics : ∀ job rest, s.current = some (job, .panic :: rest) →
    s.work = { s with current := none, done := s.done ++ [job] }

/-- Nothing is accepted from one time to another. -/
structure Refuses (s s' : Shift τ) : Prop where
  /-- All jobs are refused. -/
  calls : ∃ new, s'.calls = s.calls ++ new ∧ ∀ call ∈ new, call.2 = .error closed
  /-- All waits are refused. -/
  flushes : ∃ new, s'.flushes = s.flushes ++ new ∧ ∀ reply ∈ new, reply = .error closed
  /-- So no job is accepted. -/
  accepted : s'.accepted = s.accepted

/-- How a worker comes to rest. -/
structure Rests (s : Shift τ) : Prop where
  /-- Nothing is left to do. -/
  idle : s.Idle
  /-- Everything is done, unless a job has killed the thread. -/
  all : s.crashed = false → s.done = s.accepted
  /-- Whoever has stopped it has come back. -/
  gone : s.stops ≠ [] → s.run.worker.alive = false
  /-- Whoever waited has been told something. -/
  answered : ∀ k < s.waits.length, s.answer k ≠ none

theorem InOrder.delivers (h : s.InOrder) : s.Delivers := by
  obtain ⟨lost, hjobs, hlost⟩ := h.jobs
  refine ⟨?_, fun hj hc => ?_, fun hg => ?_, fun job rest hc => ?_⟩
  · rw [hjobs, begun, List.append_assoc]
    exact List.prefix_append _ _
  · obtain ⟨-, hqueue, hcurrent⟩ := h.gone hj.2
    rw [hjobs, hqueue, hcurrent, hlost hc]
    simp [Worker.jobsIn]
  · simpa using h.ends hg
  · rw [Shift.work, hc]
    rfl

/-- A worker that is stopped or gone accepts nothing. -/
theorem InOrder.refusing (h : s.InOrder) (hs : s.stops ≠ [] ∨ s.run.worker.alive = false) :
    s.run.worker.accepting = false := by
  rcases hs with hs | hs
  · exact Worker.InOrder.closed h (by simpa using hs)
  · exact (h.gone hs).1

/-- What is refused is not accepted. -/
theorem Later.refuses {s' : Shift τ} (h : s.Later s') (hs : s.run.worker.accepting = false) :
    s.Refuses s' := by
  obtain ⟨calls, hcalls, hrefused⟩ := h.calls
  obtain ⟨flushes, hflushes, hunwaited⟩ := h.flushes
  refine ⟨⟨calls, hcalls, hrefused hs⟩, ⟨flushes, hflushes, hunwaited hs⟩, ?_⟩
  have hnone : calls.filterMap taken? = [] := by
    refine List.filterMap_eq_nil_iff.mpr fun call hm => ?_
    have hcall := hrefused hs call hm
    obtain ⟨job, reply⟩ := call
    cases hcall
    rfl
  rw [Shift.accepted, Shift.accepted, hcalls, List.filterMap_append, hnone, List.append_nil]

theorem InOrder.rests (h : s.InOrder) (hidle : s.Idle) : s.Rests := by
  obtain ⟨hqueue, hcurrent⟩ := hidle
  refine ⟨⟨hqueue, hcurrent⟩, fun hc => ?_, fun hs => ?_, fun k hk => ?_⟩
  · obtain ⟨lost, hjobs, hlost⟩ := h.jobs
    rw [hjobs, hqueue, hcurrent, hlost hc]
    simp [Worker.jobsIn]
  · refine Bool.eq_false_iff.mpr fun halive => ?_
    obtain ⟨front, -, hlast⟩ := h.last halive
    rw [hqueue, h.refusing (.inl hs)] at hlast
    simp at hlast
  · unfold answer
    split
    · intro he
      cases he
    · rename_i hmark
      split
      · rename_i halive
        rw [h.waits_of_idle ⟨hqueue, hcurrent⟩ halive] at hk
        exact absurd hk hmark
      · intro he
        cases he

/-- From its start on, whatever is asked of a worker in whatever order and however that falls
between the steps of its jobs, it delivers what it has accepted. Once it is stopped or gone it
refuses everything. Whoever waits for its queue and is told that it is done finds it done. In the
end it comes to rest. A job that panics is one that ends there. Orders that are followed one by one
are such a run of moves: those outside ask for what the orders ask for, and what the orders answer
and the jobs log is what has become of the jobs and of the waits. -/
theorem jobs_delivered {refusal : Option String} {name : String} {w : Worker (List (Step τ))}
    (hw : Worker.start refusal name = some (.ok w)) (early late : List (ShiftMove τ)) :
    let s : Shift τ := Shift.after { run := { worker := w } } early
    s.Delivers ∧ s.calls <+: (s.after late).calls ∧ s.begun <+: (s.after late).begun ∧
    (s.stops ≠ [] ∨ s.run.worker.alive = false → s.Refuses (s.after late)) ∧
    (s.flush.waits ≠ s.waits → (s.flush.after late).answer s.waits.length = some (.ok ()) →
      s.accepted <+: (s.flush.after late).done) ∧
    (∃ n, ∀ m ≥ n, (s.after (List.replicate m .work)).Rests) ∧
    (∀ (steps rest : List (Step τ)) (r : WorkRun τ),
      WorkRun.runJob (steps ++ .panic :: rest) r = WorkRun.runJob steps r) ∧
    ∀ orders : List (WorkOrder τ), ∃ moves : List (ShiftMove τ),
      Obeys { run := { worker := w } } { worker := w } orders moves ∧
      let s : Shift τ := Shift.after { run := { worker := w } } moves
      let r := orders.foldl (fun r order => (r.step order).2) { worker := w }
      ∃ before, s.Mirrors before r ∧ ∀ r', r.follow .flush = (.done, r') →
        ∃ moves, (s.after moves).Mirrors before r' ∧ s.accepted <+: (s.after moves).done := by
  intro s
  have hstart : ({ run := { worker := w } } : Shift τ).InOrder := Worker.inOrder_start hw
  have ho : s.InOrder := hstart.after early
  have hlater : s.Later (s.after late) := later_after s late
  refine ⟨ho.delivers, ?_, hlater.begun, fun hs => hlater.refuses (ho.refusing hs),
    fun hs ha => ho.flushed hs ha, ⟨s.load, fun m hm => (ho.after _).rests (idle_after hm)⟩,
    WorkRun.runJob_panic, fun orders => ?_⟩
  · obtain ⟨new, hnew, -⟩ := hlater.calls
    exact ⟨new, hnew.symm⟩
  · have hfirst : ({ run := { worker := w } } : Shift τ).Mirrors [] { worker := w } :=
      ⟨rfl, rfl, rfl, rfl⟩
    obtain ⟨moves, hobeys, before, hmirrors⟩ := hfirst.obeys hstart orders
    refine ⟨moves, hobeys, before, hmirrors, fun r' hr => ?_⟩
    obtain ⟨more, hm, hfollows, -⟩ := hmirrors.followFlush (hstart.after moves)
    rw [hr] at hm hfollows
    exact ⟨more, hm, hfollows.done rfl⟩

/-- A worker on which no job has been run. -/
def idler : Worker (List (Step Nat)) := { name := "worker" }

/-- A job that hands over another one and panics. -/
def panicking : List (Step Nat) := [.dispatch [.log 1], .panic, .log 2]

/-- A job that hands over another one. -/
def handing : List (Step Nat) := [.dispatch [.log 3]]

/-- The worker is stopped while a job is queued that hands over another one. -/
def draining : List (ShiftMove Nat) :=
  [.dispatch panicking, .work, .work, .flush, .dispatch handing, .stop] ++ List.replicate 9 .work

/-- What was accepted before the worker was stopped is done, and what comes later is refused. -/
theorem jobs_delivered_draining :
    (Shift.after { run := { worker := idler } } draining).Delivers ∧
    (Shift.after { run := { worker := idler } } draining).Joined ∧
    (Shift.after { run := { worker := idler } } draining).done = [panicking, [.log 1], handing] ∧
    (Shift.after { run := { worker := idler } } draining).calls.getLast? =
      some ([.log 3], .error closed) ∧
    (Shift.after { run := { worker := idler } } draining).answer 0 = some (.ok ()) ∧
    (Shift.after { run := { worker := idler } } draining).Refuses
      ((Shift.after { run := { worker := idler } } draining).after
        [.dispatch panicking, .flush, .work]) := by
  have hstart : Worker.start none "worker" = some (.ok idler) := if_neg (by decide)
  obtain ⟨hdelivers, -, -, hrefuses, -⟩ :=
    jobs_delivered hstart draining [.dispatch panicking, .flush, .work]
  exact ⟨hdelivers, ⟨rfl, rfl⟩, rfl, rfl, rfl, hrefuses (.inl (by decide))⟩

end Shift

end ToastBoard
