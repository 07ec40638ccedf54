import Mathlib.Data.List.Perm.Basic
import ToastBoard.Proofs.Steps

/-!
# Calls that lose a handler

Calls to a coordinator that come between each other do not lose a displaced handler and do not
leave a dead one in the table, but for two ways: a call that cannot submit its handler and finds its
name taken lets go of the handler it displaced, and one that puts the displaced handler back may do
so while that handler is about to end. Once all calls have returned, handlers are lost in these ways
or not at all.
-/

namespace ToastBoard.Traffic

open Board

variable {h : HandlerId} {co : Coordinator} {t : Traffic}

/-- A call comes that shows no handler, or a new one, while all handlers stand where they stood. -/
theorem kept_comes (hk : t.Placed co) (hd : t.Due co) {a : Board} (new : List Call)
    (honward : t.board.Onward a) (htable : a.registry co.registry = t.board.registry co.registry)
    (hphase : ∀ x, (t.board.handler x).registry = some co.registry → a.phase x = t.board.phase x)
    (hcarries : new.flatMap Call.carries = [])
    (hnew : ∀ c ∈ new, Fits co { t with board := a, calls := new ++ t.calls } c)
    (hshows : ((new ++ t.calls).flatMap Call.shows).Nodup) :
    Placed co { t with board := a, calls := new ++ t.calls } ∧
      Due co { t with board := a, calls := new ++ t.calls } := by
  constructor
  · exact hk.turn [] new [] (.refl _) rfl honward htable rfl rfl (.of_eq hcarries.symm)
      (List.forall_mem_nil _)
  · refine hd.shift hk [] new (.refl _) rfl honward hphase ?_ ?_ (fun x => id) (fun x => .inl)
      (fun x => List.not_mem_nil) (List.forall_mem_nil _) hnew hshows
    · simp
    · intro x hx
      exact .inl (htable ▸ hx)

/-- A registration ends: the handler is live, or it failed and removes itself. -/
theorem kept_ends (hk : t.Placed co) (hd : t.Due co) {a : Board} (new : List Call)
    (honward : t.board.Onward a) (htable : a.registry co.registry = t.board.registry co.registry)
    (hphase : ∀ x ≠ h, a.phase x = t.board.phase x)
    (hhome : (t.board.handler h).registry = some co.registry)
    (hp : t.board.phase h = .initializing)
    (hnow : a.phase h = .live ∧ new = [] ∨ a.phase h = .initFailed ∧ new = [.leave h]) :
    Placed co { t with board := a, calls := new ++ t.calls } ∧
      Due co { t with board := a, calls := new ++ t.calls } := by
  have hquiet : new.flatMap Call.carries = [] ∧ new.flatMap Call.shows = [] := by
    rcases hnow with ⟨-, rfl⟩ | ⟨-, rfl⟩ <;> exact ⟨rfl, rfl⟩
  have hunshown : h ∉ t.calls.flatMap Call.shows := fun hm => (hd.shown hm).2 hp
  constructor
  · exact hk.turn [] new [] (.refl _) rfl honward htable rfl rfl (.of_eq hquiet.1.symm)
      (List.forall_mem_nil _)
  · refine hd.rephase hk [] new (.refl _) rfl honward (g := h) hphase ?_ rfl
      (fun x => List.not_mem_nil) (congrArg Registry.handlers htable) rfl ?_
      (by simp) (by simp) ?_ ?_ ?_
    · refine .inr (.inr ⟨hunshown, ?_⟩)
      rcases hnow with ⟨hn, -⟩ | ⟨hn, -⟩ <;> rw [hn] <;> exact Phase.noConfusion
    · intro hc
      rcases hnow with ⟨hn, -⟩ | ⟨hn, -⟩ <;> rw [hn] at hc <;> cases hc
    · intro hc
      rcases hnow with ⟨hn, -⟩ | ⟨-, rfl⟩
      · rw [hn] at hc
        cases hc
      · exact List.mem_cons_self
    · intro c hc
      rcases hnow with ⟨-, rfl⟩ | ⟨hn, rfl⟩
      · cases hc
      · rw [List.mem_singleton.mp hc]
        exact ⟨(honward.home hhome).1, by rw [hn]; exact Phase.noConfusion⟩
    · rw [List.flatMap_append, hquiet.2]
      exact hd.apart

/-- A call to show an alert begins: a new handler is made for it. -/
theorem kept_shown (hk : t.Placed co) (hd : t.Due co) (fields : Snapshot)
    (listener : Option ListenerId) : (t.after co (.shown fields listener)).Placed co ∧
      (t.after co (.shown fields listener)).Due co := by
  let handler : Handler := { fields, listener, registry := some co.registry }
  have hnew : (t.board.create handler).2.handler t.board.handlers.length = handler :=
    handler_create_self t.board handler
  have hold : ∀ x < t.board.handlers.length,
      (t.board.create handler).2.handler x = t.board.handler x := fun _ hx =>
    handler_create_of_ne (Nat.ne_of_lt hx) handler
  refine kept_comes hk hd [.install t.board.handlers.length] (onward_create _ handler) rfl ?_ rfl
    ?_ ?_
  · intro x hx
    rw [phase, hold x (lt_of_home hx), phase]
  · intro c hc
    rw [List.mem_singleton.mp hc]
    refine ⟨by rw [hnew], by rw [phase, hnew], fun hm => ?_⟩
    exact Nat.lt_irrefl _ (lt_of_home (hk.home _ hm))
  · refine List.nodup_cons.mpr ⟨fun hm => ?_, hd.apart⟩
    exact Nat.lt_irrefl _ (lt_of_home (hd.shown hm).1)

/-- Whatever happens next, handlers stay where they are and calls fit. -/
theorem kept_after (hk : t.Placed co) (hd : t.Due co) (m : Move) (allowed : t.Allows co m) :
    (t.after co m).Placed co ∧ (t.after co m).Due co := by
  cases m with
  | shown fields listener => exact kept_shown hk hd fields listener
  | closed name =>
    refine kept_comes hk hd [.close name] (.refl _) rfl (fun _ _ => rfl) rfl ?_ hd.apart
    intro c hc
    rw [List.mem_singleton.mp hc]
    trivial
  | fired visit =>
    refine kept_comes hk hd [.drain visit] (.refl _) rfl (fun _ _ => rfl) rfl ?_ hd.apart
    intro c hc
    rw [List.mem_singleton.mp hc]
    trivial
  | heard h =>
    obtain ⟨hhome, hlive, -⟩ := allowed
    refine kept_comes hk hd [.leave h] (onward_of_handlers rfl) rfl (fun _ _ => rfl) rfl ?_ hd.apart
    intro c hc
    rw [List.mem_singleton.mp hc]
    refine ⟨hhome, ?_⟩
    change t.board.phase h ≠ .created
    rw [hlive]
    exact Phase.noConfusion
  | registered h toast =>
    obtain ⟨hhome, hp⟩ := allowed
    have hleads : (t.board.phase h).LeadsTo .live := by
      rw [hp]
      exact Phase.initializing_leadsTo Phase.noConfusion
    refine kept_ends hk hd [] (onward_update rfl rfl rfl hleads) rfl (fun x hx => ?_) hhome hp
      (.inl ⟨?_, rfl⟩)
    · rw [phase, Board.live, handler_update_of_ne hx, phase]
    · rw [phase, Board.live, handler_update_self (lt_of_home hhome)]
  | refused h =>
    obtain ⟨hhome, hp⟩ := allowed
    have hleads : (t.board.phase h).LeadsTo .initFailed := by
      rw [hp]
      exact Phase.initializing_leadsTo Phase.noConfusion
    have hset : t.board.Onward (t.board.setPhase h .initFailed) :=
      onward_update rfl rfl rfl hleads
    have hhold : (t.board.setPhase h .initFailed).Onward
        ((t.board.setPhase h .initFailed).hold h) := onward_of_handlers rfl
    refine kept_ends hk hd [.leave h] (hset.trans hhold) rfl (fun x hx => ?_) hhome hp
      (.inr ⟨?_, rfl⟩)
    · exact phase_setPhase_of_ne hx _
    · exact phase_setPhase (lt_of_home hhome) _
  | stopped =>
    exact kept_comes hk hd [] (onward_of_handlers rfl) rfl (fun _ _ => rfl) rfl
      (List.forall_mem_nil _) hd.apart
  | elsewhere a =>
    exact kept_comes hk hd [] allowed.onward allowed.registry allowed.phase rfl
      (List.forall_mem_nil _) hd.apart
  | next i =>
    have hlt : i < t.calls.length := allowed
    rw [after, List.getElem?_eq_getElem hlt]
    exact kept_proceed hk hd (List.getElem_cons_eraseIdx_perm hlt).symm

/-- In every run handlers are at their places and calls fit. -/
theorem kept_of_run (run : Run co t) : t.Placed co ∧ t.Due co := by
  induction run with
  | start owned empty =>
    rename_i b
    have hnone : (b.registry co.registry).handlers = [] := by rw [Registry.handlers, empty]; rfl
    have hplaces : places co { board := b } = [] := by rw [places, hnone]; rfl
    constructor
    · refine ⟨owned, ?_, fun he => ?_, (List.forall_mem_nil _), ?_, fun x hx => ?_,
        (List.forall_mem_nil _)⟩
      · rw [Registry.OnePerName, empty]
        exact List.nodup_nil
      · rw [empty] at he
        cases he
      · rw [hplaces]
        exact List.nodup_nil
      · rw [hplaces] at hx
        cases hx
    · refine ⟨(List.forall_mem_nil _), List.nodup_nil, fun x hx => ?_, (List.forall_mem_nil _),
        (List.forall_mem_nil _)⟩
      rw [hnone] at hx
      cases hx
  | step run m allowed ih => exact kept_after ih.1 ih.2 m allowed

/-- Once all calls have returned, nobody is lost exactly if every handler that was let go of is over
anyway, and none that was put back while it was about to end is current. -/
theorem nobody_lost_iff (run : Run co t) (returned : t.calls = []) : t.LosesNobody co ↔
    (∀ h ∈ t.abandoned, t.board.phase h = .unregistered) ∧
      ∀ h ∈ t.revived, h ∉ (t.board.registry co.registry).handlers := by
  obtain ⟨hk, hd⟩ := kept_of_run run
  have hplaces : t.places co = (t.board.registry co.registry).handlers ++ t.abandoned := by
    rw [places, returned]
    rfl
  have hcurrent : ∀ h, h ∈ (t.board.registry co.registry).handlers ↔
      t.board.isCurrent co.registry (t.board.handler h).name h = true := by
    intro h
    rw [isCurrent_iff hk.single, Registry.mem_handlers]
    refine ⟨?_, fun he => ⟨_, he⟩⟩
    rintro ⟨name, he⟩
    rw [hk.named he]
    exact he
  have hended : ∀ h ∈ t.revived, t.board.phase h = .unregistered := by
    intro h hr
    refine (hd.ending h hr).2.resolve_right fun hc => ?_
    rw [returned] at hc
    cases hc
  constructor
  · rintro ⟨hinstalled, halive⟩
    constructor
    · intro h hm
      have hplace : h ∈ t.places co := by
        rw [hplaces]
        exact List.mem_append_right _ hm
      refine (hinstalled h (hk.known h hplace)).resolve_right fun hcur => ?_
      have honce := hk.once
      rw [hplaces] at honce
      exact (List.nodup_append.mp honce).2.2 h ((hcurrent h).mpr hcur) h hm rfl
    · intro h hr hm
      have he := (Registry.mem_entries_iff hk.single).mp
        ((isCurrent_iff hk.single).mp ((hcurrent h).mp hm))
      exact halive _ h he (hended h hr)
  · rintro ⟨habandoned, hrevived⟩
    constructor
    · intro h hi
      by_cases hp : t.board.phase h = .unregistered
      · exact .inl hp
      have hactive : (t.board.phase h).isActive = true := by
        cases hq : t.board.phase h with
        | unregistered => exact absurd hq hp
        | initFailed =>
          have hdoomed := hd.doomed h hi hq
          rw [returned] at hdoomed
          cases hdoomed
        | _ => rfl
      have hplace := hk.kept h hi hactive
      rw [hplaces] at hplace
      rcases List.mem_append.mp hplace with hm | hm
      · exact .inr ((hcurrent h).mp hm)
      · exact .inl (habandoned h hm)
    · intro name h hcur hp
      have he := (Registry.mem_entries_iff hk.single).mpr hcur
      have hm := Registry.mem_handlers.mpr ⟨name, he⟩
      exact hrevived h (hd.dead h hm hp) hm

/-- A board with a coordinator that was just set up. -/
def fresh : Board := (Board.openCoordinator {} { name := "worker" } none).2

/-- The coordinator on it. -/
def desk : Coordinator := fresh.coordinator 0

theorem run_fresh : Run desk { board := fresh } := .start Nat.one_pos rfl

/-- What some moves come to from there. -/
def upon (moves : List Move) : Traffic := moves.foldl (after desk) { board := fresh }

/-- A call to show an alert that always has the same name. -/
def again : Move :=
  .shown
    { cookie := "c", name := "a", title := "t", text := "x", textClickable := true, source := "",
      requireInteraction := false, actions := [], imageUrl := "" } none

/-- A first alert is live and hears from the screen while two others of its name are put in its
place. The last of them is submitted first and ends the second, which then cannot be submitted any
more, finds its name taken and lets go of the first. -/
def overtakenLate : List Move :=
  [again, .next 0, .next 0, .next 0, .registered 0 1, again, again, .next 1, .next 1,
    .heard 0, .next 0, .next 0, .next 0,
    .next 0, .next 0, .next 0, .next 0, .next 0, .next 0, .next 0]

/-- The first alert is let go of, but has ended by then, so that nobody is lost. -/
theorem nobody_lost_iff_overtaken : Run desk (upon overtakenLate) ∧
    (upon overtakenLate).calls = [] ∧ (upon overtakenLate).abandoned = [0] ∧
    (upon overtakenLate).LosesNobody desk := by
  have hlt : ∀ {n m : Nat}, decide (n < m) = true → n < m := of_decide_eq_true
  have hrun : Run desk (upon overtakenLate) := by
    refine run_fresh.follow ⟨trivial, hlt rfl, hlt rfl, hlt rfl, ⟨rfl, rfl⟩,
      trivial, trivial, hlt rfl, hlt rfl, ⟨rfl, rfl, rfl⟩, hlt rfl, hlt rfl, hlt rfl, hlt rfl,
      hlt rfl, hlt rfl, hlt rfl, hlt rfl, hlt rfl, hlt rfl, trivial⟩
  refine ⟨hrun, rfl, rfl, (nobody_lost_iff hrun rfl).mpr ⟨fun h hm => ?_, List.forall_mem_nil _⟩⟩
  rw [List.mem_singleton.mp hm]
  rfl

/-- The same, but the first alert hears nothing. -/
def overtaken : List Move :=
  [again, .next 0, .next 0, .next 0, .registered 0 1, again, again, .next 1, .next 1,
    .next 0, .next 0, .next 0, .next 0, .next 0, .next 0, .next 0]

/-- A first alert is live when a second one is put in its place. It hears from the screen and finds
that it is not the current one; then the worker is stopped, the second cannot be submitted and puts
the first one back, which ends. -/
def putBackLeaving : List Move :=
  [again, .next 0, .next 0, .next 0, .registered 0 1, again, .next 0, .heard 0, .next 0, .stopped,
    .next 1, .next 0, .next 1, .next 0, .next 0, .next 0]

/-- Calls that come between each other can lose a live handler, and can leave a dead one in the
table. -/
theorem handlers_lost_between_calls :
    (Run desk (upon overtaken) ∧ (upon overtaken).calls = [] ∧
      ¬(upon overtaken).LosesNobody desk ∧ 0 ∈ (upon overtaken).installed ∧
      (upon overtaken).board.phase 0 = .live ∧
      (upon overtaken).board.current? desk.registry "a" = some 2) ∧
    Run desk (upon putBackLeaving) ∧ (upon putBackLeaving).calls = [] ∧
      ¬(upon putBackLeaving).LosesNobody desk ∧
      (upon putBackLeaving).board.phase 0 = .unregistered ∧
      (upon putBackLeaving).board.current? desk.registry "a" = some 0 := by
  have hlt : ∀ {n m : Nat}, decide (n < m) = true → n < m := of_decide_eq_true
  constructor
  · have hrun : Run desk (upon overtaken) := by
      refine run_fresh.follow ⟨trivial, hlt rfl, hlt rfl, hlt rfl, ⟨rfl, rfl⟩,
        trivial, trivial, hlt rfl, hlt rfl, hlt rfl, hlt rfl, hlt rfl, hlt rfl, hlt rfl, hlt rfl,
        hlt rfl, trivial⟩
    have hinstalled : 0 ∈ (upon overtaken).installed :=
      List.mem_cons_of_mem 2 (List.mem_cons_of_mem 1 List.mem_cons_self)
    refine ⟨hrun, rfl, fun hlost => ?_, hinstalled, rfl, rfl⟩
    rcases hlost.1 0 hinstalled with hover | hcurrent
    · exact Phase.noConfusion hover
    · exact Bool.noConfusion hcurrent
  · have hrun : Run desk (upon putBackLeaving) := by
      refine run_fresh.follow ⟨trivial, hlt rfl, hlt rfl, hlt rfl, ⟨rfl, rfl⟩,
        trivial, hlt rfl, ⟨rfl, rfl, rfl⟩, hlt rfl, trivial, hlt rfl, hlt rfl, hlt rfl, hlt rfl,
        hlt rfl, hlt rfl, trivial⟩
    exact ⟨hrun, rfl, fun hlost => hlost.2 "a" 0 rfl rfl, rfl, rfl⟩

end ToastBoard.Traffic
