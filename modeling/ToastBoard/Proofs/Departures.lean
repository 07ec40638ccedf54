import ToastBoard.Proofs.Bystanders
import ToastBoard.Proofs.Callbacks

/-!
# Runs in which coordinators are given up

A computation runs to its end while its listeners do as they like with coordinators, which they may
also give up. The run is told turn by turn: what the computation itself does from one listener to
the next, and what happens while a listener acts. Between any two points of such a run no
coordinator that is gone comes back, and one that somebody owns stays unless it is given up in
between. A registry that is drained in such a run has in the end only handlers that were shown
since, and those that it had are over.
-/

namespace ToastBoard

open Talk Board

variable {visit : Visit} {w w' : World} {tr tr' : Trace} {g g' : Ledger} {h : HandlerId}
  {r : RegistryId} {c : CoordinatorId} {m : Moment} {e : Event} {first : Ledger} {α β : Type}

namespace Board

variable {R : Board → Board → Prop} {b b' : Board}

/-- No coordinator is forgotten, and none that is gone is back. -/
structure Outlives (b b' : Board) : Prop where
  /-- No coordinator is forgotten. -/
  length : b.coordinators.length ≤ b'.coordinators.length
  /-- Whoever is gone remains so. -/
  gone : ∀ c < b.coordinators.length, b.hasCoordinator c = false → b'.hasCoordinator c = false

/-- Whether coordinators are gone can be read off the coordinators. -/
theorem readsCoordination_outlives : ReadsCoordination Outlives where
  sameCoordination h := by
    refine ⟨Nat.le_of_eq (congrArg List.length h.coordinators.symm), fun c _ hc => ?_⟩
    rwa [hasCoordinator, owners_coordinator h.coordinators]
  trans h h' := ⟨Nat.le_trans h.length h'.length, fun c hlt hc =>
    h'.gone c (Nat.lt_of_lt_of_le hlt h.length) (h.gone c hlt hc)⟩

/-- Whatever becomes of a coordinator, nobody is to own it if nobody did. -/
theorem outlives_updateCoordinator {f : Coordinator → Coordinator}
    (hf : b.hasCoordinator c = false → (f (b.coordinator c)).owners = 0) :
    b.Outlives (b.updateCoordinator c f) := by
  refine ⟨Nat.le_of_eq (length_updateCoordinator ..).symm, fun d _ hd => ?_⟩
  rw [hasCoordinator, coordinator_updateCoordinator]
  split
  · rename_i hdc
    obtain ⟨rfl, -⟩ := hdc
    simp [hf hd]
  · exact hd

/-- Owning a coordinator that is there brings none back. -/
theorem outlives_ownCoordinator (hc : b.hasCoordinator c = true) :
    b.Outlives (b.ownCoordinator c) :=
  outlives_updateCoordinator fun hno => by rw [hc] at hno; cases hno

/-- Giving a coordinator up brings none back. -/
theorem outlives_disownCoordinator (b : Board) (c : CoordinatorId) :
    b.Outlives (b.disownCoordinator c) :=
  readsCoordination_outlives.disownCoordinator <| outlives_updateCoordinator fun hno => by
    have h0 : (b.coordinator c).owners = 0 := by simpa [hasCoordinator] using hno
    simp [h0]

/-- Setting a coordinator up brings none back. -/
theorem outlives_setUp (b : Board) (settings : Settings) (host : Host) :
    b.Outlives (b.setUp settings host).2 := by
  rcases setUp_cases b settings host with ⟨worker, identity, -, he⟩ | ⟨he, -⟩
  · rw [he]
    refine ⟨?_, fun c hlt hc => ?_⟩
    · change b.coordinators.length ≤ (b.coordinators ++ [_]).length
      rw [List.length_append]
      exact Nat.le_add_right ..
    · have hget : ∀ d, (b.openCoordinator worker identity).2.coordinators.getD c d =
          b.coordinators.getD c d := fun d =>
        (getD_concat ..).trans (if_neg (Nat.ne_of_lt hlt))
      rw [hasCoordinator, coordinator, hget]
      rw [hasCoordinator, coordinator] at hc
      rw [List.getD_eq_getElem?_getD, List.getElem?_eq_getElem hlt] at hc ⊢
      exact hc
  · rw [he]
    exact readsCoordination_outlives.refl b

end Board

section Acts

variable {R : Board → Board → Prop} (hR : AllowsHandling R)

include hR

/-- A table may be drained. -/
theorem within_drain (visit : Visit) (r : RegistryId) : (drain visit r).Within R := by
  intro b
  have htaken : R b (b.takeAll r).2 := hR.takeAll b r
  have hall := Act.Within.forEach hR (within_unregister hR) (visit r (b.takeAll r).1)
    (b.takeAll r).2
  have hend := hall.ensuring hR.toTransits (hR.letGoAll (visit r (b.takeAll r).1))
  exact hend.after hR.toTransits htaken

/-- A coordinator that shuts down is owned only if it exists. -/
theorem within_shutDown (hown : ∀ b c, b.hasCoordinator c = true → R b (b.ownCoordinator c))
    (hdisown : ∀ b c, R b (b.disownCoordinator c)) (visit : Visit) (c : CoordinatorId) :
    (shutDown visit c).Within R := by
  intro b
  change ((if b.hasCoordinator c = true then
    withCoordinator c fun co => drain visit co.registry else pure ()) b).Within R b
  split
  · rename_i hc
    exact Act.Within.withCoordinator hR (fun co => within_drain hR visit co.registry)
      (hown b c hc) fun b => hdisown b c
  · exact hR.refl b

/-- The signal may be fired, where it may be owned, given up and marked as fired. -/
theorem within_fire (hown : ∀ b c, b.hasCoordinator c = true → R b (b.ownCoordinator c))
    (hdisown : ∀ b c, R b (b.disownCoordinator c)) (hfired : ∀ b : Board, R b b.fired)
    (visit : Visit) : (fire visit).Within R := by
  intro b
  rw [fire_eq]
  have hall := Act.Within.forEach hR (within_shutDown hR hown hdisown visit) b.signal.fire.1
    b.fired
  exact (hall.after hR.toTransits (hfired b)).andThen hR.toTransits fun _ b' => hR.refl b'

end Acts

/-- In no deed a coordinator that is gone comes back. -/
theorem outlives_deed {d : Deed} (hs : (order false).sound g w) (hd : d.Possible w) :
    (d.act w.board).Within Outlives w.board := by
  have hown : ∀ (b : Board) c, b.hasCoordinator c = true → b.Outlives (b.ownCoordinator c) :=
    fun _ _ => outlives_ownCoordinator
  have hhas : ∀ c, d.patron = some c → w.board.hasCoordinator c = true := by
    intro c hc
    have hmem : c ∈ w.coordinators := by
      cases d <;> cases hc
      · exact hd
      · exact hd
      · exact hd
      · exact hd.1
    have hpos := hs.books.pos_of_master (List.mem_append_right g.coords hmem)
    simpa [hasCoordinator] using hpos
  cases hfire : d.fires with
  | true =>
    obtain ⟨visit, rfl⟩ := Deed.fires_iff.mp hfire
    have hall := within_fire readsCoordination_outlives.handling hown outlives_disownCoordinator
      (fun _ => ⟨Nat.le_refl _, fun _ _ => id⟩) visit w.board
    exact hall.andThen readsCoordination_outlives.toTransits fun _ b =>
      readsCoordination_outlives.refl b
  | false =>
    refine within_deed readsCoordination_outlives hfire ?_ outlives_disownCoordinator
      (fun c suppressed => outlives_updateCoordinator fun hno => by
        simpa [hasCoordinator] using hno) (outlives_setUp w.board)
    intro c hc b' ha
    refine outlives_ownCoordinator ?_
    rw [hasCoordinator, owners_coordinator ha.coordinators]
    exact hhas c hc

/-- What is done in a managed course: things are left to coordinators, which may be given up, and
nobody panics. -/
def Managed (_ : Moment) : Event → Prop
  | .deed d => d.Coordinated ∨ ∃ c, d = .dropCoordinator c
  | .reply returned => returned = true

/-- Events that are calm are managed. -/
theorem Calm.managed (he : Calm m e) : Managed m e := by
  cases e with
  | deed d => exact .inl he
  | reply returned => exact he

/-- What may have happened between two worlds in which coordinators may be given up. -/
structure World.Drifts (tr : Trace) (w w' : World) : Prop where
  /-- What may have happened between their boards. -/
  board : w.board.Elapses tr w'.board
  /-- Handlers have moved on, and what was told remains told. -/
  later : (order false).later w w'
  /-- No coordinator is back. -/
  outlives : w.board.Outlives w'.board
  /-- Whoever owns a coordinator still does, unless it was given up. -/
  owned : ∀ c ∈ w.coordinators, (∀ m, (m, .deed (.dropCoordinator c)) ∉ tr) → c ∈ w'.coordinators
  /-- Whatever happened after the signal had fired happened after that. -/
  fired : w.board.signal.fired = true → ∀ x ∈ tr, x.1.world.board.signal.fired = true

namespace World.Drifts

theorem refl (w : World) : w.Drifts [] w :=
  ⟨.refl _, (order false).later_refl w, readsCoordination_outlives.refl _, fun _ hc _ => hc,
    fun _ => List.forall_mem_nil _⟩

/-- What may have happened in one step and another may have happened in both. -/
theorem trans {u v w : World} (h : u.Drifts tr v) (h' : v.Drifts tr' w) :
    u.Drifts (tr ++ tr') w where
  board := h.board.trans h.later.1 h'.board h'.later.1
  later := (order false).later_trans h.later h'.later
  outlives := readsCoordination_outlives.trans h.outlives h'.outlives
  owned c hc hd := h'.owned c (h.owned c hc fun m hm => hd m (List.mem_append_left _ hm))
    fun m hm => hd m (List.mem_append_right _ hm)
  fired hf := by
    intro x hx
    rcases List.mem_append.mp hx with hx | hx
    · exact h.fired hf x hx
    · exact h'.fired (h.board.fired hf) x hx

/-- In a turn that only ends things nothing else happens. -/
theorem of_turn {b : Board} {x : Option Telling} (hturn : (order false).turn w x (w.put b))
    (he : w.board.Ebbs b) (ho : w.board.Outlives b) : w.Drifts [] (w.put b) where
  board := he.elapses
  later := (order false).later_of_turn hturn
  outlives := ho
  owned _ hc _ := hc
  fired _ := List.forall_mem_nil _

end World.Drifts

/-- What happens in an event. -/
theorem Moment.Tame.drifts (hm : m.Tame first) (hw : m.Within Outlives) (allowed : m.Allows e)
    (he : Managed m e) :
    m.world.Drifts [(m, e)] (m.after e).world ∧ (m.after e).Within Outlives := by
  obtain ⟨g, hsound⟩ := hm.lawful.sound
  obtain ⟨houtlives, hw'⟩ := hw.after allowed (by
    rintro d rfl
    exact outlives_deed hsound allowed)
  have hmanaged : e.Coordinated ∨ ∃ c, e = .deed (.dropCoordinator c) := by
    cases e with
    | deed d => exact he.imp_right fun ⟨c, hc⟩ => ⟨c, congrArg Event.deed hc⟩
    | reply returned => exact .inl trivial
  refine ⟨⟨hm.board allowed hmanaged, hm.world_later allowed, houtlives, fun c hc hd => ?_,
    fun hf x hx => ?_⟩, hw'⟩
  · exact mem_coordinators_after allowed (fun h => hd m (h ▸ List.mem_singleton.mpr rfl)) hc
  · cases List.mem_singleton.mp hx
    exact hf

/-- What happens while a listener is told: a managed course by itself, on the world as it was left,
up to its end. -/
def World.Strays (w : World) (tr : Trace) (w' : World) : Prop := ∃ events,
  Course.Open Managed ⟨w, []⟩ events ∧ Moment.trace ⟨w, []⟩ events = tr ∧
    events.foldl Moment.after ⟨w, []⟩ = ⟨w', []⟩

/-- How a computation runs to its end while its listeners act before they return, with the boards at
the two ends of each of its turns. -/
inductive Talk.Runs : World → Talk Board Telling α → List (Board × Board) → Trace → Option α →
    World → Prop where
  /-- It has ended. -/
  | ended {w : World} {a : Option α} {b : Board} :
    Runs w (.ended a b) [(w.board, b)] [] a (w.put b)
  /-- It tells a listener, and goes on with the world that is left. -/
  | told {w w' w'' : World} {m : Telling} {b : Board} {resume : Bool → Board → Talk Board Telling α}
      {turns : List (Board × Board)} {tr tr' : Trace} {a : Option α}
      (strays : (w.put b).Strays tr w')
      (rest : Runs w' (resume true w'.board) turns tr' a w'') :
      Runs w (.told m b resume) ((w.board, b) :: turns) (tr ++ tr') a w''

/-- A calm course is managed. -/
theorem Course.Open.managed {events : List Event} (ho : Course.Open Calm m events) :
    Course.Open Managed m events := by
  induction events generalizing m with
  | nil => trivial
  | cons e rest ih => exact ⟨ho.1, ho.2.1.managed, ih ho.2.2⟩

/-- A calm course by itself is a managed one. -/
theorem World.Passes.strays (hp : w.Passes tr w') : w.Strays tr w' := by
  obtain ⟨events, ho, htr, hend⟩ := hp
  exact ⟨events, ho.managed, htr, hend⟩

/-- A managed course keeps what was taken on. -/
theorem Moment.Tame.strays {events : List Event} (hm : m.Tame first) (hw : m.Within Outlives)
    (ho : Course.Open Managed m events) (hend : events.foldl Moment.after m = ⟨w', []⟩) :
    m.world.Drifts (m.trace events) w' ∧ (order false).sound first w' := by
  induction events generalizing m with
  | nil =>
    subst hend
    exact ⟨.refl _, hm.lawful.top rfl⟩
  | cons e rest ih =>
    obtain ⟨allowed, hmanaged, hrest⟩ := ho
    obtain ⟨hdrifts, hw'⟩ := hm.drifts hw allowed hmanaged
    obtain ⟨hlater, hsound⟩ := ih (hm.turn allowed).2 hw' hrest hend
    exact ⟨hdrifts.trans hlater, hsound⟩

/-- What a computation has taken on is kept while a listener acts. -/
theorem World.Strays.drifts (hp : w.Strays tr w') (hs : (order false).sound g w) :
    w.Drifts tr w' ∧ (order false).sound g w' := by
  obtain ⟨events, ho, rfl, hend⟩ := hp
  exact Moment.Tame.strays (m := ⟨w, []⟩) ⟨⟨g, hs, .nil⟩, List.forall_mem_nil _⟩
    (List.forall_mem_nil _) ho hend

/-- A computation that ends things only, as a law has it, and brings no coordinator back. -/
structure Talk.Fades (g : Ledger) (start : Board) (P : Option α → World → Prop) (w : World)
    (t : Talk Board Telling α) : Prop where
  /-- It only ends things. -/
  ebbs : t.Ebbs w.board
  /-- It brings no coordinator back. -/
  outlives : t.Within Outlives w.board
  /-- It keeps the law. -/
  keeps : t.Keeps (order false) (fun _ => True) (Leaves false (fun _ => True) {} g start P) w w

namespace Talk.Runs

variable {turns : List (Board × Board)} {a : Option α} {t : Talk Board Telling α} {start : Board}
  {P : Option α → World → Prop}

/-- Only the people of a world matter for a computation that has its own board. -/
theorem put {b : Board} (hp : t.Runs w turns tr a w') :
    ∃ turns', t.Runs (w.put b) turns' tr a w' := by
  cases hp with
  | ended => exact ⟨_, .ended⟩
  | told strays rest => exact ⟨_, .told strays rest⟩

/-- A run of one computation after the other is a run of each. -/
theorem andThen {next : α → Board → Talk Board Telling β} {o : Option β}
    (hp : (t.andThen next).Runs w turns tr o w') : (o = none ∧ t.Runs w turns tr none w') ∨
      ∃ turns₁ turns₂ tr₁ tr₂ x v, tr = tr₁ ++ tr₂ ∧ t.Runs w turns₁ tr₁ (some x) v ∧
        (next x v.board).Runs v turns₂ tr₂ o w' := by
  induction t generalizing w tr turns with
  | ended a b =>
    cases a with
    | none =>
      cases hp
      exact .inl ⟨rfl, .ended⟩
    | some x =>
      obtain ⟨turns', hn⟩ := hp.put (b := b)
      exact .inr ⟨_, turns', [], tr, x, w.put b, rfl, .ended, hn⟩
  | told m b resume ih =>
    cases hp with
    | told strays rest =>
      rcases ih true _ rest with ⟨ho, hr⟩ | ⟨turns₁, turns₂, tr₁, tr₂, x, v, rfl, hr, hn⟩
      · exact .inl ⟨ho, .told strays hr⟩
      · exact .inr ⟨_, turns₂, _, tr₂, x, v, (List.append_assoc ..).symm, .told strays hr, hn⟩

/-- A change at the end comes after the run. -/
theorem ensuring {f : Board → Board} (hp : (t.ensuring f).Runs w turns tr a w') :
    ∃ turns' v, t.Runs w turns' tr a v ∧ w' = v.put (f v.board) := by
  induction t generalizing w tr turns with
  | ended x b =>
    cases hp
    exact ⟨_, w.put b, .ended, rfl⟩
  | told m b resume ih =>
    cases hp with
    | told strays rest =>
      obtain ⟨turns', v, hr, hv⟩ := ih true _ rest
      exact ⟨_, v, .told strays hr, hv⟩

/-- A computation that fades ends as it promises, whatever its listeners do, and only they do
anything else meanwhile. -/
theorem drifts (hp : t.Runs w turns tr a w') (hs : (order false).sound g' w)
    (hf : t.Fades g start P w) : w.Drifts tr w' ∧ (order false).sound g w' ∧ P a w' := by
  induction hp generalizing g' with
  | ended =>
    obtain ⟨hat, -, -, hpost⟩ := hf.keeps
    exact ⟨.of_turn hat.quiet hf.ebbs hf.outlives, hat.sound, hpost⟩
  | told strays rest ih =>
    obtain ⟨hturn, g', hsound, hresume⟩ := hf.keeps
    obtain ⟨hpassed, hkept⟩ := strays.drifts hsound
    obtain ⟨hlater, hend⟩ := ih hkept
      ⟨hf.ebbs.2 true _, hf.outlives.2 true _, hresume true _ trivial hpassed.later hkept⟩
    have hfirst := World.Drifts.of_turn hturn hf.ebbs.1 hf.outlives.1
    exact ⟨hfirst.trans (hpassed.trans hlater), hend⟩

/-- What holds of each turn of a computation, whatever the board is, holds of each turn of a run, on
boards in order. -/
theorem within {R : Board → Board → Prop} (hp : t.Runs w turns tr a w')
    (hs : (order false).sound g' w) (hf : t.Fades g start P w) (hR : t.Within R w.board) :
    ∀ x ∈ turns, R x.1 x.2 ∧ ∃ g v, (order false).sound g v ∧ v.board = x.1 := by
  induction hp generalizing g' with
  | ended => exact List.forall_mem_singleton.mpr ⟨hR, g', _, hs, rfl⟩
  | told strays rest ih =>
    obtain ⟨-, g', hsound, hresume⟩ := hf.keeps
    obtain ⟨hpassed, hkept⟩ := strays.drifts hsound
    exact List.forall_mem_cons.mpr ⟨⟨hR.1, _, _, hs, rfl⟩, ih hkept
      ⟨hf.ebbs.2 true _, hf.outlives.2 true _, hresume true _ trivial hpassed.later hkept⟩
      (hR.2 true _)⟩

end Talk.Runs

/-- A run in which nobody gives up a coordinator. -/
theorem Talk.Plays.runs {t : Talk Board Telling α} {a : Option α} (hp : t.Plays w tr a w') :
    ∃ turns, t.Runs w turns tr a w' := by
  induction hp with
  | ended => exact ⟨_, .ended⟩
  | told passes _ ih =>
    obtain ⟨turns, hr⟩ := ih
    exact ⟨_, .told passes.strays hr⟩

section Ends

variable {turns : List (Board × Board)} {b : Board}

/-- Telling somebody who returns is no panic. -/
theorem runs_notify {topic : Topic} {action : Option String} {a : Option Unit}
    (hp : (notify h topic action b).Runs w turns tr a w') : a = some () := by
  rw [notify_eq] at hp
  split at hp
  · cases hp
    rfl
  · cases hp with
    | told _ rest =>
      cases rest
      rfl

/-- A handler ends without a panic. -/
theorem runs_unregister {a : Option Unit} (hp : (unregister h b).Runs w turns tr a w') :
    a = some () := by
  rw [unregister_eq] at hp
  split at hp
  · cases hp
    rfl
  · split at hp
    · exact runs_notify hp
    · cases hp
      rfl

/-- What is done for each of some things ends without a panic if it does for each. -/
theorem runs_forEach {act : β → Act Unit}
    (hact : ∀ x b w turns tr a w', (act x b).Runs w turns tr a w' → a = some ()) {xs : List β}
    {a : Option Unit} (hp : (Action.forEach xs act b).Runs w turns tr a w') : a = some () := by
  induction xs generalizing w tr b turns with
  | nil =>
    cases hp
    rfl
  | cons x xs ih =>
    rcases Runs.andThen (t := act x b) hp with ⟨-, hx⟩ | ⟨_, _, _, _, _, _, -, -, hrest⟩
    · cases hact _ _ _ _ _ _ _ hx
    · exact ih hrest

/-- A drain that is run to its end does not panic. -/
theorem runs_drain {a : Option Unit} (hp : (drain visit r b).Runs w turns tr a w') :
    a = some () := by
  obtain ⟨_, v, hall, -⟩ := Runs.ensuring (t := Action.forEach (visit r (b.takeAll r).1) unregister
    (b.takeAll r).2) hp
  exact runs_forEach (fun _ _ _ _ _ _ _ => runs_unregister) hall

/-- A coordinator that is shut down to the end does not panic. -/
theorem runs_shutDown {a : Option Unit} (hp : (shutDown visit c b).Runs w turns tr a w') :
    a = some () := by
  change Talk.Runs w ((if b.hasCoordinator c = true then
    withCoordinator c fun co => drain visit co.registry else pure ()) b) turns tr a w' at hp
  split at hp
  · obtain ⟨_, v, hdrain, -⟩ := Runs.ensuring (t := drain visit (b.coordinator c).registry
      (b.ownCoordinator c)) hp
    exact runs_drain hdrain
  · cases hp
    rfl

/-- A coordinator that is gone does nothing when it is its turn. -/
theorem still_shutDown {b : Board} (hc : b.hasCoordinator c = false) :
    shutDown visit c b = .ended (some ()) b := by
  change (if b.hasCoordinator c = true then _ else (pure () : Act Unit)) b = _
  rw [if_neg (by simp [hc])]
  rfl

/-- What is done for some things and then for others. -/
theorem forEach_append {act : β → Act Unit} (xs ys : List β) (b : Board) :
    Action.forEach (xs ++ ys) act b =
      (Action.forEach xs act b).andThen fun _ => Action.forEach ys act := by
  induction xs generalizing b with
  | nil => rfl
  | cons x xs ih =>
    have hrest : (fun (_ : Unit) => Action.forEach (xs ++ ys) act) = fun _ b =>
        (Action.forEach xs act b).andThen fun _ => Action.forEach ys act :=
      funext fun _ => funext ih
    have hthen : (act x b).andThen (fun _ => Action.forEach (xs ++ ys) act) =
        ((act x b).andThen fun _ => Action.forEach xs act).andThen
          fun _ => Action.forEach ys act := by
      rw [hrest]
      exact (Talk.andThen_assoc ..).symm
    exact hthen

end Ends

section Fading

/-- Ending some handlers ends things only. -/
theorem fades_unregisterAll (hs : List HandlerId)
    (hsound : (order false).sound { g with ending := hs ++ g.ending } w) :
    (Action.forEach hs unregister w.board).Fades g w.board (fun _ _ => True) w :=
  ⟨Act.Ebbs.forEach ebbs_unregister hs w.board,
    Act.Within.forEach readsCoordination_outlives.handling
      (within_unregister readsCoordination_outlives.handling) hs w.board,
    keeps_unregisterAll (fun hs => Bool.noConfusion hs) (At.start hsound)⟩

/-- Shutting a coordinator down ends things only. -/
theorem fades_shutDown (hs : (order false).sound g w) (c : CoordinatorId) :
    (shutDown visit c w.board).Fades g w.board (fun _ _ => True) w :=
  ⟨ebbs_shutDown visit c w.board,
    within_shutDown readsCoordination_outlives.handling (fun _ _ => outlives_ownCoordinator)
      outlives_disownCoordinator
      visit c w.board,
    keeps_shutDown (fun hs => Bool.noConfusion hs) (At.start hs)⟩

/-- Shutting some coordinators down ends things only. -/
theorem fades_shutDownAll (hs : (order false).sound g w)
    (cs : List CoordinatorId) : (Action.forEach cs (shutDown visit) w.board).Fades g w.board
      (fun _ _ => True) w :=
  ⟨Act.Ebbs.forEach (ebbs_shutDown visit) cs w.board,
    Act.Within.forEach readsCoordination_outlives.handling
      (within_shutDown readsCoordination_outlives.handling
      (fun _ _ => outlives_ownCoordinator) outlives_disownCoordinator visit) cs w.board,
    keeps_shutDownAll (fun hs => Bool.noConfusion hs) (At.start hs)⟩

/-- A handler that is to be ended is over in the end. -/
theorem fades_unregister (hs : (order false).sound g w) (h : HandlerId) :
    (unregister h w.board).Fades g w.board (fun _ v => v.board.phase h = .unregistered) w :=
  ⟨ebbs_unregister h w.board, within_unregister readsCoordination_outlives.handling h w.board,
    keeps_unregister (At.start hs) (.inl rfl) fun hs => Bool.noConfusion hs⟩

end Fading

section Draining

variable {turns : List (Board × Board)}

/-- Whom the computations under way are going to end does not matter here. -/
theorem sound_ending {ending : List HandlerId} (hs : (order false).sound g w) :
    (order false).sound { g with ending } w := hs.free

/-- Handlers that were taken out are over in the end, whatever their listeners do. -/
theorem over_of_runs {hs : List HandlerId} {a : Option Unit} (hsound : (order false).sound g w)
    (hp : (Action.forEach hs unregister w.board).Runs w turns tr a w') :
    ∀ h ∈ hs, h < w.board.handlers.length → w'.board.phase h = .unregistered := by
  induction hs generalizing w tr turns with
  | nil => exact List.forall_mem_nil _
  | cons x hs ih =>
    rcases Runs.andThen (t := unregister x w.board) hp with
      ⟨-, hx⟩ | ⟨_, _, _, _, _, v, -, hx, hrest⟩
    · cases runs_unregister hx
    · obtain ⟨hlater, hkept, hover⟩ := hx.drifts hsound (fades_unregister hsound x)
      obtain ⟨hrestLater, -, -⟩ := hrest.drifts hkept
        (fades_unregisterAll (g := g) hs (sound_ending hkept))
      intro h hh hlt
      have hlt' := Nat.lt_of_lt_of_le hlt hlater.later.1.length
      rcases List.mem_cons.mp hh with rfl | hh
      · exact hrestLater.later.1.over hlt' hover
      · exact ih hkept hrest h hh hlt'

/-- A registry out of which all handlers were taken is empty. -/
theorem entries_takeAll (b : Board) (r : RegistryId) :
    ((b.takeAll r).2.registry r).entries = [] := by
  rw [List.eq_nil_iff_forall_not_mem]
  rintro ⟨name, h⟩ hx
  exact (mem_takeAll.mp hx).2 rfl

/-- What a drain of a registry from `w` on leaves: everybody who was there is over, and nobody is
there but who was shown since. -/
structure Drained (r : RegistryId) (w : World) (tr : Trace) (w' : World) : Prop where
  /-- Everybody is over. -/
  ended : ∀ h ∈ (w.board.registry r).handlers, h < w.board.handlers.length →
    w'.board.phase h = .unregistered
  /-- Whoever is there was shown since. -/
  table : ∀ {name h}, (name, h) ∈ (w'.board.registry r).entries → tr.Shows h

/-- What was drained remains so. -/
theorem Drained.later {v : World} {tr' : Trace} (hd : Drained r w tr v)
    (hlen : w.board.handlers.length ≤ v.board.handlers.length) (hv : v.board.Elapses tr' w'.board)
    (ho : v.board.Onward w'.board) : Drained r w (tr ++ tr') w' where
  ended h hh hlt := ho.over (Nat.lt_of_lt_of_le hlt hlen) (hd.ended h hh hlt)
  table hx := by
    rcases hv.entries hx with hb | ⟨hs, -⟩
    · exact (hd.table hb).of_subset (List.subset_append_left ..)
    · exact hs.of_subset (List.subset_append_right ..)

/-- What holds of a drained registry still holds once a computation has ended some more. -/
theorem Drained.ebbs {v : World} {b : Board} (hd : Drained r w tr v) (he : v.board.Ebbs b) :
    Drained r w tr (v.put b) where
  ended h hh hlt := by
    rcases he.phase h with hp | hp
    · exact hp.trans (hd.ended h hh hlt)
    · exact hp
  table hx := hd.table (he.entries hx)

/-- A registry is drained. -/
theorem drained_drain {a : Option Unit} (hs : (order false).sound g w)
    (hp : (drain visit r w.board).Runs w turns tr a w') : Drained r w tr w' := by
  have htaken := (At.start hs).takeAll visit r
  obtain ⟨_, v, hall, rfl⟩ := Runs.ensuring (t := Action.forEach (visit r (w.board.takeAll r).1)
    unregister (w.board.takeAll r).2) hp
  obtain ⟨_, hall'⟩ := hall.put (b := (w.board.takeAll r).2)
  obtain ⟨hlater, -, -⟩ := hall'.drifts htaken.sound (fades_unregisterAll
    (g := { g with holds := visit r (w.board.takeAll r).1 ++ g.holds }) _ htaken.sound)
  refine Drained.ebbs ⟨fun h hh hlt => ?_, fun {name h} hx => ?_⟩ (ebbs_letGoAll _)
  · exact over_of_runs htaken.sound hall' h ((visit.fair r _).mem_iff.mpr hh) hlt
  · rcases hlater.board.entries hx with hb | ⟨hshown, -⟩
    · rw [World.put_board, entries_takeAll] at hb
      cases hb
    · exact hshown

/-- The registry of a coordinator that exists is drained. -/
theorem drained_shutDown {a : Option Unit} (hs : (order false).sound g w)
    (hc : w.board.hasCoordinator c = true)
    (hp : (shutDown visit c w.board).Runs w turns tr a w') :
    Drained (w.board.coordinator c).registry w tr w' := by
  change Talk.Runs w ((if w.board.hasCoordinator c = true then
    withCoordinator c fun co => drain visit co.registry else pure ()) w.board) turns tr a w' at hp
  rw [if_pos hc] at hp
  obtain ⟨_, v, hdrain, rfl⟩ := Runs.ensuring (t := drain visit (w.board.coordinator c).registry
    (w.board.ownCoordinator c)) hp
  have howned : (order false).sound { g with coords := c :: g.coords }
      (w.put (w.board.ownCoordinator c)) :=
    Sound.ownCoordinator hs (by simpa [hasCoordinator] using hc)
  obtain ⟨_, hdrain'⟩ := hdrain.put (b := w.board.ownCoordinator c)
  have hdrained := drained_drain howned hdrain'
  exact Drained.ebbs ⟨hdrained.ended, hdrained.table⟩ (ebbs_disownCoordinator c)

end Draining

end ToastBoard
