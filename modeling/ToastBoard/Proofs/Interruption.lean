import ToastBoard.Proofs.Coherence
import ToastBoard.Proofs.Firing
import ToastBoard.Proofs.Tidings

/-!
# A listener that panics while the signal fires

When the signal fires, handlers end one after the other, and each that was live tells its listener.
A listener that panics ends all of this: those that were to end after it, in its own table and in
the tables of coordinators that come later, stay as they are, although they are in no table any
more or never come to be visited. So everybody ends exactly if nobody stands behind a listener that
panics, but for those who are over anyway.
-/

namespace ToastBoard

open Talk Board

variable {visit : Visit} {w w' : World} {g g' : Ledger} {h : HandlerId} {r : RegistryId}
  {c : CoordinatorId} {α β : Type}

namespace Talk

/-- What comes of a computation whose listeners do nothing but return, or panic. -/
def against {σ μ : Type} (returns : μ → Bool) : Talk σ μ α → Option α × σ
  | .ended a s => (a, s)
  | .told m s resume => (resume (returns m) s).against returns

variable {σ μ : Type} {returns : μ → Bool} {s : σ}

/-- A second computation goes on where the first one has ended. -/
theorem against_andThen {t : Talk σ μ α} {next : α → σ → Talk σ μ β} {a : α}
    (ht : t.against returns = (some a, s)) :
    (t.andThen next).against returns = (next a s).against returns := by
  induction t with
  | ended a' s' =>
    cases ht
    rfl
  | told m s' resume ih => exact ih (returns m) s' ht

/-- After a panic nothing goes on. -/
theorem against_andThen_none {t : Talk σ μ α} {next : α → σ → Talk σ μ β}
    (ht : t.against returns = (none, s)) : (t.andThen next).against returns = (none, s) := by
  induction t with
  | ended a' s' =>
    cases ht
    rfl
  | told m s' resume ih => exact ih (returns m) s' ht

/-- A change at the end is made after a panic as well. -/
theorem against_ensuring {t : Talk σ μ α} {f : σ → σ} {o : Option α}
    (ht : t.against returns = (o, s)) : (t.ensuring f).against returns = (o, f s) := by
  induction t with
  | ended a' s' =>
    cases ht
    rfl
  | told m s' resume ih => exact ih (returns m) s' ht

end Talk

/-- The handler is over, and if it was live, its listener has heard that it is finished. -/
def Story.over (s : Story) : Story :=
  { s with phase := .unregistered, heard := s.heard ++ s.farewell none }

/-- Who is over does not end once more. -/
theorem Story.over_of_over {s : Story} (hs : s.phase = .unregistered) : s.over = s := by
  have hsilent : s.farewell none = [] :=
    Story.farewell_of_over (by rw [hs]; exact Phase.noConfusion) none
  rw [Story.over, hsilent, List.append_nil, ← hs]

theorem Story.over_over (s : Story) : s.over.over = s.over := over_of_over rfl

namespace Board

variable {b b' : Board} {panics : HandlerId → Bool}

/-- What becomes of a handler when one ends while its listener returns or panics. -/
theorem story_dismissed (b : Board) (h x : HandlerId) :
    (b.dismissed h).story x = if x = h then (b.story x).over else b.story x := by
  have hheard : (b.dismissed h).heard x =
      b.heard x ++ if x = h then (b.story x).farewell none else [] := by
    rw [heard, heard, (says_dismissed h).told, List.filter_append, List.map_append]
    congr 1
    by_cases hx : x = h
    · subst hx
      simp [farewell, List.filter_map, Function.comp_def]
    · have hx' : h ≠ x := fun hc => hx hc.symm
      simp [farewell, List.filter_map, Function.comp_def, hx, hx']
  by_cases hx : x = h
  · subst hx
    have hphase : (b.dismissed x).phase x = .unregistered := by
      simpa using (ends_dismissed x).stands x
    have hsame : ((b.dismissed x).handler x).fields = (b.handler x).fields ∧
        ((b.dismissed x).handler x).listener = (b.handler x).listener := by
      by_cases hlt : x < b.handlers.length
      · have honward := (dismissed_quiet b x).1
        exact ⟨honward.fields x hlt, honward.listener x hlt⟩
      · have hgone : b.dismissed x = b := if_pos (by
          rw [phase, handler_of_le (Nat.le_of_not_lt hlt)]
          rfl)
        rw [hgone]
        exact ⟨rfl, rfl⟩
    rw [if_pos rfl] at hheard ⊢
    simp only [story, Story.over, hphase, hsame.1, hsame.2, hheard]
  · rw [if_neg hx, List.append_nil] at hheard
    rw [if_neg hx]
    simp only [story, phase, handler_dismissed hx, hheard]

/-- Whether a handler ends with a panic of its listener. -/
def strikes (b : Board) (panics : HandlerId → Bool) (h : HandlerId) : Bool :=
  decide (b.phase h = .live ∧ (b.handler h).listener ≠ none) && panics h

/-- Those of some handlers that have their turn: all up to the first that ends with a panic. -/
def reached (b : Board) (panics : HandlerId → Bool) : List HandlerId → List HandlerId
  | [] => []
  | h :: rest => if b.strikes panics h then [h] else h :: reached b panics rest

/-- Whoever comes after a panic has no turn. -/
theorem reached_append (b : Board) (panics : HandlerId → Bool) (hs hs' : List HandlerId) :
    b.reached panics (hs ++ hs') = if hs.any (b.strikes panics) then b.reached panics hs
      else hs ++ b.reached panics hs' := by
  induction hs with
  | nil => rfl
  | cons h hs ih =>
    by_cases hh : b.strikes panics h = true
    · simp [reached, hh]
    · rw [Bool.not_eq_true] at hh
      by_cases hrest : hs.any (b.strikes panics) = true <;> simp [reached, hh, ih, hrest]

theorem reached_of_none {hs : List HandlerId} (hno : hs.any (b.strikes panics) = false) :
    b.reached panics hs = hs := by
  have happ := reached_append b panics hs []
  rwa [hno, List.append_nil, if_neg Bool.false_ne_true, reached, List.append_nil] at happ

theorem reached_congr (hs : ∀ x, b'.strikes panics x = b.strikes panics x) (l : List HandlerId) :
    b'.reached panics l = b.reached panics l := by
  induction l with
  | nil => rfl
  | cons h l ih => simp only [reached, hs, ih]

/-- Whether a listener panics depends on what became of its handler. -/
theorem strikes_of_story {hs : List HandlerId} (hno : hs.any (b.strikes panics) = false)
    (hb : ∀ x, b'.story x = if x ∈ hs then (b.story x).over else b.story x) (x : HandlerId) :
    b'.strikes panics x = b.strikes panics x := by
  have hstory : ∀ b : Board, b.strikes panics x =
      (decide ((b.story x).phase = .live ∧ (b.story x).listener ≠ none) && panics x) := fun _ => rfl
  by_cases hx : x ∈ hs
  · have hover : (b'.story x).phase = .unregistered := by
      rw [hb, if_pos hx]
      rfl
    have hsame : b.strikes panics x = false := by
      simpa using List.any_eq_false.mp hno x hx
    rw [hsame, hstory, hover]
    simp
  · rw [hstory, hstory, hb, if_neg hx]

/-- A handler that ends while its listener returns or panics. -/
theorem against_unregister (panics : HandlerId → Bool) (h : HandlerId) (b : Board) :
    (unregister h b).against (fun x => !panics x.handler) =
      (if b.strikes panics h then none else some (), b.dismissed h) := by
  rw [unregister_eq, dismissed, strikes]
  split
  · rename_i hp
    simp [hp, Talk.against]
  · rename_i hp
    split
    · rename_i hl
      have hsame : ((b.retire h).handler h).listener = (b.handler h).listener := by
        rw [handler_retire]
        split <;> rfl
      rw [notify_eq, announce, hsame]
      cases hn : (b.handler h).listener with
      | none => simp [Talk.against]
      | some l => cases hpanics : panics h <;> simp [Talk.against, hl, hpanics]
    · rename_i hl
      simp [hl, Talk.against]

/-- Handlers that end one after the other do so up to the first panic. -/
theorem against_unregisterAll (panics : HandlerId → Bool) (hs : List HandlerId) (b : Board) :
    (Action.forEach hs unregister b).against (fun x => !panics x.handler) =
      (if hs.any (b.strikes panics) then none else some (),
        (b.reached panics hs).foldl dismissed b) := by
  induction hs generalizing b with
  | nil => rfl
  | cons h hs ih =>
    have hfirst := against_unregister panics h b
    by_cases hh : b.strikes panics h = true
    · rw [hh, if_pos rfl] at hfirst
      refine (Talk.against_andThen_none hfirst).trans ?_
      simp [reached, hh]
    · have hno : [h].any (b.strikes panics) = false := by simpa using hh
      have hsame := strikes_of_story hno fun x => by
        simpa only [List.mem_singleton] using story_dismissed b h x
      rw [if_neg hh] at hfirst
      refine (Talk.against_andThen hfirst).trans ?_
      rw [ih, reached_congr hsame, funext hsame]
      simp [reached, hh]

/-- What becomes of a handler when some end. -/
theorem story_dismissedAll (hs : List HandlerId) (b : Board) (x : HandlerId) :
    (hs.foldl dismissed b).story x = if x ∈ hs then (b.story x).over else b.story x := by
  induction hs generalizing b with
  | nil => rfl
  | cons h hs ih =>
    rw [List.foldl_cons, ih, story_dismissed]
    by_cases hx : x = h <;> by_cases hm : x ∈ hs <;> simp [hx, hm, Story.over_over]

/-- Some handlers of the registry `r` have ended, and other registries and the coordinators are as
they were. -/
structure Sheds (r : RegistryId) (hs : List HandlerId) (b b' : Board) : Prop where
  /-- Those who have ended are over, and the others are as they were. -/
  story : ∀ x, b'.story x = if x ∈ hs then (b.story x).over else b.story x
  /-- The coordinators are as they were. -/
  coordinators : b'.coordinators = b.coordinators
  /-- Other registries are as they were. -/
  registry : ∀ q ≠ r, b'.registry q = b.registry q

/-- What becomes of a handler does not depend on holds that are given back. -/
theorem story_letGoAll (hs : List HandlerId) (b : Board) (x : HandlerId) :
    (b.letGoAll hs).story x = b.story x := by
  have hsame : ((b.letGoAll hs).handler x).fields = (b.handler x).fields ∧
      ((b.letGoAll hs).handler x).listener = (b.handler x).listener := by
    have htidies := tidies_letGoAll (b := b) hs
    by_cases hlt : x < b.handlers.length
    · exact ⟨htidies.onward.fields x hlt, htidies.onward.listener x hlt⟩
    · have hge := Nat.le_of_not_lt hlt
      rw [handler_of_le hge, handler_of_le (htidies.length ▸ hge)]
      exact ⟨rfl, rfl⟩
  rw [story, hsame.1, hsame.2, letGoAll_phase, heard_of_told (letGoAll_quiet b hs).2, story]

/-- A registry is drained up to the first panic. -/
theorem against_drain (visit : Visit) (panics : HandlerId → Bool) (r : RegistryId) (b : Board) :
    ∃ b', (drain visit r b).against (fun x => !panics x.handler) =
        (if (visit r (b.registry r).handlers).any (b.strikes panics) then none else some (), b') ∧
      b.Sheds r (b.reached panics (visit r (b.registry r).handlers)) b' := by
  have hall := against_unregisterAll panics (visit r (b.registry r).handlers) (b.takeAll r).2
  have hsame : ∀ x, (b.takeAll r).2.strikes panics x = b.strikes panics x := fun _ => rfl
  refine ⟨_, Talk.against_ensuring hall, fun x => ?_, ?_, fun q hq => ?_⟩
  · rw [story_letGoAll, story_dismissedAll, reached_congr hsame]
    rfl
  · rw [(tidies_letGoAll _).coordinators, (ends_dismissedAll _).coordinators]
    rfl
  · rw [Board.registry, registries_letGoAll, (ends_dismissedAll _).registries]
    exact (registry_updateRegistry ..).trans (if_neg fun h => hq h.1)

/-- The handlers that a coordinator has in its table, in the order in which they are visited. -/
def roll (b : Board) (visit : Visit) (c : CoordinatorId) : List HandlerId :=
  visit (b.coordinator c).registry (b.registry (b.coordinator c).registry).handlers

/-- A coordinator that exists shuts down up to the first panic. -/
theorem against_shutDown (visit : Visit) (panics : HandlerId → Bool)
    (hc : b.hasCoordinator c = true) :
    ∃ b', (shutDown visit c b).against (fun x => !panics x.handler) =
        (if (b.roll visit c).any (b.strikes panics) then none else some (), b') ∧
      b.Sheds (b.coordinator c).registry (b.reached panics (b.roll visit c)) b' := by
  obtain ⟨d, hd, hsheds⟩ := against_drain visit panics (b.coordinator c).registry
    (b.ownCoordinator c)
  have howned : d.disownCoordinator c = { d with coordinators := b.coordinators } :=
    disownCoordinator_of_owned (by simpa [hasCoordinator] using hc) hsheds.coordinators
  have hact : shutDown visit c b = (drain visit (b.coordinator c).registry
      (b.ownCoordinator c)).ensuring (·.disownCoordinator c) := by
    change (if b.hasCoordinator c = true then
      withCoordinator c fun co => drain visit co.registry else pure ()) b = _
    rw [if_pos hc]
    rfl
  refine ⟨d.disownCoordinator c, ?_, ?_⟩
  · rw [hact]
    exact Talk.against_ensuring hd
  · have hsame : ∀ x, (b.ownCoordinator c).strikes panics x = b.strikes panics x := fun _ => rfl
    have hreached := reached_congr hsame (b.roll visit c)
    rw [howned]
    exact ⟨fun x => hreached ▸ hsheds.story x, rfl, hsheds.registry⟩

/-- The handlers that some coordinators have in their tables, as far as these exist. -/
def rollCall (b : Board) (visit : Visit) (cs : List CoordinatorId) : List HandlerId :=
  (cs.filter b.hasCoordinator).flatMap (b.roll visit)

theorem Sheds.coordinator {hs : List HandlerId} (hb : b.Sheds r hs b')
    (hlt : c < b.coordinators.length) : b'.coordinator c = b.coordinator c := by
  rw [Board.coordinator, Board.coordinator, List.getD_eq_getElem?_getD,
    List.getD_eq_getElem?_getD, hb.coordinators, List.getElem?_eq_getElem hlt]
  rfl

/-- The handlers in the tables of all coordinators, in the order in which they are visited. -/
def everybody (b : Board) (visit : Visit) : List HandlerId :=
  b.rollCall visit (List.range b.coordinators.length)

/-- Everybody is in the table of a coordinator that exists. -/
theorem mem_everybody : h ∈ b.everybody visit ↔ ∃ c, b.hasCoordinator c = true ∧
    h ∈ (b.registry (b.coordinator c).registry).handlers := by
  simp only [everybody, rollCall, List.mem_flatMap, List.mem_filter, List.mem_range, roll,
    (visit.fair _ _).mem_iff]
  constructor
  · rintro ⟨c, ⟨-, hc⟩, hh⟩
    exact ⟨c, hc, hh⟩
  · rintro ⟨c, hc, hh⟩
    exact ⟨c, ⟨lt_of_coordinator_owners (by simpa [hasCoordinator] using hc), hc⟩, hh⟩

/-- A drain does not concern the tables of other coordinators. -/
theorem Sheds.rollCall {hs : List HandlerId} (hb : b.Sheds r hs b') {cs : List CoordinatorId}
    (hcs : ∀ c ∈ cs, (b.coordinator c).registry ≠ r) (hlt : ∀ c ∈ cs, c < b.coordinators.length) :
    b'.rollCall visit cs = b.rollCall visit cs := by
  have hsame : ∀ c ∈ cs, b'.coordinator c = b.coordinator c := fun c hc => hb.coordinator (hlt c hc)
  unfold Board.rollCall
  rw [List.filter_congr fun c hc => show b'.hasCoordinator c = b.hasCoordinator c by
    rw [hasCoordinator, hsame c hc, hasCoordinator]]
  refine List.flatMap_congr fun c hc => ?_
  have hmem := List.mem_of_mem_filter hc
  rw [roll, hsame c hmem, hb.registry _ (hcs c hmem), roll]

/-- Coordinators shut down up to the first panic. -/
theorem against_shutDownAll (visit : Visit) (panics : HandlerId → Bool) {cs : List CoordinatorId}
    (hnodup : cs.Nodup) (hlt : ∀ c ∈ cs, c < b.coordinators.length)
    (hapart : ∀ c ∈ cs, ∀ d ∈ cs, (b.coordinator d).registry = (b.coordinator c).registry → d = c) :
    ∃ b', (Action.forEach cs (shutDown visit) b).against (fun x => !panics x.handler) =
        (if (b.rollCall visit cs).any (b.strikes panics) then none else some (), b') ∧
      ∀ x, b'.story x = if x ∈ b.reached panics (b.rollCall visit cs) then (b.story x).over
        else b.story x := by
  induction cs generalizing b with
  | nil => exact ⟨b, rfl, fun x => (if_neg List.not_mem_nil).symm⟩
  | cons c cs ih =>
    obtain ⟨hnew, hnodup⟩ := List.nodup_cons.mp hnodup
    have hrest : ∀ d ∈ cs, d ∈ c :: cs := fun d => List.mem_cons_of_mem c
    by_cases hc : b.hasCoordinator c = true
    · obtain ⟨d, hd, hsheds⟩ := against_shutDown visit panics hc
      have hroll : b.rollCall visit (c :: cs) = b.roll visit c ++ b.rollCall visit cs := by
        simp [rollCall, hc]
      by_cases hany : (b.roll visit c).any (b.strikes panics) = true
      · rw [hany, if_pos rfl] at hd
        refine ⟨d, (Talk.against_andThen_none hd).trans ?_, ?_⟩
        · simp [hroll, hany]
        · rw [hroll, reached_append, if_pos hany]
          exact hsheds.story
      · have hno : (b.roll visit c).any (b.strikes panics) = false := by simpa using hany
        rw [if_neg hany] at hd
        have hstory := hsheds.story
        rw [reached_of_none hno] at hstory
        have hstrikes := strikes_of_story hno hstory
        have hsame : d.rollCall visit cs = b.rollCall visit cs :=
          hsheds.rollCall (fun x hx he => hnew (hapart c List.mem_cons_self x (hrest x hx) he ▸ hx))
            fun x hx => hlt x (hrest x hx)
        obtain ⟨b', hb', hstory'⟩ := ih (b := d) hnodup
          (fun x hx => by rw [hsheds.coordinators]; exact hlt x (hrest x hx))
          fun x hx y hy he => hapart x (hrest x hx) y (hrest y hy) (by
            rwa [hsheds.coordinator (hlt x (hrest x hx)),
              hsheds.coordinator (hlt y (hrest y hy))] at he)
        rw [hsame] at hb' hstory'
        refine ⟨b', (Talk.against_andThen hd).trans ?_, fun x => ?_⟩
        · rw [hb', funext hstrikes, hroll, List.any_append, hno, Bool.false_or]
        · rw [hstory', reached_congr hstrikes, hroll, reached_append, if_neg hany, hstory]
          by_cases h1 : x ∈ b.roll visit c <;>
            by_cases h2 : x ∈ b.reached panics (b.rollCall visit cs) <;>
              simp [h1, h2, Story.over_over]
    · have hstill : shutDown visit c b = .ended (some ()) b :=
        still_shutDown (Bool.eq_false_iff.mpr hc)
      have hroll : b.rollCall visit (c :: cs) = b.rollCall visit cs := by
        simp [rollCall, hc]
      obtain ⟨b', hb', hstory⟩ := ih hnodup (fun x hx => hlt x (hrest x hx))
        fun x hx y hy => hapart x (hrest x hx) y (hrest y hy)
      refine ⟨b', ?_, hroll ▸ hstory⟩
      have hfirst : (shutDown visit c b).against (fun x => !panics x.handler) = (some (), b) := by
        rw [hstill]
        rfl
      rw [hroll]
      exact (Talk.against_andThen hfirst).trans hb'

end Board

/-- Anything may happen while a listener is told something, until nobody waits any more. -/
def World.Roams (w w' : World) : Prop := ∃ events,
  Course.Open (fun _ _ => True) ⟨w, []⟩ events ∧ events.foldl Moment.after ⟨w, []⟩ = ⟨w', []⟩

/-- A computation runs from a world to its end at another one, while each listener does as it likes
and then returns or panics. -/
inductive Talk.Meets : World → Talk Board Telling α → Option α → World → Prop where
  /-- It has ended. -/
  | ended {w : World} {a : Option α} {b : Board} : Meets w (.ended a b) a (w.put b)
  /-- A listener is told something. -/
  | told {w v w' : World} {m : Telling} {b : Board} {resume : Bool → Board → Talk Board Telling α}
    {a : Option α} (returned : Bool) (roams : World.Roams (w.put b) v)
    (rest : Meets v (resume returned v.board) a w') : Meets w (.told m b resume) a w'

/-- Whatever happens, handlers move on and nothing that was told is forgotten, and a board in order
remains so. -/
theorem World.Roams.later (hw : w.Roams w') (hs : (order false).sound g w) (hk : w.Known) :
    (order false).later w w' ∧ (order false).sound g w' ∧ w'.Known := by
  obtain ⟨events, ho, hend⟩ := hw
  have hall : ∀ {m : Moment}, m.Tame g → m.world.Known → Course.Open (fun _ _ => True) m events →
      (order false).later m.world (events.foldl Moment.after m).world ∧
        (events.foldl Moment.after m).Tame g ∧ (events.foldl Moment.after m).world.Known := by
    clear ho hend
    intro m hm hk ho
    induction events generalizing m with
    | nil => exact ⟨(order false).later_refl _, hm, hk⟩
    | cons e rest ih =>
      obtain ⟨allowed, -, hrest⟩ := ho
      obtain ⟨-, hlater, hturn⟩ := governs_free.after hm.lawful allowed trivial
      obtain ⟨hlater', hm', hk'⟩ := ih (hm.turn allowed).2 (hk.after hm allowed) hrest
      exact ⟨(order false).later_trans ((order false).later_trans hlater
        ((order false).later_of_turn hturn)) hlater', hm', hk'⟩
  obtain ⟨hlater, hm, hknown⟩ := hall (m := ⟨w, []⟩) ⟨⟨g, hs, .nil⟩, List.forall_mem_nil _⟩ hk ho
  rw [hend] at hlater hm hknown
  exact ⟨hlater, hm.lawful.top rfl, hknown⟩

/-- Where things only end, people keep, and tables have, only handlers that were made. -/
theorem World.Known.put {b : Board} (hk : w.Known) (hb : w.board.Ebbs b) : (w.put b).Known where
  kept x hx := Nat.lt_of_lt_of_eq (hk.kept x hx) hb.length.symm
  entries hx := Nat.lt_of_lt_of_eq (hk.entries (hb.entries hx)) hb.length.symm

namespace Talk.Meets

variable {t : Talk Board Telling α} {a : Option α} {P : Option α → World → Prop}

/-- A computation that has ended runs no more. -/
theorem eq_of_ended {o : Option α} {b : Board} (hp : (Talk.ended o b).Meets w a w') :
    a = o ∧ w' = w.put b := by
  cases hp
  exact ⟨rfl, rfl⟩

/-- Only the people of a world matter for a computation that has its own board. -/
theorem put {b : Board} : t.Meets (w.put b) a w' ↔ t.Meets w a w' := by
  constructor
  · intro hp
    cases hp with
    | ended => exact .ended
    | told returned roams rest => exact .told returned roams rest
  · intro hp
    cases hp with
    | ended => exact .ended
    | told returned roams rest => exact .told returned roams rest

/-- A run of one computation after the other is a run of each. -/
theorem andThen {next : α → Board → Talk Board Telling β} {o : Option β}
    (hp : (t.andThen next).Meets w o w') : (o = none ∧ t.Meets w none w') ∨
      ∃ x v, t.Meets w (some x) v ∧ (next x v.board).Meets v o w' := by
  induction t generalizing w with
  | ended a b =>
    cases a with
    | none =>
      cases hp
      exact .inl ⟨rfl, .ended⟩
    | some x => exact .inr ⟨x, w.put b, .ended, put.mpr hp⟩
  | told m b resume ih =>
    cases hp with
    | told returned roams rest =>
      rcases ih _ _ rest with ⟨ho, hr⟩ | ⟨x, v, hr, hn⟩
      · exact .inl ⟨ho, .told returned roams hr⟩
      · exact .inr ⟨x, v, .told returned roams hr, hn⟩

/-- A change at the end comes after the run. -/
theorem ensuring {f : Board → Board} (hp : (t.ensuring f).Meets w a w') :
    ∃ v, t.Meets w a v ∧ w' = v.put (f v.board) := by
  induction t generalizing w with
  | ended x b =>
    cases hp
    exact ⟨w.put b, .ended, rfl⟩
  | told m b resume ih =>
    cases hp with
    | told returned roams rest =>
      obtain ⟨v, hr, hv⟩ := ih _ _ rest
      exact ⟨v, .told returned roams hr, hv⟩

/-- A computation that fades ends as it promises, whatever its listeners do. -/
theorem later {start : Board} (hp : t.Meets w a w') (hs : (order false).sound g' w) (hk : w.Known)
    (hf : t.Fades g start P w) :
    (order false).later w w' ∧ (order false).sound g w' ∧ w'.Known ∧ P a w' := by
  induction hp generalizing g' with
  | ended =>
    obtain ⟨hat, -, -, hpost⟩ := hf.keeps
    exact ⟨(order false).later_of_turn hat.quiet, hat.sound, hk.put hf.ebbs, hpost⟩
  | told returned roams rest ih =>
    obtain ⟨hturn, g', hsound, hresume⟩ := hf.keeps
    obtain ⟨hpassed, hkept, hknown⟩ := roams.later hsound (hk.put hf.ebbs.1)
    obtain ⟨hlater, hend⟩ := ih hkept hknown
      ⟨hf.ebbs.2 _ _, hf.outlives.2 _ _, hresume _ _ trivial hpassed hkept⟩
    exact ⟨(order false).later_trans ((order false).later_of_turn hturn)
      ((order false).later_trans hpassed hlater), hend⟩

end Talk.Meets

/-- A handler is over, and if it was live at `start`, its listener has heard of that since, as the
last thing. -/
structure World.Parted (start w' : World) (h : HandlerId) : Prop where
  /-- It is over. -/
  ended : w'.board.phase h = .unregistered
  /-- If it was live, its listener has heard that it is finished, after clicks and buttons. -/
  finished : start.board.phase h = .live → (start.board.handler h).listener ≠ none →
    ∃ news : List Notice, ∃ reports : List Topic,
      w'.board.heard h = start.board.heard h ++ news ∧
        news.map (·.topic) = reports ++ [.finished] ∧ ∀ t ∈ reports, t.isReport = true

/-- Whoever is over has parted. -/
theorem World.Parted.of_over (hw : (order false).later w w') (hs : (order false).sound g w)
    (hs' : (order false).sound g' w') (hlt : h < w.board.handlers.length)
    (hp : w'.board.phase h = .unregistered) : w.Parted w' h := by
  refine ⟨hp, fun hlive hl => ?_⟩
  obtain ⟨honward, ⟨told, htold⟩, -⟩ := hw
  have hheard : w'.board.heard h =
      w.board.heard h ++ (told.filter (·.handler = h)).map (·.notice) := by
    rw [heard, heard, ← htold, List.filter_append, List.map_append]
  have hbefore := hs.notices.course h hl
  rw [show w.board.phase h = .live from hlive] at hbefore
  have hafter : Phase.unregistered.Hears ((w'.board.heard h).map (·.topic)) :=
    hp ▸ hs'.notices.course h ((honward.listener h hlt).symm ▸ hl)
  rw [hheard, List.map_append] at hafter
  obtain ⟨reports, hreports, hall⟩ := hbefore.ending hafter
  exact ⟨_, reports, hheard, hreports, hall⟩

/-- A handler ends with a panic only of a listener that was told something. -/
theorem told_of_panic (hs : (order false).sound g w) (hk : w.Known)
    (hp : (unregister h w.board).Meets w none w') :
    (w.board.handler h).listener ≠ none ∧ ∃ n, ⟨h, n⟩ ∈ w'.board.told := by
  have hf := fades_unregister hs h
  rw [unregister_eq] at hp hf
  split at hp
  · cases hp
  rename_i hphase
  rw [if_neg hphase] at hf
  split at hp
  · rename_i hlive
    rw [if_pos hlive] at hf
    have hsame : ((w.board.retire h).handler h).listener = (w.board.handler h).listener := by
      rw [handler_retire]
      split <;> rfl
    rw [notify_eq, hsame] at hp hf
    cases hl : (w.board.handler h).listener with
    | none =>
      rw [hl] at hp
      cases hp
    | some l =>
      rw [hl] at hp hf
      obtain ⟨-, g', hsound, -⟩ := hf.keeps
      have htold : ⟨h, ((w.board.retire h).handler h).notice .finished none⟩ ∈
          ((w.board.retire h).announce h .finished none).told := by
        rw [told_announce, hsame, hl, if_neg (Option.some_ne_none l)]
        exact List.mem_append_right _ List.mem_cons_self
      cases hp with
      | told returned roams rest =>
        obtain ⟨hpassed, -, -⟩ := roams.later hsound (hk.put hf.ebbs.1)
        obtain ⟨-, rfl⟩ := rest.eq_of_ended
        exact ⟨Option.some_ne_none l, _, hpassed.2.1.subset htold⟩
  · cases hp

/-- That is the last thing it was told: that its handler is finished. -/
theorem last_of_panic (hs : (order false).sound g w) (hk : w.Known)
    (hlt : h < w.board.handlers.length) (hp : (unregister h w.board).Meets w none w') :
    ((w'.board.heard h).map (·.topic)).getLast? = some .finished := by
  obtain ⟨hlater, hs', -, hover⟩ := hp.later hs hk (fades_unregister hs h)
  obtain ⟨hl, n, hn⟩ := told_of_panic hs hk hp
  have hcourse := hs'.notices.course h ((hlater.1.listener h hlt).symm ▸ hl)
  rw [hover] at hcourse
  rcases hcourse with hnone | ⟨reports, hall, -⟩
  · have hmem : n ∈ w'.board.heard h :=
      List.mem_map.mpr ⟨⟨h, n⟩, List.mem_filter.mpr ⟨hn, by simp⟩, rfl⟩
    rw [List.map_eq_nil_iff.mp hnone] at hmem
    cases hmem
  · rw [hall, ← List.cons_append, List.getLast?_concat]

/-- Handlers end one after the other until a listener panics: it was told that its handler is
finished, and that handler is the last that ends. -/
theorem split_of_meets {hs : List HandlerId} {a : Option Unit} (hsound : (order false).sound g w)
    (hk : w.Known) (hlt : ∀ h ∈ hs, h < w.board.handlers.length)
    (hp : (Action.forEach hs unregister w.board).Meets w a w') :
    ∃ done rest, hs = done ++ rest ∧ (∀ h ∈ done, w'.board.phase h = .unregistered) ∧
      (a = some () → rest = []) ∧ (a = none → ∃ earlier h, done = earlier ++ [h] ∧
        ((w'.board.heard h).map (·.topic)).getLast? = some .finished) := by
  induction hs generalizing w with
  | nil =>
    cases hp
    exact ⟨[], [], rfl, List.forall_mem_nil _, fun _ => rfl, nofun⟩
  | cons x hs ih =>
    rcases Meets.andThen (t := unregister x w.board) hp with ⟨rfl, hx⟩ | ⟨_, v, hx, hrest⟩
    · obtain ⟨-, -, -, hover⟩ := hx.later hsound hk (fades_unregister hsound x)
      have hlast := last_of_panic hsound hk (hlt x List.mem_cons_self) hx
      exact ⟨[x], hs, rfl, List.forall_mem_singleton.mpr hover, nofun, fun _ => ⟨[], x, rfl, hlast⟩⟩
    · obtain ⟨hlater, hkept, hknown, hover⟩ := hx.later hsound hk (fades_unregister hsound x)
      obtain ⟨hrestLater, -⟩ := hrest.later hkept hknown
        (fades_unregisterAll (g := g) hs (sound_ending hkept))
      have hlt' : ∀ h ∈ x :: hs, h < v.board.handlers.length := fun h hh =>
        Nat.lt_of_lt_of_le (hlt h hh) hlater.1.length
      obtain ⟨done, rest, hsplit, hdone, hall, hpanic⟩ := ih hkept hknown
        (fun h hh => hlt' h (List.mem_cons_of_mem x hh)) hrest
      refine ⟨x :: done, rest, by rw [hsplit]; rfl, List.forall_mem_cons.mpr
        ⟨hrestLater.1.over (hlt' x List.mem_cons_self) hover, hdone⟩, hall, fun hno => ?_⟩
      obtain ⟨earlier, h, hdone', hlast⟩ := hpanic hno
      exact ⟨x :: earlier, h, by rw [hdone']; rfl, hlast⟩

/-- How a signal that fires at `w` comes to the coordinator `c` at `start`, and ends at `w'` with
the result `o`. -/
def Approaches (visit : Visit) (c : CoordinatorId) (w start : World) (o : Option Unit)
    (w' : World) : Prop := ∃ earlier later : List CoordinatorId,
  w.board.signal.observers = earlier ++ c :: later ∧
    (Action.forEach earlier (shutDown visit) w.board.fired).Meets w (some ()) start ∧
    (Action.forEach (c :: later) (shutDown visit) start.board).Meets start o w'

/-- What comes of the handlers of the coordinator `c`, whose turn it is at `start`, when the signal
ends at `w'` with the result `o`: those that are visited, `done`, have parted; if there are others,
`rest`, the listener that was told last has panicked. -/
structure Parts (visit : Visit) (c : CoordinatorId) (start : World) (o : Option Unit) (w' : World)
    (done rest : List HandlerId) : Prop where
  /-- The handlers are those in the table, in the order in which they are visited. -/
  roll : start.board.roll visit c = done ++ rest
  /-- Whoever was visited has parted. -/
  parted : ∀ h ∈ done, start.Parted w' h
  /-- If somebody was not, the signal ended with a panic, after a listener was told that its handler
  is finished. -/
  last : rest ≠ [] → o = none ∧ ∃ earlier h, done = earlier ++ [h] ∧
    ((w'.board.heard h).map (·.topic)).getLast? = some .finished
  /-- After the panic nothing was done but to give back the handlers and the coordinator. -/
  left : rest ≠ [] →
    ∃ v : World, w' = v.put ((v.board.letGoAll (done ++ rest)).disownCoordinator c)
  /-- Everybody has parted exactly if somebody else has ended those who were not visited. -/
  all : (∀ h ∈ done ++ rest, start.Parted w' h) ↔ ∀ h ∈ rest, w'.board.phase h = .unregistered

section Run

/-- A coordinator that exists shuts down until a listener panics. -/
theorem split_of_shutDown {a : Option Unit} (hs : (order false).sound g w) (hk : w.Known)
    (hc : w.board.hasCoordinator c = true) (hp : (shutDown visit c w.board).Meets w a w') :
    ∃ done rest, w.board.roll visit c = done ++ rest ∧
      (∀ h ∈ done, w'.board.phase h = .unregistered) ∧ (a = some () → rest = []) ∧
      (a = none → ∃ earlier h, done = earlier ++ [h] ∧
        ((w'.board.heard h).map (·.topic)).getLast? = some .finished) ∧
      ∃ v : World, w' = v.put ((v.board.letGoAll (w.board.roll visit c)).disownCoordinator c) := by
  change Talk.Meets w ((if w.board.hasCoordinator c = true then
    withCoordinator c fun co => drain visit co.registry else pure ()) w.board) a w' at hp
  rw [if_pos hc] at hp
  obtain ⟨v', hdrain, rfl⟩ := Meets.ensuring (t := drain visit (w.board.coordinator c).registry
    (w.board.ownCoordinator c)) hp
  obtain ⟨v, hall, rfl⟩ := Meets.ensuring (t := Action.forEach (w.board.roll visit c) unregister
    ((w.board.ownCoordinator c).takeAll (w.board.coordinator c).registry).2) hdrain
  have howned : (order false).sound { g with coords := c :: g.coords }
      (w.put (w.board.ownCoordinator c)) :=
    Sound.ownCoordinator hs (by simpa [hasCoordinator] using hc)
  have htaken := (At.start howned).takeAll visit (w.board.coordinator c).registry
  have hown : w.board.Ebbs (w.board.ownCoordinator c) := ebbs_updateCoordinator fun _ => rfl
  have hebb := hown.trans (ebbs_takeAll (w.board.coordinator c).registry)
  have hknown : ∀ h ∈ w.board.roll visit c, h < w.board.handlers.length := by
    intro h hh
    obtain ⟨name, he⟩ := Registry.mem_handlers.mp ((visit.fair _ _).mem_iff.mp hh)
    exact hk.entries he
  obtain ⟨done, rest, hsplit, hdone, hrest, hpanic⟩ := split_of_meets
    (w := w.put ((w.board.ownCoordinator c).takeAll (w.board.coordinator c).registry).2)
    htaken.sound (hk.put hebb) (fun h hh => Nat.lt_of_lt_of_eq (hknown h hh) hebb.length.symm)
    (Meets.put.mpr hall)
  have hend : v.board.Ebbs ((v.board.letGoAll (w.board.roll visit c)).disownCoordinator c) :=
    (ebbs_letGoAll _).trans (ebbs_disownCoordinator c)
  have htold : ((v.board.letGoAll (w.board.roll visit c)).disownCoordinator c).told =
      v.board.told :=
    (disownCoordinator_quiet _ c).2.trans (letGoAll_quiet _ _).2
  refine ⟨done, rest, hsplit, fun h hh => ?_, hrest, fun hno => ?_, v, rfl⟩
  · rcases hend.phase h with hp | hp
    · exact hp.trans (hdone h hh)
    · exact hp
  · obtain ⟨earlier, h, hdone', hlast⟩ := hpanic hno
    exact ⟨earlier, h, hdone', by rw [← heard_of_told htold h] at hlast; exact hlast⟩

/-- What comes of the handlers of the first of some coordinators that shut down. -/
theorem parts_of_meets {cs : List CoordinatorId} {o : Option Unit} (hs : (order false).sound g w)
    (hk : w.Known) (hc : w.board.hasCoordinator c = true)
    (hp : (Action.forEach (c :: cs) (shutDown visit) w.board).Meets w o w') :
    ∃ done rest, Parts visit c w o w' done rest := by
  obtain ⟨hlater, hs', -, -⟩ := hp.later hs hk (fades_shutDownAll hs (c :: cs))
  have hknown : ∀ h ∈ w.board.roll visit c, h < w.board.handlers.length := by
    intro h hh
    obtain ⟨name, he⟩ := Registry.mem_handlers.mp ((visit.fair _ _).mem_iff.mp hh)
    exact hk.entries he
  have hparts : ∀ {done rest}, w.board.roll visit c = done ++ rest →
      (∀ h ∈ done, w'.board.phase h = .unregistered) →
      (rest ≠ [] → o = none ∧ ∃ earlier h, done = earlier ++ [h] ∧
        ((w'.board.heard h).map (·.topic)).getLast? = some .finished) →
      (rest ≠ [] →
        ∃ v : World, w' = v.put ((v.board.letGoAll (done ++ rest)).disownCoordinator c)) →
      Parts visit c w o w' done rest := by
    intro done rest hroll hdone hlast hleft
    have hover : ∀ h ∈ done ++ rest, w'.board.phase h = .unregistered → w.Parted w' h :=
      fun h hh hp => .of_over hlater hs hs' (hknown h (hroll ▸ hh)) hp
    have hdone' : ∀ h ∈ done, w.Parted w' h := fun h hh =>
      hover h (List.mem_append_left rest hh) (hdone h hh)
    refine ⟨hroll, hdone', hlast, hleft, fun hall h hh => (hall h ?_).ended, fun hrest h hh => ?_⟩
    · exact List.mem_append_right done hh
    · rcases List.mem_append.mp hh with hm | hm
      · exact hdone' h hm
      · exact hover h hh (hrest h hm)
  rcases Meets.andThen (t := shutDown visit c w.board) hp with ⟨rfl, hx⟩ | ⟨_, v, hx, hrest⟩
  · obtain ⟨done, rest, hroll, hdone, -, hlast, hleft⟩ := split_of_shutDown hs hk hc hx
    exact ⟨done, rest, hparts hroll hdone (fun _ => ⟨rfl, hlast rfl⟩) fun _ => hroll ▸ hleft⟩
  · obtain ⟨done, rest, hroll, hdone, hnone, -, -⟩ := split_of_shutDown hs hk hc hx
    obtain ⟨hfirst, hkept, hk', -⟩ := hx.later hs hk (fades_shutDown hs c)
    obtain ⟨hsecond, -⟩ := hrest.later hkept hk' (fades_shutDownAll (g := g) hkept cs)
    obtain rfl := hnone rfl
    refine ⟨done, [], hparts hroll (fun h hh => ?_) (absurd rfl) (absurd rfl)⟩
    have hlt := hknown h (hroll ▸ List.mem_append_left [] hh)
    exact hsecond.1.over (Nat.lt_of_lt_of_le hlt hfirst.1.length) (hdone h hh)

end Run

/-- What is left of the run of a signal once its coordinators are done, or once a listener has
panicked. -/
theorem meets_fire {b : Board} {a : Option Nat} (hp : (fire visit b).Meets w a w') :
    (a = none ∨ a = some b.signal.fire.1.length) ∧
      (Action.forEach b.signal.fire.1 (shutDown visit) b.fired).Meets w (a.map fun _ => ())
        w' := by
  rw [fire_eq] at hp
  rcases hp.andThen with ⟨rfl, hall⟩ | ⟨_, v, hall, hend⟩
  · exact ⟨.inl rfl, hall⟩
  · obtain ⟨rfl, rfl⟩ := hend.eq_of_ended
    exact ⟨.inr rfl, hall⟩

/-- While listeners only return or panic, the signal ends everybody up to the first whose listener
panics. -/
theorem against_fire {m : Moment} (course : FreeCourse m)
    (unfired : m.world.board.signal.fired = false) (visit : Visit) (panics : HandlerId → Bool) :
    ∃ b' : Board, (fire visit m.world.board).against (fun x => !panics x.handler) =
        (if (m.world.board.everybody visit).any (m.world.board.strikes panics) then none
          else some m.world.board.coordinators.length, b') ∧
      ∀ h, b'.story h = if h ∈ m.world.board.reached panics (m.world.board.everybody visit) then
        (m.world.board.story h).over else m.world.board.story h := by
  obtain ⟨g, hs, -⟩ := lawful_of_freeCourse course
  have hrange : m.world.board.signal.fire.1 = List.range m.world.board.coordinators.length := by
    rw [← observed_of_freeCourse course unfired, Signal.fire, if_neg (by simp [unfired])]
  have hlt : ∀ c ∈ List.range m.world.board.coordinators.length,
      c < m.world.board.fired.coordinators.length := fun c hc => List.mem_range.mp hc
  obtain ⟨b', hb', hstory⟩ := against_shutDownAll visit panics List.nodup_range hlt
    fun c hc d hd he => eq_of_registry hs.books (List.mem_range.mp hc) (List.mem_range.mp hd) he
  have hsame : ∀ x, m.world.board.fired.strikes panics x = m.world.board.strikes panics x :=
    fun _ => rfl
  have hall : m.world.board.fired.rollCall visit (List.range m.world.board.coordinators.length) =
      m.world.board.everybody visit := rfl
  rw [hall, funext hsame] at hb'
  rw [hall, reached_congr hsame] at hstory
  refine ⟨b', ?_, hstory⟩
  rw [fire_eq, hrange]
  split
  · rename_i hany
    rw [if_pos hany] at hb'
    exact Talk.against_andThen_none hb'
  · rename_i hany
    rw [if_neg hany] at hb'
    rw [Talk.against_andThen hb', List.length_range]
    rfl

/-- The signal ends handlers up to the first listener that panics, in whatever order they are
visited. While listeners only return or panic, that says for every handler what becomes of it, and
all handlers in the tables of coordinators end exactly if none that is not over stands behind such a
listener. If listeners do as they like as well, each coordinator whose turn comes has those of its
handlers ended that are visited before the panic; and if there is none each of them has its turn. -/
theorem panic_cuts_teardown_short {m : Moment} (course : FreeCourse m)
    (unfired : m.world.board.signal.fired = false) {visit : Visit} :
    (∀ panics : HandlerId → Bool, ∃ b' : Board,
      (fire visit m.world.board).against (fun x => !panics x.handler) =
        (if (m.world.board.everybody visit).any (m.world.board.strikes panics) then none
          else some m.world.board.coordinators.length, b') ∧
      (∀ h, b'.story h = if h ∈ m.world.board.reached panics (m.world.board.everybody visit) then
        (m.world.board.story h).over else m.world.board.story h) ∧
      ((∀ c, m.world.board.hasCoordinator c = true →
          ∀ h ∈ (m.world.board.registry (m.world.board.coordinator c).registry).handlers,
            b'.story h = (m.world.board.story h).over) ↔
        ∀ h ∈ m.world.board.everybody visit,
          h ∈ m.world.board.reached panics (m.world.board.everybody visit) ∨
            m.world.board.phase h = .unregistered)) ∧
    ∀ a w', (fire visit m.world.board).Meets m.world a w' →
      (a = none ∨ a = some m.world.board.coordinators.length) ∧
      (a ≠ none → ∀ c < m.world.board.coordinators.length, ∃ start,
        Approaches visit c m.world start (some ()) w') ∧
      ∀ c start, Approaches visit c m.world start (a.map fun _ => ()) w' →
        start.board.hasCoordinator c = true →
          ∃ done rest, Parts visit c start (a.map fun _ => ()) w' done rest := by
  constructor
  · intro panics
    obtain ⟨b', hb', hstory⟩ := against_fire course unfired visit panics
    refine ⟨b', hb', hstory, fun hall h hh => ?_, fun hall c hc h hh => ?_⟩
    · obtain ⟨c, hc, hh⟩ := (mem_everybody).mp hh
      have hover := hall c hc h hh
      rw [hstory] at hover
      split at hover
      · rename_i hreached
        exact .inl hreached
      · exact .inr (congrArg Story.phase hover)
    · rw [hstory]
      split
      · rfl
      · rename_i hreached
        have hp : (m.world.board.story h).phase = .unregistered :=
          (hall h ((mem_everybody).mpr ⟨c, hc, hh⟩)).resolve_left hreached
        exact (Story.over_of_over hp).symm
  · intro a w' hp
    obtain ⟨g, hs, -⟩ := lawful_of_freeCourse course
    have hobservers := observed_of_freeCourse course unfired
    obtain ⟨ha, hall⟩ := meets_fire hp
    have hfired : (order false).sound g (m.world.put m.world.board.fired) :=
      (At.fired (At.start hs)).sound
    have hknown := (known_of_freeCourse course).put (ebbs_fired m.world.board)
    have hrange : m.world.board.signal.fire.1 = List.range m.world.board.coordinators.length := by
      rw [← hobservers, Signal.fire, if_neg (by simp [unfired])]
    rw [hrange] at ha hall
    rw [List.length_range] at ha
    refine ⟨ha, fun hne c hc => ?_, fun c start hcomes hc => ?_⟩
    · obtain ⟨earlier, later, hsplit⟩ := List.append_of_mem (List.mem_range.mpr hc)
      rw [ha.resolve_left hne, hsplit, forEach_append] at hall
      rcases hall.andThen with ⟨hno, -⟩ | ⟨_, start, hbefore, hafter⟩
      · cases hno
      · exact ⟨start, earlier, later, hobservers.trans hsplit, hbefore, hafter⟩
    · obtain ⟨earlier, later, -, hbefore, hafter⟩ := hcomes
      obtain ⟨-, hkept, hk, -⟩ := (Meets.put.mpr hbefore).later hfired hknown
        (fades_shutDownAll (w := m.world.put m.world.board.fired) hfired earlier)
      exact parts_of_meets hkept hk hc hafter

/-- Two alerts are live. -/
def twoShown : List Event :=
  [.deed (.setUp {} ready), .deed (.showAlert 0 (Alert.asSource (plainAlert "a")) (some 0)),
    .deed (.advance 0), .deed (.finish 0), .reply true,
    .deed (.showAlert 0 (Alert.asSource (plainAlert "b")) (some 1)), .deed (.advance 0),
    .deed (.finish 0), .reply true]

/-- Two alerts may be shown. -/
theorem course_twoShown : FreeCourse (twoShown.foldl Moment.after {}) :=
  Course.start.follow ⟨trivial, trivial, List.mem_cons_self, trivial, trivial, trivial, trivial,
    trivial, List.cons_ne_nil _ _, trivial, List.mem_cons_self, trivial, trivial, trivial, trivial,
    trivial, List.cons_ne_nil _ _, trivial, trivial⟩

/-- If both listeners only panic, the second alert stays live. If the first one has the screen
dismiss the second alert before it panics, both have parted. -/
theorem panic_cuts_teardown_short_twoShown : FreeCourse (twoShown.foldl Moment.after {}) ∧
    (twoShown.foldl Moment.after {}).world.board.signal.fired = false ∧
    (∃ b', (fire .inTurn (twoShown.foldl Moment.after {}).world.board).against
        (fun _ => false) = (none, b') ∧ [0, 1].map b'.phase = [.unregistered, .live] ∧
      [0, 1].map (fun h => (b'.heard h).map (·.topic)) = [[.shown, .finished], [.shown]]) ∧
    ∃ start w' done rest, (fire .inTurn (twoShown.foldl Moment.after {}).world.board).Meets
        (twoShown.foldl Moment.after {}).world none w' ∧
      Parts .inTurn 0 start none w' done rest ∧ done ++ rest = [0, 1] ∧
      [0, 1].map w'.board.phase = [.unregistered, .unregistered] := by
  obtain ⟨hquiet, hacting⟩ := panic_cuts_teardown_short course_twoShown rfl
  refine ⟨course_twoShown, rfl, ?_, ?_⟩
  · obtain ⟨b', hb', hstory, -⟩ := hquiet fun _ => true
    have hphase : ∀ h, b'.phase h = _ := fun h => congrArg Story.phase (hstory h)
    have hheard : ∀ h, b'.heard h = _ := fun h => congrArg Story.heard (hstory h)
    refine ⟨b', hb', ?_, ?_⟩
    · simp only [List.map_cons, List.map_nil, hphase]
      rfl
    · simp only [List.map_cons, List.map_nil, hheard]
      rfl
  · obtain ⟨w', hmeets, hcomes, hphases⟩ : ∃ w',
        (fire .inTurn (twoShown.foldl Moment.after {}).world.board).Meets
          (twoShown.foldl Moment.after {}).world none w' ∧
        Approaches .inTurn 0 (twoShown.foldl Moment.after {}).world
          ((twoShown.foldl Moment.after {}).world.put
            (twoShown.foldl Moment.after {}).world.board.fired) none w' ∧
        [0, 1].map w'.board.phase = [.unregistered, .unregistered] := by
      refine ⟨_, .told false ⟨[.deed (.emit "b" .dismissed), .reply true], ?_, rfl⟩ .ended,
        ⟨[], [], rfl, .ended,
          .told false ⟨[.deed (.emit "b" .dismissed), .reply true], ?_, rfl⟩ .ended⟩, rfl⟩ <;>
        exact ⟨trivial, trivial, List.cons_ne_nil _ _, trivial, trivial⟩
    obtain ⟨done, rest, hparts⟩ := (hacting none w' hmeets).2.2 0 _ hcomes rfl
    exact ⟨_, w', done, rest, hmeets, hparts, hparts.roll.symm, hphases⟩

/-- The listener of the first alert panics when the signal fires: the second one was in the table of
its coordinator, but it does not end, and its listener hears nothing. -/
theorem handler_left_behind_by_panic : FreeCourse (twoShown.foldl Moment.after {}) ∧
    (twoShown.foldl Moment.after {}).waiting = [] ∧
    ((twoShown.foldl Moment.after {}).world.board.registry 0).handlers = [0, 1] ∧
    (twoShown.foldl Moment.after {}).world.board.phase 1 = .live ∧
    ∃ m, m = [.deed (.fire .inTurn), .reply false].foldl Moment.after
        (twoShown.foldl Moment.after {}) ∧
      FreeCourse m ∧ m.waiting = [] ∧ m.world.board.phase 1 = .live ∧
      (m.world.board.heard 1).map (·.topic) = [.shown] ∧
      (m.world.board.registry 0).handlers = [] := by
  refine ⟨course_twoShown, rfl, rfl, rfl, _, rfl, ?_, rfl, rfl, rfl, rfl⟩
  exact course_twoShown.follow ⟨trivial, trivial, List.cons_ne_nil _ _, trivial, trivial⟩

end ToastBoard
