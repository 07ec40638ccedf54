import ToastBoard.Proofs.Law
import ToastBoard.Proofs.Moves

/-!
# Upkeep of order

The law of boards in order, and how everything that may tell a listener keeps it. Whatever a
listener does while it is told something, it leaves a board in order; a computation that goes on
afterwards counts on what it has taken on and on what is final: handlers that are over stay so.
-/

namespace ToastBoard

/-- What the computations under way have taken on. -/
structure Ledger where
  /-- Whom they hold, once for each hold. -/
  holds : List HandlerId := []
  /-- Which registries they own, once for each owner. -/
  owns : List RegistryId := []
  /-- Which coordinators they own, once for each owner. -/
  coords : List CoordinatorId := []
  /-- Whom they have taken out and are going to end. -/
  ending : List HandlerId := []

/-- What people and computations have together. -/
def Ledger.terms (g : Ledger) (w : World) : Terms where
  holders := g.holds ++ w.kept
  owners := g.owns ++ w.registries
  coords := g.coords
  founders := w.coordinators
  ending := g.ending
  reported := w.reported

/-- The law of boards in order: handlers only move on, at most one thing is told in a turn, and
nothing that was told or reported is forgotten. -/
def order (strict : Bool) : Law Ledger where
  sound g w := w.board.Sound strict {} (g.terms w)
  turn since x w := since.board.Onward w.board ∧ w.board.told = since.board.told ++ x.toList ∧
    w.reported = since.reported
  later w w' := w.board.Onward w'.board ∧ w.board.told <+: w'.board.told ∧
    w.reported <+: w'.reported
  later_of_turn h := ⟨h.1, ⟨_, h.2.1.symm⟩, h.2.2 ▸ List.prefix_rfl⟩
  later_refl _ := ⟨.refl _, List.prefix_rfl, List.prefix_rfl⟩
  later_trans h h' := ⟨h.1.trans h'.1, h.2.1.trans h'.2.1, h.2.2.trans h'.2.2⟩

/-- A computation that has told nobody since some world, and is in order but for some slack. -/
structure At (strict : Bool) (k : Slack) (g : Ledger) (since w : World) : Prop where
  /-- Nobody was told since then. -/
  quiet : (order strict).turn since none w
  /-- The board is in order, but for some slack. -/
  sound : w.board.Sound strict k (g.terms w)

variable {strict : Bool} {k k' : Slack} {g g' : Ledger} {since w : World} {may : Bool → Prop}
  {α β : Type} {h : HandlerId}

/-- A small change keeps what a computation counts on. -/
theorem At.step (ha : At strict k g since w) {b : Board} (ho : w.board.Onward b)
    (ht : b.told = w.board.told) (hs : b.Sound strict k' (g'.terms w)) :
    At strict k' g' since (w.put b) :=
  ⟨⟨ha.quiet.1.trans ho, ht.trans ha.quiet.2.1, ha.quiet.2.2⟩, hs⟩

/-- A computation starts out from a board in order. -/
theorem At.start (hs : w.board.Sound strict k (g.terms w)) : At strict k g w w :=
  ⟨⟨.refl _, (List.append_nil _).symm, rfl⟩, hs⟩

/-- How a computation that started from some board ends: in order but for some slack, on a later
board, with a result, or a panic that somebody may have made, of which something holds. -/
def Leaves (strict : Bool) (may : Bool → Prop) (k : Slack) (g : Ledger) (start : Board)
    (P : Option α → World → Prop) (since : World) (a : Option α) (w : World) : Prop :=
  At strict k g since w ∧ (a = none → may false) ∧ start.Onward w.board ∧ P a w

namespace Talk

variable {start : Board}

/-- A computation that ends at once. -/
theorem keeps_ended {P : Option α → World → Prop} {a : α} {b : Board}
    (ha : At strict k g since (w.put b)) (ho : start.Onward b) (hp : P (some a) (w.put b)) :
    (Talk.ended (some a) b : Talk Board Telling α).Keeps (order strict) may
      (Leaves strict may k g start P) since w :=
  ⟨ha, fun hc => absurd hc (Option.some_ne_none a), ho, hp⟩

/-- One computation after the other, when a panic of the first leaves things as the second would. -/
theorem keeps_then {P : Option α → World → Prop} {P' : Option β → World → Prop}
    {t : Talk Board Telling α} {next : α → Board → Talk Board Telling β}
    (ht : t.Keeps (order strict) may (Leaves strict may k g start P) since w)
    (hpanic : ∀ since w, At strict k g since w → may false → P none w →
      At strict k' g' since w ∧ P' none w)
    (hnext : ∀ a since w, At strict k g since w → start.Onward w.board → P (some a) w →
      (next a w.board).Keeps (order strict) may (Leaves strict may k' g' start P') since w) :
    (t.andThen next).Keeps (order strict) may (Leaves strict may k' g' start P') since w := by
  rw [keeps_andThen]
  refine ht.mono ?_
  rintro since a w ⟨ha, hm, ho, hp⟩
  cases a with
  | none =>
    obtain ⟨ha', hp'⟩ := hpanic since w ha (hm rfl) hp
    exact ⟨ha', fun _ => hm rfl, ho, hp'⟩
  | some a => exact hnext a since w ha ho hp

/-- One computation after the other, where both leave the same to do. -/
theorem keeps_next {P : Option α → World → Prop} {P' : Option β → World → Prop}
    {t : Talk Board Telling α} {next : α → Board → Talk Board Telling β}
    (ht : t.Keeps (order strict) may (Leaves strict may k g start P) since w)
    (hpanic : ∀ w, P none w → P' none w)
    (hnext : ∀ a since w, At strict k g since w → start.Onward w.board → P (some a) w →
      (next a w.board).Keeps (order strict) may (Leaves strict may k g start P') since w) :
    (t.andThen next).Keeps (order strict) may (Leaves strict may k g start P') since w :=
  keeps_then ht (fun _ w ha _ hp => ⟨ha, hpanic w hp⟩) hnext

/-- A change after the end of a computation. -/
theorem keeps_finally {P P' : Option α → World → Prop} {t : Talk Board Telling α}
    {f : Board → Board} (ht : t.Keeps (order strict) may (Leaves strict may k g start P) since w)
    (hf : ∀ since a w, At strict k g since w → start.Onward w.board → P a w →
      At strict k' g' since (w.put (f w.board)) ∧ w.board.Onward (f w.board) ∧
        P' a (w.put (f w.board))) :
    (t.ensuring f).Keeps (order strict) may (Leaves strict may k' g' start P') since w := by
  rw [keeps_ensuring]
  refine ht.mono ?_
  rintro since a w ⟨ha, hm, ho, hpa⟩
  obtain ⟨h1, h2, h3⟩ := hf since a w ha ho hpa
  exact ⟨h1, hm, ho.trans h2, h3⟩

/-- A computation may be seen as starting from an earlier board, and its end be put in other
words. -/
theorem keeps_from {P P' : Option α → World → Prop} {t : Talk Board Telling α}
    (ht : t.Keeps (order strict) may (Leaves strict may k g w.board P) since w)
    (ho : start.Onward w.board) (hp : ∀ a w', w.board.Onward w'.board → P a w' → P' a w') :
    t.Keeps (order strict) may (Leaves strict may k g start P') since w := by
  refine ht.mono ?_
  rintro since a w' ⟨ha, hm, ho', hpa⟩
  exact ⟨ha, hm, ho.trans ho', hp a w' ho' hpa⟩

end Talk

open Talk

namespace Board

variable (b : Board)

theorem onward_letGo (h : HandlerId) : b.Onward (b.letGo h) := by
  have hheld : b.Onward { b with held := b.held.erase h } := onward_of_handlers rfl
  exact hheld.trans (sameButToasts_letGo h).onward

theorem letGoAll_quiet (hs : List HandlerId) :
    b.Onward (b.letGoAll hs) ∧ (b.letGoAll hs).told = b.told := by
  induction hs generalizing b with
  | nil => exact ⟨.refl _, rfl⟩
  | cons h hs ih =>
    have hrest := ih (b.letGo h)
    exact ⟨(onward_letGo b h).trans hrest.1, hrest.2.trans (sameButToasts_letGo h).told⟩

/-- A registry that loses an owner is noticed by nobody. -/
theorem disownRegistry_quiet (r : RegistryId) :
    b.Onward (b.disownRegistry r) ∧ (b.disownRegistry r).told = b.told := by
  unfold disownRegistry
  simp only
  split
  · exact ⟨onward_of_handlers rfl, rfl⟩
  · have hgone : b.Onward ((b.updateRegistry r fun reg =>
        { reg with owners := reg.owners - 1 }).updateRegistry r fun reg =>
          { reg with entries := [] }) := onward_of_handlers rfl
    have ha := sameButToasts_reapAll (b := (b.updateRegistry r fun reg =>
      { reg with owners := reg.owners - 1 }).updateRegistry r fun reg => { reg with entries := [] })
      ((b.updateRegistry r fun reg => { reg with owners := reg.owners - 1 }).registry r).handlers
    exact ⟨hgone.trans ha.onward, ha.told⟩

theorem closeStation_quiet (s : StationId) :
    b.Onward (b.closeStation s) ∧ (b.closeStation s).told = b.told := by
  have hset : b.Onward (b.setWorker s (b.station s).worker.finish) := onward_of_handlers rfl
  have ha := sameButToasts_reapAll (b := b.setWorker s (b.station s).worker.finish)
    ((b.station s).worker.queue.flatMap messageHandlers)
  exact ⟨hset.trans ha.onward, ha.told⟩

end Board

open Board

/-- A computation takes a hold on a handler that exists or is not live. -/
theorem At.hold (ha : At strict k g since w)
    (hr : w.board.phase h = .live → w.board.refersTo h = true) :
    At strict k { g with holds := h :: g.holds } since (w.put (w.board.hold h)) :=
  ha.step (onward_of_handlers rfl) rfl (ha.sound.hold hr)

/-- A computation gives back a hold. -/
theorem At.letGo (ha : At strict k { g with holds := h :: g.holds } since w) :
    At strict k g since (w.put (w.board.letGo h)) :=
  ha.step (onward_letGo _ h) (sameButToasts_letGo h).told (Sound.letGo (T := g.terms w) ha.sound)

/-- A computation becomes an owner of a registry that exists. -/
theorem At.own {r : RegistryId} (ha : At strict k g since w)
    (hr : 0 < (w.board.registry r).owners) :
    At strict k { g with owns := r :: g.owns } since (w.put (w.board.ownRegistry r)) :=
  ha.step (onward_of_handlers rfl) rfl (ha.sound.own hr)

/-- A computation gives up a registry; where only coordinators work, another owner has it. -/
theorem At.disown {r : RegistryId} (ha : At strict k { g with owns := r :: g.owns } since w)
    (hs : strict = true → 1 < (w.board.registry r).owners) :
    At strict k g since (w.put (w.board.disownRegistry r)) := by
  have hquiet := disownRegistry_quiet w.board r
  exact ha.step hquiet.1 hquiet.2 (Sound.disown (T := g.terms w) ha.sound hs)

/-- A computation holds a handler up to its end. -/
theorem keeps_thenLetGo {start : Board} {act : Act α} {P P' : Option α → World → Prop}
    (ht : (act w.board).Keeps (order strict) may
      (Leaves strict may k { g with holds := h :: g.holds } start P) since w)
    (hp : ∀ a w, P a w → P' a (w.put (w.board.letGo h))) :
    (Act.thenLetGo h act w.board).Keeps (order strict) may
      (Leaves strict may k g start P') since w :=
  keeps_finally ht fun _ a w ha _ hpa => ⟨ha.letGo, onward_letGo _ h, hp a w hpa⟩

/-- A computation holds a handler for the time of another one. -/
theorem keeps_holding {start : Board} {act : Act α} {P P' : Option α → World → Prop}
    (ht : (act (w.board.hold h)).Keeps (order strict) may
      (Leaves strict may k { g with holds := h :: g.holds } start P) since (w.put (w.board.hold h)))
    (hp : ∀ a w, P a w → P' a (w.put (w.board.letGo h))) :
    (Act.holding h act w.board).Keeps (order strict) may (Leaves strict may k g start P')
      since w := by
  have hkeeps := keeps_thenLetGo (w := w.put (w.board.hold h)) ht hp
  exact keeps_put.mp hkeeps

/-- Telling a listener is all that a notice does. -/
theorem notify_eq (h : HandlerId) (topic : Topic) (action : Option String) (b : Board) :
    notify h topic action b = match (b.handler h).listener with
      | none => .ended (some ()) b
      | some _ => .told ⟨h, (b.handler h).notice topic action⟩ (b.announce h topic action)
          fun returned s => .ended (if returned then some () else none) s := by
  unfold announce
  cases hl : (b.handler h).listener with
  | none =>
    change (match (b.handler h).listener with
      | none => (pure () : Act Unit)
      | some _ => _) b = _
    rw [hl]
    rfl
  | some l =>
    change (match (b.handler h).listener with
      | none => (pure () : Act Unit)
      | some _ => _) b = _
    rw [hl]
    rfl

/-- A listener is told something on a board that is in order then. -/
theorem keeps_notify {topic : Topic} {action : Option String}
    (hq : (order strict).turn since none w)
    (hs : (w.board.announce h topic action).Sound strict {} (g.terms w)) :
    (notify h topic action w.board).Keeps (order strict) may
      (Leaves strict may {} g w.board fun _ w' => w.reported <+: w'.reported) since w := by
  have honward : w.board.Onward (w.board.announce h topic action) :=
    onward_of_handlers handlers_announce
  have htold : (w.board.announce h topic action).told = _ := told_announce
  rw [notify_eq]
  cases hl : (w.board.handler h).listener with
  | none =>
    have hsame : w.board.announce h topic action = w.board := by
      unfold announce
      rw [hl]
    rw [hsame] at hs
    exact keeps_ended ⟨hq, hs⟩ (.refl _) List.prefix_rfl
  | some l =>
    rw [if_neg (by rw [hl]; exact Option.some_ne_none l)] at htold
    refine ⟨⟨hq.1.trans honward, ?_, hq.2.2⟩, g, hs, ?_⟩
    · change (w.board.announce h topic action).told = _
      rw [htold, hq.2.1]
      simp
    · intro returned w' hm hl hs'
      refine ⟨At.start hs', ?_, honward.trans hl.1, hl.2.2⟩
      intro hc
      cases returned with
      | false => exact hm
      | true => cases hc

/-- Nothing is out of order but a handler that is about to end. -/
def Slack.Only (k : Slack) (b : Board) (h : HandlerId) : Prop :=
  k = {} ∨ (b.phase h ≠ .unregistered ∧
    (k = { unsettled := some h } ∨ k = { unsettled := some h, refused := some h }))

theorem Slack.Only.unsettled {b : Board} (hk : k.Only b h) :
    k.unsettled = none ∨ k.unsettled = some h := by
  rcases hk with rfl | ⟨-, rfl | rfl⟩
  · exact .inl rfl
  · exact .inr rfl
  · exact .inr rfl

theorem Slack.Only.refused {b : Board} (hk : k.Only b h) :
    k.refused = none ∨ k.refused = some h := by
  rcases hk with rfl | ⟨-, rfl | rfl⟩
  · exact .inl rfl
  · exact .inl rfl
  · exact .inr rfl

theorem Slack.Only.settled {b : Board} (hk : k.Only b h) :
    { k with unsettled := none, refused := none } = {} := by
  rcases hk with rfl | ⟨-, rfl | rfl⟩ <;> rfl

theorem Slack.Only.over {b : Board} (hk : k.Only b h) (hp : b.phase h = .unregistered) :
    k = {} := by
  rcases hk with rfl | ⟨hn, -⟩
  · rfl
  · exact absurd hp hn

theorem Slack.Only.of_phase {b b' : Board} (hk : k.Only b h) (hp : b'.phase h = b.phase h) :
    k.Only b' h := by
  rw [Slack.Only, hp]
  exact hk

/-- Ending a handler, step by step. -/
theorem unregister_eq (h : HandlerId) (b : Board) : unregister h b =
    if b.phase h = .unregistered then .ended (some ()) b
    else if b.phase h = .live then notify h .finished none (b.retire h)
    else .ended (some ()) (b.retire h) := by
  change (if b.phase h = .unregistered then (pure () : Act Unit)
    else (Action.change (·.retire h)).andThen fun _ =>
      if b.phase h = .live then notify h .finished none else pure ()) b = _
  split
  · rfl
  · split <;> rfl

theorem Board.onward_retire (b : Board) (h : HandlerId) : b.Onward (b.retire h) :=
  (onward_update rfl rfl rfl (Phase.leadsTo_unregistered _)).trans
    (sameButToasts_releaseToast _).onward

/-- A handler without an entry is over when it was ended, whatever its listener does. -/
theorem keeps_unregister (ha : At strict k g since w) (hk : k.Only w.board h)
    (hno : strict = true → ∀ q key, (key, h) ∉ (w.board.registry q).entries) :
    (unregister h w.board).Keeps (order strict) may
      (Leaves strict may {} g w.board fun _ w => w.board.phase h = .unregistered) since w := by
  rw [unregister_eq]
  split
  · rename_i hp
    rw [hk.over hp] at ha
    exact keeps_ended ha (.refl _) hp
  · rename_i hp
    have hself : (w.board.retire h).phase h = .unregistered := by
      rw [phase_retire hp, if_pos rfl]
    have honward := onward_retire w.board h
    have hlt : h < (w.board.retire h).handlers.length :=
      Nat.lt_of_lt_of_le (lt_of_phase_ne hp) honward.length
    split
    · rename_i hl
      have hs := ha.sound.retire_live hl hk.unsettled hk.refused hno
      rw [hk.settled] at hs
      have hq : (order strict).turn since none (w.put (w.board.retire h)) :=
        ⟨ha.quiet.1.trans honward, told_retire.trans ha.quiet.2.1, ha.quiet.2.2⟩
      have hkeeps : (notify h .finished none (w.board.retire h)).Keeps (order strict) may _ since
          (w.put (w.board.retire h)) := keeps_notify hq hs
      exact keeps_put.mp (keeps_from hkeeps honward fun _ _ ho _ => ho.over hlt hself)
    · rename_i hl
      have hs := ha.sound.retire_silent hp hl hk.unsettled hk.refused hno
      rw [hk.settled] at hs
      exact keeps_ended (ha.step honward told_retire hs) honward hself

/-- Whoever is over is no longer about to end. -/
theorem At.over (ha : At strict k { g with ending := h :: g.ending } since w)
    (hp : w.board.phase h = .unregistered) : At strict k g since w := by
  refine ⟨ha.quiet, Sound.drop (T := { g.terms w with ending := h :: g.ending }) ha.sound
    (fun x hx => List.mem_cons_of_mem _ hx) ?_⟩
  intro x hx
  rcases List.mem_cons.mp hx with rfl | hx
  · exact .inr hp
  · exact .inl hx

/-- A handler that was taken out is over and given back. -/
theorem keeps_endTaken
    (ha : At strict k { g with holds := h :: g.holds, ending := h :: g.ending } since w)
    (hk : k.Only w.board h) : (Act.thenLetGo h (unregister h) w.board).Keeps (order strict) may
      (Leaves strict may {} g w.board fun _ w => w.board.phase h = .unregistered) since w := by
  have hend : (unregister h w.board).Keeps (order strict) may _ since w := keeps_unregister ha hk
    fun hstrict _ _ he => (ha.sound.agreed hstrict).staying he List.mem_cons_self
  refine keeps_finally hend ?_
  intro since a w ha _ hp
  have hover : At strict {} { g with holds := h :: g.holds } since w := At.over ha hp
  exact ⟨hover.letGo, onward_letGo _ h, ((sameButToasts_letGo h).phase h).trans hp⟩

/-- Leaving a registry, step by step. -/
theorem removeIfCurrent_eq (r : RegistryId) (name : String) (h : HandlerId) (b : Board) :
    removeIfCurrent r name h b = if b.isCurrent r name h = true then
      (Act.thenLetGo h (unregister h) (b.takeEntry r name).2).andThen
        fun _ b => .ended (some true) b
    else .ended (some false) b := by
  change (if b.isCurrent r name h = true then
    (Action.step (·.takeEntry r name)).andThen fun _ =>
      (Act.thenLetGo h (unregister h)).andThen fun _ => (pure true : Act Bool)
    else pure false) b = _
  split <;> rfl

/-- The very one under a name is taken out and over. -/
theorem keeps_removeIfCurrent {r : RegistryId} {name : String} (ha : At strict k g since w)
    (hk : k.Only w.board h) (hcur : w.board.isCurrent r name h = true) :
    (removeIfCurrent r name h w.board).Keeps (order strict) may
      (Leaves strict may {} g w.board fun a w => a ≠ some false ∧
        w.board.phase h = .unregistered) since w := by
  have htake : (w.board.takeEntry r name).1 = some h := by
    rw [takeEntry_eq]
    simpa [isCurrent] using hcur
  have hs := ha.sound.takeEntry r name
  rw [htake] at hs
  have hat : At strict k { g with holds := h :: g.holds, ending := h :: g.ending } since
      (w.put (w.board.takeEntry r name).2) := by
    refine ha.step (onward_of_handlers ?_) ?_ hs <;> rw [takeEntry_eq] <;> rfl
  have hphase : (w.board.takeEntry r name).2.phase h = w.board.phase h := by
    rw [takeEntry_eq]
    rfl
  have honward : w.board.Onward (w.board.takeEntry r name).2 := by
    rw [takeEntry_eq]
    exact onward_of_handlers rfl
  have hend : (Act.thenLetGo h (unregister h) (w.board.takeEntry r name).2).Keeps (order strict) may
      _ since (w.put (w.board.takeEntry r name).2) := keeps_endTaken hat (hk.of_phase hphase)
  rw [removeIfCurrent_eq, if_pos hcur]
  refine keeps_next (P := fun _ w => w.board.phase h = .unregistered)
    (keeps_put.mp (keeps_from hend honward fun _ _ _ hp => hp))
    (fun w hp => ⟨fun hc => Option.some_ne_none _ hc.symm, hp⟩) ?_
  intro _ since w ha ho hp
  exact keeps_ended ha ho ⟨fun hc => Bool.noConfusion (Option.some.inj hc), hp⟩

end ToastBoard
