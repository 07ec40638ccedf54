import ToastBoard.Proofs.Audience
import ToastBoard.Proofs.Departures

/-!
# Those who are told and go back to the coordinators

Showing and closing alerts, reports about names and the signal lead from boards to later ones, and
do not ask in which order holders are written down. So whoever does any of this whenever they are
told something is an audience, as long as they do not go on for ever.
-/

namespace ToastBoard

open Board

variable {σ α β : Type} {a b b' : Board} {h : HandlerId} {r : RegistryId} {c : CoordinatorId}

namespace Board

/-- Whatever is done with handlers and their tables leads to a later board. -/
theorem onward_handling : AllowsHandling Onward where
  trans := Onward.trans
  refl := Onward.refl
  hold _ _ := onward_of_handlers rfl
  letGo b h := onward_letGo b h
  ownRegistry _ _ := onward_of_handlers rfl
  disownRegistry b r := (disownRegistry_quiet b r).1
  create b hd := onward_create b hd
  install _ _ name h := onward_of_handlers (handlers_install name h)
  restore b r name h old := (restore_quiet b r name h old).1
  takeEntry b r name := onward_of_handlers (by rw [takeEntry_eq]; rfl)
  takeAll _ _ := onward_of_handlers rfl
  submit b s h := (submit_quiet b s h).1
  defer _ _ _ := onward_update (by rw [deferred_eq]) (by rw [deferred_eq]) (by rw [deferred_eq])
    (by rw [deferred_eq]; exact .refl _)
  retire b h := onward_retire b h
  announce _ _ _ _ := onward_of_handlers handlers_announce

variable (c)

theorem onward_ownCoordinator (b : Board) : b.Onward (b.ownCoordinator c) := onward_of_handlers rfl

/-- Giving a coordinator up leads to a later board. -/
theorem onward_disownCoordinator (b : Board) : b.Onward (b.disownCoordinator c) :=
  (disownCoordinator_quiet b c).1

/-- Showing an alert leads to a later board each time somebody is told something. -/
theorem onward_showAlert (source : Source) (listener : Option ListenerId) :
    (showAlert c source listener).Within Onward := by
  intro b
  rw [showAlert_eq]
  exact Act.Within.withCoordinator onward_handling (within_offer onward_handling source listener)
    (onward_ownCoordinator c b) (onward_disownCoordinator c)

/-- So does closing one. -/
theorem onward_closeAlert (name : String) : (closeAlert c name).Within Onward := by
  intro b
  rw [closeAlert_eq]
  exact Act.Within.withCoordinator onward_handling
    (fun co => within_takeDown onward_handling co name)
    (onward_ownCoordinator c b) (onward_disownCoordinator c)

omit c

/-- So does a report about a name. -/
theorem onward_emit (name : String) (o : Outcome) : (emit name o).Within Onward :=
  within_emit onward_handling name o

/-- So does the signal. -/
theorem onward_fire (visit : Visit) : (fire visit).Within Onward :=
  within_fire onward_handling (fun b c _ => onward_ownCoordinator c b)
    (fun b c => onward_disownCoordinator c b) (fun _ => onward_of_handlers rfl) visit

namespace SameButFor

variable (hb : b.SameButFor none b')

include hb

theorem phase (x : HandlerId) : b'.phase x = b.phase x :=
  congrArg Handler.phase (hb.same x (Option.some_ne_none x))

/-- The same handler stands under a name. -/
theorem current? (r : RegistryId) (name : String) : b'.current? r name = b.current? r name :=
  congrArg (·.get? name) (registry_of_registries hb.registries r)

theorem coordinator (c : CoordinatorId) : b'.coordinator c = b.coordinator c :=
  (congrArg (·.coordinator c) hb.rest :)

/-- A coordinator is there on both boards, or on neither. -/
theorem hasCoordinator (c : CoordinatorId) : b'.hasCoordinator c = b.hasCoordinator c := by
  rw [Board.hasCoordinator, hb.coordinator, Board.hasCoordinator]

/-- More handlers are held. -/
theorem holdAll (hs : List HandlerId) :
    { b with held := hs ++ b.held }.SameButFor none { b' with held := hs ++ b'.held } :=
  ⟨congrArg (fun d : Board => { d with held := hs ++ b'.held }) hb.rest, hb.held.append_left hs,
    hb.length, hb.handler, hb.same, hb.told⟩

theorem letGoAll (hs : List HandlerId) : (b.letGoAll hs).SameButFor none (b'.letGoAll hs) := by
  induction hs generalizing b b' with
  | nil => exact hb
  | cons h hs ih => exact ih (hb.letGo h)

/-- A handler may be put under its name on both boards. -/
theorem install (r : RegistryId) (name : String) (h : HandlerId) :
    (b.install r name h).2.SameButFor none (b'.install r name h).2 := by
  rw [install_eq, install_eq, hb.current?]
  exact (hb.holdAll _).aloof (aloof_updateRegistry r _)

/-- A table may be emptied on both boards. -/
theorem takeAll (r : RegistryId) : (b.takeAll r).2.SameButFor none (b'.takeAll r).2 := by
  unfold Board.takeAll
  rw [registry_of_registries hb.registries r]
  exact (hb.holdAll _).aloof (aloof_updateRegistry r _)

/-- What was displaced may be put back on both boards. -/
theorem restore (r : RegistryId) (name : String) (h : HandlerId) (old : Option HandlerId) :
    (b.restore r name h old).2.SameButFor none (b'.restore r name h old).2 := by
  have hactive : (fun x => (b'.phase x).isActive) = fun x => (b.phase x).isActive :=
    funext fun x => congrArg Phase.isActive (hb.phase x)
  have hchanged : ∀ f, ((b.updateRegistry r f).reap h).SameButFor none
      ((b'.updateRegistry r f).reap h) :=
    fun f => (hb.aloof (aloof_updateRegistry r f)).reap h
  unfold Board.restore
  rw [hb.isCurrent, hactive]
  split
  · split
    · exact (hchanged _).letGo _
    · exact (hchanged _).letGoAll _
  · exact hb.letGoAll _

/-- A handler may be assigned the same phase on both boards. -/
theorem setPhase_same (h : HandlerId) (p : Phase) :
    (b.setPhase h p).SameButFor none (b'.setPhase h p) :=
  hb.update ((hb.handler h).rephase p p) fun ho => by rw [hb.same h ho]

theorem setWorker (s : StationId) (worker : Worker HandlerId) :
    (b.setWorker s worker).SameButFor none (b'.setWorker s worker) :=
  hb.aloof (f := (·.setWorker s worker)) fun _ _ _ _ => rfl

/-- Submitting a handler comes to the same. -/
theorem submit (s : StationId) (h : HandlerId) : (b'.submit s h).1 = (b.submit s h).1 ∧
    (b.submit s h).2.SameButFor none (b'.submit s h).2 := by
  have hset := hb.setPhase_same h .initializing
  have hstation : (b'.setPhase h .initializing).station s =
      (b.setPhase h .initializing).station s :=
    (congrArg (fun d : Board => d.station s) hset.rest :)
  unfold Board.submit
  rw [hb.phase, hb.same h (Option.some_ne_none h)]
  split
  · simp only [hstation]
    split
    · exact ⟨rfl, hset.setWorker s _⟩
    · exact ⟨rfl, hset.setPhase_same h .initFailed⟩
  · exact ⟨rfl, hb⟩

/-- A new handler gets the same number. -/
theorem create (hd : Handler) : (b'.create hd).1 = (b.create hd).1 ∧
    (b.create hd).2.SameButFor none (b'.create hd).2 := by
  have hhandler : ∀ (d : Board) x, (d.create hd).2.handler x =
      if x = d.handlers.length then hd else d.handler x := fun d x => getD_concat ..
  refine ⟨hb.length, congrArg (fun d : Board => { d with
      handlers := b'.handlers ++ [hd], held := b'.handlers.length :: b'.held }) hb.rest, ?_, ?_,
    fun x => ?_, fun x hx => ?_, hb.told⟩
  · change (b.handlers.length :: b.held).Perm (b'.handlers.length :: b'.held)
    rw [hb.length]
    exact hb.held.cons _
  · change (b'.handlers ++ [hd]).length = (b.handlers ++ [hd]).length
    rw [List.length_append, List.length_append, hb.length]
  · rw [hhandler, hhandler, hb.length]
    split
    · exact .refl hd
    · exact hb.handler x
  · rw [hhandler, hhandler, hb.length, hb.same x hx]

/-- A coordinator may be owned on both boards. -/
theorem ownCoordinator (c : CoordinatorId) :
    (b.ownCoordinator c).SameButFor none (b'.ownCoordinator c) :=
  hb.aloof (f := (·.ownCoordinator c)) fun _ _ _ _ => rfl

/-- A coordinator may be given up on both boards. -/
theorem disownCoordinator (c : CoordinatorId) :
    (b.disownCoordinator c).SameButFor none (b'.disownCoordinator c) := by
  have hleft := hb.aloof (f := fun b => b.updateCoordinator c fun co =>
    { co with owners := co.owners - 1 }) fun _ _ _ _ => rfl
  unfold Board.disownCoordinator
  generalize b.updateCoordinator c _ = d at hleft ⊢
  generalize b'.updateCoordinator c _ = d' at hleft ⊢
  simp only [hleft.hasCoordinator c, hleft.coordinator c]
  by_cases hc : d.hasCoordinator c = true
  · rw [if_pos hc, if_pos hc]
    exact hleft
  · rw [if_neg hc, if_neg hc]
    have hgone := hleft.disownRegistry (d.coordinator c).registry
    have hstation : (d'.disownRegistry (d.coordinator c).registry).station
        (d.coordinator c).station =
        (d.disownRegistry (d.coordinator c).registry).station (d.coordinator c).station :=
      (congrArg (fun a : Board => a.station (d.coordinator c).station) hgone.rest :)
    rw [hstation]
    exact hgone.setWorker ..

end SameButFor

end Board

/-- An operation that does and tells the same on boards on which holders are only written down in
another order. -/
def Act.Blind (act : Act α) : Prop := ∀ ⦃b b' :
    Board⦄, b.SameButFor none b' → (act b).TellsSame (act b')

namespace Act.Blind

/-- Actions may be done one after the other. -/
theorem andThen {act : Act α} {next : α → Act β} (ha : act.Blind) (hn : ∀ a, (next a).Blind) :
    Act.Blind (act.andThen next) :=
  fun _ _ hb => (ha hb).andThen fun a _ _ hc => hn a hc

theorem done (a : α) : Act.Blind (Action.done a) := fun _ _ hb => .ended _ hb

theorem thenLetGo {act : Act α} (ha : act.Blind) (h : HandlerId) : (Act.thenLetGo h act).Blind :=
  fun _ _ hb => (ha hb).ensuring fun hc => hc.letGo h

theorem holding {act : Act α} (ha : act.Blind) (h : HandlerId) : (Act.holding h act).Blind :=
  fun _ _ hb => thenLetGo ha h (hb.hold h)

theorem forEach {act : β → Act Unit} (ha : ∀ x, (act x).Blind) :
    (xs : List β) → Act.Blind (Action.forEach xs act)
  | [] => done ()
  | x :: xs => andThen (ha x) fun _ => forEach ha xs

/-- A coordinator may be held meanwhile. -/
theorem withCoordinator {act : Coordinator → Act α} (ha : ∀ co, (act co).Blind) :
    (Board.withCoordinator c act).Blind := by
  intro b b' hb
  change (((act (b.coordinator c)) (b.ownCoordinator c)).ensuring _).TellsSame
    (((act (b'.coordinator c)) (b'.ownCoordinator c)).ensuring _)
  rw [hb.coordinator]
  exact (ha _ (hb.ownCoordinator c)).ensuring fun hd => hd.disownCoordinator c

end Act.Blind

namespace Board

/-- Ending a handler does not depend on the order of holders. -/
theorem blind_unregister (h : HandlerId) : (unregister h).Blind :=
  fun _ _ hb => tellsSame_unregister hb h

/-- Hearing from the screen does not depend on the order of holders. -/
theorem blind_hear (h : HandlerId) (o : Outcome) : (hear h o).Blind := by
  intro b b' hb
  rw [hear_eq, hear_eq, hb.refersTo]
  split
  · exact Act.Blind.holding (fun _ _ hc => tellsSame_handleOutcome hc h o) h hb
  · exact .ended _ hb

/-- A report about a name does not ask in which order holders are written down. -/
theorem blind_emit (name : String) (o : Outcome) : (emit name o).Blind := by
  intro b b' hb
  rw [emit_eq, emit_eq, hb.screen]
  cases b.screen.sinkOf? name with
  | none => exact .ended _ hb
  | some h => exact (blind_hear h o hb).andThen fun _ _ _ hc => .ended _ hc

/-- Taking an alert down does not depend on the order of holders. -/
theorem blind_takeDown (co : Coordinator) (name : String) : Act.Blind (takeDown co name) := by
  intro b b' hb
  have hfound : (b'.takeEntry co.registry name).1 = (b.takeEntry co.registry name).1 := by
    rw [takeEntry_eq, takeEntry_eq, hb.current?]
  unfold takeDown
  rw [hfound]
  split
  · exact .ended _ (hb.takeEntry co.registry name)
  · exact Act.Blind.thenLetGo (blind_unregister _) _ (hb.takeEntry co.registry name)

/-- Closing an alert does not depend on the order of holders. -/
theorem blind_closeAlert (c : CoordinatorId) (name : String) : (closeAlert c name).Blind := by
  rw [closeAlert_eq]
  exact Act.Blind.withCoordinator fun co => blind_takeDown co name

/-- Ending whoever was displaced does not depend on the order of holders. -/
theorem blind_supersede (old : Option HandlerId) : (supersede old).Blind := by
  cases old with
  | none => exact Act.Blind.done ()
  | some p => exact Act.Blind.thenLetGo (blind_unregister p) p

/-- Taking a handler back does not depend on the order of holders. -/
theorem blind_rollBack (r : RegistryId) (name : String) (h : HandlerId) (old : Option HandlerId) :
    (rollBack r name h old).Blind :=
  fun _ _ hb => blind_unregister h (hb.restore r name h old)

/-- Presenting a new handler does not depend on the order of holders. -/
theorem blind_present (co : Coordinator) (h : HandlerId) : (present co h).Blind := by
  intro b b' hb
  rw [present_eq, present_eq, hb.same h (Option.some_ne_none h)]
  have hold : (b'.install co.registry (b.handler h).name h).1 =
      (b.install co.registry (b.handler h).name h).1 := by
    rw [install_eq, install_eq, hb.current?]
  have hinstalled := hb.install co.registry (b.handler h).name h
  rw [hold]
  generalize (b.install co.registry (b.handler h).name h).2 = d at hinstalled ⊢
  generalize (b'.install co.registry (b.handler h).name h).2 = d' at hinstalled ⊢
  obtain ⟨hsame, hsubmitted⟩ := hinstalled.submit co.station h
  cases he : (d.submit co.station h).1 with
  | ok u =>
    rw [entrust_accepted he, entrust_accepted (hsame.trans he)]
    exact (blind_supersede _ hsubmitted).andThen fun _ _ _ hc => .ended _ hc
  | error e =>
    rw [entrust_refused he, entrust_refused (hsame.trans he)]
    exact (blind_rollBack _ _ h _ hsubmitted).andThen fun _ _ _ hc => .ended _ hc

/-- Offering an alert does not depend on the order of holders. -/
theorem blind_offer (source : Source) (listener : Option ListenerId) (co : Coordinator) :
    Act.Blind (offer source listener co) := by
  intro b b' hb
  unfold offer
  split
  · exact .ended _ hb
  · split
    · exact .ended _ hb
    · rename_i fields called _
      obtain ⟨hsame, hcreated⟩ :=
        hb.create { fields, listener, registry := some co.registry }
      rw [hsame]
      exact (Act.Blind.thenLetGo (blind_present co _) _ hcreated).andThen
        fun _ _ _ hc => .ended _ hc

/-- Showing an alert does not depend on the order of holders. -/
theorem blind_showAlert (c : CoordinatorId) (source : Source) (listener : Option ListenerId) :
    (showAlert c source listener).Blind := by
  rw [showAlert_eq]
  exact Act.Blind.withCoordinator (blind_offer source listener)

/-- Ending everybody in a table does not depend on the order of holders. -/
theorem blind_drain (visit : Visit) (r : RegistryId) : (drain visit r).Blind := by
  intro b b' hb
  change ((Action.forEach (visit r (b.takeAll r).1) unregister (b.takeAll r).2).ensuring
    _).TellsSame
    ((Action.forEach (visit r (b'.takeAll r).1) unregister (b'.takeAll r).2).ensuring _)
  rw [show (b'.takeAll r).1 = (b.takeAll r).1 from
    congrArg Registry.handlers (registry_of_registries hb.registries r)]
  exact (Act.Blind.forEach blind_unregister _ (hb.takeAll r)).ensuring fun hc => hc.letGoAll _

/-- Shutting a coordinator down does not depend on the order of holders. -/
theorem blind_shutDown (visit : Visit) (c : CoordinatorId) : (shutDown visit c).Blind := by
  intro b b' hb
  change ((if b.hasCoordinator c = true then
    withCoordinator c fun co => drain visit co.registry else pure ()) b).TellsSame
    ((if b'.hasCoordinator c = true then
    withCoordinator c fun co => drain visit co.registry else pure ()) b')
  rw [hb.hasCoordinator]
  split
  · exact Act.Blind.withCoordinator (fun co => blind_drain visit co.registry) hb
  · exact .ended _ hb

/-- Firing the signal does not depend on the order of holders. -/
theorem blind_fire (visit : Visit) : (fire visit).Blind := by
  intro b b' hb
  have hsignal : b'.signal = b.signal := (congrArg Board.signal hb.rest :)
  rw [fire_eq, fire_eq, hsignal]
  have hfired : b.fired.SameButFor none b'.fired := hb.aloof (f := Board.fired) fun _ _ _ _ => rfl
  exact (Act.Blind.forEach (blind_shutDown visit) _ hfired).andThen fun _ _ _ hc => .ended _ hc

end Board

/-- A computation leads to a later board before an audience if it does so each time the audience is
told something. -/
theorem Talk.Within.onward {t : Talk Board Telling α} (ht : t.Within Onward b)
    (audience : Audience σ) (s : σ) : b.Onward (t.before audience s).2.1 := by
  induction t generalizing b s with
  | ended a c => exact ht
  | told m c resume ih =>
    rw [before_told]
    exact (ht.1.trans (audience.onward m c s)).trans (ih true _ (ht.2 true _) _)

/-- What somebody may do when told something. -/
structure Reaction where
  /-- What is done. -/
  act : Act Unit
  /-- It leads to a later board each time somebody else is told something meanwhile. -/
  onward : act.Within Onward
  /-- It does not ask in which order holders are written down. -/
  blind : act.Blind

namespace Reaction

/-- To do nothing. -/
def nothing : Reaction := ⟨Action.done (), fun b => .refl b, .done ()⟩

/-- An operation that leads to a later board and does not ask for the order of holders, whatever
comes of it. -/
def of (act : Act α) (onward : act.Within Onward) (blind : act.Blind) : Reaction where
  act := act.andThen fun _ => Action.done ()
  onward := .andThen onward_handling onward fun _ b => .refl b
  blind := blind.andThen fun _ => .done ()

/-- To show an alert. -/
def showAlert (c : CoordinatorId) (source : Source) (listener : Option ListenerId) : Reaction :=
  .of (Board.showAlert c source listener) (onward_showAlert c source listener)
    (blind_showAlert c source listener)

/-- To close one. -/
def closeAlert (c : CoordinatorId) (name : String) : Reaction :=
  .of (Board.closeAlert c name) (onward_closeAlert c name) (blind_closeAlert c name)

/-- To have the screen report something about a name. -/
def emit (name : String) (o : Outcome) : Reaction :=
  .of (Board.emit name o) (onward_emit name o) (blind_emit name o)

/-- To fire the signal. -/
def fire (visit : Visit) : Reaction := .of (Board.fire visit) (onward_fire visit) (blind_fire visit)

/-- To do one thing after the other. -/
def andThen (first next : Reaction) : Reaction where
  act := first.act.andThen fun _ => next.act
  onward := .andThen onward_handling first.onward fun _ => next.onward
  blind := first.blind.andThen fun _ => next.blind

end Reaction

namespace Audience

/-- Nobody is there. -/
def absent : Audience σ where
  hear _ b s := (b, s)
  onward _ b _ := .refl b
  blind _ _ _ _ hb := ⟨hb, rfl⟩

/-- Those who react to what they are told, before another audience. -/
def reacting (react : Telling → σ → Reaction × σ) (others : Audience σ) : Audience σ where
  hear m b s := (((react m s).1.act b).before others (react m s).2).2
  onward m b s := ((react m s).1.onward b).onward others (react m s).2
  blind m _ _ s hb := by
    obtain ⟨a, d, d', s', he, he', hd⟩ := ((react m s).1.blind hb).before others (react m s).2
    rw [he, he']
    exact ⟨hd, rfl⟩

/-- Those who react to whatever they are told, also while they react, up to so many times inside
each other. -/
def reentrant (react : Telling → σ → Reaction × σ) : Nat → Audience σ
  | 0 => absent
  | n + 1 => reacting react (reentrant react n)

end Audience

end ToastBoard
