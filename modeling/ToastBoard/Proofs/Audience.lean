import ToastBoard.Proofs.SameButFor

/-!
# Audiences

Those who are told what computations tell, as one that never panics. What they do with the board is
up to them, and may depend on what they remember from before. With an audience a computation is a
function, so two computations can be compared by what they come to with the same one.
-/

namespace ToastBoard

open Board

variable {σ α β : Type} {b c : Board} {h : HandlerId} {r : RegistryId}

/-- Those who are told: on a board they do what they like, by what they remember, and return. -/
structure Audience (σ : Type) where
  /-- The board that they leave, and what they remember then. -/
  hear : Telling → Board → σ → Board × σ
  /-- The board that they leave is a later one. -/
  onward : ∀ m (b : Board) s, b.Onward (hear m b s).1
  /-- In which order holders are written down makes no difference to them. -/
  blind : ∀ m {b b' : Board} s, b.SameButFor none b' →
    (hear m b s).1.SameButFor none (hear m b' s).1 ∧ (hear m b' s).2 = (hear m b s).2

/-- Whether an audience leaves the board alone. -/
def Audience.Still (audience : Audience σ) : Prop := ∀ m b s, (audience.hear m b s).1 = b

namespace Talk

variable (audience : Audience σ)

/-- What a computation comes to before an audience, and what that remembers then: it runs on a board
with a memory beside it, and whoever is told something returns. -/
def before (t : Talk Board Telling α) (s : σ) : Option α × Board × σ :=
  t.run Prod.fst (fun b w => (b, w.2)) (fun m w => (true, audience.hear m w.1 w.2)) ({}, s)

/-- Whether the board is in some way each time the audience returns. -/
def Always (P : Board → Prop) : Talk Board Telling α → σ → Prop
  | .ended _ _, _ => True
  | .told m b resume, s => P (audience.hear m b s).1 ∧
      (resume true (audience.hear m b s).1).Always P (audience.hear m b s).2

@[simp] theorem before_ended (a : Option α) (b : Board) (s : σ) :
    (Talk.ended a b).before audience s = (a, b, s) := rfl

/-- Whoever has been told something returns, and the computation goes on from there. -/
@[simp] theorem before_told (m : Telling) (b : Board) (resume : Bool → Board → Talk Board Telling α)
    (s : σ) : (Talk.told m b resume).before audience s =
      (resume true (audience.hear m b s).1).before audience (audience.hear m b s).2 := by
  change (resume true (audience.hear m b s).1).run _ _ _ (audience.hear m b s) = _
  unfold before
  -- a computation brings its own board along, so it makes no difference on which one it is run
  cases resume true (audience.hear m b s).1 <;> rfl

theorem before_andThen (t : Talk Board Telling α) (next : α → Board → Talk Board Telling β)
    (s : σ) : (t.andThen next).before audience s = match t.before audience s with
      | (none, b, s) => (none, b, s)
      | (some a, b, s) => (next a b).before audience s := by
  induction t generalizing s with
  | ended a b => cases a <;> rfl
  | told m b resume ih =>
    rw [before_told, ← ih]
    exact before_told ..

theorem before_ensuring (t : Talk Board Telling α) (f : Board → Board) (s : σ) :
    (t.ensuring f).before audience s =
      ((t.before audience s).1, f (t.before audience s).2.1, (t.before audience s).2.2) := by
  induction t generalizing s with
  | ended a b => rfl
  | told m b resume ih =>
    rw [before_told, ← ih]
    exact before_told ..

theorem before_caught (t : Talk Board Telling Unit) (s : σ) :
    t.caught.before audience s = (some (), (t.before audience s).2) := by
  induction t generalizing s with
  | ended a b => rfl
  | told m b resume ih =>
    rw [before_told, ← ih]
    exact before_told ..

/-- An audience that leaves the board alone might as well not be there. -/
theorem before_still {audience : Audience σ} (ha : audience.Still) (t : Talk Board Telling α)
    (s : σ) : ∃ s', t.before audience s = (t.quietly.1, t.quietly.2, s') := by
  induction t generalizing s with
  | ended a b => exact ⟨s, rfl⟩
  | told m b resume ih =>
    rw [before_told, ha]
    exact ih true b _

/-- Computations that tell the same come to the same before the same audience. -/
theorem TellsSame.before {t t' : Talk Board Telling α} (ht : t.TellsSame t') (s : σ) :
    ∃ a d d' s', t.before audience s = (a, d, s') ∧ t'.before audience s = (a, d', s') ∧
      d.SameButFor none d' := by
  induction ht generalizing s with
  | ended a hb => exact ⟨a, _, _, s, rfl, rfl, hb⟩
  | @told m b b' resume resume' hb _ ih =>
    obtain ⟨hboard, hmemory⟩ := audience.blind m s hb
    obtain ⟨a, d, d', s', he, he', hd⟩ := ih true _ _ hboard (audience.hear m b s).2
    rw [← hmemory] at he'
    exact ⟨a, d, d', s', (before_told ..).trans he, (before_told ..).trans he', hd⟩

variable {audience} {P : Board → Prop}

theorem Always.of_andThen {t : Talk Board Telling α} {next : α → Board → Talk Board Telling β}
    {s : σ} (ht : (t.andThen next).Always audience P s) : t.Always audience P s := by
  induction t generalizing s with
  | ended a b => trivial
  | told m b resume ih => exact ⟨ht.1, ih true _ ht.2⟩

theorem Always.of_ensuring {t : Talk Board Telling α} {f : Board → Board} {s : σ}
    (ht : (t.ensuring f).Always audience P s) : t.Always audience P s := by
  induction t generalizing s with
  | ended a b => trivial
  | told m b resume ih => exact ⟨ht.1, ih true _ ht.2⟩

theorem Always.of_caught {t : Talk Board Telling Unit} {s : σ}
    (ht : t.caught.Always audience P s) : t.Always audience P s := by
  induction t generalizing s with
  | ended a b => trivial
  | told m b resume ih => exact ⟨ht.1, ih true _ ht.2⟩

/-- A computation that returns, on a board that is in some way, if those who are told return and
leave a later board each time. -/
def Returns (P : α → Board → Prop) : Talk Board Telling α → Prop
  | .ended a b => ∃ x, a = some x ∧ P x b
  | .told _ b resume => ∀ c, b.Onward c → (resume true c).Returns P

namespace Returns

variable {P Q : α → Board → Prop} {R : β → Board → Prop} {t : Talk Board Telling α}

theorem mono (ht : t.Returns P) (hPQ : ∀ a c, P a c → Q a c) : t.Returns Q := by
  induction t with
  | ended a b =>
    obtain ⟨x, hx, hp⟩ := ht
    exact ⟨x, hx, hPQ x b hp⟩
  | told m b resume ih => exact fun c hc => ih true c (ht c hc)

theorem andThen {next : α → Board → Talk Board Telling β} (ht : t.Returns P)
    (hn : ∀ a c, P a c → (next a c).Returns R) : (t.andThen next).Returns R := by
  induction t with
  | ended a b =>
    obtain ⟨x, rfl, hp⟩ := ht
    exact hn x b hp
  | told m b resume ih => exact fun c hc => ih true c (ht c hc)

theorem ensuring {f : Board → Board} (ht : t.Returns P) (hf : ∀ a c, P a c → Q a (f c)) :
    (t.ensuring f).Returns Q := by
  induction t with
  | ended a b =>
    obtain ⟨x, hx, hp⟩ := ht
    exact ⟨x, hx, hf x b hp⟩
  | told m b resume ih => exact fun c hc => ih true c (ht c hc)

/-- Before an audience a computation does return. -/
theorem before (ht : t.Returns P) (audience : Audience σ) (s : σ) :
    ∃ a d s', t.before audience s = (some a, d, s') ∧ P a d := by
  induction t generalizing s with
  | ended a b =>
    obtain ⟨x, rfl, hp⟩ := ht
    exact ⟨x, b, s, rfl, hp⟩
  | told m b resume ih =>
    rw [before_told]
    exact ih true _ (ht _ (audience.onward m b s)) _

end Returns

end Talk

namespace Board

theorem returns_notify (h : HandlerId) (topic : Topic) (action : Option String) (b : Board) :
    (notify h topic action b).Returns fun _ c => b.Onward c := by
  rw [notify_eq]
  cases (b.handler h).listener with
  | none => exact ⟨(), rfl, .refl b⟩
  | some l => exact fun c hc => ⟨(), rfl, (onward_of_handlers handlers_announce).trans hc⟩

/-- A handler that was ended is over, whatever its listener does. -/
theorem returns_unregister (h : HandlerId) (b : Board) :
    (unregister h b).Returns fun _ c => c.phase h = .unregistered := by
  rw [unregister_eq]
  split
  · rename_i hp
    exact ⟨(), rfl, hp⟩
  · rename_i hp
    have hretired : (b.retire h).phase h = .unregistered := (phase_retire hp h).trans (if_pos rfl)
    split
    · have hlt := Nat.lt_of_lt_of_le (lt_of_phase_ne hp) (onward_retire b h).length
      exact (returns_notify ..).mono fun _ c hc => hc.over hlt hretired
    · exact ⟨(), rfl, hretired⟩

/-- A hold that is given back concerns no phase. -/
theorem phase_letGo (x : HandlerId) (b : Board) (y : HandlerId) : (b.letGo x).phase y = b.phase y :=
  (sameButToasts_letGo x).phase y

/-- A registry that is given up concerns no phase. -/
theorem phase_disownRegistry (r : RegistryId) (b : Board) (x : HandlerId) :
    (b.disownRegistry r).phase x = b.phase x := by
  unfold disownRegistry
  simp only
  split
  · rfl
  · exact (sameButToasts_reapAll _).phase x

/-- A handler that left its registry is over. -/
theorem returns_leaveRegistry (h : HandlerId) (b : Board) : (leaveRegistry h b).Returns
    fun removed c => removed = true → c.phase h = .unregistered := by
  have haway : ∀ c : Board, (Talk.ended (some false) c : Talk Board Telling Bool).Returns
      fun removed c => removed = true → c.phase h = .unregistered := fun c =>
    ⟨false, rfl, fun hc => absurd hc Bool.false_ne_true⟩
  rw [leaveRegistry_eq]
  cases (b.handler h).registry with
  | none => exact haway b
  | some r =>
    simp only
    split
    · have hremoved : (removeIfCurrent r (b.handler h).name h (b.ownRegistry r)).Returns
          fun removed c => removed = true → c.phase h = .unregistered := by
        rw [removeIfCurrent_eq]
        split
        · have hend : (Act.thenLetGo h (unregister h)
              ((b.ownRegistry r).takeEntry r (b.handler h).name).2).Returns
                fun _ c => c.phase h = .unregistered :=
            (returns_unregister h _).ensuring fun _ c hc => (phase_letGo h c h).trans hc
          exact hend.andThen fun _ c hc => ⟨true, rfl, fun _ => hc⟩
        · exact haway _
      exact hremoved.ensuring fun _ c hc hr => (phase_disownRegistry r c h).trans (hc hr)
    · exact haway b

/-- A handler that ended by itself is over. -/
theorem returns_removeSelf (h : HandlerId) (b : Board) :
    (removeSelf h b).Returns fun _ c => c.phase h = .unregistered := by
  rw [removeSelf_eq]
  refine (returns_leaveRegistry h b).andThen fun removed c hc => ?_
  cases removed with
  | true => exact ⟨(), rfl, hc rfl⟩
  | false => exact returns_unregister h c

theorem returns_report (h : HandlerId) (o : Outcome) (b : Board) :
    (report h o b).Returns fun _ _ => True := by
  have hdone : (Talk.ended (some ()) b : Talk Board Telling Unit).Returns fun _ _ => True :=
    ⟨(), rfl, trivial⟩
  have htell : ∀ topic action, (notify h topic action b).Returns fun _ _ => True :=
    fun topic action => (returns_notify h topic action b).mono fun _ _ _ => trivial
  rw [report_eq]
  cases o with
  | activated action =>
    cases action with
    | none =>
      simp only
      split
      · exact htell ..
      · exact hdone
    | some action => exact htell ..
  | dismissed => exact hdone
  | failed reason => exact hdone

/-- A live handler that heard from the screen is over. -/
theorem returns_handleOutcome (o : Outcome) (hl : b.phase h = .live) :
    (handleOutcome h o b).Returns fun _ c => c.phase h = .unregistered := by
  rw [handleOutcome_eq, hl]
  exact (returns_report h o b).andThen fun _ c _ => returns_removeSelf h c

end Board

end ToastBoard
