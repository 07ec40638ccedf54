import ToastBoard.Proofs.Reading

/-!
# How boards move on

Handlers are never forgotten and never go back: what was read from an alert, its listener and its
registry stay, and its phase only moves on. Two boards that differ at most in what is on the screen
and in who has to release it count as the same for everything else.
-/

namespace ToastBoard

namespace Phase

/-- How far a phase is on the way to the end. -/
def rank : Phase → Nat
  | .created => 0
  | .initializing => 1
  | .live | .initFailed => 2
  | .unregistered => 3

/-- Whether a handler may come from one phase to another. -/
def LeadsTo (p q : Phase) : Prop := p = q ∨ p.rank < q.rank

theorem LeadsTo.refl (p : Phase) : p.LeadsTo p := .inl rfl

theorem LeadsTo.trans {p q r : Phase} (h : p.LeadsTo q) (h' : q.LeadsTo r) : p.LeadsTo r := by
  rcases h with rfl | h
  · exact h'
  · rcases h' with rfl | h'
    · exact .inr h
    · exact .inr (Nat.lt_trans h h')

/-- The end is where every phase leads. -/
theorem leadsTo_unregistered (p : Phase) : p.LeadsTo .unregistered := by
  cases p
  case unregistered => exact .refl _
  all_goals exact .inr (by decide)

/-- A handler to which nothing was done yet may come to every phase. -/
theorem created_leadsTo (p : Phase) : Phase.created.LeadsTo p := by
  cases p
  case created => exact .refl _
  all_goals exact .inr (by decide)

/-- A handler that is being registered may come to every other phase. -/
theorem initializing_leadsTo {p : Phase} (hp : p ≠ .created) : Phase.initializing.LeadsTo p := by
  cases p
  case created => exact absurd rfl hp
  case initializing => exact .refl _
  all_goals exact .inr (by decide)

/-- Nothing comes after the end. -/
theorem LeadsTo.eq_unregistered {p : Phase} (h : Phase.unregistered.LeadsTo p) :
    p = .unregistered := by
  rcases h with rfl | h
  · rfl
  · cases p <;> simp [rank] at h

/-- After having been live there is only the end. -/
theorem LeadsTo.of_live {p : Phase} (h : Phase.live.LeadsTo p) : p = .live ∨ p = .unregistered := by
  rcases h with rfl | h
  · exact .inl rfl
  · cases p <;> simp [rank] at h ⊢

end Phase

/-- Handlers that differ at most in what they have to release. -/
structure Handler.SameButToast (a a' : Handler) : Prop where
  /-- The same alert. -/
  fields : a'.fields = a.fields
  /-- The same listener. -/
  listener : a'.listener = a.listener
  /-- The same registry. -/
  registry : a'.registry = a.registry
  /-- The same phase. -/
  phase : a'.phase = a.phase
  /-- The same outcome kept for later. -/
  pending : a'.pending = a.pending

theorem Handler.SameButToast.refl (a : Handler) : a.SameButToast a := ⟨rfl, rfl, rfl, rfl, rfl⟩

theorem Handler.SameButToast.trans {a b c : Handler} (h : a.SameButToast b)
    (h' : b.SameButToast c) : a.SameButToast c :=
  ⟨h'.fields.trans h.fields, h'.listener.trans h.listener, h'.registry.trans h.registry,
    h'.phase.trans h.phase, h'.pending.trans h.pending⟩

namespace Board

variable {a b c : Board} {h : HandlerId}

/-- Boards that differ at most in the toasts and in who has to release them. -/
structure SameButToasts (b b' : Board) : Prop where
  /-- The same handlers, but for what they have to release. -/
  handler : ∀ h, (b.handler h).SameButToast (b'.handler h)
  /-- As many handlers. -/
  length : b'.handlers.length = b.handlers.length
  /-- The same registries. -/
  registries : b'.registries = b.registries
  /-- The same stations. -/
  stations : b'.stations = b.stations
  /-- The same coordinators. -/
  coordinators : b'.coordinators = b.coordinators
  /-- The same holders. -/
  held : b'.held = b.held
  /-- The same was told. -/
  told : b'.told = b.told
  /-- The same was attempted. -/
  attempts : b'.screen.attempts = b.screen.attempts

theorem SameButToasts.refl (b : Board) : b.SameButToasts b :=
  ⟨fun _ => .refl _, rfl, rfl, rfl, rfl, rfl, rfl, rfl⟩

theorem SameButToasts.trans (h : a.SameButToasts b) (h' : b.SameButToasts c) :
    a.SameButToasts c where
  handler x := (h.handler x).trans (h'.handler x)
  length := h'.length.trans h.length
  registries := h'.registries.trans h.registries
  stations := h'.stations.trans h.stations
  coordinators := h'.coordinators.trans h.coordinators
  held := h'.held.trans h.held
  told := h'.told.trans h.told
  attempts := h'.attempts.trans h.attempts

theorem SameButToasts.phase (hb : a.SameButToasts b) (x : HandlerId) : b.phase x = a.phase x :=
  (hb.handler x).phase

/-- Releasing a toast changes nothing but toasts. -/
theorem sameButToasts_releaseToast (toast : Option ToastId) :
    b.SameButToasts (b.releaseToast toast) := by
  cases toast <;> exact ⟨fun _ => .refl _, rfl, rfl, rfl, rfl, rfl, rfl, rfl⟩

/-- A change of what a handler has to release changes nothing else. -/
theorem sameButToasts_update {f : Handler → Handler}
    (hf : (b.handler h).SameButToast (f (b.handler h))) :
    b.SameButToasts (b.update h f) := by
  refine ⟨?_, length_update .., rfl, rfl, rfl, rfl, rfl, rfl⟩
  intro x
  rw [handler_update]
  split
  · rename_i hx
    rw [hx.1]
    exact hf
  · exact .refl _

/-- A handler to which nothing refers gives up its toast, and nothing else changes. -/
theorem sameButToasts_reap (h : HandlerId) : b.SameButToasts (b.reap h) := by
  unfold reap
  split
  · exact .refl _
  · exact (sameButToasts_update ⟨rfl, rfl, rfl, rfl, rfl⟩).trans (sameButToasts_releaseToast _)

/-- Some handlers give up their toasts, and nothing else changes. -/
theorem sameButToasts_reapAll (hs : List HandlerId) : b.SameButToasts (hs.foldl reap b) := by
  induction hs generalizing b with
  | nil => exact .refl _
  | cons h hs ih => exact (sameButToasts_reap h).trans ih

/-- Giving back a hold is noticed by the holders alone. -/
theorem sameButToasts_letGo (h : HandlerId) :
    { b with held := b.held.erase h }.SameButToasts (b.letGo h) :=
  sameButToasts_reap h

/-- Giving handlers back concerns no registry. -/
theorem registries_letGoAll (hs : List HandlerId) : (b.letGoAll hs).registries = b.registries := by
  induction hs generalizing b with
  | nil => rfl
  | cons h hs ih =>
    rw [letGoAll, List.foldl_cons]
    exact (ih (b := b.letGo h)).trans (sameButToasts_letGo h).registries

/-- A later board has all handlers, which have moved on at most. -/
structure Onward (b b' : Board) : Prop where
  /-- No handler is forgotten. -/
  length : b.handlers.length ≤ b'.handlers.length
  /-- Handlers keep what was read from their alerts. -/
  fields : ∀ h < b.handlers.length, (b'.handler h).fields = (b.handler h).fields
  /-- Handlers keep their listeners. -/
  listener : ∀ h < b.handlers.length, (b'.handler h).listener = (b.handler h).listener
  /-- Handlers keep their registries. -/
  registry : ∀ h < b.handlers.length, (b'.handler h).registry = (b.handler h).registry
  /-- Handlers move on. -/
  phase : ∀ h < b.handlers.length, (b.phase h).LeadsTo (b'.phase h)

theorem Onward.refl (b : Board) : b.Onward b :=
  ⟨Nat.le_refl _, fun _ _ => rfl, fun _ _ => rfl, fun _ _ => rfl, fun _ _ => .refl _⟩

theorem Onward.trans (h : a.Onward b) (h' : b.Onward c) : a.Onward c where
  length := Nat.le_trans h.length h'.length
  fields x hx := (h'.fields x (Nat.lt_of_lt_of_le hx h.length)).trans (h.fields x hx)
  listener x hx := (h'.listener x (Nat.lt_of_lt_of_le hx h.length)).trans (h.listener x hx)
  registry x hx := (h'.registry x (Nat.lt_of_lt_of_le hx h.length)).trans (h.registry x hx)
  phase x hx := (h.phase x hx).trans (h'.phase x (Nat.lt_of_lt_of_le hx h.length))

/-- A board on which only toasts changed is a later one. -/
theorem SameButToasts.onward (h : a.SameButToasts b) : a.Onward b :=
  ⟨Nat.le_of_eq h.length.symm, fun x _ => (h.handler x).fields, fun x _ => (h.handler x).listener,
    fun x _ => (h.handler x).registry, fun x _ => .inl (h.handler x).phase.symm⟩

/-- A board with the same handlers is a later one. -/
theorem onward_of_handlers (hh : b.handlers = a.handlers) : a.Onward b := by
  have hsame : ∀ x, b.handler x = a.handler x := fun x => by rw [handler, handler, hh]
  exact ⟨Nat.le_of_eq (by rw [hh]), fun x _ => by rw [hsame], fun x _ => by rw [hsame],
    fun x _ => by rw [hsame], fun x _ => by rw [phase, phase, hsame]; exact .refl _⟩

/-- A handler may move on. -/
theorem onward_update {f : Handler → Handler}
    (hf : (f (b.handler h)).fields = (b.handler h).fields)
    (hl : (f (b.handler h)).listener = (b.handler h).listener)
    (hr : (f (b.handler h)).registry = (b.handler h).registry)
    (hp : (b.phase h).LeadsTo (f (b.handler h)).phase) : b.Onward (b.update h f) := by
  have hcases : ∀ x, (b.update h f).handler x = b.handler x ∨
      (x = h ∧ (b.update h f).handler x = f (b.handler x)) := by
    intro x
    rw [handler_update]
    split
    · rename_i hx
      exact .inr ⟨hx.1, rfl⟩
    · exact .inl rfl
  refine ⟨Nat.le_of_eq (length_update ..).symm, ?_, ?_, ?_, ?_⟩ <;> intro x _
  · rcases hcases x with he | ⟨rfl, he⟩
    · rw [he]
    · rw [he, hf]
  · rcases hcases x with he | ⟨rfl, he⟩
    · rw [he]
    · rw [he, hl]
  · rcases hcases x with he | ⟨rfl, he⟩
    · rw [he]
    · rw [he, hr]
  · change (b.phase x).LeadsTo ((b.update h f).handler x).phase
    rcases hcases x with he | ⟨rfl, he⟩
    · rw [he]
      exact .refl _
    · rw [he]
      exact hp

/-- A new handler changes nothing about the others. -/
theorem onward_create (b : Board) (hd : Handler) : b.Onward (b.create hd).2 := by
  have hold : ∀ x < b.handlers.length, (b.create hd).2.handler x = b.handler x := by
    intro x hx
    change (b.handlers ++ [hd]).getD x default = _
    rw [getD_concat, if_neg (Nat.ne_of_lt hx)]
    rfl
  refine ⟨?_, fun x hx => by rw [hold x hx], fun x hx => by rw [hold x hx],
    fun x hx => by rw [hold x hx], fun x hx => ?_⟩
  · change b.handlers.length ≤ (b.handlers ++ [hd]).length
    rw [List.length_append]
    exact Nat.le_add_right ..
  · rw [phase, phase, hold x hx]
    exact .refl _

/-- A handler that is over stays so. -/
theorem Onward.over (hb : a.Onward b) (hh : h < a.handlers.length)
    (hp : a.phase h = .unregistered) : b.phase h = .unregistered := by
  have hl := hb.phase h hh
  rw [hp] at hl
  exact hl.eq_unregistered

end Board

end ToastBoard
