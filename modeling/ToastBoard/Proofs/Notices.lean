import ToastBoard.Proofs.Onward

/-!
# What listeners are told

The notices about one handler come in a fixed order: that it is shown, then clicks and buttons, then
that it is finished. How far the order has come is told by the phase of the handler, and each notice
says what the alert and the screen have said.
-/

namespace ToastBoard

/-- A notice between the first and the last one. -/
def Topic.isReport : Topic → Bool
  | .clicked | .actionTaken => true
  | .shown | .finished => false

/-- The topics that the listener of a handler has heard by a phase. -/
def Phase.Hears : Phase → List Topic → Prop
  | .live, topics => ∃ reports : List Topic, topics = .shown :: reports ∧
      ∀ t ∈ reports, t.isReport = true
  | .unregistered, topics => topics = [] ∨ ∃ reports : List Topic,
      topics = .shown :: (reports ++ [.finished]) ∧ ∀ t ∈ reports, t.isReport = true
  | _, topics => topics = []

namespace Phase.Hears

variable {p : Phase} {topics : List Topic} {t : Topic}

/-- Before a handler is live and before it is over, nothing is heard. -/
theorem eq_nil (h : p.Hears topics) (hl : p ≠ .live) (hu : p ≠ .unregistered) : topics = [] := by
  cases p with
  | live => exact absurd rfl hl
  | unregistered => exact absurd rfl hu
  | created => exact h
  | initializing => exact h
  | initFailed => exact h

/-- Hearing nothing fits every phase but being live. -/
theorem nil (hl : p ≠ .live) : p.Hears [] := by
  cases p with
  | live => exact absurd rfl hl
  | unregistered => exact .inl rfl
  | created => rfl
  | initializing => rfl
  | initFailed => rfl

/-- A handler that becomes live is shown. -/
theorem shown (h : p.Hears topics) (hl : p ≠ .live) (hu : p ≠ .unregistered) :
    Phase.live.Hears (topics ++ [.shown]) := by
  rw [h.eq_nil hl hu]
  exact ⟨[], rfl, by simp⟩

/-- A live handler reports. -/
theorem report (h : Phase.live.Hears topics) (ht : t.isReport = true) :
    Phase.live.Hears (topics ++ [t]) := by
  obtain ⟨reports, rfl, hr⟩ := h
  refine ⟨reports ++ [t], rfl, ?_⟩
  intro u hu
  rcases List.mem_append.mp hu with hu | hu
  · exact hr u hu
  · rw [List.mem_singleton.mp hu]
    exact ht

/-- A live handler that ends is finished. -/
theorem finished (h : Phase.live.Hears topics) :
    Phase.unregistered.Hears (topics ++ [.finished]) := by
  obtain ⟨reports, rfl, hr⟩ := h
  exact .inr ⟨reports, rfl, hr⟩

end Phase.Hears

/-- A notice that says what its alert says and what the screen has reported. -/
structure Notice.Faithful (hd : Handler) (reported : Outcome → Prop) (n : Notice) : Prop where
  /-- It carries the cookie of the alert. -/
  cookie : n.cookie = hd.fields.cookie
  /-- A click is told only where the alert asks for it and the screen has reported one. -/
  clicked : n.topic = .clicked → hd.fields.textClickable = true ∧ reported (.activated none)
  /-- A button is told with its action as the screen has reported it. -/
  button : n.topic = .actionTaken → ∃ a, n.action = some a ∧ reported (.activated (some a))
  /-- Nothing else comes with an action. -/
  plain : n.topic ≠ .actionTaken → n.action = none

namespace Board

variable {b c : Board} {h : HandlerId} {topic : Topic} {action : Option String}
  {reported reported' : List (HandlerId × Outcome)}

/-- What the listener of a handler was told, oldest first. -/
def heard (b : Board) (h : HandlerId) : List Notice :=
  (b.told.filter (·.handler = h)).map (·.notice)

theorem heard_of_told (ht : c.told = b.told) (h : HandlerId) : c.heard h = b.heard h := by
  rw [heard, heard, ht]

/-- The board on which the listener of a handler is being told something. -/
def announce (b : Board) (h : HandlerId) (topic : Topic) (action : Option String) : Board :=
  match (b.handler h).listener with
  | none => b
  | some _ => { b with told := b.told ++ [⟨h, (b.handler h).notice topic action⟩] }

/-- Being told something is all that happens. -/
theorem announce_eq : b.announce h topic action =
    { b with told := (b.announce h topic action).told } := by
  unfold announce
  split <;> rfl

@[simp] theorem handlers_announce : (b.announce h topic action).handlers = b.handlers := by
  rw [announce_eq]

@[simp] theorem handler_announce (x : HandlerId) :
    (b.announce h topic action).handler x = b.handler x := by
  rw [announce_eq]
  rfl

theorem told_announce : (b.announce h topic action).told =
    b.told ++ if (b.handler h).listener = none then []
      else [⟨h, (b.handler h).notice topic action⟩] := by
  unfold announce
  split <;> rename_i hl <;> simp [hl]

theorem heard_announce (x : HandlerId) : (b.announce h topic action).heard x =
    b.heard x ++ if x = h ∧ (b.handler h).listener ≠ none then
      [(b.handler h).notice topic action] else [] := by
  rw [heard, told_announce, List.filter_append, List.map_append, heard]
  congr 1
  by_cases hl : (b.handler h).listener = none
  · simp [hl]
  · by_cases hx : x = h
    · simp [hl, hx]
    · simp [hl, hx, Ne.symm hx]

/-- Notices come in order and are faithful. -/
structure Notices (reported : List (HandlerId × Outcome)) (b : Board) : Prop where
  /-- A listener has heard what fits the phase of its handler. -/
  course : ∀ h, (b.handler h).listener ≠ none → (b.phase h).Hears ((b.heard h).map (·.topic))
  /-- Without a listener nobody is told. -/
  silent : ∀ h, (b.handler h).listener = none → b.heard h = []
  /-- What was told is faithful. -/
  faithful : ∀ h, ∀ n ∈ b.heard h, n.Faithful (b.handler h) fun o => (h, o) ∈ reported
  /-- What is kept for later was reported. -/
  kept : ∀ {h o}, (b.handler h).pending = some o → (h, o) ∈ reported

theorem Notice.Faithful.mono {hd hd' : Handler} {p q : Outcome → Prop} {n : Notice}
    (hn : n.Faithful hd p) (hf : hd'.fields = hd.fields) (hpq : ∀ o, p o → q o) :
    n.Faithful hd' q where
  cookie := by rw [hf]; exact hn.cookie
  clicked ht := by
    rw [hf]
    exact ⟨(hn.clicked ht).1, hpq _ (hn.clicked ht).2⟩
  button ht := by
    obtain ⟨a, ha, hr⟩ := hn.button ht
    exact ⟨a, ha, hpq _ hr⟩
  plain := hn.plain

/-- Notices stay in order while nobody is told anything: handlers may move on that are not live and
do not become so, and more may be reported. -/
theorem Notices.frame (hb : b.Notices reported) (ht : c.told = b.told)
    (hf : ∀ x, (c.handler x).fields = (b.handler x).fields)
    (hl : ∀ x, (c.handler x).listener = (b.handler x).listener)
    (hp : ∀ x, c.phase x = b.phase x ∨
      (b.phase x ≠ .live ∧ b.phase x ≠ .unregistered ∧ c.phase x ≠ .live))
    (ho : ∀ x o, (c.handler x).pending = some o →
      (b.handler x).pending = some o ∨ (x, o) ∈ reported')
    (hr : ∀ p ∈ reported, p ∈ reported') : c.Notices reported' := by
  have hheard := heard_of_told ht
  constructor
  · intro x hx
    rw [hl] at hx
    rw [hheard]
    have hold := hb.course x hx
    rcases hp x with he | ⟨h1, h2, h3⟩
    · rw [he]
      exact hold
    · rw [hold.eq_nil h1 h2]
      exact .nil h3
  · intro x hx
    rw [hl] at hx
    rw [hheard]
    exact hb.silent x hx
  · intro x n hn
    rw [hheard] at hn
    exact Notice.Faithful.mono (hb.faithful x n hn) (hf x) fun _ => hr _
  · intro x o hx
    rcases ho x o hx with hx | hx
    · exact hr _ (hb.kept hx)
    · exact hx

/-- Notices stay in order while handlers stay as they are. -/
theorem Notices.same (hb : b.Notices reported) (ht : c.told = b.told)
    (hh : c.handlers = b.handlers) (hr : ∀ p ∈ reported, p ∈ reported') : c.Notices reported' := by
  have hhandler : ∀ x, c.handler x = b.handler x := fun x => by rw [handler, handler, hh]
  refine hb.frame ht (fun x => by rw [hhandler]) (fun x => by rw [hhandler]) ?_ ?_ hr
  · intro x
    rw [phase, phase, hhandler]
    exact .inl rfl
  · intro x o hx
    rw [hhandler] at hx
    exact .inl hx

/-- What is on the screen does not matter for notices. -/
theorem Notices.sameButToasts (hb : b.Notices reported) (ha : b.SameButToasts c) :
    c.Notices reported :=
  hb.frame ha.told (fun x => (ha.handler x).fields) (fun x => (ha.handler x).listener)
    (fun x => .inl (ha.phase x)) (fun x _ hx => .inl ((ha.handler x).pending ▸ hx)) fun _ => id

/-- A notice that fits the phase to which its handler moves, and that is faithful. -/
theorem Notices.announce (hb : b.Notices reported) (ht : c.told = b.told)
    (hother : ∀ x ≠ h, (b.handler x).SameButToast (c.handler x))
    (hf : (c.handler h).fields = (b.handler h).fields)
    (hl : (c.handler h).listener = (b.handler h).listener)
    (ho : ∀ o, (c.handler h).pending = some o → (b.handler h).pending = some o)
    (hp : ∀ topics, (b.phase h).Hears topics → (c.phase h).Hears (topics ++ [topic]))
    (hn : ((c.handler h).notice topic action).Faithful (b.handler h) fun o => (h, o) ∈ reported) :
    (c.announce h topic action).Notices reported := by
  have hheard := heard_of_told ht
  have hfields : ∀ x, (c.handler x).fields = (b.handler x).fields := by
    intro x
    by_cases hx : x = h
    · rw [hx, hf]
    · exact (hother x hx).fields
  have hlistener : ∀ x, (c.handler x).listener = (b.handler x).listener := by
    intro x
    by_cases hx : x = h
    · rw [hx, hl]
    · exact (hother x hx).listener
  constructor
  · intro x hx
    rw [handler_announce, hlistener] at hx
    rw [heard_announce, hheard, List.map_append]
    have hold := hb.course x hx
    rw [Board.phase, handler_announce]
    by_cases he : x = h
    · subst he
      rw [if_pos ⟨rfl, by rw [hl]; exact hx⟩]
      exact hp _ hold
    · rw [if_neg (fun hc => he hc.1), (hother x he).phase, List.map_nil, List.append_nil]
      exact hold
  · intro x hx
    rw [handler_announce] at hx
    rw [heard_announce, hheard, hb.silent x (by rw [← hlistener]; exact hx), List.nil_append]
    rw [if_neg]
    rintro ⟨rfl, hc⟩
    exact hc hx
  · intro x n hm
    rw [heard_announce, hheard, List.mem_append] at hm
    rw [handler_announce]
    rcases hm with hm | hm
    · exact Notice.Faithful.mono (hb.faithful x n hm) (hfields x) fun _ => id
    · split at hm
      · rename_i hx
        obtain ⟨rfl, -⟩ := hx
        rw [List.mem_singleton.mp hm]
        exact Notice.Faithful.mono hn (hfields x) fun _ => id
      · cases hm
  · intro x o hx
    rw [handler_announce] at hx
    by_cases he : x = h
    · subst he
      exact hb.kept (ho o hx)
    · exact hb.kept ((hother x he).pending ▸ hx)

/-- A new handler has heard nothing. -/
theorem Notices.create (hb : b.Notices reported) {hd : Handler} (hp : hd.phase = .created)
    (ho : hd.pending = none) (ht : c.told = b.told) (hc : c.handlers = b.handlers ++ [hd]) :
    c.Notices reported := by
  have hheard := heard_of_told ht
  have hnew : ∀ x, c.handler x = if x = b.handlers.length then hd else b.handler x := by
    intro x
    rw [handler, hc, getD_concat]
    rfl
  have hnil : b.heard b.handlers.length = [] := by
    apply hb.silent
    rw [handler_of_le (Nat.le_refl _)]
    rfl
  constructor
  · intro x hx
    rw [hheard, Board.phase, hnew]
    rw [hnew] at hx
    split at hx <;> rename_i he
    · rw [if_pos he, he, hnil, hp]
      rfl
    · rw [if_neg he]
      exact hb.course x hx
  · intro x hx
    rw [hheard]
    rw [hnew] at hx
    split at hx <;> rename_i he
    · rw [he, hnil]
    · exact hb.silent x hx
  · intro x n hn
    rw [hheard] at hn
    by_cases he : x = b.handlers.length
    · rw [he, hnil] at hn
      cases hn
    · rw [hnew, if_neg he]
      exact hb.faithful x n hn
  · intro x o hx
    rw [hnew] at hx
    split at hx
    · rw [ho] at hx
      cases hx
    · exact hb.kept hx

end Board

end ToastBoard
