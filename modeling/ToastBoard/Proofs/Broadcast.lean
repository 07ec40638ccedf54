import ToastBoard.Signal.Program

/-!
# A signal is fired once

Main statement: in whatever order people and observers subscribe to a signal, fire it and ask about
it, the first fire runs those who were accepted before it, in the order of subscription, up to the
first one that panics, and no other fire runs anybody. A fire carries out the orders of whoever it
runs, and these may fire again: how an order is carried out is said by rules that put no bound on
how deep fires are nested, and the rules give what is computed.
-/

namespace ToastBoard

variable {ι : Type}

/-- An observer: its label, and the orders that it will carry out. -/
abbrev SignalObserver (ι : Type) := ι × List (SignalOrder ι)

/-- Something that happens around a signal. -/
inductive SignalEvent (ι : Type) where
  /-- Somebody gives an order. -/
  | given (order : SignalOrder ι)
  /-- An order is answered; without a reply a panic comes out of it. -/
  | answered (order : SignalOrder ι) (reply : Option SignalReply)
  /-- An observer starts. -/
  | started (observer : SignalObserver ι)
  /-- An observer has come to its end, or a panic has ended it. -/
  | ended (observer : SignalObserver ι) (returned : Bool)

namespace SignalEvent

/-- The observer that is accepted. -/
def accepted? : SignalEvent ι → Option (SignalObserver ι)
  | .answered (.subscribe id orders) (some (.truth true)) => some (id, orders)
  | _ => none

/-- The observer that starts. -/
def started? : SignalEvent ι → Option (SignalObserver ι)
  | .started observer => some observer
  | _ => none

/-- The observer that ends, and whether it came to its end. -/
def ended? : SignalEvent ι → Option (SignalObserver ι × Bool)
  | .ended observer returned => some (observer, returned)
  | _ => none

end SignalEvent

/-- What happens around a signal, in turn. -/
abbrev SignalTale (ι : Type) := List (SignalEvent ι)

namespace SignalTale

/-- The observers that are accepted. -/
def accepted (tale : SignalTale ι) : List (SignalObserver ι) :=
  tale.filterMap SignalEvent.accepted?

/-- The observers that start. -/
def started (tale : SignalTale ι) : List (SignalObserver ι) :=
  tale.filterMap SignalEvent.started?

/-- The observers that end, and whether they came to their end. -/
def ended (tale : SignalTale ι) : List (SignalObserver ι × Bool) :=
  tale.filterMap SignalEvent.ended?

/-- Whatever happens stands in some relation to what has happened before and happens after. -/
def Always (P : SignalTale ι → SignalEvent ι → SignalTale ι → Prop) (tale : SignalTale ι) : Prop :=
  ∀ before e after, tale = before ++ e :: after → P before e after

variable {P : SignalTale ι → SignalEvent ι → SignalTale ι → Prop} {tale tale' : SignalTale ι}
  {e : SignalEvent ι}

theorem always_nil : Always P ([] : SignalTale ι) := by
  intro before e after he
  cases before <;> cases he

theorem always_cons : Always P (e :: tale) ↔
    P [] e tale ∧ Always (fun before => P (e :: before)) tale := by
  constructor
  · intro h
    exact ⟨h [] e tale rfl, fun before x after he =>
      h (e :: before) x after (by rw [he]; rfl)⟩
  · rintro ⟨hfirst, hrest⟩ before x after he
    cases before with
    | nil =>
      cases he
      exact hfirst
    | cons y before =>
      cases he
      exact hrest before x after rfl

/-- What holds in two tales, each time with the other one around it, holds in both together. -/
theorem always_append : Always P (tale ++ tale') ↔
    Always (fun before x after => P before x (after ++ tale')) tale ∧
      Always (fun before => P (tale ++ before)) tale' := by
  induction tale generalizing P with
  | nil => exact ⟨fun h => ⟨always_nil, h⟩, And.right⟩
  | cons e tale ih =>
    rw [List.cons_append, always_cons, ih, always_cons, and_assoc]
    rfl

end SignalTale

/-- What an order is answered by a signal that has fired. -/
def SignalOrder.spent : SignalOrder ι → Option SignalReply
  | .subscribe .. => some (.truth false)
  | .fire => some (.count 0)
  | .isFired => some (.truth true)
  | .panic => none
  | .unknown => some .unknown

namespace SignalTale

/-- What two tales accepted is accepted in both together. -/
theorem accepted_append (tale tale' : SignalTale ι) :
    (tale ++ tale').accepted = tale.accepted ++ tale'.accepted := List.filterMap_append

/-- What two tales started is started in both together. -/
theorem started_append (tale tale' : SignalTale ι) :
    (tale ++ tale').started = tale.started ++ tale'.started := List.filterMap_append

/-- What two tales ended is ended in both together. -/
theorem ended_append (tale tale' : SignalTale ι) :
    (tale ++ tale').ended = tale.ended ++ tale'.ended := List.filterMap_append

/-- What happens around a signal that has fired: each order is answered at once. -/
inductive Spent : SignalTale ι → Prop where
  /-- Nothing happens. -/
  | nil : Spent []
  /-- Somebody gives an order. -/
  | order (order : SignalOrder ι) {tale : SignalTale ι} (rest : Spent tale) :
    Spent (.given order :: .answered order order.spent :: tale)
  /-- An observer starts. -/
  | started (observer : SignalObserver ι) {tale : SignalTale ι} (rest : Spent tale) :
    Spent (.started observer :: tale)
  /-- An observer ends. -/
  | ended (observer : SignalObserver ι) (returned : Bool) {tale : SignalTale ι}
    (rest : Spent tale) : Spent (.ended observer returned :: tale)

variable {P : SignalTale ι → SignalEvent ι → SignalTale ι → Prop} {tale tale' : SignalTale ι}
  {e : SignalEvent ι}

/-- Tales of spent signals make a tale of a spent signal. -/
theorem Spent.append (h : tale.Spent) (h' : tale'.Spent) : (tale ++ tale').Spent := by
  induction h with
  | nil => exact h'
  | order o _ ih => exact .order o ih
  | started x _ ih => exact .started x ih
  | ended x returned _ ih => exact .ended x returned ih

/-- A signal that has fired accepts nobody. -/
theorem Spent.accepted (h : tale.Spent) : tale.accepted = [] := by
  induction h with
  | nil => rfl
  | order o _ ih => cases o <;> exact ih
  | started _ _ ih => exact ih
  | ended _ _ _ ih => exact ih

/-- How observers have run: all of them came to their end, or one panicked and those after it did
not start. -/
structure Aired (tale : SignalTale ι) (observers : List (SignalObserver ι)) (returned : Bool) :
    Prop where
  /-- All came to their end, in order. -/
  all : returned = true → tale.started = observers ∧ tale.ended = observers.map (·, true)
  /-- Those before the one that panicked came to their end, in order. -/
  some : returned = false → ∃ k observer, observers[k]? = some observer ∧
    tale.started = observers.take (k + 1) ∧
    tale.ended = (observers.take k).map (·, true) ++ [(observer, false)]

/-- What is answered, by what has happened before. -/
structure Answers (before : SignalTale ι) (e : SignalEvent ι) (after : SignalTale ι) : Prop where
  /-- Whoever subscribes is accepted exactly if no fire was ordered before. -/
  subscribed : ∀ {id orders reply}, e = .answered (.subscribe id orders) reply →
    ∃ b, reply = some (.truth b) ∧ (b = true ↔ .given .fire ∉ before)
  /-- The signal has fired exactly if a fire was ordered before. -/
  asked : ∀ {reply}, e = .answered .isFired reply →
    ∃ b, reply = some (.truth b) ∧ (b = true ↔ .given .fire ∈ before)
  /-- A fire after another one is answered at once and has run nobody. -/
  again : e = .given .fire → .given .fire ∈ before →
    ∃ rest, after = .answered .fire (some (.count 0)) :: rest

/-- What happens around a signal that is fired once. -/
structure OneShot (tale : SignalTale ι) : Prop where
  /-- Each answer is right. -/
  answers : tale.Always Answers
  /-- Without a fire nobody starts. -/
  unfired : .given .fire ∉ tale → tale.started = []
  /-- The first fire runs those who were accepted before, and nobody else ever starts. It is
  answered their number, unless one of them panics; then a panic comes out of it. -/
  broadcast : tale.Always fun before e after => e = .given .fire → .given .fire ∉ before →
    ∃ (during : SignalTale ι) (returned : Bool) (later : SignalTale ι), after = during ++
        .answered .fire (if returned then some (.count before.accepted.length) else none) :: later ∧
      during.Aired before.accepted returned ∧ before.started = [] ∧ later.started = [] ∧
      during.accepted = [] ∧ later.accepted = []
  /-- An observer comes to its end unless it is told to panic. -/
  panics : ∀ {observer returned}, (observer, returned) ∈ tale.ended →
    (returned = true ↔ .panic ∉ observer.2)

end SignalTale

namespace SignalTale

variable {P Q : SignalTale ι → SignalEvent ι → SignalTale ι → Prop} {tale : SignalTale ι}

/-- What holds of every entry holds in the tale. -/
theorem always_of_mem (h : ∀ before e after, e ∈ tale → P before e after) : tale.Always P := by
  intro before e after he
  exact h before e after (by simp [he])

/-- What follows from what holds in a tale holds in it. -/
theorem Always.mono (hP : tale.Always P) (h : ∀ before e after, P before e after →
    Q before e after) : tale.Always Q :=
  fun before e after he => h before e after (hP before e after he)

/-- Once the signal has fired, each answer is right. -/
theorem Spent.answers (hs : tale.Spent) {past : SignalTale ι} (hp : .given .fire ∈ past)
    (later : SignalTale ι) :
    tale.Always fun before e after => Answers (past ++ before) e (after ++ later) := by
  induction hs generalizing past with
  | nil => exact always_nil
  | @order order tale _ ih =>
    have hp' : SignalEvent.given .fire ∈ past ++ [.given order] := List.mem_append_left _ hp
    refine always_cons.mpr ⟨⟨nofun, nofun, ?_⟩, always_cons.mpr ⟨⟨?_, ?_, nofun⟩, ?_⟩⟩
    · intro he _
      cases he
      exact ⟨_, rfl⟩
    · intro id orders reply he
      cases he
      exact ⟨false, rfl, by simp [hp]⟩
    · intro reply he
      cases he
      exact ⟨true, rfl, by simp [hp]⟩
    · have hrest := ih (List.mem_append_left [.given order, .answered order order.spent] hp)
      refine hrest.mono fun before e after h => ?_
      rwa [List.append_assoc] at h
  | started x _ ih =>
    refine always_cons.mpr ⟨⟨nofun, nofun, nofun⟩, ?_⟩
    refine (ih (List.mem_append_left [.started x] hp)).mono
      fun before e after h => ?_
    rwa [List.append_assoc] at h
  | ended x returned _ ih =>
    refine always_cons.mpr ⟨⟨nofun, nofun, nofun⟩, ?_⟩
    refine (ih (List.mem_append_left [.ended x returned] hp)).mono
      fun before e after h => ?_
    rwa [List.append_assoc] at h

end SignalTale

namespace SignalRun

mutual

/-- How an order is carried out: what happens meanwhile, what it is answered and what it leaves. A
fire runs those who observe the signal. -/
inductive Performs : SignalRun ι → SignalOrder ι → SignalTale ι → Option SignalReply →
    SignalRun ι → Prop where
  /-- An observer subscribes. -/
  | subscribe (r : SignalRun ι) (id : ι) (orders : List (SignalOrder ι)) :
    Performs r (.subscribe id orders) [] (some (.truth (r.signal.subscribe (id, orders)).1))
      { r with signal := (r.signal.subscribe (id, orders)).2 }
  /-- The signal fires. -/
  | fire {r r' : SignalRun ι} {tale : SignalTale ι} {returned : Bool}
    (runs : RunsAll { r with signal := r.signal.fire.2 } r.signal.fire.1 tale returned r') :
    Performs r .fire tale (if returned then some (.count r.signal.fire.1.length) else none) r'
  /-- Somebody asks whether it has fired. -/
  | isFired (r : SignalRun ι) : Performs r .isFired [] (some (.truth r.signal.fired)) r
  /-- Somebody panics. -/
  | panic (r : SignalRun ι) : Performs r .panic [] none r
  /-- Something that is no order. -/
  | unknown (r : SignalRun ι) : Performs r .unknown [] (some .unknown) r

/-- How an observer carries out its orders, up to its end or to a panic. -/
inductive Observes : SignalRun ι → ι → List (SignalOrder ι) → SignalTale ι → Bool →
    SignalRun ι → Prop where
  /-- There is no order left. -/
  | finished (r : SignalRun ι) (id : ι) : Observes r id [] [] true r
  /-- An order panics. -/
  | panics {r r' : SignalRun ι} {id : ι} {order : SignalOrder ι} {orders : List (SignalOrder ι)}
    {tale : SignalTale ι} (performs : Performs r order tale none r') :
    Observes r id (order :: orders) (.given order :: (tale ++ [.answered order none])) false r'
  /-- An order is answered, and the observer goes on. -/
  | goesOn {r r' r'' : SignalRun ι} {id : ι} {order : SignalOrder ι}
    {orders : List (SignalOrder ι)} {tale rest : SignalTale ι} {reply : SignalReply}
    {returned : Bool} (performs : Performs r order tale (some reply) r')
    (observes : Observes (r'.record (.replied id reply)) id orders rest returned r'') :
    Observes r id (order :: orders)
      (.given order :: (tale ++ .answered order (some reply) :: rest)) returned r''

/-- How observers run one after the other, up to the last one or to one that panics. -/
inductive RunsAll : SignalRun ι → List (SignalObserver ι) → SignalTale ι → Bool →
    SignalRun ι → Prop where
  /-- There is nobody left. -/
  | finished (r : SignalRun ι) : RunsAll r [] [] true r
  /-- An observer panics. -/
  | panics {r r' : SignalRun ι} {id : ι} {orders : List (SignalOrder ι)}
    {others : List (SignalObserver ι)} {tale : SignalTale ι}
    (observes : Observes (r.record (.started id)) id orders tale false r') :
    RunsAll r ((id, orders) :: others)
      (.started (id, orders) :: (tale ++ [.ended (id, orders) false])) false r'
  /-- An observer comes to its end, and the others run. -/
  | goesOn {r r' r'' : SignalRun ι} {id : ι} {orders : List (SignalOrder ι)}
    {others : List (SignalObserver ι)} {tale rest : SignalTale ι} {returned : Bool}
    (observes : Observes (r.record (.started id)) id orders tale true r')
    (runs : RunsAll r' others rest returned r'') :
    RunsAll r ((id, orders) :: others)
      (.started (id, orders) :: (tale ++ .ended (id, orders) true :: rest)) returned r''

end

/-- How a program is carried out: one order after the other, whatever came of those before. -/
inductive Carries : SignalRun ι → List (SignalOrder ι) → SignalTale ι → List (Option SignalReply) →
    SignalRun ι → Prop where
  /-- There is no order left. -/
  | finished (r : SignalRun ι) : Carries r [] [] [] r
  /-- An order is answered, or a panic comes out of it, and the program goes on. -/
  | goesOn {r r' r'' : SignalRun ι} {order : SignalOrder ι} {orders : List (SignalOrder ι)}
    {tale rest : SignalTale ι} {reply : Option SignalReply} {replies : List (Option SignalReply)}
    (performs : Performs r order tale reply r') (carries : Carries r' orders rest replies r'') :
    Carries r (order :: orders) (.given order :: (tale ++ .answered order reply :: rest))
      (reply :: replies) r''

/-- The labels of those who have started, as the log has them. -/
def starters (r : SignalRun ι) : List ι :=
  r.log.filterMap fun
    | .started id => some id
    | .replied .. => none

/-- Carries out the orders of a program, each whatever came of those before. -/
def performAll : List (SignalOrder ι) → SignalRun ι → List (Option SignalReply) × SignalRun ι
  | [], r => ([], r)
  | order :: orders, r =>
    let (reply, r) := perform order r
    let (replies, r) := performAll orders r
    (reply :: replies, r)

variable {r r' : SignalRun ι} {order : SignalOrder ι} {orders : List (SignalOrder ι)} {id : ι}
  {tale : SignalTale ι} {returned : Bool} {reply : Option SignalReply} {n : Nat}
  {observers : List (SignalObserver ι)}

/-- A signal that has fired stays as it is, and nothing happens but the answer. -/
theorem performs_of_fired (hf : r.signal.fired = true) (hp : r.Performs order tale reply r') :
    tale = [] ∧ reply = order.spent ∧ r' = r := by
  cases hp with
  | subscribe id orders =>
    rw [Signal.subscribe_of_fired hf]
    exact ⟨rfl, rfl, rfl⟩
  | fire runs =>
    rw [Signal.fire_of_fired hf] at runs ⊢
    cases runs
    exact ⟨rfl, rfl, rfl⟩
  | isFired =>
    rw [hf]
    exact ⟨rfl, rfl, rfl⟩
  | panic => exact ⟨rfl, rfl, rfl⟩
  | unknown => exact ⟨rfl, rfl, rfl⟩

/-- However deep fires may be nested, a signal that has fired has nobody to run. -/
theorem performWithin_of_fired (hf : r.signal.fired = true) (n : Nat) (order : SignalOrder ι) :
    performWithin n order r = (order.spent, r) := by
  cases order with
  | subscribe id orders =>
    simp only [performWithin, Signal.subscribe_of_fired hf]
    rfl
  | fire => cases n <;> simp [performWithin, Signal.fire_of_fired hf, observeAll, SignalOrder.spent]
  | isFired =>
    simp only [performWithin, hf]
    rfl
  | panic => simp only [performWithin, SignalOrder.spent]
  | unknown => simp only [performWithin, SignalOrder.spent]

/-- Only a panic is not answered when the signal is spent. -/
theorem spent_eq_none : order.spent = none ↔ order = .panic := by
  cases order <;> simp [SignalOrder.spent]

/-- What an observer does once the signal has fired. -/
theorem observes_of_fired (hf : r.signal.fired = true)
    (ho : r.Observes id orders tale returned r') :
    tale.Spent ∧ tale.started = [] ∧ tale.ended = [] ∧ r'.signal = r.signal ∧
      (returned = true ↔ .panic ∉ orders) ∧
      observe (performWithin n) id orders r = (returned, r') := by
  induction orders generalizing r tale with
  | nil =>
    cases ho
    exact ⟨.nil, rfl, rfl, rfl, by simp, rfl⟩
  | cons order orders ih =>
    cases ho with
    | panics performs =>
      obtain ⟨rfl, hreply, rfl⟩ := performs_of_fired hf performs
      have hpanic := spent_eq_none.mp hreply.symm
      subst hpanic
      refine ⟨.order .panic .nil, rfl, rfl, rfl, by simp, ?_⟩
      rw [observe, performWithin_of_fired hf]
      rfl
    | @goesOn _ r₁ _ _ _ _ _ rest reply _ performs observes =>
      obtain ⟨rfl, hreply, rfl⟩ := performs_of_fired hf performs
      obtain ⟨hspent, hstarted, hended, hsignal, hreturned, hcomputed⟩ :=
        ih (r := r₁.record (.replied id reply)) hf observes
      have hgoes : order ≠ .panic := fun hp => by
        rw [hp] at hreply
        cases hreply
      refine ⟨?_, hstarted, hended, hsignal, ?_, ?_⟩
      · rw [hreply]
        exact .order order hspent
      · rw [hreturned, List.mem_cons, not_or]
        exact (and_iff_right hgoes.symm).symm
      · rw [observe, performWithin_of_fired hf, ← hreply]
        exact hcomputed

/-- An observer can carry out its orders. -/
theorem exists_observes (hf : r.signal.fired = true) (id : ι) (orders : List (SignalOrder ι)) :
    ∃ tale returned r', r.Observes id orders tale returned r' := by
  induction orders generalizing r with
  | nil => exact ⟨[], true, r, .finished r id⟩
  | cons order orders ih =>
    have hperforms : ∃ tale, r.Performs order tale order.spent r := by
      cases order with
      | subscribe id orders =>
        have := Performs.subscribe r id orders
        rw [Signal.subscribe_of_fired hf] at this
        exact ⟨_, this⟩
      | fire =>
        have hnobody : RunsAll { r with signal := r.signal.fire.2 } r.signal.fire.1 [] true r := by
          rw [Signal.fire_of_fired hf]
          exact .finished r
        have := Performs.fire hnobody
        rw [Signal.fire_of_fired hf] at this
        exact ⟨_, this⟩
      | isFired =>
        have := Performs.isFired r
        rw [hf] at this
        exact ⟨_, this⟩
      | panic => exact ⟨_, .panic r⟩
      | unknown => exact ⟨_, .unknown r⟩
    obtain ⟨tale, hp⟩ := hperforms
    cases hs : order.spent with
    | none =>
      rw [hs] at hp
      exact ⟨_, _, _, .panics hp⟩
    | some reply =>
      rw [hs] at hp
      obtain ⟨rest, returned, r', ho⟩ := ih (r := r.record (.replied id reply)) hf
      exact ⟨_, _, _, .goesOn hp ho⟩

/-- How observers run once the signal has fired. -/
theorem runsAll_of_fired (hf : r.signal.fired = true)
    (hr : r.RunsAll observers tale returned r') :
    tale.Spent ∧ tale.Aired observers returned ∧ r'.signal = r.signal ∧
      (∀ {observer b}, (observer, b) ∈ tale.ended → (b = true ↔ .panic ∉ observer.2)) ∧
      observeAll (performWithin n) observers r = (returned, r') := by
  induction observers generalizing r tale with
  | nil =>
    cases hr
    exact ⟨.nil, ⟨fun _ => ⟨rfl, rfl⟩, Bool.noConfusion⟩, rfl, fun hm => (by cases hm), rfl⟩
  | cons observer others ih =>
    obtain ⟨id, orders⟩ := observer
    cases hr with
    | @panics _ _ _ _ _ tale observes =>
      obtain ⟨hspent, hstarted, hended, hsignal, hreturned, hcomputed⟩ :=
        observes_of_fired (r := r.record (.started id)) (n := n) hf observes
      have hends : SignalTale.ended (.started (id, orders) ::
          (tale ++ [.ended (id, orders) false])) = [((id, orders), false)] := by
        change SignalTale.ended (tale ++ [.ended (id, orders) false]) = _
        rw [SignalTale.ended_append, hended]
        rfl
      refine ⟨.started _ (hspent.append (.ended _ _ .nil)), ⟨Bool.noConfusion, fun _ =>
        ⟨0, (id, orders), rfl, ?_, hends⟩⟩, hsignal, fun hm => ?_, ?_⟩
      · change (id, orders) :: SignalTale.started (tale ++ [.ended (id, orders) false]) = _
        rw [SignalTale.started_append, hstarted]
        rfl
      · rw [hends] at hm
        cases List.mem_singleton.mp hm
        exact hreturned
      · rw [observeAll, hcomputed]
    | @goesOn _ r₁ _ _ _ _ tale rest _ observes runs =>
      obtain ⟨hspent, hstarted, hended, hsignal, hreturned, hcomputed⟩ :=
        observes_of_fired (r := r.record (.started id)) (n := n) hf observes
      have hf₁ : r₁.signal.fired = true := by
        rw [hsignal]
        exact hf
      obtain ⟨hspents, haired, hsignals, hpanics, hcomputeds⟩ := ih hf₁ runs
      have hstarts : SignalTale.started (.started (id, orders) ::
          (tale ++ .ended (id, orders) true :: rest)) = (id, orders) :: rest.started := by
        change (id, orders) :: SignalTale.started (tale ++ .ended (id, orders) true :: rest) = _
        rw [SignalTale.started_append, hstarted]
        rfl
      have hends : SignalTale.ended (.started (id, orders) ::
          (tale ++ .ended (id, orders) true :: rest)) = ((id, orders), true) :: rest.ended := by
        change SignalTale.ended (tale ++ .ended (id, orders) true :: rest) = _
        rw [SignalTale.ended_append, hended]
        rfl
      refine ⟨.started _ (hspent.append (.ended _ _ hspents)), ⟨fun hall => ?_, fun hsome => ?_⟩,
        hsignals.trans hsignal, fun hm => ?_, ?_⟩
      · rw [hstarts, hends, (haired.all hall).1, (haired.all hall).2]
        exact ⟨rfl, rfl⟩
      · obtain ⟨k, x, hx, hs, he⟩ := haired.some hsome
        exact ⟨k + 1, x, hx, by rw [hstarts, hs]; rfl, by rw [hends, he]; rfl⟩
      · rw [hends] at hm
        rcases List.mem_cons.mp hm with he | hm
        · cases he
          exact hreturned
        · exact hpanics hm
      · rw [observeAll, hcomputed]
        exact hcomputeds

/-- An observer that starts is a starter. -/
theorem starters_started (r : SignalRun ι) (id : ι) :
    (r.record (.started id)).starters = r.starters ++ [id] := List.filterMap_append

/-- A reply starts nobody. -/
theorem starters_replied (r : SignalRun ι) (id : ι) (reply : SignalReply) :
    (r.record (.replied id reply)).starters = r.starters :=
  List.filterMap_append.trans (List.append_nil _)

/-- Nobody starts while an observer runs. -/
theorem Observes.starters (hf : r.signal.fired = true)
    (ho : r.Observes id orders tale returned r') :
    r'.starters = r.starters := by
  induction orders generalizing r tale with
  | nil =>
    cases ho
    rfl
  | cons order orders ih =>
    cases ho with
    | panics performs =>
      obtain ⟨-, -, rfl⟩ := performs_of_fired hf performs
      rfl
    | @goesOn _ r₁ _ _ _ _ _ rest reply _ performs observes =>
      obtain ⟨-, -, rfl⟩ := performs_of_fired hf performs
      rw [ih (r := r₁.record (.replied id reply)) hf observes, starters_replied]

/-- The log has those who start while observers run. -/
theorem RunsAll.starters (hf : r.signal.fired = true)
    (hr : r.RunsAll observers tale returned r') :
    r'.starters = r.starters ++ tale.started.map Prod.fst := by
  induction observers generalizing r tale with
  | nil =>
    cases hr
    exact (List.append_nil _).symm
  | cons observer others ih =>
    obtain ⟨id, orders⟩ := observer
    cases hr with
    | @panics _ _ _ _ _ tale observes =>
      obtain ⟨-, hstarted, -⟩ :=
        observes_of_fired (r := r.record (.started id)) (n := 0) hf observes
      rw [Observes.starters (r := r.record (.started id)) hf observes, starters_started]
      change _ = _ ++ id :: (SignalTale.started (tale ++ [.ended (id, orders) false])).map Prod.fst
      rw [SignalTale.started_append, hstarted]
      rfl
    | @goesOn _ r₁ _ _ _ _ tale rest _ observes runs =>
      obtain ⟨-, hstarted, -, hsignal, -⟩ :=
        observes_of_fired (r := r.record (.started id)) (n := 0) hf observes
      have hf₁ : r₁.signal.fired = true := by
        rw [hsignal]
        exact hf
      rw [ih hf₁ runs, Observes.starters (r := r.record (.started id)) hf observes,
        starters_started, List.append_assoc]
      change _ = _ ++ id :: (SignalTale.started (tale ++ .ended (id, orders) true :: rest)).map
        Prod.fst
      rw [SignalTale.started_append, hstarted]
      rfl

/-- Observers can run. -/
theorem exists_runsAll (hf : r.signal.fired = true) (observers : List (SignalObserver ι)) :
    ∃ tale returned r', r.RunsAll observers tale returned r' := by
  induction observers generalizing r with
  | nil => exact ⟨[], true, r, .finished r⟩
  | cons observer others ih =>
    obtain ⟨id, orders⟩ := observer
    obtain ⟨tale, returned, r₁, ho⟩ := exists_observes (r := r.record (.started id)) hf id orders
    cases returned with
    | false => exact ⟨_, _, _, .panics ho⟩
    | true =>
      obtain ⟨-, -, -, hsignal, -⟩ :=
        observes_of_fired (r := r.record (.started id)) (n := 0) hf ho
      have hf₁ : r₁.signal.fired = true := by
        rw [hsignal]
        exact hf
      obtain ⟨rest, returned, r', hr⟩ := ih hf₁
      exact ⟨_, _, _, .goesOn ho hr⟩

/-- The rules give what is computed. -/
theorem perform_of_performs (hp : r.Performs order tale reply r') :
    perform order r = (reply, r') := by
  cases hp with
  | subscribe id orders => rfl
  | @fire _ _ _ returned runs =>
    obtain ⟨-, -, -, -, hcomputed⟩ := runsAll_of_fired (n := 0) (Signal.fired_fire r.signal) runs
    rw [perform, performWithin]
    simp only [hcomputed]
    cases returned <;> rfl
  | isFired => rfl
  | panic => rfl
  | unknown => rfl

/-- Every order can be carried out. -/
theorem exists_performs (r : SignalRun ι) (order : SignalOrder ι) :
    ∃ tale, r.Performs order tale (perform order r).1 (perform order r).2 := by
  have hperforms : ∃ tale reply r', r.Performs order tale reply r' := by
    cases order with
    | subscribe id orders => exact ⟨_, _, _, .subscribe r id orders⟩
    | fire =>
      obtain ⟨tale, returned, r', hr⟩ := exists_runsAll
        (r := { r with signal := r.signal.fire.2 }) (Signal.fired_fire r.signal) r.signal.fire.1
      exact ⟨_, _, _, .fire hr⟩
    | isFired => exact ⟨_, _, _, .isFired r⟩
    | panic => exact ⟨_, _, _, .panic r⟩
    | unknown => exact ⟨_, _, _, .unknown r⟩
  obtain ⟨tale, reply, r', hp⟩ := hperforms
  rw [perform_of_performs hp]
  exact ⟨tale, hp⟩

/-- The log has those who start while an order is carried out. -/
theorem Performs.starters (hp : r.Performs order tale reply r') :
    r'.starters = r.starters ++ tale.started.map Prod.fst := by
  cases hp with
  | fire runs =>
    exact RunsAll.starters (r := { r with signal := r.signal.fire.2 }) (Signal.fired_fire r.signal)
      runs
  | subscribe | isFired | panic | unknown => exact (List.append_nil _).symm

/-- What has happened around a signal that has not fired. -/
structure Early (r : SignalRun ι) (past : SignalTale ι) : Prop where
  /-- The signal has not fired. -/
  unfired : r.signal.fired = false
  /-- No fire was ordered. -/
  unordered : .given .fire ∉ past
  /-- Those who were accepted observe the signal. -/
  observers : past.accepted = r.signal.observers
  /-- Nobody has started. -/
  started : past.started = []
  /-- Nobody has ended. -/
  ended : past.ended = []
  /-- Each answer was right. -/
  answers : past.Always fun before e after => ∀ later, SignalTale.Answers before e (after ++ later)

namespace Early

variable {past during later : SignalTale ι}

/-- A run starts early. -/
theorem start : Early ({} : SignalRun ι) [] :=
  ⟨rfl, List.not_mem_nil, rfl, rfl, rfl, SignalTale.always_nil⟩

/-- An order that is no fire is answered. -/
theorem ordered (hr : r.Early past) (hfire : order ≠ .fire) (hf : r'.signal.fired = false)
    (ho : r'.signal.observers =
      r.signal.observers ++ SignalTale.accepted [.answered order reply])
    (hs : ∀ id orders, order = .subscribe id orders → reply = some (.truth true))
    (ha : order = .isFired → reply = some (.truth false)) :
    r'.Early (past ++ [.given order, .answered order reply]) where
  unfired := hf
  unordered := by simpa [hr.unordered] using fun h => hfire h.symm
  observers := by
    rw [SignalTale.accepted_append, hr.observers, ho]
    rfl
  started := by
    rw [SignalTale.started_append, hr.started]
    rfl
  ended := by
    rw [SignalTale.ended_append, hr.ended]
    rfl
  answers := by
    have hun : SignalEvent.given .fire ∉ past ++ [.given order] := by
      simpa [hr.unordered] using fun h => hfire h.symm
    refine SignalTale.always_append.mpr ⟨hr.answers.mono fun before e after h later => ?_,
      SignalTale.always_cons.mpr ⟨fun later => ⟨nofun, nofun, fun he => ?_⟩,
        SignalTale.always_cons.mpr ⟨fun later => ⟨?_, ?_, nofun⟩, SignalTale.always_nil⟩⟩⟩
    · rw [List.append_assoc]
      exact h _
    · cases he
      exact absurd rfl hfire
    · rintro id orders _ ⟨⟩
      exact ⟨true, hs id orders rfl, iff_of_true rfl hun⟩
    · rintro _ ⟨⟩
      exact ⟨false, ha rfl, iff_of_false Bool.noConfusion hun⟩

/-- An order that does not fire is answered early, and nothing is told. -/
theorem answered (hr : r.Early past) (hfire : order ≠ .fire) (hp : r.Performs order tale reply r') :
    tale = [] ∧ r'.Early (past ++ [.given order, .answered order reply]) := by
  cases hp with
  | subscribe _ id orders =>
    have hsub : r.signal.subscribe (id, orders) =
        (true, { r.signal with observers := r.signal.observers ++ [(id, orders)] }) :=
      if_neg (by rw [hr.unfired]; exact Bool.noConfusion)
    rw [hsub]
    exact ⟨rfl, hr.ordered hfire hr.unfired rfl (fun _ _ _ => rfl) nofun⟩
  | fire runs => exact absurd rfl hfire
  | isFired =>
    rw [hr.unfired]
    exact ⟨rfl, hr.ordered hfire hr.unfired (List.append_nil _).symm nofun fun _ => rfl⟩
  | panic => exact ⟨rfl, hr.ordered hfire hr.unfired (List.append_nil _).symm nofun nofun⟩
  | unknown => exact ⟨rfl, hr.ordered hfire hr.unfired (List.append_nil _).symm nofun nofun⟩

/-- What has happened without a fire. -/
theorem oneShot (hr : r.Early past) : past.OneShot where
  answers := hr.answers.mono fun before e after h => by simpa using h []
  unfired _ := hr.started
  broadcast := SignalTale.always_of_mem fun before e after hm he => by
    rw [he] at hm
    exact absurd hm hr.unordered
  panics hm := by
    rw [hr.ended] at hm
    cases hm

/-- The signal fires. -/
theorem fires (hr : r.Early past) (hspent : during.Spent)
    (haired : during.Aired r.signal.observers returned)
    (hpanics : ∀ {observer b}, (observer, b) ∈ during.ended → (b = true ↔ .panic ∉ observer.2))
    (hlater : later.Spent) (hstarted : later.started = []) (hended : later.ended = []) :
    SignalTale.OneShot (past ++ .given .fire :: (during ++ .answered .fire
      (if returned then some (.count r.signal.observers.length) else none) :: later)) := by
  generalize hreply : (if returned then some (SignalReply.count r.signal.observers.length)
    else none) = reply
  have hfired : SignalEvent.given .fire ∈ past ++ [SignalEvent.given (ι := ι) .fire] :=
    List.mem_append_right _ List.mem_cons_self
  refine ⟨?_, fun hno => ?_, ?_, fun hm => ?_⟩
  · refine SignalTale.always_append.mpr ⟨hr.answers.mono fun before e after h => h _,
      SignalTale.always_cons.mpr ⟨⟨nofun, nofun, fun _ hm => ?_⟩,
        SignalTale.always_append.mpr ⟨?_, SignalTale.always_cons.mpr ⟨⟨nofun, nofun, nofun⟩, ?_⟩⟩⟩⟩
    · rw [List.append_nil] at hm
      exact absurd hm hr.unordered
    · refine SignalTale.Always.mono
        (hspent.answers hfired (.answered .fire reply :: later)) fun before e after h => ?_
      rwa [List.append_assoc] at h
    · have hgiven : .given .fire ∈ past ++ .given .fire :: (during ++ [.answered .fire reply]) :=
        List.mem_append_right _ List.mem_cons_self
      refine (hlater.answers hgiven []).mono fun before e after h => ?_
      simpa using h
  · exact absurd (List.mem_append_right _ List.mem_cons_self) hno
  · refine SignalTale.always_append.mpr ⟨SignalTale.always_of_mem fun before e after hm he => ?_,
      SignalTale.always_cons.mpr ⟨fun _ _ => ?_,
        SignalTale.always_of_mem fun before e after _ _ hno => ?_⟩⟩
    · rw [he] at hm
      exact absurd hm hr.unordered
    · rw [List.append_nil, hr.observers]
      exact ⟨during, returned, later, by rw [hreply], haired, hr.started, hstarted,
        hspent.accepted, hlater.accepted⟩
    · exact absurd (List.mem_append_right _ List.mem_cons_self) hno
  · have hends : SignalTale.ended (past ++ .given .fire ::
        (during ++ .answered .fire reply :: later)) = during.ended := by
      rw [SignalTale.ended_append, hr.ended]
      change SignalTale.ended (during ++ .answered .fire reply :: later) = _
      rw [SignalTale.ended_append]
      change during.ended ++ later.ended = _
      rw [hended, List.append_nil]
    rw [hends] at hm
    exact hpanics hm

end Early

/-- What a program does once the signal has fired. -/
theorem carries_of_fired {replies : List (Option SignalReply)} (hf : r.signal.fired = true)
    (hc : r.Carries orders tale replies r') :
    tale.Spent ∧ tale.started = [] ∧ tale.ended = [] ∧ r' = r := by
  induction orders generalizing tale replies with
  | nil =>
    cases hc
    exact ⟨.nil, rfl, rfl, rfl⟩
  | cons order orders ih =>
    cases hc with
    | goesOn performs carries =>
      obtain ⟨rfl, rfl, rfl⟩ := performs_of_fired hf performs
      obtain ⟨hspent, hstarted, hended, hsame⟩ := ih carries
      exact ⟨.order order hspent, hstarted, hended, hsame⟩

/-- A program fires the signal once. -/
theorem Carries.oneShot {past : SignalTale ι} {replies : List (Option SignalReply)}
    (hr : r.Early past) (hc : r.Carries orders tale replies r') :
    SignalTale.OneShot (past ++ tale) ∧
      (r'.signal.fired = true ↔ .given .fire ∈ past ++ tale) := by
  induction orders generalizing r past tale replies with
  | nil =>
    cases hc
    rw [List.append_nil]
    exact ⟨hr.oneShot, iff_of_false (by rw [hr.unfired]; exact Bool.noConfusion) hr.unordered⟩
  | cons order orders ih =>
    cases hc with
    | @goesOn _ r₁ _ _ _ _ rest reply _ performs carries =>
      by_cases hfire : order = .fire
      · subst hfire
        cases performs with
        | fire runs =>
          have hfirst : r.signal.fire.1 = r.signal.observers := by
            rw [Signal.fire, if_neg (by rw [hr.unfired]; exact Bool.noConfusion)]
          have hf : r.signal.fire.2.fired = true := Signal.fired_fire r.signal
          rw [hfirst] at runs ⊢
          obtain ⟨hspent, haired, hsignal, hpanics, -⟩ := runsAll_of_fired (n := 0) hf runs
          have hf₁ : r₁.signal.fired = true := by rw [hsignal, hf]
          obtain ⟨hlater, hstarted, hended, rfl⟩ := carries_of_fired hf₁ carries
          exact ⟨hr.fires hspent haired hpanics hlater hstarted hended,
            iff_of_true hf₁ (List.mem_append_right _ List.mem_cons_self)⟩
      · obtain ⟨rfl, hearly⟩ := hr.answered hfire performs
        have hrest := ih hearly carries
        rwa [List.append_assoc] at hrest

/-- A program can be carried out, and what is computed comes of it. -/
theorem exists_carries (r : SignalRun ι) (orders : List (SignalOrder ι)) :
    ∃ tale, r.Carries orders tale (performAll orders r).1 (performAll orders r).2 := by
  induction orders generalizing r with
  | nil => exact ⟨_, .finished r⟩
  | cons order orders ih =>
    obtain ⟨tale, hp⟩ := exists_performs r order
    obtain ⟨rest, hc⟩ := ih (perform order r).2
    exact ⟨_, .goesOn hp hc⟩

/-- Nothing else comes of a program than what is computed. -/
theorem Carries.computed {replies : List (Option SignalReply)}
    (hc : r.Carries orders tale replies r') : (replies, r') = performAll orders r := by
  induction orders generalizing r tale replies with
  | nil =>
    cases hc
    rfl
  | cons order orders ih =>
    cases hc with
    | goesOn performs carries =>
      rw [performAll, perform_of_performs performs]
      simp only [← ih carries]

/-- The log has those who start while a program is carried out. -/
theorem Carries.starters {replies : List (Option SignalReply)}
    (hc : r.Carries orders tale replies r') :
    r'.starters = r.starters ++ tale.started.map Prod.fst := by
  induction orders generalizing r tale replies with
  | nil =>
    cases hc
    exact (List.append_nil _).symm
  | cons order orders ih =>
    cases hc with
    | @goesOn _ _ _ _ _ tale rest reply _ performs carries =>
      rw [ih carries, performs.starters, List.append_assoc, ← List.map_append]
      change _ = _ ++ (SignalTale.started (tale ++ .answered order reply :: rest)).map Prod.fst
      rw [SignalTale.started_append]
      rfl

/-- A program on a new signal comes to what is computed, in whatever depth its observers fire the
signal again, and it fires the signal once; the log has those who start. -/
theorem signal_broadcasts_once (program : List (SignalOrder ι)) :
    (∃ tale, Carries {} program tale (performAll program {}).1 (performAll program {}).2) ∧
    ∀ tale replies r', Carries {} program tale replies r' →
      (replies, r') = performAll program {} ∧ SignalTale.OneShot tale ∧
        (r'.signal.fired = true ↔ .given .fire ∈ tale) ∧
        r'.starters = tale.started.map Prod.fst :=
  ⟨exists_carries {} program, fun _ _ _ hc =>
    ⟨hc.computed, (hc.oneShot .start).1, (hc.oneShot .start).2, hc.starters⟩⟩

/-- The second of three observers panics. The first has fired the signal again, and was refused. -/
theorem signal_broadcasts_once_panicked : ∃ tale r', Carries ({} : SignalRun Nat)
    [.subscribe 1 [.isFired, .fire, .subscribe 4 []], .subscribe 2 [.fire, .panic], .subscribe 3 [],
      .isFired, .fire, .subscribe 5 [], .fire] tale
    [some (.truth true), some (.truth true), some (.truth true), some (.truth false), none,
      some (.truth false), some (.count 0)] r' ∧
    SignalTale.OneShot tale ∧ r'.signal.fired = true ∧ tale.started.map Prod.fst = [1, 2] := by
  obtain ⟨⟨tale, hc⟩, hall⟩ := signal_broadcasts_once (ι := Nat)
    [.subscribe 1 [.isFired, .fire, .subscribe 4 []], .subscribe 2 [.fire, .panic], .subscribe 3 [],
      .isFired, .fire, .subscribe 5 [], .fire]
  obtain ⟨-, honce, -, hstarters⟩ := hall tale _ _ hc
  exact ⟨tale, _, hc, honce, rfl, hstarters.symm⟩

end SignalRun

end ToastBoard
