import ToastBoard.Proofs.Traffic

/-!
# Where displaced handlers are

However calls to a coordinator come between each other, a handler that was put under its name and
is still active is at exactly one place: it is the current one of its name, a call carries it, or a
call that gave up its name let go of it. A handler that failed is about to be ended by some call,
and a current one is over only if it was put back while it was about to end. This is what a step
has to keep, and how it does so is a matter of which handlers move on and of what the calls that
come to and go from the traffic are about to do.
-/

namespace ToastBoard

open Board

variable {h : HandlerId} {co : Coordinator} {b b' : Board} {t t' : Traffic}

/-- An active handler was active before. -/
theorem Phase.LeadsTo.active {p q : Phase} (hpq : p.LeadsTo q) (hq : q.isActive = true) :
    p.isActive = true := by
  rcases hpq with rfl | hlt
  · exact hq
  · cases p <;> cases q <;> simp [rank, isActive] at hlt hq ⊢

namespace Board

variable {r : RegistryId}

/-- A handler that was made for a registry was made. -/
theorem lt_of_home (hh : (b.handler h).registry = some r) : h < b.handlers.length := by
  by_contra hlt
  rw [handler_of_le (Nat.le_of_not_lt hlt)] at hh
  exact Option.some_ne_none _ hh.symm

/-- A handler that was made for a registry remains so, and keeps its name. -/
theorem Onward.home (ho : b.Onward b') (hh : (b.handler h).registry = some r) :
    (b'.handler h).registry = some r ∧ (b'.handler h).name = (b.handler h).name := by
  have hlt := lt_of_home hh
  exact ⟨(ho.registry h hlt).trans hh, by rw [Handler.name, ho.fields h hlt, Handler.name]⟩

/-- What becomes of a handler that is submitted. -/
theorem submit_phase (b : Board) (s : StationId) (hh : h < b.handlers.length) :
    ((b.submit s h).1 = .ok () ∧ b.phase h = .created ∧
      (b.submit s h).2.phase h = .initializing) ∨
    ∃ e, (b.submit s h).1 = .error e ∧
      (b.phase h = .created ∧ (b.submit s h).2.phase h = .initFailed ∨
        b.phase h ≠ .created ∧ (b.submit s h).2.phase h = b.phase h) := by
  have hmade : h < (b.setPhase h .initializing).handlers.length := by
    rw [setPhase, length_update]
    exact hh
  unfold submit
  split
  · rename_i hp
    simp only
    split
    · exact .inl ⟨rfl, hp, phase_setPhase hh _⟩
    · exact .inr ⟨_, rfl, .inl ⟨hp, phase_setPhase hmade _⟩⟩
  · rename_i hp
    exact .inr ⟨_, rfl, .inr ⟨hp, rfl⟩⟩

end Board

namespace Registry

variable {r : Registry}

/-- With one entry to a name, a table is what stands under a name and what is left without it. -/
theorem perm_handlers (hr : r.OnePerName) (name : String) :
    r.handlers.Perm ((r.get? name).toList ++ (r.erase name).handlers) := by
  obtain ⟨entries, owners⟩ := r
  simp only [OnePerName, get?, erase, handlers] at hr ⊢
  induction entries with
  | nil => exact .refl _
  | cons e rest ih =>
    obtain ⟨key, g⟩ := e
    simp only [List.map_cons, List.nodup_cons] at hr
    by_cases hk : key = name
    · subst hk
      have hrest : rest.filter (fun e => decide (e.1 ≠ key)) = rest := by
        refine List.filter_eq_self.mpr fun e he => ?_
        have hne : e.1 ≠ key := fun hc => hr.1 (List.mem_map.mpr ⟨e, he, hc⟩)
        simpa using hne
      rw [List.lookup_cons_self, List.filter_cons_of_neg (by simp), hrest]
      exact .refl _
    · have hb : (name == key) = false := by simpa using Ne.symm hk
      rw [List.lookup_cons, hb, List.filter_cons_of_pos (by simpa using hk)]
      simp only [List.map_cons]
      exact ((ih hr.2).cons g).trans List.perm_middle.symm

@[simp] theorem handlers_insert (name : String) (h : HandlerId) :
    (r.insert name h).handlers = (r.erase name).handlers ++ [h] := by
  simp [handlers, insert]

end Registry

namespace Call

/-- The handlers that a call took over. -/
def carries : Call → List HandlerId
  | .submit _ old | .restore _ old => old.toList
  | .finish hs _ => hs
  | _ => []

/-- The new handler that a call is to show. -/
def shows : Call → List HandlerId
  | .install h | .submit h _ | .restore h _ => [h]
  | _ => []

/-- The handlers that a call is about to end. -/
def ends : Call → List HandlerId
  | .restore h _ | .leave h | .depart h => [h]
  | .finish hs _ => hs
  | _ => []

end Call

namespace Traffic

/-- The handlers that are current, carried by a call or let go of. -/
def places (co : Coordinator) (t : Traffic) : List HandlerId :=
  (t.board.registry co.registry).handlers ++ (t.calls.flatMap Call.carries ++ t.abandoned)

/-- Handlers of a coordinator are at one place each, as long as they are active. -/
structure Placed (co : Coordinator) (t : Traffic) : Prop where
  /-- The registry of the coordinator exists. -/
  owned : 0 < (t.board.registry co.registry).owners
  /-- It has at most one entry to a name. -/
  single : (t.board.registry co.registry).OnePerName
  /-- Its entries stand under the names of their handlers. -/
  named : ∀ {name h}, (name, h) ∈ (t.board.registry co.registry).entries →
    (t.board.handler h).name = name
  /-- Handlers that were put under their names were made for it. -/
  home : ∀ h ∈ t.installed, (t.board.handler h).registry = some co.registry
  /-- No handler is at two places. -/
  once : (t.places co).Nodup
  /-- Whoever is at a place was put under its name. -/
  known : ∀ h ∈ t.places co, h ∈ t.installed
  /-- An active handler that was put under its name is at a place. -/
  kept : ∀ h ∈ t.installed, (t.board.phase h).isActive = true → h ∈ t.places co

/-- Current handlers were put under their names. -/
theorem Placed.current (hk : t.Placed co) (hh : h ∈ (t.board.registry co.registry).handlers) :
    h ∈ t.installed := hk.known h (List.mem_append_left _ hh)

/-- A handler that is not the current one of its name is not in the table at all. -/
theorem Placed.absent (hk : t.Placed co)
    (hcur : t.board.isCurrent co.registry (t.board.handler h).name h = false) :
    h ∉ (t.board.registry co.registry).handlers := by
  intro hm
  obtain ⟨name, he⟩ := Registry.mem_handlers.mp hm
  rw [← hk.named he] at he
  rw [(isCurrent_iff hk.single).mpr he] at hcur
  cases hcur

/-- What stands under a name was put there, and has it. -/
theorem Placed.under (hk : t.Placed co) {name : String} {p : HandlerId}
    (hp : t.board.current? co.registry name = some p) :
    p ∈ t.installed ∧ (t.board.handler p).name = name := by
  have he := (Registry.mem_entries_iff hk.single).mpr hp
  exact ⟨hk.current (Registry.mem_handlers.mpr ⟨_, he⟩), hk.named he⟩

/-- A current handler is in the table once, under its name. -/
theorem Placed.present (hk : t.Placed co)
    (hcur : t.board.isCurrent co.registry (t.board.handler h).name h = true) :
    (t.board.registry co.registry).handlers.Perm
      (h :: ((t.board.registry co.registry).erase (t.board.handler h).name).handlers) ∧
    h ∉ ((t.board.registry co.registry).erase (t.board.handler h).name).handlers := by
  have he := (isCurrent_iff hk.single).mp hcur
  have hperm := Registry.perm_handlers hk.single (t.board.handler h).name
  rw [(Registry.mem_entries_iff hk.single).mp he] at hperm
  have hnodup := hperm.nodup_iff.mp (List.nodup_append.mp hk.once).1
  exact ⟨hperm, (List.nodup_cons.mp hnodup).1⟩

/-- Handlers that a call carries are not in the table. -/
theorem Placed.away (hk : t.Placed co) {c : Call} (hc : c ∈ t.calls) (hh : h ∈ c.carries) :
    h ∈ t.installed ∧ h ∉ (t.board.registry co.registry).handlers := by
  have hcarried : h ∈ t.calls.flatMap Call.carries ++ t.abandoned :=
    List.mem_append_left _ (List.mem_flatMap.mpr ⟨c, hc, hh⟩)
  exact ⟨hk.known h (List.mem_append_right _ hcarried),
    fun hm => (List.nodup_append.mp hk.once).2.2 h hm h hcarried rfl⟩

/-- Handlers may leave their places when they are no longer active. -/
theorem Placed.lose (hk : t.Placed co) (lost : List HandlerId) (ho : t.board.Onward t'.board)
    (howned : 0 < (t'.board.registry co.registry).owners)
    (hsingle : (t'.board.registry co.registry).OnePerName)
    (hnamed : ∀ {name x}, (name, x) ∈ (t'.board.registry co.registry).entries →
      (t.board.handler x).name = name)
    (hi : t'.installed = t.installed) (hplaces : (t.places co).Perm (lost ++ t'.places co))
    (hlost : ∀ x ∈ lost, (t'.board.phase x).isActive = false) : t'.Placed co := by
  have hknown : ∀ x ∈ t'.places co, x ∈ t.installed := fun x hx =>
    hk.known x (hplaces.mem_iff.mpr (List.mem_append_right _ hx))
  refine ⟨howned, hsingle, ?_, ?_, ?_, by rw [hi]; exact hknown, ?_⟩
  · intro name x he
    have hx := hknown x (List.mem_append_left _ (Registry.mem_handlers.mpr ⟨name, he⟩))
    rw [(ho.home (hk.home x hx)).2]
    exact hnamed he
  · intro x hx
    rw [hi] at hx
    exact (ho.home (hk.home x hx)).1
  · exact (List.nodup_append.mp (hplaces.nodup_iff.mp hk.once)).2.1
  · intro x hx hactive
    rw [hi] at hx
    have hbefore := (ho.phase x (lt_of_home (hk.home x hx))).active hactive
    rcases List.mem_append.mp (hplaces.mem_iff.mp (hk.kept x hx hbefore)) with hl | hp
    · rw [hlost x hl] at hactive
      cases hactive
    · exact hp

/-- Calls take handlers over from each other while the table remains the same. -/
theorem Placed.turn (hk : t.Placed co) (gone new : List Call) (lost : List HandlerId)
    {others : List Call} (hcalls : t.calls.Perm (gone ++ others))
    (hcalls' : t'.calls = new ++ others)
    (ho : t.board.Onward t'.board)
    (htable : t'.board.registry co.registry = t.board.registry co.registry)
    (hi : t'.installed = t.installed) (habandoned : t'.abandoned = t.abandoned)
    (hcarries : (gone.flatMap Call.carries).Perm (lost ++ new.flatMap Call.carries))
    (hlost : ∀ x ∈ lost, (t'.board.phase x).isActive = false) : t'.Placed co := by
  refine hk.lose lost ho (htable ▸ hk.owned) (htable ▸ hk.single)
    (fun he => hk.named (htable ▸ he)) hi ?_ hlost
  refine List.perm_iff_count.mpr fun x => ?_
  have hbefore := (hcalls.flatMap_right Call.carries).count_eq x
  have hcount := hcarries.count_eq x
  simp only [places, hcalls', htable, habandoned, List.flatMap_append, List.count_append] at *
  omega

/-- What is known of a call that has not returned. -/
def Fits (co : Coordinator) (t : Traffic) : Call → Prop
  | .install h => (t.board.handler h).registry = some co.registry ∧ t.board.phase h = .created ∧
      h ∉ t.installed
  | .submit h old => (t.board.handler h).registry = some co.registry ∧
      (t.board.phase h = .created ∨ t.board.phase h = .unregistered) ∧
      ∀ p ∈ old, p ∈ t.installed ∧ (t.board.handler p).name = (t.board.handler h).name
  | .restore h old => (t.board.handler h).registry = some co.registry ∧
      (t.board.phase h = .initFailed ∨ t.board.phase h = .unregistered) ∧
      ∀ p ∈ old, p ∈ t.installed ∧ (t.board.handler p).name = (t.board.handler h).name
  | .leave h => (t.board.handler h).registry = some co.registry ∧ t.board.phase h ≠ .created
  | .depart h => (t.board.handler h).registry = some co.registry ∧ t.board.phase h ≠ .created ∧
      (h ∈ (t.board.registry co.registry).handlers → h ∈ t.revived)
  | _ => True

/-- Every call fits, and whoever failed or is over is looked after. -/
structure Due (co : Coordinator) (t : Traffic) : Prop where
  /-- What is left of each call fits. -/
  fits : ∀ c ∈ t.calls, t.Fits co c
  /-- No handler is shown by two calls. -/
  apart : (t.calls.flatMap Call.shows).Nodup
  /-- A current handler that is over was put back while it was about to end. -/
  dead : ∀ h ∈ (t.board.registry co.registry).handlers, t.board.phase h = .unregistered →
    h ∈ t.revived
  /-- Whoever was put back while it was about to end still is, or is over. -/
  ending : ∀ h ∈ t.revived, h ∈ t.installed ∧
    (t.board.phase h = .unregistered ∨ .depart h ∈ t.calls)
  /-- Some call is about to end a handler that failed. -/
  doomed : ∀ h ∈ t.installed, t.board.phase h = .initFailed → h ∈ t.calls.flatMap Call.ends

/-- A call that is about to go on fits. -/
theorem Due.first (hd : t.Due co) {call : Call} {others : List Call}
    (hcalls : t.calls.Perm (call :: others)) : t.Fits co call :=
  hd.fits _ (hcalls.mem_iff.mpr List.mem_cons_self)

/-- How a handler may move on while calls that show some handlers are under way. -/
def Passes (t t' : Traffic) (shown : List HandlerId) (x : HandlerId) : Prop :=
  t'.board.phase x = t.board.phase x ∨
    t'.board.phase x = .unregistered ∧ (x ∈ t.installed ∨ t.board.phase x ≠ .created) ∨
    x ∉ shown ∧ t'.board.phase x ≠ .created

/-- A handler that has begun to move remains so. -/
theorem Passes.begun {shown : List HandlerId} (hx : t.Passes t' shown h)
    (hp : t.board.phase h ≠ .created) : t'.board.phase h ≠ .created := by
  rcases hx with he | ⟨he, -⟩ | ⟨-, hn⟩
  · rw [he]
    exact hp
  · rw [he]
    exact Phase.noConfusion
  · exact hn

/-- A handler that is shown stays where it stands or is over. -/
theorem Passes.shown {shown : List HandlerId} (hx : t.Passes t' shown h) (hs : h ∈ shown) :
    t'.board.phase h = t.board.phase h ∨ t'.board.phase h = .unregistered := by
  rcases hx with he | ⟨he, -⟩ | ⟨hn, -⟩
  · exact .inl he
  · exact .inr he
  · exact absurd hs hn

/-- A call under way fits later on. -/
theorem Fits.later {c : Call} (hc : t.Fits co c) (hk : t.Placed co) (ho : t.board.Onward t'.board)
    (hphase : ∀ x, (t.board.handler x).registry = some co.registry → t.Passes t' c.shows x)
    (hi : ∀ x ∈ t.installed, x ∈ t'.installed)
    (hinstall : ∀ x, c = .install x → x ∈ t'.installed → x ∈ t.installed)
    (hdepart : ∀ x, c = .depart x → x ∈ (t'.board.registry co.registry).handlers →
      x ∈ (t.board.registry co.registry).handlers ∨ x ∈ t'.revived)
    (hkeep : ∀ x ∈ t.revived, x ∈ t'.revived) : t'.Fits co c := by
  have hpast : ∀ {p name}, p ∈ t.installed ∧ (t.board.handler p).name = name →
      p ∈ t'.installed ∧ (t'.board.handler p).name = name := fun hp =>
    ⟨hi _ hp.1, (ho.home (hk.home _ hp.1)).2.trans hp.2⟩
  cases c with
  | install x =>
    obtain ⟨hx, hp, hn⟩ := hc
    refine ⟨(ho.home hx).1, ?_, fun hm => hn (hinstall x rfl hm)⟩
    rcases hphase x hx with he | ⟨-, hm | hb⟩ | ⟨hs, -⟩
    · exact he.trans hp
    · exact absurd hm hn
    · exact absurd hp hb
    · exact absurd List.mem_cons_self hs
  | submit x old =>
    obtain ⟨hx, hp, hold⟩ := hc
    refine ⟨(ho.home hx).1, ?_, fun p hm => by rw [(ho.home hx).2]; exact hpast (hold p hm)⟩
    rcases (hphase x hx).shown List.mem_cons_self with he | he
    · rw [he]
      exact hp
    · exact .inr he
  | restore x old =>
    obtain ⟨hx, hp, hold⟩ := hc
    refine ⟨(ho.home hx).1, ?_, fun p hm => by rw [(ho.home hx).2]; exact hpast (hold p hm)⟩
    rcases (hphase x hx).shown List.mem_cons_self with he | he
    · rw [he]
      exact hp
    · exact .inr he
  | leave x => exact ⟨(ho.home hc.1).1, (hphase x hc.1).begun hc.2⟩
  | depart x =>
    obtain ⟨hx, hp, hr⟩ := hc
    refine ⟨(ho.home hx).1, (hphase x hx).begun hp, fun he => ?_⟩
    rcases hdepart x rfl he with he | he
    · exact hkeep x (hr he)
    · exact he
  | close name => trivial
  | drain visit => trivial
  | finish hs held => trivial

/-- How traffic goes on when some calls come in the place of others. -/
structure Exchange (co : Coordinator) (gone new others : List Call) (t t' : Traffic) : Prop where
  /-- The calls that go were under way. -/
  before : t.calls.Perm (gone ++ others)
  /-- The calls that come are. -/
  after : t'.calls = new ++ others
  /-- Handlers keep going. -/
  onward : t.board.Onward t'.board
  /-- How handlers of the coordinator move on. -/
  passes : ∀ x, (t.board.handler x).registry = some co.registry →
    t.Passes t' (others.flatMap Call.shows) x
  /-- Only calls that are to install a handler put it under its name. -/
  installed : ∀ x, x ∈ t'.installed ↔ .install x ∈ gone ∨ x ∈ t.installed
  /-- Who becomes current is active, and about to end only if it was put back. -/
  entered : ∀ x ∈ (t'.board.registry co.registry).handlers,
    x ∈ (t.board.registry co.registry).handlers ∨ ((t'.board.phase x).isActive = true ∧
      (.depart x ∈ others → x ∈ t'.revived))
  /-- Who stays current is not over on account of this. -/
  stayed : ∀ x ∈ (t'.board.registry co.registry).handlers,
    x ∈ (t.board.registry co.registry).handlers → t'.board.phase x = .unregistered →
      t.board.phase x = .unregistered ∨ x ∈ t'.revived
  /-- It is not forgotten who was put back while it was about to end. -/
  kept : ∀ x ∈ t.revived, x ∈ t'.revived
  /-- Who is put back while it is about to end still is. -/
  revived : ∀ x ∈ t'.revived, x ∈ t.revived ∨ (x ∈ t.installed ∧ .depart x ∈ others)
  /-- Who was about to end is over when its call has gone. -/
  departed : ∀ x, .depart x ∈ gone → t'.board.phase x = .unregistered
  /-- Whoever the calls that go were to end is left to those that come. -/
  ends : ∀ x ∈ gone.flatMap Call.ends, t'.board.phase x = .initFailed → x ∈ new.flatMap Call.ends
  /-- Whoever fails is left to the calls that come. -/
  failed : ∀ x ∈ t'.installed, t'.board.phase x = .initFailed →
    t.board.phase x = .initFailed ∨ x ∈ new.flatMap Call.ends
  /-- The calls that come fit. -/
  fits : ∀ c ∈ new, t'.Fits co c
  /-- No handler is shown by two calls. -/
  apart : ((new ++ others).flatMap Call.shows).Nodup

variable {gone new others : List Call}

/-- A call that was to install a handler is the only one that showed it. -/
theorem Exchange.unshown (he : Exchange co gone new others t t') (hd : t.Due co) {x : HandlerId}
    (hg : x ∈ gone.flatMap Call.shows) : x ∉ others.flatMap Call.shows := by
  have hapart := (he.before.flatMap_right Call.shows).nodup_iff.mp hd.apart
  rw [List.flatMap_append] at hapart
  exact fun ho => (List.nodup_append.mp hapart).2.2 x hg x ho rfl

/-- The other calls fit as before. -/
theorem Exchange.others_fit (he : Exchange co gone new others t t') (hd : t.Due co)
    (hk : t.Placed co) {c : Call} (hc : c ∈ others) : t'.Fits co c := by
  have hfits := hd.fits c (he.before.mem_iff.mpr (List.mem_append_right _ hc))
  refine hfits.later hk he.onward (fun x hx => ?_) (fun x hx => (he.installed x).mpr (.inr hx))
    ?_ ?_ he.kept
  · rcases he.passes x hx with hp | hp | ⟨hn, hp⟩
    · exact .inl hp
    · exact .inr (.inl hp)
    · exact .inr (.inr ⟨fun hs => hn (List.mem_flatMap.mpr ⟨c, hc, hs⟩), hp⟩)
  · rintro x rfl hm
    rcases (he.installed x).mp hm with hg | hm
    · have hshown : x ∈ gone.flatMap Call.shows :=
        List.mem_flatMap.mpr ⟨_, hg, List.mem_cons_self⟩
      exact absurd (List.mem_flatMap.mpr ⟨_, hc, List.mem_cons_self⟩) (he.unshown hd hshown)
    · exact hm
  · rintro x rfl hx
    rcases he.entered x hx with hx | ⟨-, hx⟩
    · exact .inl hx
    · exact .inr (hx hc)

/-- Whoever was put back while it was about to end is about to end, or is over. -/
theorem Exchange.ending (he : Exchange co gone new others t t') (hd : t.Due co) (hk : t.Placed co)
    {x : HandlerId} (hx : x ∈ t'.revived) :
    x ∈ t'.installed ∧ (t'.board.phase x = .unregistered ∨ .depart x ∈ t'.calls) := by
  rw [he.after]
  rcases he.revived x hx with hx | ⟨hx, hc⟩
  · obtain ⟨hm, hp⟩ := hd.ending x hx
    refine ⟨(he.installed x).mpr (.inr hm), ?_⟩
    rcases hp with hp | hc
    · exact .inl (he.onward.over (lt_of_home (hk.home x hm)) hp)
    · rcases List.mem_append.mp (he.before.mem_iff.mp hc) with hc | hc
      · exact .inl (he.departed x hc)
      · exact .inr (List.mem_append_right _ hc)
  · exact ⟨(he.installed x).mpr (.inr hx), .inr (List.mem_append_right _ hc)⟩

/-- Some call is about to end a handler that failed. -/
theorem Exchange.doomed (he : Exchange co gone new others t t') (hd : t.Due co) {x : HandlerId}
    (hx : x ∈ t'.installed) (hp : t'.board.phase x = .initFailed) :
    x ∈ t'.calls.flatMap Call.ends := by
  rw [he.after, List.flatMap_append]
  rcases he.failed x hx hp with hp' | hn
  · rcases (he.installed x).mp hx with hg | hm
    · have hfits := hd.fits _ (he.before.mem_iff.mpr (List.mem_append_left _ hg))
      rw [hfits.2.1] at hp'
      cases hp'
    · have hdoomed := (he.before.flatMap_right Call.ends).mem_iff.mp (hd.doomed x hm hp')
      rw [List.flatMap_append] at hdoomed
      rcases List.mem_append.mp hdoomed with hg | hc
      · exact List.mem_append_left _ (he.ends x hg hp)
      · exact List.mem_append_right _ hc
  · exact List.mem_append_left _ hn

/-- Calls that go on, come and return leave the traffic in order. -/
theorem Due.later (hd : t.Due co) (hk : t.Placed co) (he : Exchange co gone new others t t') :
    t'.Due co := by
  refine ⟨fun c hc => ?_, he.after ▸ he.apart, fun x hx hp => ?_, fun x => he.ending hd hk,
    fun x => he.doomed hd⟩
  · rw [he.after] at hc
    rcases List.mem_append.mp hc with hc | hc
    · exact he.fits c hc
    · exact he.others_fit hd hk hc
  · rcases he.entered x hx with hb | ⟨ha, -⟩
    · rcases he.stayed x hx hb hp with hp | hr
      · exact he.kept x (hd.dead x hb hp)
      · exact hr
    · rw [hp] at ha
      cases ha

/-- Calls go on while all handlers stand where they stood. -/
theorem Due.shift (hd : t.Due co) (hk : t.Placed co) (gone new : List Call) {others : List Call}
    (hcalls : t.calls.Perm (gone ++ others)) (hcalls' : t'.calls = new ++ others)
    (ho : t.board.Onward t'.board)
    (hphase : ∀ x, (t.board.handler x).registry = some co.registry →
      t'.board.phase x = t.board.phase x)
    (hi : ∀ x, x ∈ t'.installed ↔ .install x ∈ gone ∨ x ∈ t.installed)
    (hentry : ∀ x ∈ (t'.board.registry co.registry).handlers,
      x ∈ (t.board.registry co.registry).handlers ∨ ((t'.board.phase x).isActive = true ∧
        (.depart x ∈ others → x ∈ t'.revived)))
    (hkeep : ∀ x ∈ t.revived, x ∈ t'.revived)
    (hrevived : ∀ x ∈ t'.revived, x ∈ t.revived ∨ (x ∈ t.installed ∧ .depart x ∈ others))
    (hgone : ∀ x, .depart x ∉ gone)
    (hends : ∀ x ∈ gone.flatMap Call.ends, x ∈ new.flatMap Call.ends)
    (hnew : ∀ c ∈ new, t'.Fits co c) (hshows : ((new ++ others).flatMap Call.shows).Nodup) :
    t'.Due co := by
  have hhome : ∀ x ∈ t'.installed, (t.board.handler x).registry = some co.registry := by
    intro x hx
    rcases (hi x).mp hx with hg | hx
    · exact (hd.fits _ (hcalls.mem_iff.mpr (List.mem_append_left _ hg))).1
    · exact hk.home x hx
  have hexchange : Exchange co gone new others t t' :=
    { before := hcalls
      after := hcalls'
      onward := ho
      passes := fun x hx => .inl (hphase x hx)
      installed := hi
      entered := hentry
      stayed := fun x _ hx hp => .inl (hphase x (hk.home x (hk.current hx)) ▸ hp)
      kept := hkeep
      revived := hrevived
      departed := fun x hx => absurd hx (hgone x)
      ends := fun x hx _ => hends x hx
      failed := fun x hx hp => .inl (hphase x (hhome x hx) ▸ hp)
      fits := hnew
      apart := hshows }
  exact hd.later hk hexchange

/-- Calls go on while one handler moves on. -/
theorem Due.rephase (hd : t.Due co) (hk : t.Placed co) (gone new : List Call) {others : List Call}
    {g : HandlerId} (hcalls : t.calls.Perm (gone ++ others)) (hcalls' : t'.calls = new ++ others)
    (ho : t.board.Onward t'.board)
    (hphase : ∀ x, x ≠ g → t'.board.phase x = t.board.phase x)
    (hpass : t.Passes t' (others.flatMap Call.shows) g)
    (hi : t'.installed = t.installed) (hfresh : ∀ x, .install x ∉ gone)
    (hentry : (t'.board.registry co.registry).handlers = (t.board.registry co.registry).handlers)
    (hrevived : t'.revived = t.revived)
    (hover : t'.board.phase g = .unregistered → g ∈ (t.board.registry co.registry).handlers →
      t.board.phase g = .unregistered ∨ g ∈ t.revived)
    (hgone : ∀ x, .depart x ∈ gone → t'.board.phase x = .unregistered)
    (hends : ∀ x ∈ gone.flatMap Call.ends, x ≠ g → x ∈ new.flatMap Call.ends)
    (hfailed : t'.board.phase g = .initFailed → g ∈ new.flatMap Call.ends)
    (hnew : ∀ c ∈ new, t'.Fits co c) (hshows : ((new ++ others).flatMap Call.shows).Nodup) :
    t'.Due co := by
  have hexchange : Exchange co gone new others t t' :=
    { before := hcalls
      after := hcalls'
      onward := ho
      passes := fun x _ => by
        by_cases hxg : x = g
        · rw [hxg]
          exact hpass
        · exact .inl (hphase x hxg)
      installed := fun x => by
        rw [hi]
        exact ⟨.inr, fun hx => hx.resolve_left (hfresh x)⟩
      entered := fun x hx => .inl (hentry ▸ hx)
      stayed := fun x _ hx hp => by
        by_cases hxg : x = g
        · rw [hrevived]
          subst hxg
          exact hover hp hx
        · exact .inl (hphase x hxg ▸ hp)
      kept := fun x hx => hrevived ▸ hx
      revived := fun x hx => .inl (hrevived ▸ hx)
      departed := hgone
      ends := fun x hx hp => by
        by_cases hxg : x = g
        · subst hxg
          exact hfailed hp
        · exact hends x hx hxg
      failed := fun x _ hp => by
        by_cases hxg : x = g
        · subst hxg
          exact .inr (hfailed hp)
        · exact .inl (hphase x hxg ▸ hp)
      fits := hnew
      apart := hshows }
  exact hd.later hk hexchange

/-- A call that goes on shows nobody else. -/
theorem Due.apart_next (hd : t.Due co) {call : Call} {new others : List Call}
    (hcalls : t.calls.Perm (call :: others)) (hs : (new.flatMap Call.shows).Sublist call.shows) :
    ((new ++ others).flatMap Call.shows).Nodup := by
  have hapart := (hcalls.flatMap_right Call.shows).nodup_iff.mp hd.apart
  rw [List.flatMap_cons] at hapart
  rw [List.flatMap_append]
  exact hapart.sublist (hs.append_right _)

/-- A handler that some call shows was made for the registry, and is not being registered. -/
theorem Due.shown (hd : t.Due co) (hm : h ∈ t.calls.flatMap Call.shows) :
    (t.board.handler h).registry = some co.registry ∧ t.board.phase h ≠ .initializing := by
  obtain ⟨c, hc, hs⟩ := List.mem_flatMap.mp hm
  have hfits := hd.fits c hc
  have hne : ∀ {p : Phase}, t.board.phase h = p → p ≠ .initializing →
      t.board.phase h ≠ .initializing := fun he hn => he ▸ hn
  cases c with
  | install x =>
    cases List.mem_singleton.mp hs
    exact ⟨hfits.1, hne hfits.2.1 Phase.noConfusion⟩
  | submit x old =>
    cases List.mem_singleton.mp hs
    rcases hfits.2.1 with he | he
    · exact ⟨hfits.1, hne he Phase.noConfusion⟩
    · exact ⟨hfits.1, hne he Phase.noConfusion⟩
  | restore x old =>
    cases List.mem_singleton.mp hs
    rcases hfits.2.1 with he | he
    · exact ⟨hfits.1, hne he Phase.noConfusion⟩
    · exact ⟨hfits.1, hne he Phase.noConfusion⟩
  | close name => cases hs
  | drain visit => cases hs
  | finish hs held => cases hs
  | leave x => cases hs
  | depart x => cases hs

end Traffic

end ToastBoard
