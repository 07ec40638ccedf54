import ToastBoard.Proofs.Showing

/-!
# Deeds keep order

Every deed keeps the law of boards in order, whoever stands around and whatever its listeners do.
For boards on which only coordinators work this takes that handlers and registries are left to
them, and that no listener panics while the signal fires.
-/

namespace ToastBoard

open Talk Board

variable {strict : Bool} {g : Ledger} {w : World} {may : Bool → Prop} {h : HandlerId}
  {r : RegistryId} {c : CoordinatorId} {s : StationId} {name : String}

namespace Deed

/-- Whether a deed leaves handlers, registries and coordinators to coordinators: nobody makes,
submits or ends a handler of their own or works on a registry, and nobody gives a coordinator
up. -/
def Coordinated : Deed → Prop
  | .openRegistry | .shareRegistry _ | .dropRegistry _ | .dropCoordinator _ | .create ..
  | .submit .. | .unregister _ | .lookUp .. | .install .. | .takeEntry .. | .takeAll _
  | .restore .. | .removeIfCurrent .. => False
  | _ => True

/-- A deed starts on the board from before it. -/
theorem board_start (d : Deed) (w : World) : (d.start w).board = w.board := by
  cases d
  case setUp settings host =>
    simp only [start, holdings]
    split <;> rfl
  all_goals rfl

end Deed

/-- A change that tells nobody keeps the law if it keeps order with what people have afterwards. -/
theorem keeps_change {d : Deed} {f : Board → Board} (hd : d.act = Action.change f)
    (ho : w.board.Onward (f w.board)) (ht : (f w.board).told = w.board.told)
    (hs : (f w.board).Sound strict {} (g.terms (d.start w))) :
    (d.act w.board).Keeps (order strict) may ((order strict).Ends g) (d.start w) (d.start w) := by
  have hstart := Deed.board_start d w
  rw [hd]
  exact ⟨⟨by rw [hstart]; exact ho, by rw [hstart]; exact ht.trans (List.append_nil _).symm, rfl⟩,
    hs⟩

/-- A computation that leaves order keeps the law. -/
theorem Talk.Keeps.ends {α : Type} {start : Board} {P : Option α → World → Prop} {since w : World}
    {t : Talk Board Telling α}
    (ht : t.Keeps (order strict) may (Leaves strict may {} g start P) since w) :
    t.Keeps (order strict) may (fun since _ w => (order strict).Ends g since none w) since w :=
  ht.mono fun _ _ _ hl => ⟨hl.1.quiet, hl.1.sound⟩

/-- What a computation results in does not matter for a deed. -/
theorem keeps_void {α : Type} {start : Board} {P : Option α → World → Prop} {since w : World}
    {t : Talk Board Telling α}
    (ht : t.Keeps (order strict) may (Leaves strict may {} g start P) since w) :
    (t.andThen fun _ b => .ended (some ()) b).Keeps (order strict) may ((order strict).Ends g)
      since w := by
  rw [keeps_andThen]
  refine ht.mono ?_
  rintro since a w ⟨ha, -⟩
  cases a with
  | none => exact ⟨ha.quiet, ha.sound⟩
  | some a => exact ⟨ha.quiet, ha.sound⟩

namespace Board

variable {b : Board} {k : Slack}

/-- More may be reported. -/
theorem Sound.later (hb : b.Sound strict k (g.terms w)) (reports : List (HandlerId × Outcome)) :
    b.Sound strict k (g.terms { w with reported := w.reported ++ reports }) :=
  hb.perm (.refl _) (.refl _) (.refl _) (fun _ => ⟨fun _ => id, fun _ => id⟩) rfl
    fun _ hm => List.mem_append_left _ hm

/-- What a computation hands out people keep. -/
theorem Sound.handOut {l : List HandlerId}
    (hb : b.Sound strict k { g.terms w with holders := l ++ (g.terms w).holders }) :
    b.Sound strict k (g.terms { w with kept := l ++ w.kept }) :=
  hb.perm (List.perm_append_comm_assoc ..) (.refl _) (.refl _)
    (fun _ => ⟨fun _ => id, fun _ => id⟩) rfl fun _ => id

/-- A registry that a computation owns people own. -/
theorem Sound.ownOut (hb : b.Sound strict k { g.terms w with owners := r :: (g.terms w).owners }) :
    b.Sound strict k (g.terms { w with registries := r :: w.registries }) :=
  hb.perm (.refl _) List.perm_middle.symm (.refl _) (fun _ => ⟨fun _ => id, fun _ => id⟩) rfl
    fun _ => id

/-- What people give away a computation takes. -/
theorem Sound.handIn (hb : b.Sound strict k (g.terms w)) (hk : h ∈ w.kept) :
    b.Sound strict k { g.terms { w with kept := w.kept.erase h } with
      holders := h :: (g.terms { w with kept := w.kept.erase h }).holders } := by
  refine hb.perm ?_ (.refl _) (.refl _) (fun _ => ⟨fun _ => id, fun _ => id⟩) rfl fun _ => id
  have hp : w.kept.Perm (h :: w.kept.erase h) := List.perm_cons_erase hk
  exact (hp.append_left g.holds).trans List.perm_middle

theorem advance_quiet (b : Board) (s : StationId) :
    b.Onward (b.advance s).2 ∧ (b.advance s).2.told = b.told := by
  have hset : ∀ worker, b.Onward (b.setWorker s worker) := fun _ => onward_of_handlers rfl
  unfold advance
  split
  · exact ⟨.refl _, rfl⟩
  · split
    · exact ⟨.refl _, rfl⟩
    · exact closeStation_quiet b s
    · exact ⟨hset _, rfl⟩
    · rename_i h _ _
      simp only
      split
      · have hreap := sameButToasts_reap (b := b.setWorker s (b.station s).worker.next.2) h
        exact ⟨(hset _).trans hreap.onward, hreap.told⟩
      · exact ⟨onward_of_handlers rfl, rfl⟩

end Board

/-- A worker starts with nothing to do. -/
theorem queue_start {refusal : Option String} {worker : Worker HandlerId}
    (hw : Worker.start refusal name = some (.ok worker)) : worker.queue = [] := by
  unfold Worker.start at hw
  split at hw
  · cases hw
  · cases refusal with
    | some reason => cases hw
    | none =>
      cases hw
      rfl

/-- A platform without toasts is not asked for an identity, unless in test mode. -/
theorem Host.called_identityFor (host : Host) (testMode : Bool) :
    (host.identityFor testMode).called =
      if host.supported = false ∧ testMode = false then ["supported"] else questions := by
  rcases host with ⟨supported, identity, refusal⟩
  cases supported <;> cases testMode <;> cases identity <;> rfl

/-- Setting up makes a coordinator or changes nothing. -/
theorem setUp_cases (b : Board) (settings : Settings) (host : Host) :
    (∃ worker identity, worker.queue = [] ∧ b.setUp settings host =
      (some ⟨.ok (b.openCoordinator worker identity).1, Host.questions⟩,
        (b.openCoordinator worker identity).2)) ∨
    ((b.setUp settings host).2 = b ∧
      ∀ c asked, (b.setUp settings host).1 ≠ some ⟨.ok c, asked⟩) := by
  unfold setUp
  have hcalled := host.called_identityFor settings.testMode
  have hunasked : host.supported = false ∧ settings.testMode = false →
      (host.identityFor settings.testMode).result = .error .unsupportedPlatform := by
    rintro ⟨hs, ht⟩
    rw [Host.identityFor, hs, ht]
    rfl
  cases hi : host.identityFor settings.testMode with
  | mk result asked =>
    rw [hi] at hcalled hunasked
    cases result with
    | error e => exact .inr ⟨rfl, fun _ _ hc => by cases hc⟩
    | ok identity =>
      rw [if_neg fun h => by cases hunasked h] at hcalled
      obtain rfl : asked = Host.questions := hcalled
      cases hw : Worker.start host.threadRefusal settings.dispatcherThreadName with
      | none => exact .inr ⟨rfl, fun _ _ hc => by cases hc⟩
      | some result =>
        cases result with
        | error e => exact .inr ⟨rfl, fun _ _ hc => by cases hc⟩
        | ok worker => exact .inl ⟨worker, identity, queue_start hw, rfl⟩

/-- Setting up a coordinator keeps the law. -/
theorem keeps_setUp {settings : Settings} {host : Host}
    (hs : w.board.Sound strict {} (g.terms w)) :
    ((Deed.setUp settings host).act w.board).Keeps (order strict) may ((order strict).Ends g)
      ((Deed.setUp settings host).start w) ((Deed.setUp settings host).start w) := by
  have hv := hs.later []
  rcases setUp_cases w.board settings host with ⟨worker, identity, hq, he⟩ | ⟨hb, hne⟩
  · have hstart : (Deed.setUp settings host).start w = { w with
        coordinators := (w.board.openCoordinator worker identity).1 :: w.coordinators
        reported := w.reported ++ [] } := by
      simp only [Deed.start, Deed.holdings, Deed.reports, he]
    have hopen := hv.openCoordinator hq identity
    refine keeps_change rfl ?_ ?_ ?_
    · rw [he]
      exact onward_of_handlers rfl
    · rw [he]
      rfl
    · rw [he, hstart]
      exact hopen
  · have hstart : (Deed.setUp settings host).start w =
        { w with reported := w.reported ++ [] } := by
      simp only [Deed.start, Deed.holdings, Deed.reports]
    refine keeps_change rfl ?_ ?_ ?_
    · rw [hb]
      exact .refl _
    · rw [hb]
    · rw [hb, hstart]
      exact hv

variable {since : World}

/-- A handler that somebody lends is held for the time of a computation. -/
theorem keeps_lent {α : Type} {act : Act α} (ha : At strict {} g since w) (hk : h ∈ w.kept)
    (hact : ∀ w', At strict {} { g with holds := h :: g.holds } since w' →
      w'.registries = w.registries → w'.coordinators = w.coordinators →
      (act w'.board).Keeps (order strict) may (Leaves strict may {} { g with holds := h :: g.holds }
        w'.board fun _ _ => True) since w') :
    (Act.holding h act w.board).Keeps (order strict) may
      (Leaves strict may {} g w.board fun _ _ => True) since w := by
  have href : w.board.refersTo h = true :=
    refersTo_of_held (ha.sound.books.held.mem_iff.mpr (List.mem_append_right _ hk))
  have honward : w.board.Onward (w.board.hold h) := onward_of_handlers rfl
  have hkeeps := hact _ (ha.hold fun _ => href) rfl rfl
  exact keeps_holding (keeps_from hkeeps honward fun _ _ _ hp => hp) fun _ _ _ => trivial

/-- A handler is taken out of a registry, if it is the very one under a name. -/
theorem keeps_removal (hfree : strict = false) (ha : At strict {} g since w)
    (hr : r ∈ w.registries) :
    (Act.owning r (removeIfCurrent r name h) w.board).Keeps (order strict) may
      (Leaves strict may {} g w.board fun _ _ => True) since w := by
  have hpos := ha.sound.books.pos_of_owner (List.mem_append_right _ hr)
  have hat := ha.own hpos
  have honward : w.board.Onward (w.board.ownRegistry r) := onward_of_handlers rfl
  have hkeeps : (removeIfCurrent r name h (w.board.ownRegistry r)).Keeps (order strict) may
      (Leaves strict may {} { g with owns := r :: g.owns } w.board fun _ _ => True) since
      (w.put (w.board.ownRegistry r)) := by
    by_cases hcur : (w.board.ownRegistry r).isCurrent r name h = true
    · exact keeps_from (keeps_removeIfCurrent hat (.inl rfl) hcur) honward fun _ _ _ _ => trivial
    · rw [removeIfCurrent_eq, if_neg hcur]
      exact keeps_ended hat honward trivial
  change ((removeIfCurrent r name h (w.board.ownRegistry r)).ensuring (·.disownRegistry r)).Keeps
    _ _ _ _ _
  refine keeps_put.mp (keeps_finally hkeeps ?_)
  intro since _ w' ha' _ _
  have hno : strict = true → 1 < (w'.board.registry r).owners := by
    rw [hfree]
    exact fun hc => Bool.noConfusion hc
  exact ⟨ha'.disown hno, (disownRegistry_quiet w'.board r).1, trivial⟩

/-- A handler of somebody's own is submitted. -/
theorem Board.Sound.submitOwn {b : Board} {T : Terms} (hb : b.Sound false {} T) :
    (b.submit s h).2.Sound false {} T := by
  by_cases hp : b.phase h = .created
  · rcases hb.submit (s := s) rfl rfl hp (fun hc => Bool.noConfusion hc) with ⟨-, hs⟩ | ⟨-, -, hs⟩
    · exact hs
    · exact hs
  · have hsame : (b.submit s h).2 = b := by
      unfold Board.submit
      split
      · rename_i hc
        exact absurd hc hp
      · rfl
    rw [hsame]
    exact hb

/-- A registry is given up. -/
theorem keeps_dropRegistry (hs : w.board.Sound strict {} (g.terms w)) (hr : r ∈ w.registries)
    (hc : strict = false) : ((Deed.dropRegistry r).act w.board).Keeps (order strict) may
      ((order strict).Ends g) ((Deed.dropRegistry r).start w) ((Deed.dropRegistry r).start w) := by
  have hquiet := disownRegistry_quiet w.board r
  have hperm : (g.owns ++ w.registries).Perm (r :: (g.owns ++ w.registries.erase r)) :=
    ((List.perm_cons_erase hr).append_left g.owns).trans List.perm_middle
  refine keeps_change rfl hquiet.1 hquiet.2 (Sound.disown (T := g.terms _) ?_
    fun hstrict => Bool.noConfusion (hc.symm.trans hstrict))
  exact (hs.later []).perm (.refl _) hperm (.refl _) (fun _ => ⟨fun _ => id, fun _ => id⟩) rfl
    fun _ => id

/-- A coordinator is given up. -/
theorem keeps_dropCoordinator (hs : w.board.Sound strict {} (g.terms w)) (hm : c ∈ w.coordinators)
    (hc : strict = false) : ((Deed.dropCoordinator c).act w.board).Keeps (order strict) may
      ((order strict).Ends g) ((Deed.dropCoordinator c).start w)
      ((Deed.dropCoordinator c).start w) := by
  have hquiet := disownCoordinator_quiet w.board c
  have hperm : (g.coords ++ w.coordinators).Perm (c :: g.coords ++ w.coordinators.erase c) :=
    ((List.perm_cons_erase hm).append_left g.coords).trans List.perm_middle
  refine keeps_change rfl hquiet.1 hquiet.2 (Sound.disownCoordinator (T := g.terms _) ?_)
  exact (hs.later []).perm (.refl _) (.refl _) hperm
    (fun hstrict => Bool.noConfusion (hc.symm.trans hstrict)) rfl fun _ => id

/-- A worker is started, or is not. -/
theorem keeps_openStation {refusal : Option String}
    (hat : At strict {} g { w with reported := w.reported ++ [] }
      { w with reported := w.reported ++ [] }) :
    ((Deed.openStation refusal name).act w.board).Keeps (order strict) may ((order strict).Ends g)
      ((Deed.openStation refusal name).start w) ((Deed.openStation refusal name).start w) := by
  rw [Deed.act_openStation]
  cases hw : Worker.start refusal name with
  | none => exact ⟨hat.quiet, hat.sound⟩
  | some result =>
    cases result with
    | error e => exact ⟨hat.quiet, hat.sound⟩
    | ok worker =>
      have honward : w.board.Onward (w.board.openStation worker).2 := onward_of_handlers rfl
      have hopen := hat.step honward rfl (hat.sound.openStation (queue_start hw))
      exact ⟨hopen.quiet, hopen.sound⟩

/-- What was displaced is put back. -/
theorem keeps_restoring {previous : Option HandlerId}
    (hs : w.board.Sound false {} (g.terms w)) (hp : ∀ p ∈ previous, p ∈ w.kept) :
    ((Deed.restore r name h previous).act w.board).Keeps (order false) may ((order false).Ends g)
      ((Deed.restore r name h previous).start w) ((Deed.restore r name h previous).start w) := by
  have hv := hs.later []
  have hquiet := restore_quiet w.board r name h previous
  refine keeps_change rfl hquiet.1 hquiet.2.1 (Sound.restore (T := g.terms _) ?_
    fun hstrict => Bool.noConfusion hstrict)
  cases previous with
  | none => exact hv
  | some p => exact (hv.handIn (hp p rfl)).free

/-- Every deed keeps the law, if it is permitted where only coordinators work. -/
theorem keeps_deed {d : Deed} (hs : w.board.Sound strict {} (g.terms w)) (hd : d.Possible w)
    (hc : strict = true → d.Coordinated) (hm : strict = true → d.fires = true → ¬may false) :
    (d.act w.board).Keeps (order strict) may ((order strict).Ends g) (d.start w) (d.start w) := by
  have hv := hs.later (d.reports w.board)
  have hown : ∀ {r}, r ∈ w.registries → 0 < (w.board.registry r).owners := fun hr =>
    hs.books.pos_of_owner (List.mem_append_right _ hr)
  have hmaster : ∀ {c}, c ∈ w.coordinators → 0 < (w.board.coordinator c).owners := fun hc =>
    hs.books.pos_of_master (List.mem_append_right _ hc)
  have hheld : ∀ {h}, h ∈ w.kept → w.board.refersTo h = true := fun hk =>
    refersTo_of_held (hs.books.held.mem_iff.mpr (List.mem_append_right _ hk))
  have hsame : ∀ {b' : Board}, b'.handlers = w.board.handlers → w.board.Onward b' :=
    fun hh => onward_of_handlers hh
  have hat : At strict {} g { w with reported := w.reported ++ d.reports w.board }
      { w with reported := w.reported ++ d.reports w.board } := .start hv
  cases d with
  | openRegistry =>
    exact keeps_change rfl (hsame rfl) rfl hv.openRegistry.ownOut
  | shareRegistry r =>
    exact keeps_change rfl (hsame rfl) rfl (hv.own (hown hd)).ownOut
  | dropRegistry r => exact keeps_dropRegistry hs hd (Bool.eq_false_iff.mpr hc)
  | openStation refusal name => exact keeps_openStation hat
  | mark s =>
    refine keeps_change rfl ?_ ?_ ?_ <;> split
    · exact hsame rfl
    · exact .refl _
    · rfl
    · rfl
    · exact hv.mark ‹_›
    · exact hv
  | stop s =>
    exact keeps_change rfl (hsame rfl) rfl (hv.stop s)
  | setUp settings host => exact keeps_setUp hs
  | shareCoordinator c =>
    refine keeps_change rfl (hsame rfl) rfl
      ((hv.ownCoordinator (hmaster hd)).perm (.refl _) (.refl _)
      List.perm_middle.symm (fun _ => ⟨?_, ?_⟩) rfl fun _ => id)
    · exact fun _ hm => List.mem_cons_of_mem _ hm
    · exact fun _ hm => List.mem_cons_of_mem _ hm
  | dropCoordinator c => exact keeps_dropCoordinator hs hd (Bool.eq_false_iff.mpr hc)
  | create fields listener registry =>
    obtain rfl := Bool.eq_false_iff.mpr hc
    have hcreate : (w.board.create { fields, listener, registry }).2.Sound false _ _ :=
      hv.create rfl rfl rfl rfl fun hstrict => Bool.noConfusion hstrict
    exact keeps_change rfl (onward_create _ _) rfl
      (Sound.handOut (l := [w.board.handlers.length]) hcreate.free)
  | share h =>
    exact keeps_change rfl (hsame rfl) rfl (Sound.handOut (l := [h]) (hv.hold fun _ => hheld hd))
  | letGo h =>
    have hin := hv.handIn hd
    exact keeps_change rfl (onward_letGo _ h) (sameButToasts_letGo h).told hin.letGo
  | submit s h =>
    obtain rfl := Bool.eq_false_iff.mpr hc
    have hquiet := submit_quiet w.board s h
    exact keeps_change rfl hquiet.1 hquiet.2.1 hv.submitOwn
  | unregister h =>
    refine (keeps_lent hat hd fun w' ha' _ _ => ?_).ends
    exact keeps_from (keeps_unregister ha' (.inl rfl) fun hstrict => (hc hstrict).elim) (.refl _)
      fun _ _ _ _ => trivial
  | lookUp r name =>
    have hlook := (hv.lookUp r name).handOut
    refine keeps_change rfl (hsame ?_) ?_ hlook <;> rw [lookUp_eq]
  | install r name h =>
    obtain rfl := Bool.eq_false_iff.mpr hc
    have hinstall : (w.board.install r name h).2.Sound false {} _ :=
      hv.install (hown hd.1) (hheld hd.2) fun hstrict => Bool.noConfusion hstrict
    refine keeps_change rfl (hsame ?_) ?_ hinstall.free.handOut <;> rw [install_eq] <;> rfl
  | takeEntry r name =>
    obtain rfl := Bool.eq_false_iff.mpr hc
    have htake := hv.takeEntry r name
    refine keeps_change rfl (hsame ?_) ?_ htake.free.handOut <;> rw [takeEntry_eq] <;> rfl
  | takeAll r =>
    obtain rfl := Bool.eq_false_iff.mpr hc
    exact keeps_change rfl (hsame rfl) rfl (hv.takeAll r).free.handOut
  | restore r name h previous =>
    obtain rfl := Bool.eq_false_iff.mpr hc
    exact keeps_restoring hs hd.2.2
  | removeIfCurrent r name h =>
    refine keeps_void (keeps_lent hat hd.2 fun w' ha' hr _ => ?_)
    exact keeps_removal (Bool.eq_false_iff.mpr hc) ha' (by rw [hr]; exact hd.1)
  | grab c name =>
    have hlook := (hv.lookUp (w.board.coordinator c).registry name).handOut
    refine keeps_change rfl (hsame ?_) ?_ hlook <;> rw [lookUp_eq]
  | showAlert c source listener => exact keeps_void (keeps_showAlert hat (hmaster hd))
  | closeAlert c name => exact (keeps_closeAlert hat (hmaster hd)).ends
  | removeHandler c name h =>
    refine keeps_void (keeps_lent hat hd.2 fun w' ha' _ hco => ?_)
    refine keeps_removeHandler ha' (ha'.sound.books.pos_of_master (List.mem_append_right _ ?_))
    change c ∈ w'.coordinators
    rw [hco]
    exact hd.1
  | suppress c suppressed =>
    exact keeps_change rfl (hsame rfl) rfl (hv.setSuppression c suppressed)
  | fire visit => exact keeps_void (keeps_fire (fun hstrict => hm hstrict rfl) hat)
  | emit name outcome =>
    exact keeps_void (keeps_emit hat fun p hp => List.mem_append_right _ hp)
  | deliver n outcome =>
    rw [Deed.act_deliver]
    cases ha : w.board.screen.attempts[n]? with
    | none => exact ⟨hat.quiet, hat.sound⟩
    | some attempt =>
      refine (keeps_hear hat (List.mem_append_right _ ?_)).ends
      simp [Deed.reports, ha]
  | arm faults => exact keeps_change rfl (hsame rfl) rfl (hv.arm faults)
  | advance s =>
    have hquiet := advance_quiet w.board s
    exact keeps_change rfl hquiet.1 hquiet.2 (hv.advance s)
  | finish s => exact keeps_void (keeps_finish hat fun p hp => List.mem_append_right _ hp)

/-- Whether an event leaves things to coordinators: it is a deed of theirs or of the outside, or a
reply, which is no panic while the signal fires. -/
def Orderly (m : Moment) : Event → Prop
  | .deed d => d.Coordinated
  | .reply returned => returned = false → ∀ d ∈ m.waiting.map (·.deed), d.fires = false

/-- In a world in which nothing has happened yet everything is in order. -/
theorem sound_start (strict : Bool) : (order strict).sound {} {} := by
  have hbusy : ∀ {h}, ¬({} : Board).Busy h := by
    rintro h (⟨s, hj⟩ | ⟨s, a, hi, -⟩)
    · cases hj
    · cases hi
  constructor
  · constructor
    · exact fun s => List.nodup_nil
    · exact fun hj => by cases hj
    · exact List.nodup_nil
    · exact fun ha => by cases ha
    · exact fun hi => by cases hi
    · exact fun hi => by cases hi
    · exact fun hb => absurd hb hbusy
    · rintro h (hb | hm)
      · exact absurd hb hbusy
      · cases hm
    · exact List.forall_mem_nil _
  · constructor
    · exact fun ht => by cases ht
    · exact List.forall_mem_nil _
    · exact fun hr => by cases hr
    · exact fun hr => by cases hr
    · exact List.forall_mem_nil _
    · exact fun hl => by cases hl
    · exact fun hr => by cases hr
    · exact fun hr => by cases hr
    · exact fun hp => by cases hp
  · constructor
    · exact fun h hl => absurd rfl hl
    · exact fun h _ => rfl
    · exact fun h n hn => by cases hn
    · exact fun hp => by cases hp
  · constructor
    · exact .refl _
    · exact fun r => rfl
    · exact fun c => rfl
    · exact fun r _ => rfl
    · exact List.nodup_nil
    · exact List.forall_mem_nil _
  · exact fun r => List.nodup_nil
  · exact fun _ c hc => by cases hc
  · intro _
    constructor
    · exact fun h hh => absurd hh (Nat.not_lt_zero h)
    · exact fun he => by cases he
    · exact fun he => by cases he
    · exact fun he => by cases he
    · exact fun hp => absurd rfl hp
    · exact List.forall_mem_nil _
  · exact fun _ h hp => by cases hp

/-- A deed starts in a later world. -/
theorem later_start (d : Deed) (w : World) : (order strict).later w (d.start w) := by
  have hboard := Deed.board_start d w
  refine ⟨?_, ?_, List.prefix_append ..⟩
  · rw [hboard]
    exact .refl _
  · have hsame : w.board.told = (d.start w).board.told := by rw [hboard]
    exact hsame ▸ List.prefix_rfl

/-- Every deed and every reply keeps order where everything is permitted. -/
theorem governs_free : (order false).Governs (fun _ _ => True) fun _ _ => True where
  deed hs hd _ := ⟨later_start _ _,
    keeps_deed hs hd (fun hc => Bool.noConfusion hc) fun hc => Bool.noConfusion hc⟩
  reply _ := trivial

/-- Every orderly deed and reply keeps order where only coordinators work. -/
theorem governs_orderly : (order true).Governs
    (fun deeds returned => returned = false → ∀ d ∈ deeds, d.fires = false) Orderly where
  deed := by
    intro g m d hs hd hp
    refine ⟨later_start _ _, keeps_deed hs hd (fun _ => hp) ?_⟩
    intro _ hfires hm
    exact Bool.noConfusion ((hm rfl d List.mem_cons_self).symm.trans hfires)
  reply hp := hp

/-- At every moment of any course the board is in order. -/
theorem sound_of_freeCourse {m : Moment} (course : FreeCourse m) :
    ∃ g : Ledger, m.world.board.Sound false {} (g.terms m.world) := by
  obtain ⟨g, hg, -⟩ := governs_free.upholds (sound_start false) course
  exact ⟨g, hg⟩

/-- Where nobody waits nothing is taken on. -/
theorem Law.Upholds.top {γ : Type} {L : Law γ} {may : List Deed → Bool → Prop} {first : γ}
    {m : Moment} (hm : L.Upholds may first m) (hw : m.waiting = []) : L.sound first m.world := by
  obtain ⟨g, hg, haw⟩ := hm
  rw [hw] at haw
  cases haw
  exact hg

/-- A moment at which the law of boards in order is upheld; the deeds that wait there have taken on
something on top of `first`. -/
def Moment.Lawful (first : Ledger) (m : Moment) : Prop :=
  (order false).Upholds (fun _ _ => True) first m

namespace Moment.Lawful

variable {first : Ledger} {m : Moment} {e : Event}

/-- Whatever happens, the law is upheld. -/
theorem after (hm : m.Lawful first) (allowed : m.Allows e) : (m.after e).Lawful first :=
  (governs_free.after hm allowed trivial).1

/-- The board is in order. -/
theorem sound (hm : m.Lawful first) :
    ∃ g : Ledger, m.world.board.Sound false {} (g.terms m.world) := by
  obtain ⟨g, hg, -⟩ := hm
  exact ⟨g, hg⟩

end Moment.Lawful

/-- Every moment of every course is lawful. -/
theorem lawful_of_freeCourse {m : Moment} (course : FreeCourse m) : m.Lawful {} :=
  governs_free.upholds (sound_start false) course

end ToastBoard
