import Mathlib.Data.List.Nodup
import ToastBoard.Proofs.Callbacks

/-!
# Whom the screen tells, and where handlers stand

Two tables lead to handlers. The screen remembers somebody for exactly the toasts that are not
released, and that is the handler that has to release the toast. Where things are left to
coordinators, an entry stands under the name of its handler, in the registry to which the handler
leads. Both are kept by whatever only ends things, so it is enough to look at what an event starts
with.
-/

namespace ToastBoard

open Board

variable {b b' since : Board} {h : HandlerId} {r : RegistryId} {name : String} {m : Moment}
  {e : Event} {w w' : World} {tr : Trace} {g : Ledger} {α : Type} {t : Toast}

/-- Somebody comes out of a registration, or nothing new is remembered or to be released. -/
theorem Event.Starts.dims_or_ripens (hs : e.Starts b b') :
    (b.screen.Dims b'.screen ∧ ∀ {x id}, (b'.handler x).registration = some id →
      (b.handler x).registration = some id) ∨ ∃ h, b.Ripens h b' := by
  cases hs with
  | still => exact .inl ⟨.refl _, id⟩
  | made fields listener registry =>
    have hcreate := readied_create b { fields, listener, registry } rfl rfl
    exact .inl ⟨hcreate.screen, hcreate.registration⟩
  | shown c source listener hshown => exact .inl ⟨hshown.screen, hshown.registration⟩
  | installed r name x =>
    rw [install_eq]
    exact .inl ⟨.refl _, id⟩
  | restored r name x previous =>
    obtain ⟨registries, hrest⟩ := ebbs_restore b r name x previous
    exact .inl ⟨hrest.screen, hrest.registration⟩
  | submitted s x =>
    obtain ⟨-, hscreen, -, -, hstored⟩ := submit_rest b s x
    exact .inl ⟨hscreen ▸ .refl _, fun {y _} hr => (hstored y).1 ▸ hr⟩
  | setUp settings host =>
    have hhandler : ∀ x, (b.setUp settings host).2.handler x = b.handler x := fun x => by
      rw [handler, handlers_setUp, handler]
    refine .inl ⟨?_, fun {x _} hr => hhandler x ▸ hr⟩
    rcases setUp_cases b settings host with ⟨worker, identity, -, he⟩ | ⟨he, -⟩
    · rw [he]
      exact .refl _
    · rw [he]
      exact .refl _
  | ripened hin hripe => exact .inr ⟨_, hripe⟩

namespace Board

/-- Toasts are numbered from 1 on. -/
theorem Toasts.ids {unsettled : Option HandlerId} {loose : Option ToastId}
    {doubtful : List HandlerId} (hb : b.Toasts unsettled loose doubtful) :
    b.screen.toasts.map (·.id) = List.range' 1 b.screen.toasts.length := by
  refine List.ext_getElem (by simp) fun i hi hi' => ?_
  rw [List.getElem_map, List.getElem_range', Nat.one_mul, Nat.add_comm]
  exact hb.numbered (List.getElem?_eq_getElem _)

/-- The screen remembers somebody for exactly the toasts that are not released, and that is the
handler that has to release the toast. -/
structure Aimed (b : Board) : Prop where
  /-- It remembers somebody for exactly the toasts that are not released. -/
  tracked : b.screen.Tracked
  /-- Whoever has to release a toast is the one it remembers. -/
  owner : ∀ {id x h}, (id, x) ∈ b.screen.sinks → (b.handler h).registration = some id → h = x

namespace Aimed

/-- It does while things only end. -/
theorem dims (hb : b.Aimed) (hd : b.screen.Dims b'.screen)
    (hr : ∀ {x id}, (b'.handler x).registration = some id →
      (b.handler x).registration = some id) : b'.Aimed :=
  ⟨hd.tracked hb.tracked, fun hx hh => hb.owner (hd.sinks hx) (hr hh)⟩

/-- Whom the screen remembers for a toast that was recorded. -/
theorem recorded (hb : b.Aimed) (ht : b.Toasts none none []) {id : ToastId} {x : HandlerId}
    (hx : (id, x) ∈ b.screen.sinks) : id ≤ b.screen.toasts.length := by
  have hid : id ∈ b.screen.sinks.map (·.1) := List.mem_map.mpr ⟨_, hx, rfl⟩
  rw [hb.tracked] at hid
  obtain ⟨t, hmem, rfl⟩ := List.mem_map.mp hid
  have hnumbers : t.id ∈ b.screen.toasts.map (·.id) :=
    List.mem_map.mpr ⟨t, (List.mem_filter.mp hmem).1, rfl⟩
  rw [ht.ids] at hnumbers
  exact Nat.lt_one_add_iff.mp (List.mem_range'_1.mp hnumbers).2

/-- It does when somebody comes out of a registration: what is new belongs together. -/
theorem ripens (hb : b.Aimed) (ht : b.Toasts none none []) (hr : b.Ripens h b') : b'.Aimed := by
  refine ⟨hr.tracked hb.tracked, fun {id x y} hx hy => ?_⟩
  by_cases hyh : y = h
  · subst hyh
    rcases hr.sinks hx, hr.registration hy with ⟨hold | ⟨hnew, -⟩, hreg | hlt⟩
    · exact hb.owner hold hreg
    · exact absurd (hb.recorded ht hold) (Nat.not_le_of_lt hlt)
    · exact hnew.symm
    · exact hnew.symm
  · rw [hr.other y hyh] at hy
    rcases hr.sinks hx with hold | ⟨-, hlt⟩
    · exact hb.owner hold hy
    · exact absurd (ht.recorded hy).2 (Nat.not_le_of_lt hlt)

end Aimed

end Board

/-- At every moment of every course the screen remembers whom it has to. -/
theorem aimed_of_freeCourse (course : FreeCourse m) : m.world.board.Aimed := by
  induction course with
  | start => exact ⟨rfl, fun hx => by cases hx⟩
  | @step m course e allowed _ ih =>
    obtain ⟨⟨b', hstarts, hebb⟩, -⟩ := (tame_of_freeCourse course).turn allowed
    obtain ⟨g, hsound⟩ := sound_of_freeCourse course
    have hb' : b'.Aimed := by
      rcases hstarts.dims_or_ripens with ⟨hdims, hreg⟩ | ⟨x, hripe⟩
      · exact ih.dims hdims hreg
      · exact ih.ripens hsound.toasts hripe
    exact hb'.dims hebb.screen hebb.registration

namespace Screen

/-- The newest toast of a name that is not released. -/
structure Newest (screen : Screen) (name : String) (t : Toast) : Prop where
  /-- It was recorded. -/
  mem : t ∈ screen.toasts
  /-- It shows an alert of the name. -/
  named : t.name = name
  /-- It is not released. -/
  unreleased : t.releases = 0
  /-- No other one is newer. -/
  last : ∀ t' ∈ screen.toasts, t'.name = name → t'.releases = 0 → t'.id ≤ t.id

/-- What the screen looks for is the newest toast of a name. -/
theorem newest?_eq_some_iff {screen : Screen}
    (hids : screen.toasts.map (·.id) = List.range' 1 screen.toasts.length) :
    screen.newest? name = some t ↔ screen.Newest name t := by
  have hsorted : screen.toasts.Pairwise fun t t' => t.id < t'.id := by
    have hpairs := List.pairwise_lt_range' (s := 1) (n := screen.toasts.length) 1
    rwa [← hids, List.pairwise_map] at hpairs
  have hback : screen.toasts.reverse.Pairwise fun t t' => t'.id < t.id :=
    List.pairwise_reverse.mpr hsorted
  have hpred : ∀ u : Toast, (u.name == name && u.releases == 0) = true ↔
      u.name = name ∧ u.releases = 0 := by simp
  have hfound : ∀ {u}, screen.newest? name = some u → screen.Newest name u := by
    intro u hfind
    obtain ⟨hp, before, after, hsplit, hno⟩ := List.find?_eq_some_iff_append.mp hfind
    obtain ⟨hname, h0⟩ := (hpred u).mp hp
    refine ⟨?_, hname, h0, fun v hv hvn hv0 => ?_⟩
    · rw [← List.mem_reverse, hsplit]
      exact List.mem_append_right _ List.mem_cons_self
    · rw [← List.mem_reverse, hsplit] at hv
      rw [hsplit] at hback
      rcases List.mem_append.mp hv with hv | hv
      · have hmiss := hno v hv
        rw [(hpred v).mpr ⟨hvn, hv0⟩] at hmiss
        cases hmiss
      · rcases List.mem_cons.mp hv with rfl | hv
        · exact Nat.le_refl _
        · exact Nat.le_of_lt ((List.pairwise_cons.mp (List.pairwise_append.mp hback).2.1).1 v hv)
  refine ⟨hfound, fun ht => ?_⟩
  cases hfind : screen.newest? name with
  | none =>
    have hmiss := List.find?_eq_none.mp hfind t (List.mem_reverse.mpr ht.mem)
    exact absurd ((hpred t).mpr ⟨ht.named, ht.unreleased⟩) hmiss
  | some u =>
    have hu := hfound hfind
    have hsame : u.id = t.id := Nat.le_antisymm (ht.last u hu.mem hu.named hu.unreleased)
      (hu.last t ht.mem ht.named ht.unreleased)
    have hnodup : (screen.toasts.map (·.id)).Nodup := hids ▸ List.nodup_range'
    exact congrArg some (List.inj_on_of_nodup_map hnodup hu.mem ht.mem hsame)

/-- The screen finds nothing where no toast of a name is left. -/
theorem newest?_eq_none {screen : Screen} (hno : ∀ t ∈ screen.toasts, t.name = name →
    t.releases ≠ 0) : screen.newest? name = none := by
  refine List.find?_eq_none.mpr fun t ht hp => ?_
  obtain ⟨hname, h0⟩ : t.name = name ∧ t.releases = 0 := by simpa using hp
  exact hno t (List.mem_reverse.mp ht) hname h0

end Screen

/-- The screen tells the one who has to release the newest toast of a name. -/
theorem Board.Aimed.sinkOf (hb : b.Aimed) (hs : b.Toasts none none [])
    (ht : b.screen.Newest name t) : ∃ h, b.screen.sinkOf? name = some h ∧
      (b.handler h).registration = some t.id := by
  rcases hs.owned t ht.mem ht.unreleased with hl | ⟨h, hr⟩
  · cases hl
  have hid : t.id ∈ b.screen.sinks.map (·.1) := by
    rw [hb.tracked]
    exact List.mem_map.mpr ⟨t, List.mem_filter.mpr ⟨ht.mem, by simp [ht.unreleased]⟩, rfl⟩
  refine ⟨h, ?_, hr⟩
  rw [Screen.sinkOf?, (Screen.newest?_eq_some_iff hs.ids).mpr ht]
  cases hlookup : b.screen.sinks.lookup t.id with
  | none =>
    obtain ⟨sink, hsink, he⟩ := List.mem_map.mp hid
    exact absurd he.symm (bne_iff_ne.mp (List.lookup_eq_none_iff.mp hlookup sink hsink))
  | some x =>
    obtain ⟨before, after, hsplit, -⟩ := List.lookup_eq_some_iff.mp hlookup
    have hmem : (t.id, x) ∈ b.screen.sinks := hsplit ▸ List.mem_append_right _ List.mem_cons_self
    exact hlookup.trans (congrArg some (hb.owner hmem hr).symm)

namespace Board

/-- Every entry stands where its handler belongs. -/
def Filed (b : Board) : Prop :=
  ∀ r name h, (name, h) ∈ (b.registry r).entries → (b.handler h).Belongs r name

/-- No entry leads to a handler that was made. -/
structure Unlisted (h : HandlerId) (b : Board) : Prop where
  /-- It was made. -/
  made : h < b.handlers.length
  /-- No entry leads to it. -/
  entries : ∀ {r name}, (name, h) ∉ (b.registry r).entries

/-- No entry is misplaced while things only end. -/
theorem Filed.ebbs (hb : b.Filed) (he : b.Ebbs b') : b'.Filed :=
  fun r name x hx => (hb r name x (he.entries hx)).of_origin (he.origin x)

/-- No entry is made while things only end. -/
theorem Unlisted.ebbs (hb : b.Unlisted h) (he : b.Ebbs b') : b'.Unlisted h :=
  ⟨he.length ▸ hb.made, fun hx => hb.entries (he.entries hx)⟩

/-- A handler that belongs somewhere was made. -/
theorem lt_of_belongs (hb : (b.handler h).Belongs r name) : h < b.handlers.length := by
  by_contra hge
  obtain ⟨-, hregistry⟩ := hb
  rw [handler_of_le (Nat.le_of_not_lt hge)] at hregistry
  cases hregistry

/-- Whoever is taken out from under a name has no other entry. -/
theorem Filed.takeEntry (hb : b.Filed) (hc : b.current? r name = some h) :
    (b.takeEntry r name).2.Unlisted h := by
  have hentry := Registry.mem_of_get? hc
  have hhome := hb r name h hentry
  refine ⟨?_, fun {q key} hx => ?_⟩
  · rw [takeEntry_eq]
    exact lt_of_belongs hhome
  obtain ⟨hmem, hkey⟩ := mem_takeEntry.mp hx
  have hthere := hb q key h hmem
  exact hkey ⟨Option.some.inj (hthere.2.symm.trans hhome.2), hthere.1.symm.trans hhome.1⟩

end Board

/-- An event that leaves things to coordinators or gives one up misplaces no entry. -/
theorem Moment.Tame.filed {first : Ledger} (hm : m.Tame first) (allowed : m.Allows e)
    (he : e.Coordinated ∨ ∃ c, e = .deed (.dropCoordinator c)) (hb : m.world.board.Filed) :
    (m.after e).world.board.Filed := by
  obtain ⟨⟨b', hstarts, hebb⟩, -⟩ := hm.turn allowed
  obtain ⟨honward, -⟩ := hm.lawful.turn allowed
  intro r name x hx
  rcases hstarts.entries allowed (hebb.entries hx) with hold | ⟨-, -, hbelongs, -⟩ |
    ⟨-, hno, hkept⟩
  · have hbelongs := hb r name x hold
    have hlt := lt_of_belongs hbelongs
    exact hbelongs.of_origin (Prod.ext (honward.fields x hlt) (honward.registry x hlt))
  · exact hbelongs.of_origin (hebb.origin x)
  · exact (he.elim hno fun ⟨c, hc⟩ => hkept c hc).elim

/-- Whatever is permitted in a course, it is a free one. -/
theorem Course.free {permitted : Moment → Event → Prop} (course : Course permitted m) :
    FreeCourse m := by
  induction course with
  | start => exact .start
  | step _ e allowed _ ih => exact ih.step e allowed trivial

/-- Where things are left to coordinators no entry is misplaced. -/
theorem filed_of_course (course : Course (fun _ e => e.Coordinated) m) :
    m.world.board.Filed := by
  induction course with
  | start => exact fun r name x hx => by cases hx
  | step course e allowed he ih => exact (tame_of_freeCourse course.free).filed allowed (.inl he) ih

namespace World.Passes

/-- No entry is misplaced while a listener acts. -/
theorem filed (hp : w.Passes tr w') (hs : (order false).sound g w) (hb : w.board.Filed) :
    w'.board.Filed := by
  obtain ⟨events, ho, -, hend⟩ := hp
  have htame : (⟨w, []⟩ : Moment).Tame g := ⟨⟨g, hs, .nil⟩, List.forall_mem_nil _⟩
  have hall : ∀ {m : Moment} {events}, m.Tame g → m.world.board.Filed →
      Course.Open Calm m events → (events.foldl Moment.after m).world.board.Filed := by
    intro m events hm hb ho
    induction events generalizing m with
    | nil => exact hb
    | cons e rest ih =>
      obtain ⟨allowed, hcalm, hrest⟩ := ho
      exact ih (hm.turn allowed).2 (hm.filed allowed (.inl hcalm.coordinated) hb) hrest
  have hfiled := hall htame hb ho
  rwa [hend] at hfiled

/-- Nobody gets an entry back while a listener acts. -/
theorem unlisted (hp : w.Passes tr w') (hs : (order false).sound g w) (hb : w.board.Unlisted h) :
    w'.board.Unlisted h := by
  obtain ⟨hpassed, -⟩ := hp.elapses hs
  refine ⟨Nat.lt_of_lt_of_le hb.made hpassed.later.1.length, fun hx => ?_⟩
  rcases hpassed.board.entries hx with hold | ⟨-, hle, -⟩
  · exact hb.entries hold
  · exact absurd hb.made (Nat.not_lt_of_le hle)

end World.Passes

namespace Talk.Plays

variable {a : Option α} {talk : Talk Board Telling α} {start : Board}
  {P : Option α → World → Prop}

/-- What is kept while things only end, and while a listener acts, is kept by a run. -/
theorem keep {Q : Board → Prop} (hp : talk.Plays w tr a w') (may : Bool → Prop) (hm : may true)
    (he : talk.Ebbs since)
    (hk : talk.Keeps (order false) may (Leaves false may {} g start P) w w)
    (hebb : ∀ {b b' : Board}, Q b → b.Ebbs b' → Q b')
    (hpass : ∀ {w w' : World} {tr : Trace} {g : Ledger}, w.Passes tr w' → (order false).sound g w →
      Q w.board → Q w'.board) (hq : Q since) : Q w'.board := by
  induction hp generalizing since with
  | ended => exact hebb hq he
  | told passes rest ih =>
    obtain ⟨-, g', hsound, hresume⟩ := hk
    obtain ⟨hpassed, hkept⟩ := passes.elapses hsound
    exact ih (he.2 true _) (hresume true _ hm hpassed.later hkept)
      (hpass passes hsound (hebb hq he.1))

/-- A run in which no listener does anything is what comes of listeners that only return. -/
theorem quiet (hp : talk.Plays w [] a w') : talk.quietly = (a, w'.board) := by
  generalize htr : ([] : Trace) = tr at hp
  induction hp with
  | ended => rfl
  | @told w w' w'' m b resume tr tr' a passes rest ih =>
    obtain ⟨htr, htr'⟩ := List.append_eq_nil_iff.mp htr.symm
    obtain ⟨events, -, htrace, hend⟩ := passes
    cases events with
    | nil =>
      have hsame : w'.board = b := (congrArg (fun m => m.world.board) hend).symm
      rw [Talk.quietly, ← hsame]
      exact ih htr'.symm
    | cons e rest =>
      rw [htr] at htrace
      cases htrace

end Talk.Plays

/-- Listeners may always do nothing but return. -/
theorem Talk.plays_quietly (talk : Talk Board Telling α) (w : World) :
    talk.Plays w [] talk.quietly.1 (w.put talk.quietly.2) := by
  induction talk generalizing w with
  | ended a b => exact .ended
  | told m b resume ih =>
    have hpass : (w.put b).Passes [] (w.put b) := ⟨[], trivial, rfl, rfl⟩
    exact Plays.told hpass (ih true b (w.put b))

/-- Nothing comes to life in a computation whose listeners only return. -/
theorem Talk.Ebbs.quietly {talk : Talk Board Telling α} (he : talk.Ebbs since) :
    since.Ebbs talk.quietly.2 := by
  induction talk generalizing since with
  | ended a b => exact he
  | told m b resume ih => exact Board.Ebbs.trans he.1 (ih true b (he.2 true b))

end ToastBoard
