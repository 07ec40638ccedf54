import ToastBoard.Proofs.Addressing
import ToastBoard.Proofs.SelfRemoval
import ToastBoard.Proofs.Shutdown

/-!
# Reports about a name

What the screen reports about a name always reaches somebody: whoever has to release the newest
toast of the name is live and exists, so it hears the report and ends, and its toast with it. Its
listeners may do as they like meanwhile. They may even show the name again, and neither a toast nor
an entry that comes of this is in the way, as no handler that was made before gets an entry back.
-/

namespace ToastBoard

open Talk Board

variable {b b' : Board} {h : HandlerId} {r : RegistryId} {name : String} {o : Outcome}
  {id : ToastId} {strict : Bool} {g : Ledger} {since w w' : World} {may : Bool → Prop}
  {tr : Trace} {a : Option Unit}

/-- A live handler that exists is over once it has heard from the screen. -/
theorem keeps_hear_live (ha : At strict {} g since w) (hl : w.board.phase h = .live)
    (hr : w.board.refersTo h = true) (ho : (h, o) ∈ w.reported) :
    (hear h o w.board).Keeps (order strict) may (Leaves strict may {} g w.board
      fun a w' => a = none ∨ w'.board.phase h = .unregistered) since w := by
  have hheld := ha.hold (h := h) fun _ => hr
  have honward : w.board.Onward (w.board.hold h) := onward_of_handlers rfl
  have hlive : (w.board.hold h).phase h = .live := hl
  have hhandle : (handleOutcome h o (w.board.hold h)).Keeps (order strict) may
      (Leaves strict may {} { g with holds := h :: g.holds } (w.board.hold h)
        fun a w' => a = none ∨ w'.board.phase h = .unregistered) since
      (w.put (w.board.hold h)) := by
    rw [handleOutcome_eq, hlive]
    refine keeps_next (keeps_report hheld hlive ho) (fun _ _ => .inl rfl) ?_
    intro _ since w' ha' hon _
    exact keeps_from (keeps_removeSelf ha' (.inl rfl)) hon fun _ _ _ hp => .inr hp
  rw [hear_eq, if_pos hr]
  refine keeps_holding (keeps_from hhandle honward fun _ _ _ hp => hp) fun _ w' hp => ?_
  exact hp.imp_right ((sameButToasts_letGo h).phase h).trans

namespace Board

/-- A handler that ends by itself has no entry from then on. -/
theorem removeSelf_unlists (hb : b.Filed) (ht : ∀ r, (b.registry r).OnePerName)
    (hv : ∀ r, (b.registry r).owners = 0 → (b.registry r).entries = [])
    (hlt : h < b.handlers.length) : ∃ b', b'.Unlisted h ∧ (removeSelf h b).Ebbs b' := by
  by_cases hs : ∃ r, b.Seated r h
  · obtain ⟨r, hhome, hhas, hcurrent⟩ := hs
    refine ⟨((b.ownRegistry r).takeEntry r (b.handler h).name).2,
      (hb.ebbs (ebbs_ownRegistry r)).takeEntry ?_, ?_⟩
    · rw [← isCurrent_ownRegistry] at hcurrent
      simpa [isCurrent] using hcurrent
    · rw [removeSelf_eq, leaveRegistry_eq, hhome]
      simp only
      rw [if_pos hhas, removeIfCurrent_eq, isCurrent_ownRegistry, if_pos hcurrent]
      have hend := (ebbs_unregister h).thenLetGo h
        ((b.ownRegistry r).takeEntry r (b.handler h).name).2
      have htaken : ((Act.thenLetGo h (unregister h) ((b.ownRegistry r).takeEntry r
          (b.handler h).name).2).andThen fun _ b => .ended (some true) b).Ebbs
          ((b.ownRegistry r).takeEntry r (b.handler h).name).2 :=
        hend.andThen fun _ b => Ebbs.refl b
      refine (htaken.ensuring fun _ => ebbs_disownRegistry r).andThen fun removed d => ?_
      cases removed with
      | true => exact Ebbs.refl d
      | false => exact ebbs_unregister h d
  · refine ⟨b, ⟨hlt, fun {q key} hx => hs ⟨q, ?_⟩⟩, ebbs_removeSelf h b⟩
    obtain ⟨hname, hhome⟩ := hb q key h hx
    refine ⟨hhome, ?_, (isCurrent_iff (ht q)).mpr (hname ▸ hx)⟩
    rw [hasRegistry, decide_eq_true_iff]
    refine Nat.pos_of_ne_zero fun h0 => ?_
    rw [hv q h0] at hx
    cases hx

/-- A toast was released, once, and the handler that had to release it is over and without an
entry. -/
structure Struck (b : Board) (id : ToastId) (h : HandlerId) : Prop where
  /-- The toast was released, once. -/
  released : ∃ t ∈ b.screen.toasts, t.id = id ∧ t.releases = 1
  /-- The handler is over. -/
  ended : b.phase h = .unregistered
  /-- It has nothing to release. -/
  bare : (b.handler h).registration = none
  /-- No entry leads to it. -/
  unlisted : ∀ r, h ∉ (b.registry r).handlers

/-- Nothing has changed but that one toast was released, that the handler that had to release it has
ended, and that its entries were taken out. -/
structure Overlooks (id : ToastId) (h : HandlerId) (b b' : Board) : Prop where
  /-- The other toasts are as they were. -/
  toasts : b'.screen.toasts = b.screen.toasts.map (·.released (some id))
  /-- There are the same handlers. -/
  length : b'.handlers.length = b.handlers.length
  /-- The others are as they were. -/
  handlers : ∀ x ≠ h, b'.handler x = b.handler x
  /-- The other entries are as they were. -/
  entries : ∀ r, (b'.registry r).entries = (b.registry r).entries.filter fun e => e.2 ≠ h

/-- A toast is not released exactly if somebody has to release it. -/
theorem Toasts.unreleased_iff (hb : b.Toasts none none []) {t : Toast}
    (ht : t ∈ b.screen.toasts) :
    t.releases = 0 ↔ ∃ h, (b.handler h).registration = some t.id := by
  constructor
  · intro h0
    rcases hb.owned t ht h0 with hl | hh
    · cases hl
    · exact hh
  · rintro ⟨h, hr⟩
    obtain ⟨u, hu, hid, h0, -⟩ := hb.shown hr
    rwa [hb.eq_of_id ht hu hid.symm]

/-- Where things only ended and only one handler has changed, which has nothing to release any more,
its toast was released and no other one. -/
theorem Toasts.spared (hb : b.Toasts none none []) (hb' : b'.Toasts none none [])
    (he : b.Ebbs b') (hothers : ∀ x ≠ h, b'.handler x = b.handler x)
    (hr : (b.handler h).registration = some id) (hbare : (b'.handler h).registration = none) :
    b'.screen.toasts = b.screen.toasts.map (·.released (some id)) := by
  have hlength : b'.screen.toasts.length = b.screen.toasts.length := he.toasts
  refine List.ext_getElem (by rw [List.length_map, hlength]) fun i hi hi' => ?_
  have hlt : i < b.screen.toasts.length := hlength ▸ hi
  rw [List.getElem_map]
  have hmem := List.getElem_mem hlt
  have hmem' := List.getElem_mem hi
  have hfresh : b'.screen.toasts[i].fresh = b.screen.toasts[i].fresh := by
    have hall := congrArg (fun toasts => toasts[i]?) he.screen.fresh
    simpa only [List.getElem?_map, List.getElem?_eq_getElem hi, List.getElem?_eq_getElem hlt,
      Option.map_some, Option.some.injEq] using hall
  have hid : b'.screen.toasts[i].id = b.screen.toasts[i].id :=
    (congrArg Toast.id hfresh :)
  -- who has to release a toast afterwards is somebody else who had to before
  have howner : (∃ x, (b'.handler x).registration = some b'.screen.toasts[i].id) ↔
      b.screen.toasts[i].id ≠ id ∧
        ∃ x, (b.handler x).registration = some b.screen.toasts[i].id := by
    rw [hid]
    constructor
    · rintro ⟨x, hx⟩
      have hxh : x ≠ h := fun hxh => by
        rw [hxh, hbare] at hx
        cases hx
      rw [hothers x hxh] at hx
      exact ⟨fun hsame => hxh (hb.distinct (hsame ▸ hx) hr), x, hx⟩
    · rintro ⟨hne, x, hx⟩
      have hxh : x ≠ h := fun hxh => hne (Option.some.inj ((hxh ▸ hx).symm.trans hr))
      exact ⟨x, by rw [hothers x hxh, hx]⟩
  rw [← hb'.unreleased_iff hmem', ← hb.unreleased_iff hmem] at howner
  have hle := hb.once _ hmem
  have hle' := hb'.once _ hmem'
  generalize b.screen.toasts[i] = t at *
  generalize b'.screen.toasts[i] = t' at *
  have hreleases : t'.releases = (t.released (some id)).releases := by
    unfold Toast.released
    by_cases hsame : t.id = id
    · have h0 := (hb.unreleased_iff hmem).mpr ⟨h, hsame ▸ hr⟩
      have hno : t'.releases ≠ 0 := fun h0' => (howner.mp h0').1 hsame
      rw [if_pos (congrArg some hsame.symm)]
      simp only
      omega
    · rw [if_neg fun hc => hsame (Option.some.inj hc).symm]
      have hiff : t'.releases = 0 ↔ t.releases = 0 := howner.trans (and_iff_right hsame)
      omega
  have hsame : t'.fresh = (t.released (some id)).fresh := by
    rw [hfresh, Toast.released]
    split <;> rfl
  calc t' = { t'.fresh with releases := t'.releases } := rfl
    _ = { (t.released (some id)).fresh with releases := (t.released (some id)).releases } := by
      rw [hsame, hreleases]
    _ = t.released (some id) := rfl

/-- Where a handler resigns, its entries were taken out and no others. -/
theorem Resigns.entries (hb : b.Filed) (ht : ∀ r, (b.registry r).OnePerName)
    (hv : ∀ r, (b.registry r).owners = 0 → (b.registry r).entries = []) (hr : b.Resigns h b')
    (hp : b.phase h ≠ .unregistered) (hp' : b'.phase h = .unregistered) (r : RegistryId) :
    (b'.registry r).entries = (b.registry r).entries.filter fun e => e.2 ≠ h := by
  rw [hr.table]
  split
  · rename_i hs
    obtain ⟨⟨hhome, -, hcurrent⟩, -⟩ := hs
    have hentry := (isCurrent_iff (ht r)).mp hcurrent
    refine List.filter_congr fun e he => decide_eq_decide.mpr (not_congr ⟨fun hname => ?_, ?_⟩)
    · exact Registry.eq_of_mem_entries (ht r) (hname ▸ he) hentry
    · rintro rfl
      exact (hb r e.1 e.2 he).1.symm
  · rename_i hs
    refine (List.filter_eq_self.mpr fun e he => ?_).symm
    rw [decide_eq_true_iff]
    rintro rfl
    obtain ⟨hname, hhome⟩ := hb r e.1 e.2 he
    refine hs ⟨⟨hhome, ?_, (isCurrent_iff (ht r)).mpr (hname ▸ he)⟩, hp, hp'⟩
    rw [hasRegistry, decide_eq_true_iff]
    refine Nat.pos_of_ne_zero fun h0 => ?_
    rw [hv r h0] at he
    cases he

end Board

section Run

variable (hs : (order false).sound g w) (hf : w.board.Filed)
  (hr : (w.board.handler h).registration = some id) (ho : (h, o) ∈ w.reported)
  (hp : (hear h o w.board).Plays w tr a w')

include hs hf hr ho hp

/-- The handler that has to release a toast has no entry once it has heard from the screen, whatever
its listeners do. -/
theorem unlisted_of_hear (ha : a ≠ none) : w'.board.Unlisted h := by
  have hlive : w.board.phase h = .live := hs.toasts.live hr (Option.some_ne_none _)
  have href : w.board.refersTo h = true := hs.toasts.referred hr List.not_mem_nil
  have hheld : At false {} _ w (w.put (w.board.hold h)) := (At.start hs).hold (h := h) fun _ => href
  rw [hear_eq, if_pos href] at hp
  obtain ⟨v, hv, rfl⟩ := Plays.ensuring (t := handleOutcome h o (w.board.hold h)) hp
  rw [handleOutcome_eq, show (w.board.hold h).phase h = .live from hlive] at hv
  rcases hv.andThen with ⟨hn, -⟩ | ⟨tr₁, tr₂, x, u, rfl, hreport, hself⟩
  · exact absurd hn ha
  have hkeeps : (report h o (w.board.hold h)).Keeps (order false) (fun _ => True) _
      (w.put (w.board.hold h)) (w.put (w.board.hold h)) :=
    keeps_report (At.start hheld.sound) hlive ho
  have hreport' : (report h o (w.board.hold h)).Plays (w.put (w.board.hold h)) tr₁ (some x) u :=
    Plays.put.mpr hreport
  obtain ⟨hu, hsu, -⟩ := hreport'.elapses (fun _ => True) trivial hheld.sound
    (ebbs_report h o _) hkeeps
  have hfu : u.board.Filed := hreport'.keep (fun _ => True) trivial (ebbs_report h o _) hkeeps
    (fun hb he => hb.ebbs he) (fun hpass hs hb => hpass.filed hs hb) hf
  have hlt : h < u.board.handlers.length :=
    Nat.lt_of_lt_of_le (lt_of_registration hr) hu.later.1.length
  obtain ⟨b', hun, hebb⟩ := removeSelf_unlists hfu hsu.tables hsu.books.vacant hlt
  have hend := hself.keep (fun _ => True) trivial hebb (keeps_removeSelf (At.start hsu) (.inl rfl))
    (fun hb he => Unlisted.ebbs hb he) (fun hpass hs hb => hpass.unlisted hs hb) hun
  exact hend.ebbs (ebbs_letGo h)

/-- The handler that has to release a toast is struck once it has heard from the screen, whatever
its listeners do. -/
theorem struck_of_hear : a = some () ∧ w.Elapses tr w' ∧ (order false).sound g w' ∧
    w'.board.Struck id h := by
  have hlive : w.board.phase h = .live := hs.toasts.live hr (Option.some_ne_none _)
  have href : w.board.refersTo h = true := hs.toasts.referred hr List.not_mem_nil
  obtain ⟨hw, hs', hpanic, hpost⟩ := hp.elapses (· = true) rfl hs (ebbs_hear h o w.board)
    (keeps_hear_live (At.start hs) hlive href ho)
  have ha : a ≠ none := fun ha => Bool.noConfusion (hpanic ha)
  have hover := hpost.resolve_left ha
  have hbare := hs'.bare h hover
  have hunlisted := unlisted_of_hear hs hf hr ho hp ha
  refine ⟨Option.eq_some_of_isSome ?_, hw, hs', ?_, hover, hbare, fun r hx => ?_⟩
  · exact Option.isSome_iff_ne_none.mpr ha
  · obtain ⟨hpos, hle⟩ := hs.toasts.recorded hr
    refine hs'.toasts.gone ⟨hpos, Nat.le_trans hle hw.board.toasts⟩ fun x hx => ?_
    rcases hw.board.registration hx with hold | hnew
    · rw [hs.toasts.distinct hold hr, hbare] at hx
      cases hx
    · exact absurd hle (Nat.not_le_of_lt hnew)
  · obtain ⟨name, he⟩ := Registry.mem_handlers.mp hx
    exact hunlisted.entries he

/-- If its listeners only return, nothing else has changed. -/
theorem overlooks_of_hear (htr : tr = []) : Overlooks id h w.board w'.board := by
  subst htr
  obtain ⟨rfl, -, hs', hstruck⟩ := struck_of_hear hs hf hr ho hp
  have hlive : w.board.phase h = .live := hs.toasts.live hr (Option.some_ne_none _)
  obtain ⟨d, hd, hresigns, -⟩ := resigns_hear h o w.board
  have hquiet := hp.quiet
  have hsame : w'.board = d := congrArg Prod.snd (hquiet.symm.trans hd)
  have hebb : w.board.Ebbs w'.board := by
    have hall := (ebbs_hear h o w.board).quietly
    rwa [hquiet] at hall
  rw [← hsame] at hresigns
  have hne : w.board.phase h ≠ .unregistered := by rw [hlive]; exact Phase.noConfusion
  exact ⟨hs.toasts.spared hs'.toasts hebb hresigns.others hr hstruck.bare, hebb.length,
    hresigns.others, hresigns.entries hf hs.tables hs.books.vacant hne hstruck.ended⟩

end Run

/-- What comes of a report about a name whose newest toast is known. -/
theorem plays_emit {t : Toast} {a : Option Bool} (hs : (order false).sound g w)
    (hf : w.board.Filed) (hsink : w.board.screen.sinkOf? name = some h)
    (hr : (w.board.handler h).registration = some t.id) (ho : (h, o) ∈ w.reported)
    (hp : (emit name o w.board).Plays w tr a w') :
    a = some true ∧ w'.board.Struck t.id h ∧
      (tr = [] → Overlooks t.id h w.board w'.board) := by
  rw [emit_eq, hsink] at hp
  rcases hp.andThen with ⟨-, hpanic⟩ | ⟨tr₁, tr₂, _, v, rfl, hhear, hend⟩
  · cases (struck_of_hear hs hf hr ho hpanic).1
  · cases hend
    obtain ⟨-, -, -, hstruck⟩ := struck_of_hear hs hf hr ho hhear
    refine ⟨rfl, hstruck, fun htr => ?_⟩
    exact overlooks_of_hear hs hf hr ho hhear (List.append_eq_nil_iff.mp htr).1

/-- At every moment of a course in which things are left to coordinators, whoever panics in it,
toasts are numbered from 1 on, and the screen remembers somebody for exactly those that are not
released. A report about a name returns whether there is a toast of the name that is not released.
If so, the newest of them is released in the end, once, and the handler that had to release it is
over and without an entry, whatever listeners do but panic; if they only return, nothing else has
changed. If not, nothing changes at all. -/
theorem reports_strike_newest_toast {m : Moment} (course : Course (fun _ e => e.Coordinated) m) :
    m.world.board.screen.toasts.map (·.id) = List.range' 1 m.world.board.screen.toasts.length ∧
    m.world.board.screen.sinks.map (·.1) = m.world.board.screen.unreleased.map (·.id) ∧
    ∀ name outcome,
      (∀ tr a w', (emit name outcome m.world.board).Plays
        ((Deed.emit name outcome).start m.world) tr a w' → a = some
          (decide (∃ t ∈ m.world.board.screen.toasts, t.name = name ∧ t.releases = 0))) ∧
      ((∃ t ∈ m.world.board.screen.toasts, t.name = name ∧ t.releases = 0) →
        ∃ t h, m.world.board.screen.Newest name t ∧
          (m.world.board.handler h).registration = some t.id ∧
          (∀ tr a w', (emit name outcome m.world.board).Plays
            ((Deed.emit name outcome).start m.world) tr a w' →
              w'.board.Struck t.id h ∧ (tr = [] → Overlooks t.id h m.world.board w'.board)) ∧
          ∃ w', (emit name outcome m.world.board).Plays
            ((Deed.emit name outcome).start m.world) [] (some true) w') ∧
      ((¬∃ t ∈ m.world.board.screen.toasts, t.name = name ∧ t.releases = 0) →
        emit name outcome m.world.board = .ended (some false) m.world.board) := by
  obtain ⟨g, hsound⟩ := sound_of_freeCourse course.free
  have haimed := aimed_of_freeCourse course.free
  refine ⟨hsound.toasts.ids, haimed.tracked, fun name outcome => ?_⟩
  have hstart : (order false).sound g ((Deed.emit name outcome).start m.world) :=
    hsound.later ((Deed.emit name outcome).reports m.world.board)
  by_cases hex : ∃ t ∈ m.world.board.screen.toasts, t.name = name ∧ t.releases = 0
  · obtain ⟨t, hnewest⟩ : ∃ t, m.world.board.screen.Newest name t := by
      obtain ⟨u, hu, hname, h0⟩ := hex
      cases hfind : m.world.board.screen.newest? name with
      | none =>
        have hmiss := List.find?_eq_none.mp hfind u (List.mem_reverse.mpr hu)
        exact absurd (by simp [hname, h0]) hmiss
      | some t => exact ⟨t, (Screen.newest?_eq_some_iff hsound.toasts.ids).mp hfind⟩
    obtain ⟨h, hsink, hr⟩ := haimed.sinkOf hsound.toasts hnewest
    have hreported : (h, outcome) ∈ ((Deed.emit name outcome).start m.world).reported :=
      List.mem_append_right _ (by simp [Deed.reports, hsink])
    have hplays : ∀ {tr a w'}, (emit name outcome m.world.board).Plays
        ((Deed.emit name outcome).start m.world) tr a w' → a = some true ∧
          w'.board.Struck t.id h ∧ (tr = [] → Overlooks t.id h m.world.board w'.board) :=
      fun hp => plays_emit (w := (Deed.emit name outcome).start m.world) hstart
        (filed_of_course course) hsink hr hreported hp
    have hquiet := (emit name outcome m.world.board).plays_quietly
      ((Deed.emit name outcome).start m.world)
    refine ⟨fun tr a w' hp => ?_,
      fun _ => ⟨t, h, hnewest, hr, fun tr a w' hp => (hplays hp).2, ?_⟩,
      fun hno => absurd hex hno⟩
    · rw [(hplays hp).1, decide_eq_true hex]
    · rw [(hplays hquiet).1] at hquiet
      exact ⟨_, hquiet⟩
  · have hnothing : emit name outcome m.world.board = .ended (some false) m.world.board := by
      rw [emit_eq, Screen.sinkOf?,
        Screen.newest?_eq_none fun t ht hname h0 => hex ⟨t, ht, hname, h0⟩]
      rfl
    refine ⟨fun tr a w' hp => ?_, fun hc => absurd hc hex, fun _ => hnothing⟩
    rw [hnothing] at hp
    cases hp
    rw [decide_eq_false hex]

/-- Two coordinators show an alert of the same name, and both are live; the listener of the first
one has panicked. -/
def shownByTwo : List Event :=
  [.deed (.setUp {} { supported := true, identity := .ok "id" }),
    .deed (.setUp {} { supported := true, identity := .ok "id" }),
    .deed (.showAlert 0 (Alert.asSource (plainAlert "a")) (some 0)), .deed (.advance 0),
    .deed (.finish 0), .reply false,
    .deed (.showAlert 1 (Alert.asSource (plainAlert "a")) (some 1)), .deed (.advance 1),
    .deed (.finish 1), .reply true]

/-- The alert of the second coordinator is clicked, and its listener shows another one of the name,
which displaces it; told of the end, the listener makes the worker register the new one. -/
theorem reports_strike_newest_toast_again :
    Course (fun _ e => e.Coordinated) (shownByTwo.foldl Moment.after {}) ∧ ∃ tr w',
      (emit "a" (.activated none) (shownByTwo.foldl Moment.after {}).world.board).Plays
        ((Deed.emit "a" (.activated none)).start (shownByTwo.foldl Moment.after {}).world) tr
          (some true) w' ∧
      w'.board.Struck 2 1 ∧ w'.board.screen.toasts.map (·.releases) = [0, 1, 0] ∧
      [0, 1].map (fun r => (w'.board.registry r).entries) = [[("a", 0)], [("a", 2)]] ∧
      [0, 1, 2].map w'.board.phase = [.live, .unregistered, .live] := by
  have hcourse : Course (fun _ e => e.Coordinated) (shownByTwo.foldl Moment.after {}) := by
    refine Course.start.follow ⟨trivial, trivial, trivial, trivial, ?_, trivial, trivial, trivial,
      trivial, trivial, List.cons_ne_nil _ _, trivial, List.mem_cons_self, trivial, trivial,
      trivial, trivial, trivial, List.cons_ne_nil _ _, trivial, trivial⟩
    exact List.mem_cons_of_mem _ List.mem_cons_self
  obtain ⟨tr, w', hplays, hreleases, hentries, hphases⟩ : ∃ tr w',
      (emit "a" (.activated none) (shownByTwo.foldl Moment.after {}).world.board).Plays
        ((Deed.emit "a" (.activated none)).start (shownByTwo.foldl Moment.after {}).world) tr
          (some true) w' ∧
      w'.board.screen.toasts.map (·.releases) = [0, 1, 0] ∧
      [0, 1].map (fun r => (w'.board.registry r).entries) = [[("a", 0)], [("a", 2)]] ∧
      [0, 1, 2].map w'.board.phase = [.live, .unregistered, .live] := by
    refine ⟨_, _, .told ⟨[.deed (.showAlert 1 (Alert.asSource (plainAlert "a")) (some 2)),
      .deed (.advance 1), .deed (.finish 1), .reply true, .reply true], ?_, rfl, rfl⟩ .ended,
      rfl, rfl, rfl⟩
    exact ⟨List.mem_cons_self, trivial, trivial, trivial, trivial, trivial,
      List.cons_ne_nil _ _, rfl, List.cons_ne_nil _ _, rfl, trivial⟩
  obtain ⟨-, hsome, -⟩ := (reports_strike_newest_toast hcourse).2.2 "a" (.activated none)
  obtain ⟨t, h, hnewest, hr, hruns, -⟩ := hsome ⟨_, List.mem_cons_self, rfl, rfl⟩
  have hid : t.id = 2 := by
    have hge : 2 ≤ t.id := hnewest.last _ (List.mem_cons_of_mem _ List.mem_cons_self) rfl rfl
    have hmem : t.id ∈ [1, 2] := List.mem_map.mpr ⟨t, hnewest.mem, rfl⟩
    rcases List.mem_cons.mp hmem with hid | hid
    · rw [hid] at hge
      exact absurd hge (by decide)
    · exact List.mem_singleton.mp hid
  rw [hid] at hr
  have hstruck := (hruns tr _ w' hplays).1
  obtain ⟨g, hsound⟩ := sound_of_freeCourse hcourse.free
  rw [hid, show h = 1 from hsound.toasts.distinct hr rfl] at hstruck
  exact ⟨hcourse, tr, w', hplays, hstruck, hreleases, hentries, hphases⟩

end ToastBoard
