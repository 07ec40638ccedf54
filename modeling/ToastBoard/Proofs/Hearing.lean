import ToastBoard.Proofs.Upkeep

/-!
# Hearing from the screen

How order is kept when a handler ends by itself, and when it hears from the screen: a live handler
reports what it heard and ends, whatever its listener does meanwhile, and a handler that is being
registered keeps it for later.
-/

namespace ToastBoard

open Talk Board

variable {strict : Bool} {k : Slack} {g : Ledger} {since w : World} {may : Bool → Prop}
  {h : HandlerId} {r : RegistryId} {o : Outcome}

namespace Board

variable {b : Board}

/-- A registry that gets an owner and loses one is as it was. -/
theorem disownRegistry_ownRegistry (hr : 0 < (b.registry r).owners) :
    (b.ownRegistry r).disownRegistry r = b := by
  have hsame : (b.ownRegistry r).updateRegistry r
      (fun reg => { reg with owners := reg.owners - 1 }) = b := by
    unfold ownRegistry updateRegistry
    rw [List.modify_modify_eq]
    exact congrArg (fun registries => { b with registries }) (List.modify_id _ _)
  unfold disownRegistry
  rw [hsame, if_pos (by simpa [hasRegistry] using hr)]

/-- Another owner changes nothing about who is current. -/
theorem isCurrent_ownRegistry (name : String) :
    (b.ownRegistry r).isCurrent r name h = b.isCurrent r name h := by
  rw [isCurrent, current?, Registry.get?, entries_ownRegistry]
  rfl

/-- Leaving the own registry, step by step. -/
theorem leaveRegistry_eq (h : HandlerId) (b : Board) : leaveRegistry h b =
    match (b.handler h).registry with
    | none => .ended (some false) b
    | some r => if b.hasRegistry r = true then
        (removeIfCurrent r (b.handler h).name h (b.ownRegistry r)).ensuring (·.disownRegistry r)
      else .ended (some false) b := by
  change (match (b.handler h).registry with
    | none => (pure false : Act Bool)
    | some r => (Action.ask fun b : Board => b.hasRegistry r).andThen fun there =>
      if there = true then Act.owning r (removeIfCurrent r (b.handler h).name h) else pure false) b
        = _
  cases (b.handler h).registry with
  | none => rfl
  | some r =>
    change (if b.hasRegistry r = true then Act.owning r (removeIfCurrent r (b.handler h).name h)
      else pure false) b = if b.hasRegistry r = true then _ else _
    split <;> rfl

/-- Ending by itself, step by step. -/
theorem removeSelf_eq (h : HandlerId) (b : Board) : removeSelf h b =
    (leaveRegistry h b).andThen fun removed =>
      if removed = true then (pure () : Act Unit) else unregister h := rfl

/-- A handler that is not the current one in its registry only ends. -/
theorem removeSelf_away (hno : ∀ r, (b.handler h).registry = some r →
    b.isCurrent r (b.handler h).name h = false) : removeSelf h b = unregister h b := by
  have hleave : leaveRegistry h b = .ended (some false) b := by
    rw [leaveRegistry_eq]
    cases hreg : (b.handler h).registry with
    | none => rfl
    | some r =>
      simp only
      split
      · rename_i hr
        have hown : 0 < (b.registry r).owners := by simpa [hasRegistry] using hr
        rw [removeIfCurrent_eq, isCurrent_ownRegistry, hno r hreg,
          if_neg Bool.false_ne_true, Talk.ensuring, disownRegistry_ownRegistry hown]
      · rfl
  rw [removeSelf_eq, hleave]
  rfl

end Board

/-- A computation gives up a registry in which some handler is at home. -/
theorem At.disownHome (ha : At strict k { g with owns := r :: g.owns } since w)
    (hlt : h < w.board.handlers.length) (hreg : (w.board.handler h).registry = some r) :
    At strict k g since (w.put (w.board.disownRegistry r)) := by
  refine ha.disown fun hs => ?_
  obtain ⟨c, hc, he⟩ := (ha.sound.agreed hs).home h hlt
  have hpos := ha.sound.books.pos_of_master (List.mem_append_right _ hc)
  have hback := mem_backing hpos
  have hcount := List.count_pos_iff.mpr hback
  have howned := ha.sound.books.owned r
  rw [hreg] at he
  rw [← Option.some.inj he] at hcount
  simp only [Ledger.terms, List.cons_append, List.count_cons_self] at howned
  omega

/-- A handler that ends by itself is over, whatever its listener does. -/
theorem keeps_removeSelf (ha : At strict k g since w) (hk : k.Only w.board h) :
    (removeSelf h w.board).Keeps (order strict) may
      (Leaves strict may {} g w.board fun _ w => w.board.phase h = .unregistered) since w := by
  by_cases hcur : ∃ r, (w.board.handler h).registry = some r ∧
      w.board.isCurrent r (w.board.handler h).name h = true
  · obtain ⟨r, hreg, hcur⟩ := hcur
    have hentry := (isCurrent_iff (ha.sound.tables r)).mp hcur
    have hpos : 0 < (w.board.registry r).owners := by
      by_contra h0
      rw [ha.sound.books.vacant r (Nat.eq_zero_of_not_pos h0)] at hentry
      cases hentry
    have hlt : h < w.board.handlers.length := by
      by_contra hge
      rw [handler_of_le (Nat.le_of_not_lt hge)] at hreg
      cases hreg
    have hown : w.board.Onward (w.board.ownRegistry r) := onward_of_handlers rfl
    have hremove : (removeIfCurrent r (w.board.handler h).name h
        (w.board.ownRegistry r)).Keeps (order strict) may _ since
          (w.put (w.board.ownRegistry r)) :=
      keeps_removeIfCurrent (ha.own hpos) hk (by
        rw [World.put_board, isCurrent_ownRegistry]
        exact hcur)
    have hfrom := keeps_from hremove hown fun _ _ _ hp => hp
    rw [removeSelf_eq, leaveRegistry_eq, hreg]
    simp only
    rw [if_pos (by simpa [hasRegistry] using hpos)]
    refine keeps_next (P := fun a w => a ≠ some false ∧ w.board.phase h = .unregistered)
      (keeps_put.mp (keeps_finally hfrom ?_)) (fun w hp => hp.2) ?_
    · intro since a w' ha' ho hp
      have hquiet := disownRegistry_quiet w'.board r
      have hover := hquiet.1.over (Nat.lt_of_lt_of_le hlt ho.length) hp.2
      exact ⟨ha'.disownHome (Nat.lt_of_lt_of_le hlt ho.length) ((ho.registry h hlt).trans hreg),
        hquiet.1, hp.1, hover⟩
    · rintro removed since w' ha' ho ⟨hne, hp⟩
      cases removed with
      | false => exact absurd rfl hne
      | true => exact keeps_ended ha' ho hp
  · have hno : ∀ r, (w.board.handler h).registry = some r →
        w.board.isCurrent r (w.board.handler h).name h = false :=
      fun r hreg => Bool.eq_false_iff.mpr fun hc => hcur ⟨r, hreg, hc⟩
    rw [removeSelf_away hno]
    refine keeps_unregister ha hk fun hs q key he => ?_
    obtain ⟨hname, hreg⟩ := (ha.sound.agreed hs).entry he
    rw [← hname] at he
    exact hcur ⟨q, hreg, (isCurrent_iff (ha.sound.tables q)).mpr he⟩

/-- What is reported to a listener, by the outcome. -/
theorem report_eq (h : HandlerId) (o : Outcome) (b : Board) : report h o b = match o with
    | .activated none =>
      if (b.handler h).fields.textClickable = true then notify h .clicked none b
      else .ended (some ()) b
    | .activated (some action) => notify h .actionTaken (some action) b
    | .dismissed => .ended (some ()) b
    | .failed _ => .ended (some ()) b := by
  cases o with
  | activated action =>
    cases action with
    | none =>
      change (if (b.handler h).fields.textClickable = true then notify h .clicked none
        else pure ()) b = if (b.handler h).fields.textClickable = true then _ else _
      split <;> rfl
    | some action => rfl
  | dismissed => rfl
  | failed code => rfl

/-- A live handler reports what the screen has reported. -/
theorem keeps_report (ha : At strict {} g since w) (hl : w.board.phase h = .live)
    (ho : (h, o) ∈ w.reported) : (report h o w.board).Keeps (order strict) may
      (Leaves strict may {} g w.board fun _ _ => True) since w := by
  have hdone : (Talk.ended (some ()) w.board : Talk Board Telling Unit).Keeps (order strict) may
      (Leaves strict may {} g w.board fun _ _ => True) since w := keeps_ended ha (.refl _) trivial
  have htell : ∀ {topic action}, topic.isReport = true →
      ((w.board.handler h).notice topic action).Faithful (w.board.handler h)
        (fun o => (h, o) ∈ w.reported) →
      (notify h topic action w.board).Keeps (order strict) may
        (Leaves strict may {} g w.board fun _ _ => True) since w := by
    intro topic action ht hn
    have hs := ha.sound.report hl ht hn
    exact keeps_from (keeps_notify ha.quiet hs) (.refl _) fun _ _ _ _ => trivial
  rw [report_eq]
  cases o with
  | activated action =>
    cases action with
    | none =>
      simp only
      split
      · rename_i hc
        exact htell rfl ⟨rfl, fun _ => ⟨hc, ho⟩, fun hc => Topic.noConfusion hc, fun _ => rfl⟩
      · exact hdone
    | some action =>
      exact htell rfl ⟨rfl, fun hc => Topic.noConfusion hc, fun _ => ⟨action, rfl, ho⟩,
        fun hc => absurd rfl hc⟩
  | dismissed => exact hdone
  | failed code => exact hdone

/-- Hearing from the screen, by the phase. -/
theorem handleOutcome_eq (h : HandlerId) (o : Outcome) (b : Board) :
    handleOutcome h o b = match b.phase h with
      | .live => (report h o b).andThen fun _ => removeSelf h
      | .initializing => .ended (some ()) (b.update h fun hd => hd.deferred o)
      | _ => .ended (some ()) b := by
  change (match b.phase h with
    | .live => (report h o).andThen fun _ => removeSelf h
    | .initializing => Action.change (·.update h fun hd => hd.deferred o)
    | _ => (pure () : Act Unit)) b = _
  cases b.phase h <;> rfl

/-- A handler hears what the screen has reported. -/
theorem keeps_handleOutcome (ha : At strict {} g since w) (ho : (h, o) ∈ w.reported) :
    (handleOutcome h o w.board).Keeps (order strict) may
      (Leaves strict may {} g w.board fun _ _ => True) since w := by
  have hdone : (Talk.ended (some ()) w.board : Talk Board Telling Unit).Keeps (order strict) may
      (Leaves strict may {} g w.board fun _ _ => True) since w := keeps_ended ha (.refl _) trivial
  rw [handleOutcome_eq]
  cases hp : w.board.phase h with
  | live =>
    refine keeps_next (keeps_report ha hp ho) (fun _ _ => trivial) ?_
    intro _ since w' ha' hon _
    exact keeps_from (keeps_removeSelf ha' (.inl rfl)) hon fun _ _ _ _ => trivial
  | initializing =>
    have honward : w.board.Onward (w.board.update h fun hd => hd.deferred o) := by
      have hsame : ∀ hd : Handler, (hd.deferred o).fields = hd.fields ∧
          (hd.deferred o).listener = hd.listener ∧ (hd.deferred o).registry = hd.registry ∧
            (hd.deferred o).phase = hd.phase := by
        intro hd
        unfold Handler.deferred
        split <;> exact ⟨rfl, rfl, rfl, rfl⟩
      obtain ⟨h1, h2, h3, h4⟩ := hsame (w.board.handler h)
      refine onward_update h1 h2 h3 ?_
      rw [h4]
      exact .refl _
    exact keeps_ended (ha.step honward rfl (ha.sound.defer ho)) honward trivial
  | created => exact hdone
  | initFailed => exact hdone
  | unregistered => exact hdone

/-- Hearing from the screen, if the handler still exists. -/
theorem hear_eq (h : HandlerId) (o : Outcome) (b : Board) : hear h o b =
    if b.refersTo h = true then Act.holding h (handleOutcome h o) b else .ended (some ()) b := by
  change (if b.refersTo h = true then Act.holding h (handleOutcome h o) else pure ()) b = _
  split <;> rfl

/-- A handler to which the screen still points hears what it has reported. -/
theorem keeps_hear (ha : At strict {} g since w) (ho : (h, o) ∈ w.reported) :
    (hear h o w.board).Keeps (order strict) may
      (Leaves strict may {} g w.board fun _ _ => True) since w := by
  rw [hear_eq]
  split
  · rename_i hr
    have hheld := ha.hold (h := h) fun _ => hr
    have honward : w.board.Onward (w.board.hold h) := onward_of_handlers rfl
    have hhandle : (handleOutcome h o (w.board.hold h)).Keeps (order strict) may _ since
        (w.put (w.board.hold h)) := keeps_handleOutcome hheld ho
    exact keeps_holding (keeps_from hhandle honward fun _ _ _ _ => trivial) fun _ _ _ => trivial
  · exact keeps_ended ha (.refl _) trivial

/-- A hold that is given back at once is no hold. -/
theorem Board.letGo_hold {b : Board} (hr : b.refersTo h = true) : (b.hold h).letGo h = b := by
  have hheld : { b.hold h with held := (b.hold h).held.erase h } = b := by
    have he : (h :: b.held).erase h = b.held := List.erase_cons_head ..
    exact congrArg (fun held => { b with held }) he
  unfold letGo
  rw [hheld, reap, if_pos hr]

/-- A handler that is not live ends nothing when it hears from the screen: it keeps what it heard
for later while it is being registered. -/
theorem hear_of_not_live {b : Board} (hr : b.refersTo h = true) (hl : b.phase h ≠ .live) :
    hear h o b = .ended (some ()) (if b.phase h = .initializing then
      b.update h fun hd => hd.deferred o else b) := by
  have hquiet : ∀ b' : Board, b'.refersTo h = true →
      handleOutcome h o (b.hold h) = .ended (some ()) (b'.hold h) →
      Act.holding h (handleOutcome h o) b = .ended (some ()) b' := by
    intro b' hr' he
    change (handleOutcome h o (b.hold h)).ensuring (·.letGo h) = _
    rw [he]
    change Talk.ended (some ()) ((b'.hold h).letGo h) = _
    rw [letGo_hold hr']
  have hphase : (b.hold h).phase h = b.phase h := rfl
  rw [hear_eq, if_pos hr]
  split
  · rename_i hp
    refine hquiet _ ((refersTo_update _ h).trans hr) ?_
    rw [handleOutcome_eq, hphase, hp]
    rfl
  · rename_i hp
    refine hquiet b hr ?_
    rw [handleOutcome_eq, hphase]
    cases hq : b.phase h with
    | live => exact absurd hq hl
    | initializing => exact absurd hq hp
    | created => rfl
    | initFailed => rfl
    | unregistered => rfl

end ToastBoard
