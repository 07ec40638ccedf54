import ToastBoard.Proofs.Contest

/-!
# Steps of calls for one name

Each step of the worker and of the calls leaves all as it should be, so that it is so in every run:
a handler comes under the name, is submitted or refused, a refused one lets go of the handler that
it displaced, an accepted one ends it, and calls return.
-/

namespace ToastBoard.Contest

open Board

variable {co : Coordinator} {name : String} {t t' : Contest}

/-- The worker takes a step. -/
theorem Fair.worked (hf : t.Fair co name) :
    Fair co name { t with board := t.board.work co.station } := by
  have hk := hf.kept
  have htoils := hk.steady.toils hk.sound.jobs
  have htable : (t.board.work co.station).registry co.registry = t.board.registry co.registry :=
    registry_of_registries htoils.registries _
  have hkept : Traffic.Placed co { t.toTraffic with board := t.board.work co.station } ∧
      Traffic.Due co { t.toTraffic with board := t.board.work co.station } := by
    rcases hk.steady.moves hk.sound.jobs with hsame | ⟨h, hp, hlive, hothers⟩
    · exact Traffic.kept_comes hk.placed hk.due [] htoils.onward htable (fun x _ => hsame x) rfl
        (List.forall_mem_nil _) hk.due.apart
    · by_cases hhome : (t.board.handler h).registry = some co.registry
      · exact Traffic.kept_ends hk.placed hk.due [] htoils.onward htable hothers hhome hp
          (.inl ⟨hlive, rfl⟩)
      · exact Traffic.kept_comes hk.placed hk.due [] htoils.onward htable
          (fun x hx => hothers x fun he => hhome (he ▸ hx)) rfl (List.forall_mem_nil _)
          hk.due.apart
  refine ⟨?_, ?_, ?_⟩
  · refine hk.later [] [] [] (.refl _) rfl hkept.1 hkept.2 (hk.steady.work hk.sound.jobs)
      (hk.sound.work hk.steady.faults) htoils.onward rfl rfl ?_ (List.forall_mem_nil _)
      (fun x hx => ?_) (fun x hx => ?_) (fun x hx => .inl (htoils.length ▸ hx))
      (by simp)
    · exact (congrArg (Registry.get? · name) htable).trans hk.entry
    · rw [Traffic.places, htable] at hx
      exact fun hp => hk.standing x hx ((htoils.gone x).mp hp)
    · exact .inr ⟨(htoils.unbegun x).mp hx, List.not_mem_nil, fun old => List.not_mem_nil⟩
  · exact hf.judged.same .rfl rfl rfl rfl fun x _ => ⟨htoils.unbegun x, (htoils.gone x).mpr⟩
  · exact fun hqp => hf.fated (.drain .inTurn) .inl htoils.onward (fun a => id) (fun p => id)
      (fun c => .inr) (by simp) (by simp) (by simp) hqp

/-- Somebody calls to show an alert of the name. -/
theorem Fair.shown (hf : t.Fair co name) (fields : Snapshot) (listener : Option ListenerId)
    (hname : fields.name = name) : (t.after co (.shown fields listener)).Fair co name := by
  have hk := hf.kept
  let handler : Handler := { fields, listener, registry := some co.registry }
  have hold : ∀ x < t.board.handlers.length,
      (t.board.create handler).2.phase x = t.board.phase x := fun _ hx =>
    phase_create_of_ne (Nat.ne_of_lt hx) handler
  have hstirs : t.board.Stirs (t.board.create handler).2 := stirs_create rfl rfl rfl
  have hlength := length_create t.board handler
  obtain ⟨hplaced, hdue⟩ := Traffic.kept_after hk.placed hk.due (.shown fields listener) trivial
  refine ⟨?_, ?_, ?_⟩
  · refine hk.later [] [.install t.board.handlers.length] [] (.refl _) rfl hplaced hdue
      (hk.steady.stirs hstirs) (hk.sound.create rfl rfl rfl rfl (by simp)).free
      hstirs.onward rfl rfl hk.entry (fun c hc => ?_) (fun x hx => ?_) (fun x hx => ?_)
      (fun x hx => ?_) (by simp)
    · rw [List.mem_singleton.mp hc]
      change ((t.board.create handler).2.handler t.board.handlers.length).name = name
      rw [handler_create_self]
      exact hname
    · have hlt := lt_of_home (hk.placed.home x (hk.placed.known x hx))
      exact (hold x hlt).symm ▸ hk.standing x hx
    · change (t.board.create handler).2.phase x = .created at hx
      have hlt : x < (t.board.create handler).2.handlers.length :=
        lt_of_phase_ne (by rw [hx]; exact Phase.noConfusion)
      rcases Nat.lt_succ_iff_lt_or_eq.mp (hlength ▸ hlt) with hlt | he
      · exact .inr ⟨(hold x hlt).symm.trans hx, List.not_mem_nil, fun old => List.not_mem_nil⟩
      · exact .inl (.inl (he ▸ List.mem_cons_self))
    · rcases Nat.lt_succ_iff_lt_or_eq.mp (hlength ▸ hx) with hx | hx
      · exact .inl hx
      · exact .inr (hx ▸ List.mem_cons_self)
  · refine hf.judged.same (fun {x old} => ?_) rfl rfl rfl fun x hx => ?_
    · exact List.mem_cons.trans (or_iff_right Call.noConfusion)
    · have hp := hold x (hk.made (List.mem_append_left _ hx))
      exact ⟨by rw [← hp]; rfl, fun hu => hp.trans hu⟩
  · exact fun hqp => hf.fated (.drain .inTurn) .inl hstirs.onward (fun a => id) (fun p => id)
      (fun c hc => .inr (List.mem_cons_of_mem _ hc)) (by simp) (by simp) (by simp) hqp

section Steps

variable {call : Call} {others : List Call} {h : HandlerId} {old : Option HandlerId}

/-- A call that is about to go on holds its handlers, and the others hold theirs. -/
theorem Kept.holding (hk : t.Kept co name) (hcalls : t.calls.Perm (call :: others)) :
    t.board.Sound false {} { founded with holders := call.holds ++ others.flatMap Call.holds } :=
  hk.sound.perm (hcalls.flatMap_right Call.holds) (.refl _) (.refl _) (by simp) rfl
    fun _ => id

/-- What a call is about to do is right for the name. -/
theorem Kept.first (hk : t.Kept co name) (hcalls : t.calls.Perm (call :: others)) :
    call ∈ t.calls ∧ t.Fits co call ∧ call.Presents name t.board :=
  have hm := hcalls.mem_iff.mpr List.mem_cons_self
  ⟨hm, hk.due.fits call hm, hk.shows call hm⟩

/-- The other calls are still under way after one has gone on. -/
theorem mem_of_others (hcalls : t.calls.Perm (call :: others)) (hothers : others ⊆ t'.calls) :
    ∀ c ∈ t.calls, c = call ∨ c ∈ t'.calls := fun _ hc =>
  (List.mem_cons.mp (hcalls.mem_iff.mp hc)).imp_right (hothers ·)

/-- Where handlers are while a call is about to go on. -/
theorem mem_places (hcalls : t.calls.Perm (call :: others)) {x : HandlerId} :
    x ∈ t.places co ↔ x ∈ (t.board.registry co.registry).handlers ∨ x ∈ call.carries ∨
      x ∈ others.flatMap Call.carries ∨ x ∈ t.abandoned := by
  rw [Traffic.places, List.mem_append, List.mem_append,
    (hcalls.flatMap_right Call.carries).mem_iff, List.flatMap_cons, List.mem_append, or_assoc]

/-- The same handlers are to be submitted when a call goes on that submits nobody. -/
theorem submits_iff (hcalls : t.calls.Perm (call :: others)) (next : List Call)
    (hcalls' : t'.calls = next ++ others) (hcall : ∀ x old, call ≠ .submit x old)
    (hnext : ∀ x old, .submit x old ∉ next) :
    .submit h old ∈ t'.calls ↔ .submit h old ∈ t.calls := by
  rw [hcalls', hcalls.mem_iff, List.mem_append, List.mem_cons, or_iff_right (hnext h old),
    or_iff_right (hcall h old).symm]

/-- A call goes on by a step, and nobody comes under the name. -/
theorem Kept.goesOn (hk : t.Kept co name) (next : List Call)
    (hcalls : t.calls.Perm (call :: others)) (hstep : t.proceed co call others = t')
    (hcalls' : t'.calls = next ++ others) (hcall : ∀ x, call ≠ .install x)
    (hsteady : t'.board.Steady co.station)
    (hsound : t'.board.Sound false {} { founded with holders := t'.calls.flatMap Call.holds })
    (ho : t.board.Onward t'.board) (hlength : t'.board.handlers.length = t.board.handlers.length)
    (hregistries : t'.board.registries = t.board.registries)
    (hnext : ∀ c ∈ next, c.Presents name t'.board)
    (hcarried : ∀ x ∈ next.flatMap Call.carries ++ t'.abandoned, x ∈ call.carries ++ t.abandoned)
    (hover : ∀ x ∈ t'.places co, t'.board.phase x = .unregistered →
      t.board.phase x = .unregistered)
    (hunbegun : ∀ x, t'.board.phase x = .created →
      t.board.phase x = .created ∧ ∀ old, call ≠ .submit x old) : t'.Kept co name := by
  obtain ⟨hplaced, hdue⟩ := Traffic.kept_proceed hk.placed hk.due hcalls
  have htable := registry_of_registries hregistries co.registry
  have hinstalls : call.installs = [] := by
    cases call with
    | install x => exact absurd rfl (hcall x)
    | _ => rfl
  have hline : t'.line = t.line ∧ t'.installed = t.installed := by
    subst hstep
    change call.installs ++ t.newer ++ t.earlier.toList = _ ∧ call.installs ++ t.installed = _
    rw [hinstalls]
    exact ⟨rfl, rfl⟩
  refine hk.later [call] next [] hcalls hcalls' (hstep ▸ hplaced) (hstep ▸ hdue) hsteady hsound ho
    hline.1 hline.2 ?_ hnext (fun x hx hp => ?_) (fun x hx => .inr ?_) (fun x hx => .inl ?_)
    (fun x hx => ?_)
  · rw [hline.1, ← hk.entry]
    exact congrArg (Registry.get? · name) htable
  · refine hk.standing x ((mem_places hcalls).mpr ?_) (hover x hx hp)
    have hplace := hx
    rw [Traffic.places, htable, hcalls', List.flatMap_append] at hplace
    have hmoved := hcarried x
    simp only [List.mem_append] at hplace hmoved ⊢
    grind
  · obtain ⟨hp, hsubmit⟩ := hunbegun x hx
    exact ⟨hp, fun hm => hcall x (List.mem_singleton.mp hm).symm,
      fun old hm => hsubmit old (List.mem_singleton.mp hm).symm⟩
  · exact hlength ▸ hx
  · exact absurd (List.mem_singleton.mp hx).symm (hcall x)

/-- The board is in order when a handler was put under its name, and its call holds whoever it
displaces. -/
theorem Kept.sound_install (hk : t.Kept co name)
    (hcalls : t.calls.Perm (.install h :: others)) :
    (t.board.install co.registry (t.board.handler h).name h).2.Sound false {} { founded with
      holders := (t.board.install co.registry (t.board.handler h).name h).1.toList ++
        ([h] ++ others.flatMap Call.holds) } := by
  have hheld : t.board.refersTo h = true :=
    refersTo_of_held ((hk.holding hcalls).books.held.mem_iff.mpr List.mem_cons_self)
  exact ((hk.holding hcalls).install hk.placed.owned hheld (by simp)).free

/-- A handler comes under the name. -/
theorem Fair.install (hf : t.Fair co name) (hcalls : t.calls.Perm (.install h :: others)) :
    (t.proceed co (.install h) others).Fair co name := by
  have hk := hf.kept
  obtain ⟨hm, ⟨hhome, hcreated, hfresh⟩, hname⟩ := hk.first hcalls
  change (t.board.handler h).name = name at hname
  obtain ⟨hplaced, hdue⟩ : (t.proceed co (.install h) others).toTraffic.Placed co ∧
    (t.proceed co (.install h) others).toTraffic.Due co :=
      Traffic.kept_proceed hk.placed hk.due hcalls
  have hplaces : (Traffic.places co (t.proceed co (.install h) others).toTraffic).Perm
      (h :: t.places co) := Traffic.places_install hk.placed hcalls
  have hold : (t.board.install co.registry (t.board.handler h).name h).1 = t.line.head? := by
    rw [install_eq, hname]
    exact hk.entry
  have hphase : ∀ x, (t.board.install co.registry (t.board.handler h).name h).2.phase x =
      t.board.phase x := phase_install _ h
  have htable := registry_install hk.placed.owned (t.board.handler h).name h
  have hlength := congrArg List.length
    (handlers_install (b := t.board) (r := co.registry) (t.board.handler h).name h)
  have hstirs := stirs_install (b := t.board) co.registry (t.board.handler h).name h
  have hsound := hk.sound_install hcalls
  have hstep : t.proceed co (.install h) others = { t with
      board := (t.board.install co.registry (t.board.handler h).name h).2
      calls := .submit h (t.board.install co.registry (t.board.handler h).name h).1 :: others
      installed := h :: t.installed
      newer := h :: t.newer } := rfl
  rw [hstep] at hplaced hdue hplaces ⊢
  generalize t.board.install co.registry (t.board.handler h).name h = installed at *
  obtain ⟨old, a⟩ := installed
  dsimp only at *
  subst hold
  refine ⟨?_, ?_, fun {q p} hqp => ?_⟩
  · refine hk.later [.install h] [.submit h t.line.head?] [h] hcalls rfl hplaced hdue
      (hk.steady.stirs hstirs) ?_ hstirs.onward rfl rfl ?_ (fun c hc => ?_) (fun x hx => ?_)
      (fun x hx => ?_) (fun x hx => .inl ?_) (fun x hx => ?_)
    · refine hsound.perm (.of_eq ?_) (.refl _) (.refl _) (by simp) rfl fun _ => id
      simp [Call.holds]
    · rw [Board.current?, htable, hname, Registry.get?_insert, if_pos rfl]
      rfl
    · rw [List.mem_singleton.mp hc]
      change (a.handler h).name = name
      rw [Handler.name, hstirs.onward.fields h (lt_of_home hhome)]
      exact hname
    · change a.phase x ≠ .unregistered
      rw [hphase]
      rcases List.mem_cons.mp (hplaces.mem_iff.mp hx) with rfl | hx
      · rw [hcreated]
        exact Phase.noConfusion
      · exact hk.standing x hx
    · by_cases he : x = h
      · rw [he]
        exact .inl (.inr ⟨_, List.mem_cons_self⟩)
      · exact .inr ⟨(hphase x).symm.trans hx, by simpa using he, by simp⟩
    · exact hlength ▸ hx
    · simpa using hx
  · exact hf.judged.installed hcalls rfl rfl rfl rfl hphase hcreated fun hn =>
      hfresh (hk.installed h (List.mem_append_left _ hn))
  · refine hf.fated (.install h) (fun {q p} hqp => ?_) hstirs.onward (fun a => id) (fun p => id)
      (mem_of_others hcalls fun c => List.mem_cons_of_mem _) (by simp) (by simp) (by simp) hqp
    refine (neighbours_cons hqp).symm.imp_right ?_
    rintro ⟨hq, hhead⟩
    rw [hq, ← hhead]
    exact List.mem_cons_self

/-- A handler that was not submitted yet is. -/
theorem Fair.accepted (hf : t.Fair co name) (hcalls : t.calls.Perm (.submit h old :: others))
    (hp : t.board.phase h = .created) : (t.proceed co (.submit h old) others).Fair co name := by
  have hk := hf.kept
  have hsubmit := hk.steady.submit hp
  have hlt : h < t.board.handlers.length := lt_of_phase_ne (by rw [hp]; exact Phase.noConfusion)
  have hphase := phase_queued (s := co.station) hlt
  have honward := (submit_quiet t.board co.station h).1
  have hsound := (hk.holding hcalls).submitOwn (s := co.station) (h := h)
  rw [hsubmit] at honward hsound
  have hstep : t.proceed co (.submit h old) others = { t with
      board := t.board.queued co.station h
      calls := .finish old.toList (old.toList ++ [h]) :: others
      answers := (h, .ok ()) :: t.answers } := by
    rw [proceed, Traffic.proceed, Call.step, Call.decides, hsubmit]
    rfl
  rw [hstep]
  refine ⟨?_, ?_, fun {q p} hqp => ?_⟩
  · refine hk.goesOn [.finish old.toList (old.toList ++ [h])] hcalls hstep rfl
      (fun _ => Call.noConfusion) (hk.steady.queued hlt) hsound honward (length_update ..) rfl
      (fun c hc => ?_) (by simp [Call.carries]) (fun x _ hx => ?_) (fun x hx => ?_)
    · rw [List.mem_singleton.mp hc]
      trivial
    · change (t.board.queued co.station h).phase x = _ at hx
      rw [hphase] at hx
      split at hx
      · cases hx
      · exact hx
    · change (t.board.queued co.station h).phase x = _ at hx
      rw [hphase] at hx
      split at hx
      · cases hx
      · rename_i hne
        exact ⟨hx, fun old he => hne (Call.submit.inj he).1.symm⟩
  · have hverdict : t.verdict name h = .ok () := by
      refine if_neg fun ho => ?_
      rw [(hf.judged.ended h ho).2] at hp
      cases hp
    refine hf.judged.submitted hcalls hk.due.apart rfl (fun _ _ => Call.noConfusion) rfl
      (by rw [hverdict]) rfl (fun x hx => (hphase x).trans (if_neg hx)) fun hu => ?_
    rw [hp] at hu
    cases hu
  · refine hf.fated (.submit h old) .inl honward (fun a => List.mem_cons_of_mem _) (fun p => id)
      (mem_of_others hcalls fun c => List.mem_cons_of_mem _) (fun {q p} he => ?_)
      (by simp) (by simp) hqp
    cases he
    exact .inr (.inr ⟨List.mem_cons_self, .inl List.mem_cons_self⟩)

/-- A handler that ended before it was submitted cannot be. -/
theorem Fair.refused (hf : t.Fair co name) (hcalls : t.calls.Perm (.submit h old :: others))
    (hp : t.board.phase h ≠ .created) : (t.proceed co (.submit h old) others).Fair co name := by
  have hk := hf.kept
  obtain ⟨hm, -, hname⟩ := hk.first hcalls
  change (t.board.handler h).name = name at hname
  have hsound := hk.holding hcalls
  have hverdict : t.verdict name h =
      .error (.other ("handler for '" ++ name ++ "' already initialized")) :=
    if_pos (hf.judged.late hm hp)
  have hsubmit : t.board.submit co.station h = (t.verdict name h, t.board) := by
    rw [hverdict, Board.submit, hname]
    split
    · exact absurd ‹_› hp
    · rfl
  have hstep : t.proceed co (.submit h old) others = { t with
      calls := .restore h old :: others
      answers := (h, t.verdict name h) :: t.answers } := by
    rw [proceed, Traffic.proceed, Call.step, Call.decides, hsubmit, hverdict]
    rfl
  rw [hstep]
  refine ⟨?_, ?_, fun {q p} hqp => ?_⟩
  · refine hk.goesOn [.restore h old] hcalls hstep rfl (fun _ => Call.noConfusion) hk.steady hsound
      (.refl _) rfl rfl (fun c hc => ?_) (by simp [Call.carries]) (fun x _ => id)
      (fun x hx => ⟨hx, fun old' he => ?_⟩)
    · rw [List.mem_singleton.mp hc]
      trivial
    · cases he
      exact hp hx
  · exact hf.judged.submitted hcalls hk.due.apart rfl (fun _ _ => Call.noConfusion) rfl rfl rfl
      (fun _ _ => rfl) id
  · refine hf.fated (.submit h old) .inl (.refl _) (fun a => List.mem_cons_of_mem _) (fun p => id)
      (mem_of_others hcalls fun c => List.mem_cons_of_mem _) (fun {q p} he => ?_)
      (by simp) (by simp) hqp
    cases he
    rw [hverdict]
    exact .inr (.inl ⟨⟨_, List.mem_cons_self⟩, .inl List.mem_cons_self⟩)

/-- A refused call finds the name taken, and lets go of the handler that it had displaced. -/
theorem Fair.restored (hf : t.Fair co name) (hcalls : t.calls.Perm (.restore h old :: others)) :
    (t.proceed co (.restore h old) others).Fair co name := by
  have hk := hf.kept
  obtain ⟨-, ⟨-, hfailed, -⟩, -⟩ := hk.first hcalls
  have hover : t.board.phase h = .unregistered := hfailed.resolve_left (hk.steady.unfailed h)
  have hcur : t.board.isCurrent co.registry (t.board.handler h).name h = false := by
    refine Bool.eq_false_iff.mpr fun hc => hk.standing h ?_ hover
    exact (mem_places hcalls).mpr (.inl ((hk.placed.present hc).1.mem_iff.mpr List.mem_cons_self))
  have hrestore : t.board.restore co.registry (t.board.handler h).name h old =
      (false, t.board.letGoIf old) := by
    rw [Board.restore, if_neg (by rw [hcur]; exact Bool.noConfusion)]
  have htidies : t.board.Tidies (t.board.letGoIf old) := tidies_letGoAll _
  have hsound : (t.board.letGoIf old).Sound false {}
      { founded with holders := [h] ++ others.flatMap Call.holds } := by
    have hs := hk.holding hcalls
    rw [Call.holds, List.append_assoc] at hs
    exact Sound.letGoAll (T := { founded with holders := [h] ++ others.flatMap Call.holds }) hs
  have hstep : t.proceed co (.restore h old) others = { t with
      board := t.board.letGoIf old
      calls := .depart h :: others
      abandoned := old.toList ++ t.abandoned } := by
    rw [proceed, Traffic.proceed, Call.step, Call.abandons, Call.revives, hrestore]
    rfl
  rw [hstep]
  refine ⟨?_, ?_, fun {q p} hqp => ?_⟩
  · refine hk.goesOn [.depart h] hcalls hstep rfl (fun _ => Call.noConfusion)
      (hk.steady.stirs htidies.toStirs) hsound htidies.onward htidies.length htidies.registries
      (fun c hc => ?_) (by simp [Call.carries]) (fun x _ hx => (htidies.stays x).symm.trans hx)
      (fun x hx => ⟨(htidies.stays x).symm.trans hx, fun _ => Call.noConfusion⟩)
    rw [List.mem_singleton.mp hc]
    exact (htidies.stays h).trans hover
  · exact hf.judged.tidied (submits_iff hcalls [.depart h] rfl (fun _ _ => Call.noConfusion)
      (by simp)) rfl rfl rfl htidies.stays
  · refine hf.fated (.restore h old) .inl htidies.onward (fun a => id)
      (fun p => List.mem_append_right _) (mem_of_others hcalls fun c => List.mem_cons_of_mem _)
      (by simp) (fun {q p} he => ?_) (by simp) hqp
    cases he
    exact List.mem_append_left _ List.mem_cons_self

/-- A displaced handler ends, perhaps before its own call has submitted it. -/
theorem Fair.ends (hf : t.Fair co name) {p : HandlerId} {hs held : List HandlerId}
    (hcalls : t.calls.Perm (.finish (p :: hs) held :: others)) :
    (t.proceed co (.finish (p :: hs) held) others).Fair co name := by
  have hk := hf.kept
  have hends := ends_dismissed (b := t.board) p
  have hphase : ∀ x, (t.board.dismissed p).phase x =
      if x = p then .unregistered else t.board.phase x := (dismissed_quiet t.board p).2.2
  have hsound := (hk.holding hcalls).dismissed p
  have hplace : p ∈ t.places co := (mem_places hcalls).mpr (.inr (.inl List.mem_cons_self))
  have hstep : t.proceed co (.finish (p :: hs) held) others = { t with
      board := t.board.dismissed p
      calls := .finish hs held :: others
      overtaken := (if t.board.phase p = .created then [p] else []) ++ t.overtaken } := by
    rw [proceed, Traffic.proceed, Call.step, quietly_unregister]
    rfl
  rw [hstep]
  refine ⟨?_, ?_, fun {q p'} hqp => ?_⟩
  · refine hk.goesOn [.finish hs held] hcalls hstep rfl (fun _ => Call.noConfusion)
      (hk.steady.stirs hends.toStirs) hsound hends.onward hends.length hends.registries
      (fun c hc => ?_) (by simp +contextual [Call.carries]) (fun x hx hp => ?_) (fun x hx => ?_)
    · rw [List.mem_singleton.mp hc]
      trivial
    · -- the handler that ends is at no other place
      have hperm : (t.places co).Perm (p :: Traffic.places co { t.toTraffic with
          board := t.board.dismissed p, calls := .finish hs held :: others }) := by
        refine List.perm_iff_count.mpr fun x => ?_
        have hbefore := (hcalls.flatMap_right Call.carries).count_eq x
        simp only [Traffic.places, registry_of_registries hends.registries, List.flatMap_cons,
          Call.carries, List.count_append, List.cons_append, List.count_cons] at *
        omega
      have hne : x ≠ p := fun he =>
        (List.nodup_cons.mp (hperm.nodup_iff.mp hk.placed.once)).1 (he ▸ hx)
      exact (if_neg hne).symm.trans ((hphase x).symm.trans hp)
    · change (t.board.dismissed p).phase x = _ at hx
      rw [hphase] at hx
      split at hx
      · cases hx
      · exact ⟨hx, fun _ => Call.noConfusion⟩
  · refine hf.judged.ends (submits_iff hcalls [.finish hs held] rfl (fun _ _ => Call.noConfusion)
      (by simp)) rfl rfl rfl hphase fun hcreated => ?_
    -- whoever is at a place was put under its name, so its call is past that
    exact (hk.unbegun p hcreated).resolve_left fun hc =>
      (hk.due.fits _ hc).2.2 (hk.placed.known p hplace)
  · refine hf.fated (.finish (p :: hs) held) .inl hends.onward (fun a => id) (fun p => id)
      (mem_of_others hcalls fun c => List.mem_cons_of_mem _) (by simp) (by simp)
      (fun {q p'} he => ?_) hqp
    cases he
    exact (hphase p).trans (if_pos rfl)

/-- A call returns and gives back what it held. -/
theorem Fair.returns (hf : t.Fair co name) {held : List HandlerId}
    (hcalls : t.calls.Perm (.finish [] held :: others)) :
    (t.proceed co (.finish [] held) others).Fair co name := by
  have hk := hf.kept
  have htidies : t.board.Tidies (t.board.letGoAll held) := tidies_letGoAll held
  have hsound : (t.board.letGoAll held).Sound false {}
      { founded with holders := others.flatMap Call.holds } :=
    Sound.letGoAll (T := { founded with holders := others.flatMap Call.holds }) (hk.holding hcalls)
  have hstep : t.proceed co (.finish [] held) others = { t with
      board := t.board.letGoAll held, calls := others } := rfl
  rw [hstep]
  refine ⟨?_, ?_, fun {q p} hqp => ?_⟩
  · exact hk.goesOn [] hcalls hstep rfl (fun _ => Call.noConfusion)
      (hk.steady.stirs htidies.toStirs) hsound htidies.onward htidies.length htidies.registries
      (List.forall_mem_nil _) (by simp [Call.carries])
      (fun x _ hx => (htidies.stays x).symm.trans hx)
      (fun x hx => ⟨(htidies.stays x).symm.trans hx, fun _ => Call.noConfusion⟩)
  · exact hf.judged.tidied (submits_iff hcalls [] rfl (fun _ _ => Call.noConfusion) (by simp)) rfl
      rfl rfl htidies.stays
  · exact hf.fated (.finish [] held) .inl htidies.onward (fun a => id) (fun p => id)
      (mem_of_others hcalls fun c => id) (by simp) (by simp) (by simp) hqp

/-- A refused call comes to end its handler, which is over already. -/
theorem Fair.departs (hf : t.Fair co name) (hcalls : t.calls.Perm (.depart h :: others)) :
    (t.proceed co (.depart h) others).Fair co name := by
  have hk := hf.kept
  obtain ⟨-, -, hover⟩ := hk.first hcalls
  change t.board.phase h = .unregistered at hover
  have hsound := hk.holding hcalls
  have hsame : (unregister h t.board).quietly.2 = t.board := by
    rw [quietly_unregister]
    exact if_pos hover
  have hstep : t.proceed co (.depart h) others = { t with calls := .finish [] [h] :: others } := by
    rw [proceed, Traffic.proceed, Call.step, hsame, Call.overtakes,
      if_neg (by rw [hover]; exact Phase.noConfusion)]
    rfl
  rw [hstep]
  refine ⟨?_, ?_, fun {q p} hqp => ?_⟩
  · refine hk.goesOn [.finish [] [h]] hcalls hstep rfl (fun _ => Call.noConfusion) hk.steady hsound
      (.refl _) rfl rfl (fun c hc => ?_) (by simp [Call.carries]) (fun x _ => id)
      (fun x hx => ⟨hx, fun _ => Call.noConfusion⟩)
    rw [List.mem_singleton.mp hc]
    trivial
  · exact hf.judged.tidied (submits_iff hcalls [.finish [] [h]] rfl (fun _ _ => Call.noConfusion)
      (by simp)) rfl rfl rfl fun _ => rfl
  · exact hf.fated (.depart h) .inl (.refl _) (fun a => id) (fun p => id)
      (mem_of_others hcalls fun c => List.mem_cons_of_mem _) (by simp) (by simp) (by simp) hqp

/-- Any call goes on by a step. -/
theorem Fair.proceed (hf : t.Fair co name) (hcalls : t.calls.Perm (call :: others)) :
    (t.proceed co call others).Fair co name := by
  have hshows := (hf.kept.first hcalls).2.2
  cases call with
  | install h => exact hf.install hcalls
  | submit h old =>
    by_cases hp : t.board.phase h = .created
    · exact hf.accepted hcalls hp
    · exact hf.refused hcalls hp
  | restore h old => exact hf.restored hcalls
  | finish hs held =>
    cases hs with
    | nil => exact hf.returns hcalls
    | cons p hs => exact hf.ends hcalls
  | depart h => exact hf.departs hcalls
  | close name => exact hshows.elim
  | drain visit => exact hshows.elim
  | leave h => exact hshows.elim

end Steps

/-- Whatever happens next. -/
theorem Fair.after (hf : t.Fair co name) (m : Move) (names : m.Names name) :
    (t.after co m).Fair co name := by
  cases m with
  | shown fields listener => exact hf.shown fields listener names
  | worked => exact hf.worked
  | next i =>
    simp only [Contest.after]
    split
    · exact hf
    · rename_i call hc
      obtain ⟨hlt, rfl⟩ := List.getElem?_eq_some_iff.mp hc
      exact hf.proceed (List.getElem_cons_eraseIdx_perm hlt).symm

section Opening

variable {b : Board} {p : Plan} {identity : Option String}

/-- Whoever is in the table of a coordinator that has done what it was asked for was made, and is
not over. -/
theorem standing_opened (hb : b.Pursues identity p) {x : HandlerId}
    (hx : x ∈ p.table.handlers) : x < b.handlers.length ∧ b.phase x ≠ .unregistered := by
  have hmade : x < b.handlers.length := by
    rw [hb.follows.length]
    exact (hb.whole.settled x).mpr (List.mem_append_left _ hx)
  refine ⟨hmade, fun hp => ?_⟩
  have hended := (hb.follows.gone x hmade).mp hp
  exact (List.nodup_append.mp hb.whole.once).2.2 x hx x hended rfl

/-- Handlers are at their places when nobody has called yet. -/
theorem placed_opened (hb : b.Pursues identity p) (here : b.coordinator 0 = co) (name : String) :
    Traffic.Placed co (opened co name b).toTraffic := by
  have hregistry : co.registry = 0 := by
    rw [← here, hb.coordinator]
  have htable : b.registry co.registry = p.table := by rw [hregistry, hb.follows.registry]
  have howned : 0 < (b.registry co.registry).owners := by
    have hpos := hb.sound.books.pos_of_backing (c := 0) (by rw [hb.coordinator]; exact Nat.one_pos)
    rwa [here] at hpos
  have hplaces : Traffic.places co (opened co name b).toTraffic =
      (b.registry co.registry).handlers := List.append_nil _
  refine ⟨howned, hb.sound.tables _, fun he => ?_, fun x hx => ?_, ?_, fun x hx => ?_,
    fun x hx _ => ?_⟩
  · exact hb.follows.name_of_entry hb.whole (htable ▸ he)
  · rw [hregistry]
    exact hb.follows.home x (standing_opened hb (htable ▸ hx)).1
  · rw [hplaces, htable]
    exact (List.nodup_append.mp hb.whole.once).1
  · rwa [hplaces] at hx
  · rwa [hplaces]

/-- One handler at most has stood under the name when nobody has called yet. -/
theorem length_line_opened (co : Coordinator) (name : String) (b : Board) :
    (opened co name b).line.length ≤ 1 := by
  change (b.current? co.registry name).toList.length ≤ 1
  cases b.current? co.registry name <;> simp

/-- Nobody has called yet, and the coordinator has done what it was asked for. -/
theorem fair_opened (hb : b.Pursues identity p) (here : b.coordinator 0 = co) (name : String) :
    (opened co name b).Fair co name := by
  have hco : co.registry = 0 ∧ co.station = 0 := by
    rw [← here, hb.coordinator]
    exact ⟨rfl, rfl⟩
  have htable : b.registry co.registry = p.table := by rw [hco.1, hb.follows.registry]
  have hplaces : Traffic.places co (opened co name b).toTraffic =
      (b.registry co.registry).handlers := List.append_nil _
  have hstanding : ∀ x ∈ (b.registry co.registry).handlers, b.phase x ≠ .unregistered :=
    fun x hx => (standing_opened hb (htable ▸ hx)).2
  have hline : ∀ {x}, x ∈ (opened co name b).line ↔
      (name, x) ∈ (b.registry co.registry).entries := by
    intro x
    rw [Registry.mem_entries_iff (hb.sound.tables _)]
    exact Option.mem_toList
  refine ⟨⟨placed_opened hb here name, ?_, ?_, hb.sound, List.forall_mem_nil _, fun x hx => ?_, ?_,
    fun x hx => ?_, fun x hx hname => ?_, fun x hx => ?_⟩, ?_, fun {q r} hqr => ?_⟩
  · refine ⟨List.forall_mem_nil _, List.nodup_nil, fun x hx hp => ?_, List.forall_mem_nil _,
      fun x _ hp => ?_⟩
    · exact absurd hp (hstanding x hx)
    · exact absurd hp (hb.follows.steady.unfailed x)
  · rw [hco.2]
    exact hb.follows.steady
  · rw [hplaces] at hx
    exact hstanding x hx
  · change b.current? co.registry name = (b.current? co.registry name).toList.head?
    cases b.current? co.registry name <;> rfl
  · exact absurd hx (hb.follows.begun x)
  · rcases List.mem_append.mp ((hb.whole.settled x).mp (hb.follows.length ▸ hx)) with hm | hm
    · obtain ⟨key, he⟩ := Registry.mem_handlers.mp hm
      have hkey : key = name := (hb.follows.name_of_entry hb.whole he).symm.trans hname
      rw [hkey, ← htable] at he
      exact .inl (hline.mpr he)
    · exact .inr (.inl ((hb.follows.gone x hx).mpr hm))
  · exact Registry.mem_handlers.mpr ⟨name, hline.mp hx⟩
  · exact ⟨List.forall_mem_nil _, fun hc => absurd hc List.not_mem_nil, List.nodup_nil,
      fun hm => absurd hm List.not_mem_nil, List.forall_mem_nil _,
      fun hc => absurd hc List.not_mem_nil⟩
  · have hlength := hqr.length_le
    have hone := length_line_opened co name b
    simp only [List.length_cons] at hlength
    omega

end Opening

/-- In every run all is as it should be. -/
theorem Run.fair (run : Run co name t) : t.Fair co name := by
  induction run with
  | start beats hset here =>
    obtain ⟨rfl, worker, identity, rfl⟩ := setUp_fresh hset
    exact fair_opened (pursues_beats (pursues_fresh worker identity) beats) here name
  | step run m names ih => exact ih.after m names

end ToastBoard.Contest
