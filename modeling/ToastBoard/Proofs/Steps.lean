import ToastBoard.Proofs.Places

/-!
# Steps of calls

Each step of each call keeps handlers at their places and leaves calls that fit: a new handler is
put under its name, submitted, or gives way to the one it displaced; handlers are taken out, leave
by themselves, and end.
-/

namespace ToastBoard.Traffic

open Board

variable {h : HandlerId} {co : Coordinator} {t : Traffic} {others : List Call}
  {old : Option HandlerId}

/-- A new handler comes to the table, and the one that it displaces comes to the call. -/
theorem places_install (hk : t.Placed co) (hcalls : t.calls.Perm (.install h :: others)) :
    ((t.proceed co (.install h) others).places co).Perm (h :: t.places co) := by
  have htable := registry_install hk.owned (t.board.handler h).name h
  have hdisplaced : (t.board.install co.registry (t.board.handler h).name h).1 =
      t.board.current? co.registry (t.board.handler h).name := by rw [install_eq]
  refine List.perm_iff_count.mpr fun x => ?_
  have hgone := (hcalls.flatMap_right Call.carries).count_eq x
  have hcount := (Registry.perm_handlers hk.single (t.board.handler h).name).count_eq x
  simp only [places, proceed, Call.step, Call.abandons, htable, Registry.handlers_insert,
    Option.toList_some, List.flatMap_cons, List.flatMap_append, List.flatMap_nil, Call.carries,
    hdisplaced, current?, List.nil_append, List.append_nil, List.count_append,
    List.count_cons, List.count_nil] at *
  omega

/-- A new handler is put under its name. -/
theorem kept_install (hk : t.Placed co) (hd : t.Due co)
    (hcalls : t.calls.Perm (.install h :: others)) :
    (t.proceed co (.install h) others).Placed co ∧ (t.proceed co (.install h) others).Due co := by
  obtain ⟨hhome, hcreated, hfresh⟩ : t.Fits co (.install h) := hd.first hcalls
  have htable := registry_install hk.owned (t.board.handler h).name h
  have hdisplaced : (t.board.install co.registry (t.board.handler h).name h).1 =
      t.board.current? co.registry (t.board.handler h).name := by rw [install_eq]
  have hhandler : ∀ x, (t.proceed co (.install h) others).board.handler x = t.board.handler x :=
    handler_install _ h
  have hphase : ∀ x, (t.proceed co (.install h) others).board.phase x = t.board.phase x :=
    fun x => congrArg Handler.phase (hhandler x)
  have hperm := places_install hk hcalls
  constructor
  · refine ⟨?_, ?_, fun he => ?_, fun x hx => ?_, ?_, fun x hx => ?_, fun x hx ha => ?_⟩
    · exact htable ▸ hk.owned
    · exact htable ▸ Registry.onePerName_insert _ h hk.single
    · rw [hhandler]
      rcases Registry.mem_entries_insert.mp (htable ▸ he) with ⟨he, -⟩ | ⟨rfl, rfl⟩
      · exact hk.named he
      · rfl
    · rw [hhandler]
      rcases List.mem_cons.mp hx with rfl | hx
      · exact hhome
      · exact hk.home x hx
    · exact hperm.nodup_iff.mpr
        (List.nodup_cons.mpr ⟨fun hm => hfresh (hk.known h hm), hk.once⟩)
    · rcases List.mem_cons.mp (hperm.mem_iff.mp hx) with rfl | hx
      · exact List.mem_cons_self
      · exact List.mem_cons_of_mem _ (hk.known x hx)
    · rw [hphase] at ha
      rcases List.mem_cons.mp hx with rfl | hx
      · exact hperm.mem_iff.mpr List.mem_cons_self
      · exact hperm.mem_iff.mpr (List.mem_cons_of_mem _ (hk.kept x hx ha))
  · refine hd.shift hk [.install h] [.submit h _] hcalls rfl
      (onward_of_handlers (handlers_install _ h)) (fun x _ => hphase x) (fun x => ?_)
      (fun x hx => ?_) (fun x => id) (fun x => .inl) ?_ ?_ (fun c hc => ?_)
      (hd.apart_next hcalls (.refl _))
    · change x ∈ h :: t.installed ↔ _
      simp
    · obtain ⟨name, he⟩ := Registry.mem_handlers.mp hx
      rcases Registry.mem_entries_insert.mp (htable ▸ he) with ⟨he, -⟩ | ⟨rfl, rfl⟩
      · exact .inl (Registry.mem_handlers.mpr ⟨name, he⟩)
      · refine .inr ⟨by rw [hphase, hcreated]; rfl, fun hc => ?_⟩
        have hfits := hd.fits _ (hcalls.mem_iff.mpr (List.mem_cons_of_mem _ hc))
        exact absurd hcreated hfits.2.1
    · simp
    · simp [Call.ends]
    · rw [List.mem_singleton.mp hc]
      refine ⟨by rw [hhandler]; exact hhome, .inl ((hphase h).trans hcreated), fun p hp => ?_⟩
      obtain ⟨hi, hn⟩ := hk.under (hdisplaced.symm.trans hp)
      exact ⟨List.mem_cons_of_mem _ hi, by rw [hhandler, hhandler, hn]⟩

/-- Handlers are taken out to be ended. -/
theorem kept_taken (hk : t.Placed co) (hd : t.Due co) {call : Call}
    (hcalls : t.calls.Perm (call :: others))
    (hcall : (∃ visit, call = .drain visit) ∨ ∃ name, call = .close name)
    {a : Board} {hs : List HandlerId} (hsame : a.handlers = t.board.handlers)
    (howned : 0 < (a.registry co.registry).owners)
    (hsingle : (a.registry co.registry).OnePerName)
    (hsub : ∀ e ∈ (a.registry co.registry).entries, e ∈ (t.board.registry co.registry).entries)
    (htaken : (t.board.registry co.registry).handlers.Perm
      (hs ++ (a.registry co.registry).handlers)) :
    Placed co { t with board := a, calls := .finish hs hs :: others } ∧
      Due co { t with board := a, calls := .finish hs hs :: others } := by
  have honward : t.board.Onward a := onward_of_handlers hsame
  have hcarries : call.carries = [] ∧ call.ends = [] ∧ (∀ x, call ≠ .depart x) ∧
      ∀ x, call ≠ .install x := by
    rcases hcall with ⟨visit, rfl⟩ | ⟨name, rfl⟩
    · exact ⟨rfl, rfl, fun _ => Call.noConfusion, fun _ => Call.noConfusion⟩
    · exact ⟨rfl, rfl, fun _ => Call.noConfusion, fun _ => Call.noConfusion⟩
  obtain ⟨hcarries, hends, hdepart, hinstall⟩ := hcarries
  constructor
  · refine hk.lose [] honward howned hsingle (fun he => hk.named (hsub _ he)) rfl ?_
      (List.forall_mem_nil _)
    refine List.perm_iff_count.mpr fun x => ?_
    have hgone := (hcalls.flatMap_right Call.carries).count_eq x
    have hcount := htaken.count_eq x
    rw [List.flatMap_cons, hcarries] at hgone
    simp only [places, List.flatMap_cons, Call.carries, List.nil_append,
      List.count_append] at *
    omega
  · refine hd.shift hk [call] [.finish hs hs] hcalls rfl honward ?_ ?_ ?_ (fun x => id)
      (fun x => .inl) ?_ ?_ ?_ (hd.apart_next hcalls (List.nil_sublist _))
    · intro x _
      rw [phase, handler, hsame]
      rfl
    · intro x
      simp [(hinstall x).symm]
    · intro x hx
      obtain ⟨name, he⟩ := Registry.mem_handlers.mp hx
      exact .inl (Registry.mem_handlers.mpr ⟨name, hsub _ he⟩)
    · intro x hx
      exact hdepart x (List.mem_singleton.mp hx).symm
    · simp [hends]
    · intro c hc
      rw [List.mem_singleton.mp hc]
      trivial

/-- A handler that a call carries ends. -/
theorem kept_finish (hk : t.Placed co) (hd : t.Due co) {hs held : List HandlerId}
    (hcalls : t.calls.Perm (.finish (h :: hs) held :: others)) :
    (t.proceed co (.finish (h :: hs) held) others).Placed co ∧
      (t.proceed co (.finish (h :: hs) held) others).Due co := by
  have hboard : (t.proceed co (.finish (h :: hs) held) others).board = t.board.dismissed h := by
    rw [proceed, Call.step, quietly_unregister]
  obtain ⟨honward, hregistries, hphase⟩ := dismissed_quiet t.board h
  rw [← hboard] at honward hregistries hphase
  have htable : (t.proceed co (.finish (h :: hs) held) others).board.registry co.registry =
      t.board.registry co.registry := by rw [registry, hregistries, registry]
  obtain ⟨hinstalled, hnot⟩ := hk.away (hcalls.mem_iff.mpr List.mem_cons_self)
    (List.mem_cons_self : h ∈ (Call.finish (h :: hs) held).carries)
  constructor
  · refine hk.turn [.finish (h :: hs) held] [.finish hs held] [h] hcalls rfl honward htable rfl rfl
      (.of_eq (by simp [Call.carries])) (fun x hx => ?_)
    rw [List.mem_singleton.mp hx, hphase, if_pos rfl]
    rfl
  · refine hd.rephase hk [.finish (h :: hs) held] [.finish hs held] hcalls rfl honward (g := h)
      (fun x hx => by rw [hphase, if_neg hx]) ?_ rfl ?_ (by rw [htable]) rfl
      (fun _ hm => absurd hm hnot) ?_ ?_ ?_ ?_ (hd.apart_next hcalls (List.nil_sublist _))
    · exact .inr (.inl ⟨by rw [hphase, if_pos rfl], .inl hinstalled⟩)
    · simp
    · simp
    · intro x hx hne
      simpa [Call.ends, hne] using hx
    · intro hp
      rw [hphase, if_pos rfl] at hp
      cases hp
    · intro c hc
      rw [List.mem_singleton.mp hc]
      trivial

/-- Holds are given back. -/
theorem kept_returned (hk : t.Placed co) (hd : t.Due co) {held : List HandlerId}
    (hcalls : t.calls.Perm (.finish [] held :: others)) :
    (t.proceed co (.finish [] held) others).Placed co ∧
      (t.proceed co (.finish [] held) others).Due co := by
  have honward := (letGoAll_quiet t.board held).1
  have htable : (t.board.letGoAll held).registry co.registry = t.board.registry co.registry := by
    rw [registry, registries_letGoAll, registry]
  constructor
  · exact hk.turn [.finish [] held] [] [] hcalls rfl honward htable rfl rfl (.refl _)
      (List.forall_mem_nil _)
  · refine hd.shift hk [.finish [] held] [] hcalls rfl honward
      (fun x _ => letGoAll_phase t.board held x) ?_ ?_ (fun x => id) (fun x => .inl) ?_ ?_
      (List.forall_mem_nil _) (hd.apart_next hcalls (List.nil_sublist _))
    · intro x
      change x ∈ t.installed ↔ _
      simp
    · intro x hx
      exact .inl (htable ▸ hx)
    · simp
    · simp [Call.ends]

/-- A handler that is not current ends. -/
theorem kept_depart (hk : t.Placed co) (hd : t.Due co)
    (hcalls : t.calls.Perm (.depart h :: others)) :
    (t.proceed co (.depart h) others).Placed co ∧ (t.proceed co (.depart h) others).Due co := by
  obtain ⟨hhome, hbegun, hrevived⟩ : t.Fits co (.depart h) := hd.first hcalls
  have hboard : (t.proceed co (.depart h) others).board = t.board.dismissed h := by
    rw [proceed, Call.step, quietly_unregister]
  obtain ⟨honward, hregistries, hphase⟩ := dismissed_quiet t.board h
  rw [← hboard] at honward hregistries hphase
  have htable : (t.proceed co (.depart h) others).board.registry co.registry =
      t.board.registry co.registry := by rw [registry, hregistries, registry]
  constructor
  · exact hk.turn [.depart h] [.finish [] [h]] [] hcalls rfl honward htable rfl rfl (.refl _)
      (List.forall_mem_nil _)
  · refine hd.rephase hk [.depart h] [.finish [] [h]] hcalls rfl honward (g := h)
      (fun x hx => by rw [hphase, if_neg hx]) ?_ rfl ?_ (by rw [htable]) rfl
      (fun _ hm => .inr (hrevived hm)) ?_ ?_ ?_ ?_ (hd.apart_next hcalls (List.nil_sublist _))
    · exact .inr (.inl ⟨by rw [hphase, if_pos rfl], .inr hbegun⟩)
    · simp
    · intro x hx
      cases List.mem_singleton.mp hx
      rw [hphase, if_pos rfl]
    · intro x hx hne
      simp [Call.ends, hne] at hx
    · intro hp
      rw [hphase, if_pos rfl] at hp
      cases hp
    · intro c hc
      rw [List.mem_singleton.mp hc]
      trivial

/-- A handler that is not current is about to end. -/
theorem kept_outrun (hk : t.Placed co) (hd : t.Due co)
    (hcalls : t.calls.Perm (.leave h :: others))
    (hcur : t.board.isCurrent co.registry (t.board.handler h).name h = false) :
    Placed co { t with calls := .depart h :: others } ∧
      Due co { t with calls := .depart h :: others } := by
  obtain ⟨hhome, hbegun⟩ : t.Fits co (.leave h) := hd.first hcalls
  constructor
  · exact hk.turn [.leave h] [.depart h] [] hcalls rfl (.refl _) rfl rfl rfl (.refl _)
      (List.forall_mem_nil _)
  · refine hd.shift hk [.leave h] [.depart h] hcalls rfl (.refl _) (fun _ _ => rfl) ?_
      (fun x => .inl) (fun x => id) (fun x => .inl) ?_ ?_ ?_
      (hd.apart_next hcalls (List.nil_sublist _))
    · simp
    · simp
    · simp [Call.ends]
    · intro c hc
      rw [List.mem_singleton.mp hc]
      exact ⟨hhome, hbegun, fun hm => absurd hm (hk.absent hcur)⟩

/-- What is exchanged when a current handler leaves its registry and ends. -/
theorem exchange_left (hk : t.Placed co) (hd : t.Due co)
    (hcalls : t.calls.Perm (.leave h :: others))
    (hcur : t.board.isCurrent co.registry (t.board.handler h).name h = true) :
    Exchange co [.leave h] [.finish [] [h]] others t
      { t with board := t.board.departed co.registry h, calls := .finish [] [h] :: others } := by
  obtain ⟨-, hbegun⟩ : t.Fits co (.leave h) := hd.first hcalls
  obtain ⟨honward, htable, hphase⟩ := departed_quiet hk.owned h
  obtain ⟨hperm, hnot⟩ := hk.present hcur
  rw [← htable] at hperm hnot
  have hpasses : ∀ x, (t.board.departed co.registry h).phase x = t.board.phase x ∨
      x = h ∧ (t.board.departed co.registry h).phase x = .unregistered := by
    intro x
    by_cases hx : x = h
    · exact .inr ⟨hx, by rw [hphase, if_pos hx]⟩
    · exact .inl (by rw [hphase, if_neg hx])
  exact {
    before := hcalls
    after := rfl
    onward := honward
    passes := fun x _ => by
      rcases hpasses x with he | ⟨rfl, hp⟩
      · exact .inl he
      · exact .inr (.inl ⟨hp, .inr hbegun⟩)
    installed := by simp
    entered := fun x hx => .inl (hperm.mem_iff.mpr (List.mem_cons_of_mem _ hx))
    stayed := fun x hx _ hp => by
      rcases hpasses x with he | ⟨rfl, -⟩
      · exact .inl (he ▸ hp)
      · exact absurd hx hnot
    kept := fun _ => id
    revived := fun _ => .inl
    departed := by simp
    ends := fun x hx hp => by
      cases List.mem_singleton.mp (by simpa [Call.ends] using hx)
      rw [hphase, if_pos rfl] at hp
      cases hp
    failed := fun x _ hp => by
      rcases hpasses x with he | ⟨-, he⟩
      · exact .inl (he ▸ hp)
      · rw [he] at hp
        cases hp
    fits := fun c hc => by
      rw [List.mem_singleton.mp hc]
      trivial
    apart := hd.apart_next hcalls (List.nil_sublist _) }

/-- A current handler leaves its registry and ends. -/
theorem kept_left (hk : t.Placed co) (hd : t.Due co)
    (hcalls : t.calls.Perm (.leave h :: others))
    (hcur : t.board.isCurrent co.registry (t.board.handler h).name h = true) :
    Placed co { t with
      board := t.board.departed co.registry h, calls := .finish [] [h] :: others } ∧
    Due co { t with
      board := t.board.departed co.registry h, calls := .finish [] [h] :: others } := by
  obtain ⟨honward, htable, hphase⟩ := departed_quiet hk.owned h
  obtain ⟨hperm, -⟩ := hk.present hcur
  rw [← htable] at hperm
  constructor
  · refine hk.lose [h] honward (htable ▸ hk.owned)
      (htable ▸ Registry.onePerName_erase _ hk.single)
      (fun he => hk.named (Registry.mem_entries_erase.mp (htable ▸ he)).1) rfl ?_ ?_
    · refine List.perm_iff_count.mpr fun x => ?_
      have hgone := (hcalls.flatMap_right Call.carries).count_eq x
      have hcount := hperm.count_eq x
      rw [← List.singleton_append] at hcount
      simp only [places, List.flatMap_cons, Call.carries, List.nil_append, List.count_append] at *
      omega
    · intro x hx
      rw [List.mem_singleton.mp hx, hphase, if_pos rfl]
      rfl
  · exact hd.later hk (exchange_left hk hd hcalls hcur)

/-- A handler that was submitted is on to the next thing, with the one it displaced. -/
theorem kept_submitted (hk : t.Placed co) (hd : t.Due co)
    (hcalls : t.calls.Perm (.submit h old :: others)) {a : Board} {next : Call}
    (honward : t.board.Onward a) (hregistries : a.registries = t.board.registries)
    (hother : ∀ x ≠ h, a.phase x = t.board.phase x) (hbegun : a.phase h ≠ .created)
    (hover : a.phase h = .unregistered → t.board.phase h = .unregistered)
    (hcarries : next.carries = old.toList) (hshows : next.shows.Sublist [h])
    (hfailed : a.phase h = .initFailed → h ∈ next.ends)
    (hfits : Fits co { t with board := a, calls := next :: others } next) :
    Placed co { t with board := a, calls := next :: others } ∧
      Due co { t with board := a, calls := next :: others } := by
  have htable : a.registry co.registry = t.board.registry co.registry := by
    rw [registry, hregistries, registry]
  have hunshown : h ∉ others.flatMap Call.shows := by
    have hapart := (hcalls.flatMap_right Call.shows).nodup_iff.mp hd.apart
    exact (List.nodup_cons.mp hapart).1
  constructor
  · refine hk.turn [.submit h old] [next] [] hcalls rfl honward htable rfl rfl (.of_eq ?_)
      (List.forall_mem_nil _)
    rw [List.flatMap_singleton, List.flatMap_singleton, hcarries]
    rfl
  · refine hd.rephase hk [.submit h old] [next] hcalls rfl honward (g := h) hother
      (.inr (.inr ⟨hunshown, hbegun⟩)) rfl ?_ (congrArg Registry.handlers htable) rfl
      (fun hp _ => .inl (hover hp)) ?_ ?_ ?_ ?_ (hd.apart_next hcalls ?_)
    · simp
    · simp
    · simp [Call.ends]
    · intro hp
      simpa using hfailed hp
    · intro c hc
      rw [List.mem_singleton.mp hc]
      exact hfits
    · rw [List.flatMap_cons, List.flatMap_nil, List.append_nil]
      exact hshows

/-- A new handler is submitted, or it turns out that it cannot be. -/
theorem kept_submit (hk : t.Placed co) (hd : t.Due co)
    (hcalls : t.calls.Perm (.submit h old :: others)) :
    (t.proceed co (.submit h old) others).Placed co ∧
      (t.proceed co (.submit h old) others).Due co := by
  obtain ⟨hhome, hp, hold⟩ : t.Fits co (.submit h old) := hd.first hcalls
  obtain ⟨honward, -, hregistries, hother⟩ := submit_quiet t.board co.station h
  have hcases := submit_phase t.board co.station (lt_of_home hhome)
  have hphase : ∀ x ≠ h, (t.board.submit co.station h).2.phase x = t.board.phase x :=
    fun x hx => by rw [phase, hother x hx, phase]
  generalize hs : t.board.submit co.station h = submitted at *
  obtain ⟨result, a⟩ := submitted
  rcases hcases with ⟨rfl, hcreated, hnow⟩ | ⟨e, rfl, hnow⟩
  · have hstep : t.proceed co (.submit h old) others = { t with
        board := a, calls := .finish old.toList (old.toList ++ [h]) :: others } := by
      rw [proceed, Call.step, hs]
      rfl
    rw [hstep]
    refine kept_submitted hk hd hcalls honward hregistries hphase ?_ ?_ rfl (List.nil_sublist _) ?_
      trivial
    · rw [hnow]
      exact Phase.noConfusion
    · intro hc
      rw [hnow] at hc
      cases hc
    · intro hc
      rw [hnow] at hc
      cases hc
  · have hstep : t.proceed co (.submit h old) others = { t with
        board := a, calls := .restore h old :: others } := by
      rw [proceed, Call.step, hs]
      rfl
    have hfailed : a.phase h = .initFailed ∨ a.phase h = .unregistered := by
      rcases hnow with ⟨-, hnow⟩ | ⟨hn, hnow⟩
      · exact .inl hnow
      · exact .inr (hnow.trans (hp.resolve_left hn))
    rw [hstep]
    refine kept_submitted hk hd hcalls honward hregistries hphase ?_ ?_ rfl (.refl _)
      (fun _ => List.mem_cons_self) ⟨(honward.home hhome).1, hfailed, fun p hm => ?_⟩
    · rcases hfailed with hf | hf
      · rw [hf]
        exact Phase.noConfusion
      · rw [hf]
        exact Phase.noConfusion
    · intro hc
      rcases hnow with ⟨-, hnow⟩ | ⟨-, hnow⟩
      · rw [hnow] at hc
        cases hc
      · exact hnow.symm.trans hc
    · obtain ⟨hi, hn⟩ := hold p hm
      exact ⟨hi, by rw [(honward.home (hk.home p hi)).2, (honward.home hhome).2, hn]⟩

/-- A handler that was not submitted has lost its name, and the one it displaced is put back, left
out or let go of. -/
theorem kept_restored (hk : t.Placed co) (hd : t.Due co)
    (hcalls : t.calls.Perm (.restore h old :: others)) (lost : List HandlerId) {a : Board}
    {gone back : List HandlerId} (honward : t.board.Onward a)
    (hphase : ∀ x, a.phase x = t.board.phase x)
    (howned : 0 < (a.registry co.registry).owners) (hsingle : (a.registry co.registry).OnePerName)
    (hnamed : ∀ {name x}, (name, x) ∈ (a.registry co.registry).entries →
      (t.board.handler x).name = name)
    (hplaces : ((t.board.registry co.registry).handlers ++ old.toList).Perm
      (lost ++ ((a.registry co.registry).handlers ++ gone)))
    (hlost : ∀ x ∈ lost, (t.board.phase x).isActive = false)
    (hnot : h ∉ (a.registry co.registry).handlers)
    (hentry : ∀ x ∈ (a.registry co.registry).handlers,
      x ∈ (t.board.registry co.registry).handlers ∨ ((t.board.phase x).isActive = true ∧
        (.depart x ∈ others → x ∈ back)))
    (hback : ∀ x ∈ back, x ∈ t.installed ∧ .depart x ∈ others) :
    Placed co ⟨a, .depart h :: others, t.installed, gone ++ t.abandoned, back ++ t.revived⟩ ∧
      Due co ⟨a, .depart h :: others, t.installed, gone ++ t.abandoned, back ++ t.revived⟩ := by
  obtain ⟨hhome, hfailed, -⟩ : t.Fits co (.restore h old) := hd.first hcalls
  have hbegun : t.board.phase h ≠ .created := by
    rcases hfailed with hf | hf
    · rw [hf]
      exact Phase.noConfusion
    · rw [hf]
      exact Phase.noConfusion
  constructor
  · refine hk.lose lost honward howned hsingle hnamed rfl ?_ fun x hx => by
      rw [hphase]
      exact hlost x hx
    refine List.perm_iff_count.mpr fun x => ?_
    have hleft := (hcalls.flatMap_right Call.carries).count_eq x
    have hcount := hplaces.count_eq x
    simp only [places, List.flatMap_cons, Call.carries, List.nil_append, List.count_append] at *
    omega
  · refine hd.shift hk [.restore h old] [.depart h] hcalls rfl honward (fun x _ => hphase x) ?_ ?_
      (fun x hx => List.mem_append_right _ hx) ?_ ?_ ?_ ?_
      (hd.apart_next hcalls (List.nil_sublist _))
    · simp
    · intro x hx
      rcases hentry x hx with he | ⟨ha, hr⟩
      · exact .inl he
      · exact .inr ⟨by rw [hphase]; exact ha, fun hc => List.mem_append_left _ (hr hc)⟩
    · intro x hx
      rcases List.mem_append.mp hx with hx | hx
      · exact .inr (hback x hx)
      · exact .inl hx
    · simp
    · simp [Call.ends]
    · intro c hc
      rw [List.mem_singleton.mp hc]
      exact ⟨(honward.home hhome).1, by rw [hphase]; exact hbegun, fun hm => absurd hm hnot⟩

/-- What is left after a handler that was not submitted has given up its name. -/
theorem proceed_restore : t.proceed co (.restore h old) others =
    ⟨(t.board.restore co.registry (t.board.handler h).name h old).2, .depart h :: others,
      t.installed, Call.abandons co t.board (.restore h old) ++ t.abandoned,
      Call.revives co t.board others (.restore h old) ++ t.revived⟩ := rfl

/-- A handler that was not submitted and is still current gives way to an active one. -/
theorem kept_putBack (hk : t.Placed co) (hd : t.Due co) {p : HandlerId}
    (hcalls : t.calls.Perm (.restore h (some p) :: others))
    (hcur : t.board.isCurrent co.registry (t.board.handler h).name h = true)
    (hactive : (t.board.phase p).isActive = true) :
    (t.proceed co (.restore h (some p)) others).Placed co ∧
      (t.proceed co (.restore h (some p)) others).Due co := by
  obtain ⟨-, hfailed, hold⟩ : t.Fits co (.restore h (some p)) := hd.first hcalls
  obtain ⟨honward, -, hphase⟩ :=
    restore_quiet t.board co.registry (t.board.handler h).name h (some p)
  obtain ⟨hsuccess, htable⟩ := registry_restore hk.owned (t.board.handler h).name h (some p)
  have hchosen : (some p).filter (fun p => (t.board.phase p).isActive) = some p :=
    Option.filter_eq_some_iff.mpr ⟨rfl, hactive⟩
  rw [hcur] at hsuccess
  rw [if_pos hcur, hchosen] at htable
  simp only at htable
  obtain ⟨hperm, hnot⟩ := hk.present hcur
  have hother := (hk.away (hcalls.mem_iff.mpr List.mem_cons_self)
    (List.mem_cons_self : p ∈ (Call.restore h (some p)).carries)).2
  rw [proceed_restore, Call.abandons, hsuccess, if_pos rfl]
  refine kept_restored hk hd hcalls [h] honward hphase (htable ▸ hk.owned)
    (htable ▸ Registry.onePerName_insert _ p hk.single) (fun he => ?_) ?_ (fun x hx => ?_)
    (fun hm => ?_) (fun x hx => ?_) (fun x hx => ?_)
  · rcases Registry.mem_entries_insert.mp (htable ▸ he) with ⟨he, -⟩ | ⟨rfl, rfl⟩
    · exact hk.named he
    · exact (hold _ rfl).2
  · rw [htable, Registry.handlers_insert, List.append_nil]
    exact hperm.append_right _
  · rw [List.mem_singleton.mp hx]
    rcases hfailed with hf | hf <;> rw [hf] <;> rfl
  · rw [htable, Registry.handlers_insert] at hm
    rcases List.mem_append.mp hm with hm | hm
    · exact hnot hm
    · rw [← List.mem_singleton.mp hm] at hother
      exact hother (hperm.mem_iff.mpr List.mem_cons_self)
  · rw [htable, Registry.handlers_insert] at hx
    rcases List.mem_append.mp hx with hx | hx
    · exact .inl (hperm.mem_iff.mpr (List.mem_cons_of_mem _ hx))
    · rw [List.mem_singleton.mp hx]
      exact .inr ⟨hactive, fun hc => Call.mem_revives.mpr ⟨hsuccess, rfl, hactive, hc⟩⟩
  · obtain ⟨-, hm, -, hc⟩ := Call.mem_revives.mp hx
    exact ⟨(hold x hm).1, hc⟩

/-- A handler that was not submitted and is still current leaves its name to nobody if the one it
displaced is not active. -/
theorem kept_leftOut (hk : t.Placed co) (hd : t.Due co)
    (hcalls : t.calls.Perm (.restore h old :: others))
    (hcur : t.board.isCurrent co.registry (t.board.handler h).name h = true)
    (hinactive : ∀ p ∈ old, (t.board.phase p).isActive = false) :
    (t.proceed co (.restore h old) others).Placed co ∧
      (t.proceed co (.restore h old) others).Due co := by
  obtain ⟨-, hfailed, hold⟩ : t.Fits co (.restore h old) := hd.first hcalls
  obtain ⟨honward, -, hphase⟩ := restore_quiet t.board co.registry (t.board.handler h).name h old
  obtain ⟨hsuccess, htable⟩ := registry_restore hk.owned (t.board.handler h).name h old
  have hnobody : old.filter (fun p => (t.board.phase p).isActive) = none :=
    Option.filter_eq_none_iff.mpr fun p hp => by rw [hinactive p hp]; exact Bool.false_ne_true
  rw [hcur] at hsuccess
  rw [if_pos hcur, hnobody] at htable
  simp only at htable
  obtain ⟨hperm, hnot⟩ := hk.present hcur
  rw [proceed_restore, Call.abandons, hsuccess, if_pos rfl]
  refine kept_restored hk hd hcalls (h :: old.toList) honward hphase (htable ▸ hk.owned)
    (htable ▸ Registry.onePerName_erase _ hk.single)
    (fun he => hk.named (Registry.mem_entries_erase.mp (htable ▸ he)).1) ?_ (fun x hx => ?_)
    (htable ▸ hnot) (fun x hx => ?_) (fun x hx => ?_)
  · rw [htable, List.append_nil]
    exact (hperm.append_right _).trans (List.perm_append_comm.cons h)
  · rcases List.mem_cons.mp hx with rfl | hx
    · rcases hfailed with hf | hf <;> rw [hf] <;> rfl
    · exact hinactive x (Option.mem_toList.mp hx)
  · exact .inl (hperm.mem_iff.mpr (List.mem_cons_of_mem _ (htable ▸ hx)))
  · obtain ⟨-, hm, -, hc⟩ := Call.mem_revives.mp hx
    exact ⟨(hold x hm).1, hc⟩

/-- A handler that was not submitted and is no longer current lets go of the one it displaced. -/
theorem kept_letGo (hk : t.Placed co) (hd : t.Due co)
    (hcalls : t.calls.Perm (.restore h old :: others))
    (hcur : t.board.isCurrent co.registry (t.board.handler h).name h = false) :
    (t.proceed co (.restore h old) others).Placed co ∧
      (t.proceed co (.restore h old) others).Due co := by
  obtain ⟨honward, -, hphase⟩ := restore_quiet t.board co.registry (t.board.handler h).name h old
  obtain ⟨hsuccess, htable⟩ := registry_restore hk.owned (t.board.handler h).name h old
  rw [hcur] at hsuccess
  rw [if_neg (by rw [hcur]; exact Bool.false_ne_true)] at htable
  rw [proceed_restore, Call.abandons, Call.revives, hsuccess]
  refine kept_restored hk hd hcalls [] honward hphase (htable ▸ hk.owned) (htable ▸ hk.single)
    (fun he => hk.named (htable ▸ he)) ?_ (List.forall_mem_nil _) (htable ▸ hk.absent hcur)
    (fun x hx => .inl (htable ▸ hx)) (List.forall_mem_nil _)
  rw [htable]
  exact .refl _

/-- Who is undone gives way to whoever it displaced, or leaves nobody there, or is not there any
more. -/
theorem kept_restore (hk : t.Placed co) (hd : t.Due co) {old : Option HandlerId}
    (hcalls : t.calls.Perm (.restore h old :: others)) :
    (t.proceed co (.restore h old) others).Placed co ∧
      (t.proceed co (.restore h old) others).Due co := by
  cases hcur : t.board.isCurrent co.registry (t.board.handler h).name h with
  | true =>
    by_cases hactive : ∃ p, old = some p ∧ (t.board.phase p).isActive = true
    · obtain ⟨p, rfl, hactive⟩ := hactive
      exact kept_putBack hk hd hcalls hcur hactive
    · exact kept_leftOut hk hd hcalls hcur fun p hp =>
        Bool.eq_false_iff.mpr fun ha => hactive ⟨p, hp, ha⟩
  | false => exact kept_letGo hk hd hcalls hcur

/-- Whoever stands under a name is taken out to be ended. -/
theorem kept_close (hk : t.Placed co) (hd : t.Due co) {name : String}
    (hcalls : t.calls.Perm (.close name :: others)) :
    (t.proceed co (.close name) others).Placed co ∧ (t.proceed co (.close name) others).Due co := by
  have htable := registry_takeEntry hk.owned name
  have hperm := Registry.perm_handlers hk.single name
  rw [takeEntry_eq] at htable
  have hstep : t.proceed co (.close name) others = { t with
      board := (t.board.takeEntry co.registry name).2
      calls := .finish (t.board.takeEntry co.registry name).1.toList
        (t.board.takeEntry co.registry name).1.toList :: others } := rfl
  rw [hstep, takeEntry_eq]
  refine kept_taken hk hd hcalls (.inr ⟨name, rfl⟩) rfl (htable ▸ hk.owned)
    (htable ▸ Registry.onePerName_erase name hk.single) (fun e he => ?_) (htable ▸ hperm)
  exact (Registry.mem_entries_erase.mp (htable ▸ he)).1

/-- All who stand somewhere are taken out to be ended. -/
theorem kept_drain (hk : t.Placed co) (hd : t.Due co) {visit : Visit}
    (hcalls : t.calls.Perm (.drain visit :: others)) :
    (t.proceed co (.drain visit) others).Placed co ∧
      (t.proceed co (.drain visit) others).Due co := by
  have htable := registry_takeAll hk.owned
  have hstep : t.proceed co (.drain visit) others = { t with
      board := (t.board.takeAll co.registry).2
      calls := .finish (visit co.registry (t.board.takeAll co.registry).1)
        (visit co.registry (t.board.takeAll co.registry).1) :: others } := rfl
  rw [hstep]
  refine kept_taken hk hd hcalls (.inl ⟨visit, rfl⟩) rfl (htable ▸ hk.owned)
    (htable ▸ List.nodup_nil) (fun e he => ?_) ?_
  · rw [htable] at he
    cases he
  · rw [htable]
    exact (visit.fair co.registry _).symm.trans (.of_eq (List.append_nil _).symm)

/-- A handler that leaves its registry ends there if it is current, and goes on to end otherwise. -/
theorem kept_leave (hk : t.Placed co) (hd : t.Due co)
    (hcalls : t.calls.Perm (.leave h :: others)) :
    (t.proceed co (.leave h) others).Placed co ∧ (t.proceed co (.leave h) others).Due co := by
  obtain ⟨hhome, -⟩ : t.Fits co (.leave h) := hd.first hcalls
  have hleave := quietly_leaveRegistry hhome hk.owned
  cases hcur : t.board.isCurrent co.registry (t.board.handler h).name h with
  | true =>
    rw [if_pos hcur] at hleave
    have hstep : t.proceed co (.leave h) others = { t with
        board := t.board.departed co.registry h, calls := .finish [] [h] :: others } := by
      rw [proceed, Call.step, hleave]
      rfl
    rw [hstep]
    exact kept_left hk hd hcalls hcur
  | false =>
    rw [if_neg (by rw [hcur]; exact Bool.false_ne_true)] at hleave
    have hstep : t.proceed co (.leave h) others = { t with calls := .depart h :: others } := by
      rw [proceed, Call.step, hleave]
      rfl
    rw [hstep]
    exact kept_outrun hk hd hcalls hcur

/-- Any call goes on by a step. -/
theorem kept_proceed (hk : t.Placed co) (hd : t.Due co) {call : Call}
    (hcalls : t.calls.Perm (call :: others)) :
    (t.proceed co call others).Placed co ∧ (t.proceed co call others).Due co := by
  cases call with
  | install h => exact kept_install hk hd hcalls
  | submit h old => exact kept_submit hk hd hcalls
  | restore h old => exact kept_restore hk hd hcalls
  | close name => exact kept_close hk hd hcalls
  | drain visit => exact kept_drain hk hd hcalls
  | finish hs held =>
    cases hs with
    | nil => exact kept_returned hk hd hcalls
    | cons h hs => exact kept_finish hk hd hcalls
  | leave h => exact kept_leave hk hd hcalls
  | depart h => exact kept_depart hk hd hcalls

end ToastBoard.Traffic
