import ToastBoard.Proofs.Requests

/-!
# The share of a name

What a board says about a name is its share of the board: what became of the handlers that were made
for it and what their listeners were told, and whether new alerts are dropped and the signal has
fired, which concerns all names. What a request makes of the share is defined by the share alone.
Main statement: a request that a board at rest serves takes the share of each name to that, whatever
else is on the board.
-/

namespace ToastBoard

open Board

/-- The share that a name has of a board. -/
structure Share where
  /-- What became of its handlers, oldest first. -/
  stories : List Story
  /-- What their listeners were told, oldest first. -/
  tale : List (Option ListenerId × Notice)
  /-- Whether new alerts are dropped. -/
  suppressed : Bool
  /-- Whether the signal has fired. -/
  fired : Bool

namespace Share

/-- The live handlers end, perhaps because of an outcome. -/
def part (s : Share) (outcome : Option Outcome) : Share :=
  { s with
    stories := s.stories.map (·.ended outcome)
    tale := s.tale ++ s.stories.flatMap fun story =>
      (story.farewell outcome).map fun notice => (story.listener, notice) }

/-- A handler is made and shown. -/
def greet (s : Share) (fields : Snapshot) (listener : Option ListenerId) : Share :=
  { s with
    stories := s.stories ++ [.begun fields listener]
    tale := s.tale ++ (Story.begun fields listener).heard.map fun notice => (listener, notice) }

/-- The share of a name after a request. -/
def after (name : String) (s : Share) : Request → Share
  | .showAlert source listener =>
    if s.suppressed = true then s
    else match source.read.result with
      | .error _ => s
      | .ok fields => if fields.name = name then (s.part none).greet fields listener else s
  | .closeAlert other => if other = name then s.part none else s
  | .emit other outcome => if other = name then s.part (some outcome) else s
  | .suppress suppressed => { s with suppressed }
  | .fire => if s.fired = true then s else { s.part none with fired := true }

/-- Handlers are made and shown one after the other. -/
theorem greet_all (s : Share) (alerts : List (Snapshot × Option ListenerId)) :
    alerts.foldl (fun s alert => s.greet alert.1 alert.2) s = { s with
      stories := s.stories ++ alerts.map fun alert => .begun alert.1 alert.2
      tale := s.tale ++ alerts.flatMap fun alert =>
        (Story.begun alert.1 alert.2).heard.map fun notice => (alert.2, notice) } := by
  induction alerts generalizing s with
  | nil => rw [List.foldl_nil, List.map_nil, List.flatMap_nil, List.append_nil, List.append_nil]
  | cons alert alerts ih =>
    rw [List.foldl_cons, ih, greet, List.map_cons, List.flatMap_cons, List.append_assoc,
      List.append_assoc, List.singleton_append]

variable {p : Plan} {s : Share} {name : String}

/-- What comes of a share by what a plan says of a request: whoever stands under the name ends or
not, and a handler comes for it or not. -/
def follow (p : Plan) (name : String) (s : Share) (r : Request) : Share :=
  { ((p.greets r).toList.filter (·.1.name = name)).foldl (fun s alert => s.greet alert.1 alert.2)
      (if p.parts name r = true then s.part r.outcome? else s) with
    suppressed := (p.answer r).suppressed
    fired := (p.answer r).fired }

/-- A share that agrees with a plan about what concerns all names. -/
structure Fits (s : Share) (p : Plan) : Prop where
  /-- New alerts are dropped or not. -/
  suppressed : s.suppressed = p.suppressed
  /-- The signal has fired or not. -/
  fired : s.fired = p.fired

namespace Fits

/-- Nothing changes about what concerns all names. -/
theorem same (hs : s.Fits p) : { s with suppressed := p.suppressed, fired := p.fired } = s := by
  rw [← hs.suppressed, ← hs.fired]

theorem part (hs : s.Fits p) (outcome : Option Outcome) : (s.part outcome).Fits p :=
  ⟨hs.suppressed, hs.fired⟩

theorem greet (hs : s.Fits p) (fields : Snapshot) (listener : Option ListenerId) :
    (s.greet fields listener).Fits p := ⟨hs.suppressed, hs.fired⟩

theorem after_showAlert (hs : s.Fits p) (source : Source) (listener : Option ListenerId) :
    s.after name (.showAlert source listener) = s.follow p name (.showAlert source listener) := by
  change _ = { ((p.takes source listener).toList.filter (·.1.name = name)).foldl
      (fun s alert => s.greet alert.1 alert.2)
      (if (p.takes source listener).any (·.1.name = name) = true then s.part none else s) with
    suppressed := (p.offer source listener).suppressed
    fired := (p.offer source listener).fired }
  rcases p.offer_cases source listener with ⟨ht, ho⟩ | ⟨fields, hp, hr, ht, ho⟩
  · have hdropped : s.after name (.showAlert source listener) = s := by
      rw [Share.after, hs.suppressed]
      split
      · rfl
      · rename_i hp
        rw [Plan.takes, if_neg hp] at ht
        cases hr : source.read.result with
        | error e => rfl
        | ok fields =>
          rw [hr] at ht
          cases ht
    rw [hdropped, ht, ho]
    exact hs.same.symm
  · have htaken : s.after name (.showAlert source listener) =
        if fields.name = name then (s.part none).greet fields listener else s := by
      rw [Share.after, hs.suppressed, hp, hr]
      rfl
    rw [htaken, ht, ho, Option.toList_some, List.filter_singleton, Option.any_some]
    by_cases hn : fields.name = name
    · rw [if_pos hn, decide_eq_true hn]
      exact ((hs.part none).greet fields listener).same.symm
    · rw [if_neg hn, decide_eq_false hn]
      exact hs.same.symm

/-- The share of a name after a request, as a plan says it. -/
theorem after (hs : s.Fits p) (r : Request) : s.after name r = s.follow p name r := by
  have hpart : ∀ other outcome, (if other = name then s.part outcome else s) =
      { (if decide (other = name) = true then s.part outcome else s) with
        suppressed := p.suppressed, fired := p.fired } := by
    intro other outcome
    rw [if_congr decide_eq_true_iff rfl rfl]
    split
    · exact (hs.part outcome).same.symm
    · exact hs.same.symm
  cases r with
  | showAlert source listener => exact hs.after_showAlert source listener
  | closeAlert other => exact hpart other none
  | emit other outcome => exact hpart other (some outcome)
  | suppress suppressed =>
    change { s with suppressed } = { s with suppressed, fired := p.fired }
    rw [← hs.fired]
  | fire =>
    change (if s.fired = true then s else { s.part none with fired := true }) =
      { (if (!p.fired) = true then s.part none else s) with
        suppressed := p.shut.suppressed, fired := p.shut.fired }
    rw [hs.fired]
    rcases p.shut_cases with ⟨hf, hp⟩ | ⟨hf, hp⟩
    · rw [hp, if_pos hf, if_neg (by rw [hf]; exact Bool.noConfusion), hs.same]
    · rw [hp, if_neg (by rw [hf]; exact Bool.noConfusion), if_pos (by rw [hf]; rfl),
        ← hs.suppressed]
      rfl

end Fits

end Share

namespace Board

variable {b : Board} {h : HandlerId} {p : Plan} {identity : Option String} {visit : Visit}
  {name : String}

/-- The handlers that were made for a name, oldest first. -/
def named (b : Board) (name : String) : List HandlerId :=
  (List.range b.handlers.length).filter fun h => (b.handler h).name = name

/-- What became of the handlers of a name, oldest first. -/
def stories (b : Board) (name : String) : List Story := (b.named name).map b.story

/-- What some of what was told says to the listeners of the handlers of a name. -/
def about (b : Board) (name : String) (news : List Telling) : List (Option ListenerId × Notice) :=
  (news.filter fun t => (b.handler t.handler).name = name).map fun t =>
    ((b.handler t.handler).listener, t.notice)

/-- What the listeners of the handlers of a name were told, oldest first. -/
def tale (b : Board) (name : String) : List (Option ListenerId × Notice) := b.about name b.told

/-- The share that a name has of a board. -/
def share (c : CoordinatorId) (name : String) (b : Board) : Share where
  stories := b.stories name
  tale := b.tale name
  suppressed := (b.coordinator c).suppressed
  fired := b.signal.fired

/-- A list without repetitions that has the members of an option. -/
theorem eq_toList_of_nodup {α : Type} {l : List α} {o : Option α} (hn : l.Nodup)
    (ho : ∀ a, a ∈ l ↔ a ∈ o) : l = o.toList := by
  have honce : o.toList.Nodup := by cases o <;> simp
  have hperm : l.Perm o.toList :=
    (List.perm_ext_iff_of_nodup hn honce).mpr fun a => (ho a).trans Option.mem_toList.symm
  cases o with
  | none => exact List.perm_nil.mp hperm
  | some a => exact List.perm_singleton.mp hperm

/-- Those for whom there is nothing may be left out. -/
theorem flatMap_filter_of {α β : Type} {l : List α} {f : α → List β} {q : α → Bool}
    (hf : ∀ a ∈ l, q a = false → f a = []) : l.flatMap f = (l.filter q).flatMap f := by
  induction l with
  | nil => rfl
  | cons a l ih =>
    have ih := ih fun a ha => hf a (List.mem_cons_of_mem _ ha)
    cases hq : q a with
    | true => rw [List.filter_cons_of_pos hq, List.flatMap_cons, List.flatMap_cons, ih]
    | false => rw [List.filter_cons_of_neg (by rw [hq]; exact Bool.noConfusion), List.flatMap_cons,
        hf a List.mem_cons_self hq, List.nil_append, ih]

/-- What some handlers say is chosen by choosing the handlers. -/
theorem filter_farewells (b : Board) (outcome : Option Outcome) (l : List HandlerId)
    (q : HandlerId → Bool) : (l.flatMap (b.farewell outcome)).filter (q ·.handler) =
      (l.filter q).flatMap (b.farewell outcome) := by
  rw [List.filter_flatMap]
  refine (flatMap_filter_of fun h _ hq => ?_).trans (List.flatMap_congr fun h hh => ?_)
  · refine List.filter_eq_nil_iff.mpr fun t ht => ?_
    rw [handler_of_farewell ht, hq]
    exact Bool.noConfusion
  · refine List.filter_eq_self.mpr fun t ht => ?_
    rw [handler_of_farewell ht]
    exact (List.mem_filter.mp hh).2

namespace Rests

/-- Nobody was told anything but listeners of handlers that were made. -/
theorem lt_of_told (hb : b.Rests identity p) {t : Telling} (ht : t ∈ b.told) :
    t.handler < b.handlers.length := by
  obtain ⟨reported, hsound⟩ := hb.sound
  by_contra hlt
  have hsilent := hsound.notices.silent t.handler (by
    rw [handler_of_le (Nat.le_of_not_lt hlt)]
    rfl)
  have hm : t.notice ∈ b.heard t.handler :=
    List.mem_map_of_mem (List.mem_filter.mpr ⟨ht, decide_eq_true rfl⟩)
  rw [hsilent] at hm
  cases hm

/-- Whoever is heard of before somebody new comes was made. -/
theorem lt_of_earlier (hb : b.Rests identity p) {r : Request} {t : Telling}
    (ht : t ∈ b.told ++ (p.leaves visit r).flatMap (b.farewell r.outcome?)) :
    t.handler < b.handlers.length := by
  rcases List.mem_append.mp ht with ht | ht
  · exact hb.lt_of_told ht
  · obtain ⟨h, hm, ht⟩ := List.mem_flatMap.mp ht
    have hp := hb.live_iff.mpr (p.mem_of_leaves hb.whole hm)
    rw [handler_of_farewell ht]
    exact lt_of_phase_ne (by rw [hp]; exact Phase.noConfusion)

/-- Who of a name is live stands under it. -/
theorem live_named (hb : b.Rests identity p) (name : String) :
    (b.named name).filter (b.phase · = .live) = (p.table.get? name).toList := by
  refine eq_toList_of_nodup ((List.nodup_range.filter _).filter _) fun h => ?_
  rw [Option.mem_def, hb.get?_iff, named, List.mem_filter, List.mem_filter, decide_eq_true_iff,
    decide_eq_true_iff, List.mem_range]
  refine ⟨fun ⟨⟨_, hname⟩, hp⟩ => ⟨hp, hname⟩, fun ⟨hp, hname⟩ => ⟨⟨?_, hname⟩, hp⟩⟩
  exact lt_of_phase_ne (by rw [hp]; exact Phase.noConfusion)

/-- Who of a name goes by a request. -/
theorem leaves_named (hb : b.Rests identity p) (name : String) (r : Request) :
    (p.leaves visit r).filter (fun h => (b.handler h).name = name) =
      if p.parts name r = true then (p.table.get? name).toList else [] := by
  have hmem : ∀ h, h ∈ (p.leaves visit r).filter (fun h => (b.handler h).name = name) ↔
      p.table.get? name = some h ∧ p.parts name r = true := by
    intro h
    rw [List.mem_filter, decide_eq_true_iff]
    refine ⟨fun ⟨hm, hname⟩ => ?_, fun ⟨hg, hparts⟩ =>
      ⟨(p.mem_leaves_iff hb.whole hg).mpr hparts, (hb.get?_iff.mp hg).2⟩⟩
    have hg := hb.get?_iff.mpr ⟨hb.live_iff.mpr (p.mem_of_leaves hb.whole hm), hname⟩
    exact ⟨hg, (p.mem_leaves_iff hb.whole hg).mp hm⟩
  split
  · rename_i hparts
    exact eq_toList_of_nodup ((p.nodup_leaves hb.whole r).filter _) fun h =>
      (hmem h).trans (and_iff_left hparts)
  · rename_i hparts
    exact List.eq_nil_iff_forall_not_mem.mpr fun h hm => hparts ((hmem h).mp hm).2

end Rests

theorem about_append (news news' : List Telling) :
    b.about name (news ++ news') = b.about name news ++ b.about name news' := by
  rw [about, List.filter_append, List.map_append]
  rfl

/-- What is told about one handler is told about its name and no other. -/
theorem about_single (b : Board) (name : String) (h : HandlerId) (notices : List Notice) :
    b.about name (notices.map fun notice => ⟨h, notice⟩) =
      if (b.handler h).name = name then
        notices.map fun notice => ((b.handler h).listener, notice)
      else [] := by
  rw [about, List.filter_map, List.map_map]
  by_cases hname : (b.handler h).name = name
  · rw [if_pos hname]
    exact congrArg (List.map _) (List.filter_eq_self.mpr fun _ _ => decide_eq_true hname)
  · rw [if_neg hname]
    exact congrArg (List.map _)
      (List.filter_eq_nil_iff.mpr fun _ _ => of_decide_eq_true.mt hname)

/-- What some handlers say when they go, as those of a name say it. -/
theorem about_farewells (b : Board) (name : String) (outcome : Option Outcome)
    (l : List HandlerId) : b.about name (l.flatMap (b.farewell outcome)) =
      (l.filter fun h => (b.handler h).name = name).flatMap fun h =>
        ((b.story h).farewell outcome).map fun notice => ((b.story h).listener, notice) := by
  rw [about, filter_farewells b outcome l fun h => (b.handler h).name = name, List.map_flatMap]
  refine List.flatMap_congr fun h _ => ?_
  rw [farewell, List.map_map]
  rfl

namespace Serves

variable {r : Request} {after : Option Reply × Board}

section Old

variable (hb : b.Rests identity p) (hs : Serves visit identity p r b after)

include hb hs

/-- Alerts that handlers were made for stay, and at most one comes. -/
theorem alerts : after.2.alerts = b.alerts ++ (p.greets r).toList := by
  rw [hs.rests.follows.made, hb.follows.made, p.shown_answer]

theorem length : after.2.handlers.length = b.handlers.length + (p.greets r).toList.length := by
  rw [← length_alerts, ← length_alerts, hs.alerts hb, List.length_append]

/-- What was made stays as it was made. -/
theorem same (hlt : h < b.handlers.length) :
    (after.2.handler h).fields = (b.handler h).fields ∧
      (after.2.handler h).listener = (b.handler h).listener := by
  have hlt' : h < after.2.handlers.length := by
    rw [hs.length hb]
    exact Nat.lt_add_right _ hlt
  have hold := getElem?_alerts hlt
  have hnew := getElem?_alerts hlt'
  rw [hs.alerts hb, List.getElem?_append_left (length_alerts b ▸ hlt), hold] at hnew
  exact ⟨(Prod.mk.inj (Option.some.inj hnew)).1.symm, (Prod.mk.inj (Option.some.inj hnew)).2.symm⟩

/-- Nothing else is told to a listener than what its handler says when it goes. -/
theorem about_old {news : List Telling} (hn : ∀ t ∈ news, t.handler < b.handlers.length) :
    after.2.about name news = b.about name news := by
  have hname : ∀ t ∈ news, (after.2.handler t.handler).name = (b.handler t.handler).name :=
    fun t ht => congrArg Snapshot.name (hs.same hb (hn t ht)).1
  rw [about, List.filter_congr fun t ht => by rw [hname t ht]]
  refine List.map_congr_left fun t ht => ?_
  rw [(hs.same hb (hn t (List.mem_filter.mp ht).1)).2]

/-- Whoever goes is over, and nobody else. -/
theorem phase (hlt : h < b.handlers.length) : after.2.phase h =
    if h ∈ p.leaves visit r then .unregistered else b.phase h := by
  have hlt' : h < after.2.handlers.length := by
    rw [hs.length hb]
    exact Nat.lt_add_right _ hlt
  have hgone := hs.rests.follows.gone h hlt'
  rw [p.mem_ended_answer, ← hb.follows.gone h hlt] at hgone
  split
  · rename_i hm
    exact hgone.mpr (.inl hm)
  · rename_i hm
    rw [or_iff_right hm] at hgone
    by_cases hp : b.phase h = .live
    · rw [hp]
      by_contra hp'
      have hover := hgone.mp (hs.rests.over_of_not_live hp')
      rw [hp] at hover
      cases hover
    · rw [hb.over_of_not_live hp]
      exact hgone.mpr (hb.over_of_not_live hp)

/-- Who goes says farewell, and nobody else is heard of. -/
theorem heard (hlt : h < b.handlers.length) : after.2.heard h = b.heard h ++
    if h ∈ p.leaves visit r then (b.story h).farewell r.outcome? else [] := by
  have hgreeting : (p.greeting r).filter (·.handler = h) = [] := by
    refine List.filter_eq_nil_iff.mpr fun t ht => ?_
    obtain ⟨alert, -, ht⟩ := List.mem_flatMap.mp ht
    obtain ⟨n, -, rfl⟩ := List.mem_map.mp ht
    rw [← hb.follows.length, decide_eq_true_iff]
    exact (Nat.ne_of_lt hlt).symm
  have hleaves : (p.leaves visit r).filter (· = h) =
      if h ∈ p.leaves visit r then [h] else [] := by
    rw [List.filter_eq, (p.nodup_leaves hb.whole r).count]
    split <;> rfl
  rw [Board.heard, hs.told, List.filter_append, List.filter_append, hgreeting, List.append_nil,
    filter_farewells b r.outcome? _ (· = h), hleaves, List.map_append]
  refine congrArg (b.heard h ++ ·) ?_
  split
  · rw [List.flatMap_singleton, farewell, List.map_map]
    exact List.map_id _
  · rfl

/-- What became of a handler of a name: it is over if the request does that to the name. -/
theorem story (hh : h ∈ b.named name) : after.2.story h =
    if p.parts name r = true then (b.story h).ended r.outcome? else b.story h := by
  obtain ⟨hlt, hname⟩ := List.mem_filter.mp hh
  have hlt := List.mem_range.mp hlt
  have hsame := hs.same hb hlt
  have hstory : after.2.story h =
      { b.story h with phase := after.2.phase h, heard := after.2.heard h } := by
    rw [Board.story, hsame.1, hsame.2]
    rfl
  rw [hstory, hs.phase hb hlt, hs.heard hb hlt]
  have hstands : b.phase h = .live → p.table.get? name = some h := fun hp =>
    hb.get?_iff.mpr ⟨hp, of_decide_eq_true hname⟩
  by_cases hm : h ∈ p.leaves visit r
  · have hp := hb.live_iff.mpr (p.mem_of_leaves hb.whole hm)
    rw [if_pos hm, if_pos hm, if_pos ((p.mem_leaves_iff hb.whole (hstands hp)).mp hm)]
    exact (if_pos hp).symm
  · have hstays : (if p.parts name r = true then (b.story h).ended r.outcome? else b.story h) =
        b.story h := by
      split
      · rename_i hparts
        exact if_neg fun hp => hm ((p.mem_leaves_iff hb.whole (hstands hp)).mpr hparts)
      · rfl
    rw [if_neg hm, if_neg hm, List.append_nil, hstays]
    rfl

section New

variable {fields : Snapshot} {listener : Option ListenerId}
  (hg : p.greets r = some (fields, listener))

include hg

/-- Whoever comes is live. -/
theorem phase_new : after.2.phase b.handlers.length = .live := by
  have hlt : b.handlers.length < after.2.handlers.length := by
    rw [hs.length hb, hg]
    exact Nat.lt_succ_self _
  by_contra hp
  have hended := (hs.rests.follows.gone _ hlt).mp (hs.rests.over_of_not_live hp)
  have hold : b.handlers.length ∈ p.table.handlers ++ p.ended :=
    List.mem_append.mpr (((p.mem_ended_answer).mp hended).imp_left
      fun hm : b.handlers.length ∈ p.leaves visit r => p.mem_of_leaves hb.whole hm)
  rw [hb.follows.length] at hold
  exact Nat.lt_irrefl _ ((hb.whole.settled _).mpr hold)

/-- Whoever comes has heard that it is shown, and nothing else. -/
theorem heard_new : after.2.heard b.handlers.length = (Story.begun fields listener).heard := by
  have hbefore : (b.told ++ (p.leaves visit r).flatMap (b.farewell r.outcome?)).filter
      (·.handler = b.handlers.length) = [] := by
    refine List.filter_eq_nil_iff.mpr fun t ht => ?_
    rw [decide_eq_true_iff]
    exact Nat.ne_of_lt (hb.lt_of_earlier ht)
  have hgreeting : p.greeting r = (Story.begun fields listener).heard.map fun n =>
      ⟨b.handlers.length, n⟩ := by
    rw [Plan.greeting, hg, Option.toList_some, List.flatMap_singleton, hb.follows.length]
  have hall : (p.greeting r).filter (·.handler = b.handlers.length) = p.greeting r := by
    refine List.filter_eq_self.mpr fun t ht => ?_
    rw [hgreeting] at ht
    obtain ⟨n, -, rfl⟩ := List.mem_map.mp ht
    exact decide_eq_true rfl
  rw [Board.heard, hs.told, ← List.append_assoc, List.filter_append, hbefore, hall, hgreeting,
    List.nil_append, List.map_map]
  exact List.map_id _

/-- What became of whoever comes. -/
theorem story_new : after.2.story b.handlers.length = .begun fields listener := by
  have hlt : b.handlers.length < after.2.handlers.length := by
    rw [hs.length hb, hg]
    exact Nat.lt_succ_self _
  have hmade := getElem?_alerts hlt
  rw [hs.alerts hb, hg, ← length_alerts b, Option.toList_some, List.getElem?_concat_length,
    length_alerts] at hmade
  have hfields := (Prod.mk.inj (Option.some.inj hmade)).1
  have hlistener := (Prod.mk.inj (Option.some.inj hmade)).2
  rw [Board.story, hs.phase_new hb hg, hs.heard_new hb hg, ← hfields, ← hlistener]
  rfl

end New

/-- What became of the handlers of a name. -/
theorem stories (name : String) : after.2.stories name =
    ((b.stories name).map fun story =>
      if p.parts name r = true then story.ended r.outcome? else story) ++
    ((p.greets r).toList.filter (·.1.name = name)).map fun alert => .begun alert.1 alert.2 := by
  have hnamed : (List.range b.handlers.length).filter (fun h => (after.2.handler h).name = name) =
      b.named name := List.filter_congr fun h hh => by
    rw [Handler.name, (hs.same hb (List.mem_range.mp hh)).1]
    rfl
  have hold : (b.named name).map after.2.story = (b.stories name).map fun story =>
      if p.parts name r = true then story.ended r.outcome? else story := by
    rw [Board.stories, List.map_map]
    exact List.map_congr_left fun h hh => hs.story hb hh
  rw [Board.stories, named, hs.length hb]
  cases hg : p.greets r with
  | none =>
    rw [Option.toList_none, List.filter_nil, List.map_nil, List.append_nil]
    exact (congrArg (List.map after.2.story) hnamed).trans hold
  | some alert =>
    have hnew := hs.story_new hb hg
    have hname : (after.2.handler b.handlers.length).name = alert.1.name :=
      congrArg (fun story => story.fields.name) hnew
    rw [Option.toList_some, List.length_singleton, List.range_succ, List.filter_append, hnamed,
      List.map_append, hold, List.filter_singleton, List.filter_singleton, hname]
    by_cases hn : alert.1.name = name
    · simp only [hn, decide_true, cond_true, List.map_singleton, hnew]
    · simp only [hn, decide_false, cond_false, List.map_nil]

/-- What the listeners of the handlers of a name were told. -/
theorem tale (name : String) : after.2.tale name = b.tale name ++
    ((if p.parts name r = true then (b.stories name).flatMap fun story =>
      (story.farewell r.outcome?).map fun notice => (story.listener, notice) else []) ++
    ((p.greets r).toList.filter (·.1.name = name)).flatMap fun alert =>
      (Story.begun alert.1 alert.2).heard.map fun notice => (alert.2, notice)) := by
  have hleft : b.about name ((p.leaves visit r).flatMap (b.farewell r.outcome?)) =
      if p.parts name r = true then (b.stories name).flatMap fun story =>
        (story.farewell r.outcome?).map fun notice => (story.listener, notice) else [] := by
    rw [about_farewells, hb.leaves_named]
    split
    · rw [Board.stories, List.flatMap_map, ← hb.live_named name]
      exact (flatMap_filter_of fun h _ hp => by
        rw [Story.farewell_of_over (of_decide_eq_false hp), List.map_nil]).symm
    · rfl
  have hnew : after.2.about name (p.greeting r) =
      ((p.greets r).toList.filter (·.1.name = name)).flatMap fun alert =>
        (Story.begun alert.1 alert.2).heard.map fun notice => (alert.2, notice) := by
    cases hg : p.greets r with
    | none =>
      rw [Plan.greeting, hg]
      rfl
    | some alert =>
      have hstory := hs.story_new hb hg
      have hname : (after.2.handler b.handlers.length).name = alert.1.name :=
        congrArg (fun story => story.fields.name) hstory
      have hlistener : (after.2.handler b.handlers.length).listener = alert.2 :=
        congrArg (fun story => story.listener) hstory
      rw [Plan.greeting, hg, Option.toList_some, List.flatMap_singleton, ← hb.follows.length,
        about_single, hname, hlistener, List.filter_singleton]
      by_cases hn : alert.1.name = name
      · simp only [hn, if_true, decide_true, cond_true, List.flatMap_singleton]
      · simp only [hn, if_false, decide_false, cond_false, List.flatMap_nil]
  have hold : after.2.about name (b.told ++ (p.leaves visit r).flatMap (b.farewell r.outcome?)) =
      b.about name (b.told ++ (p.leaves visit r).flatMap (b.farewell r.outcome?)) :=
    hs.about_old hb fun t => hb.lt_of_earlier
  rw [Board.tale, hs.told, ← List.append_assoc, about_append, hold, about_append, hleft, hnew,
    List.append_assoc]
  rfl

/-- What comes of the share of a name. -/
theorem share (name : String) : after.2.share 0 name = (b.share 0 name).follow p name r := by
  have hsuppressed : (after.2.coordinator 0).suppressed = (p.answer r).suppressed :=
    congrArg Coordinator.suppressed hs.rests.coordinator
  have hfired : after.2.signal.fired = (p.answer r).fired :=
    congrArg Signal.fired hs.rests.follows.signal
  rw [Board.share, hs.stories hb, hs.tale hb, hsuppressed, hfired, Share.follow,
    Share.greet_all, ← List.append_assoc]
  by_cases hparts : p.parts name r = true
  · simp only [hparts, if_true]
    rfl
  · simp only [hparts, if_false, Bool.false_eq_true, List.map_id', List.append_nil]
    rfl

end Old

end Serves

namespace Rests

theorem fits (hb : b.Rests identity p) (name : String) : (b.share 0 name).Fits p where
  suppressed := congrArg Coordinator.suppressed hb.coordinator
  fired := congrArg Signal.fired hb.follows.signal

/-- A request takes the share of a name to the next one, whatever else is on the board. -/
theorem share_serve (hb : b.Rests identity p) (name : String) (r : Request) :
    (b.serve visit 0 r).2.share 0 name = (b.share 0 name).after name r := by
  rw [(hb.serve visit r).share hb name, (hb.fits name).after]

end Rests

end Board

end ToastBoard
