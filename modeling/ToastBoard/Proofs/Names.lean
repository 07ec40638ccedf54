import ToastBoard.Proofs.Shares

/-!
# Names do not interfere

Main statement: let requests be made of a coordinator that was just set up, and let its worker do
what there is to do after each. If the requests about other names are left out, the same comes of a
name: whether it stands in the table, what became of its handlers, what their listeners were told,
in order, and the toasts that were recorded under it. The requests that are left are answered as
before. For what is left out does not touch the share of the name, and all of this can be told from
the share.
-/

namespace ToastBoard

open Board

/-- Whether a request is about a name, or about none. -/
def Request.concerns (name : String) (r : Request) : Bool := r.name?.all (· = name)

/-- A choice of requests that leaves out those about other names than one. Whether it leaves out an
alert that fails to say its name does not matter. -/
structure Purges (name : String) (keep : Request → Bool) : Prop where
  /-- Of the requests about names, those about the name are kept. -/
  named : ∀ {r other}, r.name? = some other → (keep r = true ↔ other = name)
  /-- New alerts are still dropped, or no longer. -/
  suppress : ∀ suppressed, keep (.suppress suppressed) = true
  /-- The signal is still fired. -/
  fire : keep .fire = true

namespace Share

/-- The answer to a request, if it is about no other name. -/
def reply (s : Share) : Request → Reply
  | .showAlert source _ =>
    .ofUnit (if s.suppressed = true then .ok () else source.read.result.map fun _ => ())
  | .closeAlert _ | .suppress _ => .done
  | .emit _ _ => .truth (s.stories.any (·.phase = .live))
  | .fire => .count (if s.fired = true then 0 else 1)

/-- Requests with their answers, if they are about no other name. -/
def replies (name : String) : Share → List Request → List (Request × Option Reply)
  | _, [] => []
  | s, r :: rest => (r, some (s.reply r)) :: replies name (s.after name r) rest

end Share

/-- A reading that goes on has read something first. -/
theorem Reading.ok_of_andThen {α β : Type} {r : Reading α} {next : α → Reading β} {y : β}
    (hr : (r.andThen next).result = .ok y) :
    ∃ x, r.result = .ok x ∧ (next x).result = .ok y := by
  unfold Reading.andThen at hr
  cases hx : r.result with
  | error e =>
    rw [hx] at hr
    cases hr
  | ok x =>
    rw [hx] at hr
    exact ⟨x, rfl, hr⟩

/-- What was read from a field is what the alert answers. -/
theorem Reading.ok_of_field {α : Type} {field : String} {answer : Answer α} {x : α}
    (hr : (Reading.field field answer).result = .ok x) : answer = .ok x := by
  cases answer with
  | error e => cases hr
  | ok y =>
    cases hr
    rfl

/-- An alert that can be read says its name. -/
theorem Source.name_of_read {source : Source} {fields : Snapshot}
    (hr : source.read.result = .ok fields) : source.name = .ok fields.name := by
  obtain ⟨cookie, -, hr⟩ := Reading.ok_of_andThen hr
  obtain ⟨name, hname, hr⟩ := Reading.ok_of_andThen hr
  split at hr
  · cases hr
  · rw [Reading.ok_of_field hname]
    iterate 7 obtain ⟨_, -, hr⟩ := Reading.ok_of_andThen hr
    cases hr
    rfl

namespace Purges

variable {name : String} {keep : Request → Bool} {r : Request} {s : Share}

theorem concerns (name : String) : Purges name (Request.concerns name) where
  named {r other} hr := by
    rw [Request.concerns, hr]
    exact decide_eq_true_iff
  suppress _ := rfl
  fire := rfl

/-- What is left out does not touch the share of the name. -/
theorem after_eq (hk : Purges name keep) (hr : keep r = false) : s.after name r = s := by
  have hother : ∀ {other}, r.name? = some other → other ≠ name := fun ho hn =>
    Bool.noConfusion (hr.symm.trans ((hk.named ho).mpr hn))
  cases r with
  | showAlert source listener =>
    rw [Share.after]
    split
    · rfl
    · cases hread : source.read.result with
      | error e => rfl
      | ok fields =>
        have hname : (Request.showAlert source listener).name? = some fields.name :=
          congrArg Except.toOption (Source.name_of_read hread)
        exact if_neg (hother hname)
  | closeAlert other => exact if_neg (hother rfl)
  | emit other outcome => exact if_neg (hother rfl)
  | suppress suppressed => exact Bool.noConfusion (hr.symm.trans (hk.suppress suppressed))
  | fire => exact Bool.noConfusion (hr.symm.trans hk.fire)

/-- What is left out leaves the share of the name as it would have become. -/
theorem foldl_after (hk : Purges name keep) (s : Share) (requests : List Request) :
    (requests.filter keep).foldl (Share.after name) s = requests.foldl (Share.after name) s := by
  induction requests generalizing s with
  | nil => rfl
  | cons r requests ih =>
    cases hr : keep r with
    | true => rw [List.filter_cons_of_pos hr, List.foldl_cons, List.foldl_cons, ih]
    | false =>
      rw [List.filter_cons_of_neg (by rw [hr]; exact Bool.noConfusion), List.foldl_cons,
        hk.after_eq hr, ih]

end Purges

namespace Board

variable {b b' : Board} {c : CoordinatorId} {p p' : Plan} {identity : Option String}
  {visit visit' : Visit} {name : String} {keep : Request → Bool}

/-- What is to be seen of the toasts that were recorded under a name, and how often each was
released. -/
def toastsOf (b : Board) (name : String) : List ((String × String × String × String) × Nat) :=
  (b.screen.toasts.filter (·.name = name)).map fun t => (t.face, t.releases)

/-- Boards on which the same has come of a name. -/
structure SameFor (c : CoordinatorId) (name : String) (b b' : Board) : Prop where
  /-- The name stands in both tables or in neither. -/
  listed : (b'.current? (b'.coordinator c).registry name).isSome =
    (b.current? (b.coordinator c).registry name).isSome
  /-- The same handlers were made for it, and the same became of them. -/
  stories : b'.stories name = b.stories name
  /-- Their listeners were told the same, in the same order. -/
  tale : b'.tale name = b.tale name
  /-- The same toasts were recorded under it and released as often, in the same order. -/
  toasts : b'.toastsOf name = b.toastsOf name

namespace Rests

/-- A name stands in the table as long as it has a live handler. -/
theorem any_live (hb : b.Rests identity p) (name : String) :
    (b.stories name).any (·.phase = .live) = (p.table.get? name).isSome := by
  have hmem : ∀ h, p.table.get? name = some h ↔ h ∈ b.named name ∧ b.phase h = .live := by
    intro h
    rw [← Option.mem_toList, ← hb.live_named, List.mem_filter, decide_eq_true_iff]
  rw [Bool.eq_iff_iff, List.any_eq_true, Option.isSome_iff_exists]
  constructor
  · rintro ⟨story, hm, hp⟩
    obtain ⟨h, hh, rfl⟩ := List.mem_map.mp hm
    exact ⟨h, (hmem h).mpr ⟨hh, of_decide_eq_true hp⟩⟩
  · rintro ⟨h, hg⟩
    exact ⟨b.story h, List.mem_map_of_mem ((hmem h).mp hg).1, decide_eq_true ((hmem h).mp hg).2⟩

/-- A request about no other name is answered as the share of the name says. -/
theorem reply_eq (hb : b.Rests identity p) {r : Request}
    (hr : ∀ {other}, r.name? = some other → other = name) :
    p.reply r = (b.share 0 name).reply r := by
  cases r with
  | showAlert source listener =>
    rw [Share.reply, (hb.fits name).suppressed]
    rfl
  | closeAlert other => rfl
  | emit other outcome =>
    rw [hr rfl]
    exact congrArg Reply.truth (hb.any_live name).symm
  | suppress suppressed => rfl
  | fire =>
    rw [Share.reply, (hb.fits name).fired]
    rfl

/-- What was recorded under a name was recorded for its handlers, and is released unless that one is
live. -/
theorem toastsOf_eq (hb : b.Rests identity p) (name : String) : b.toastsOf name =
    (b.stories name).map fun story =>
      (story.fields.face, if story.phase = .live then 0 else 1) := by
  obtain ⟨reported, hsound⟩ := hb.sound
  have htried : b.screen.attempts.map (·.handler) = List.range b.handlers.length := by
    rw [← hb.tried, line, hb.jobs.2, List.append_nil]
  have hpairs := hb.follows.lined.toasts hsound hb.idle fun _ => hb.refersTo_of_live
  rw [htried] at hpairs
  rw [Board.stories, List.map_map]
  exact forall₂_filter_map (hpairs.imp fun t h hth =>
    ⟨congrArg (fun face => decide (face.1 = name)) hth.2, Prod.ext hth.2 hth.1⟩)

/-- What has come of a name can be told from its share. -/
theorem sameFor (hb : b.Rests identity p) (hb' : b'.Rests identity p')
    (hs : b'.share 0 name = b.share 0 name) : SameFor 0 name b b' := by
  have hstories : b'.stories name = b.stories name := congrArg Share.stories hs
  refine ⟨?_, hstories, congrArg Share.tale hs, ?_⟩
  · rw [hb.coordinator, hb'.coordinator, hb.table, hb'.table, ← hb.any_live, ← hb'.any_live,
      hstories]
  · rw [hb.toastsOf_eq, hb'.toastsOf_eq, hstories]

/-- Requests leave a board at rest. -/
theorem served (hb : b.Rests identity p) (visit : Visit) (requests : List Request) :
    (b.served visit 0 requests).Rests identity (requests.foldl Plan.answer p) := by
  induction requests generalizing b p with
  | nil => exact hb
  | cons r requests ih => exact ih (hb.serve visit r).rests

/-- The share of a name after requests. -/
theorem share_served (hb : b.Rests identity p) (visit : Visit) (name : String)
    (requests : List Request) : (b.served visit 0 requests).share 0 name =
      requests.foldl (Share.after name) (b.share 0 name) := by
  induction requests generalizing b p with
  | nil => rfl
  | cons r requests ih =>
    rw [List.foldl_cons, ← hb.share_serve name r]
    exact ih (hb.serve visit r).rests

/-- Every request is answered. -/
theorem answered (hb : b.Rests identity p) (requests : List Request) :
    ∀ x ∈ b.replies visit 0 requests, x.2 ≠ none := by
  induction requests generalizing b p with
  | nil => exact List.forall_mem_nil _
  | cons r requests ih =>
    refine List.forall_mem_cons.mpr ⟨?_, ih (hb.serve visit r).rests⟩
    rw [(hb.serve visit r).reply]
    exact Option.some_ne_none _

/-- What is kept is answered as the share of the name says. -/
theorem replies_kept (hb : b.Rests identity p) (visit : Visit) (hk : Purges name keep)
    (requests : List Request) : (b.replies visit 0 requests).filter (keep ·.1) =
      Share.replies name (b.share 0 name) (requests.filter keep) := by
  induction requests generalizing b p with
  | nil => rfl
  | cons r requests ih =>
    have hrest := ih (hb.serve visit r).rests
    rw [hb.share_serve] at hrest
    cases hr : keep r with
    | true =>
      have hreply := hb.reply_eq fun ho => (hk.named ho).mp hr
      rw [replies, List.filter_cons_of_pos hr,
        List.filter_cons_of_pos (p := fun x : Request × Option Reply => keep x.1) hr, hrest,
        Share.replies, (hb.serve visit r).reply, hreply]
    | false =>
      rw [hk.after_eq hr] at hrest
      have hno : ¬ keep r = true := by
        rw [hr]
        exact Bool.noConfusion
      rw [replies, List.filter_cons_of_neg hno,
        List.filter_cons_of_neg (p := fun x : Request × Option Reply => keep x.1) hno, hrest]

end Rests

/-- Requests are answered in their order. -/
theorem map_fst_replies (b : Board) (requests : List Request) :
    (b.replies visit c requests).map (·.1) = requests := by
  induction requests generalizing b with
  | nil => rfl
  | cons r requests ih => rw [replies, List.map_cons, ih]

theorem rests_fresh (name : String) (identity : Option String) :
    (fresh name identity).Rests identity {} where
  toHeeds := (pursues_fresh name identity).toHeeds
  sound := ⟨[], (pursues_fresh name identity).sound⟩
  idle := rfl
  tried := rfl
  points := ⟨fun hr => (by cases hr), List.forall_mem_nil _⟩

/-- If requests about other names are left out, the same comes of a name, and the other requests are
answered as before. -/
theorem names_do_not_interfere {settings : Settings} {host : Host}
    (hstart : ({} : Board).setUp settings host = (some ⟨.ok c, Host.questions⟩, b))
    (hk : Purges name keep) (requests : List Request) :
    SameFor c name (b.served visit c requests) (b.served visit' c (requests.filter keep)) ∧
      (b.replies visit c requests).filter (keep ·.1) =
        b.replies visit' c (requests.filter keep) ∧
      (∀ x ∈ b.replies visit c requests, x.2 ≠ none) ∧
      (b.served visit c requests).isIdle ((b.served visit c requests).coordinator c).station =
        true := by
  obtain ⟨rfl, title, identity, rfl⟩ := setUp_fresh hstart
  have hb := rests_fresh title identity
  have hrests := hb.served visit requests
  have hshare := hb.share_served visit name requests
  have hshare' := hb.share_served visit' name (requests.filter keep)
  rw [hk.foldl_after, ← hshare] at hshare'
  have hreplies' := hb.replies_kept visit' hk (requests.filter keep)
  have hall : ((fresh title identity).replies visit' 0 (requests.filter keep)).filter (keep ·.1) =
      (fresh title identity).replies visit' 0 (requests.filter keep) := by
    refine List.filter_eq_self.mpr fun x hx => ?_
    have hm := List.mem_map_of_mem (f := Prod.fst) hx
    rw [map_fst_replies] at hm
    exact (List.mem_filter.mp hm).2
  rw [hall, List.filter_filter, List.filter_congr fun r _ => Bool.and_self (keep r)] at hreplies'
  refine ⟨hrests.sameFor (hb.served visit' _) hshare', ?_, hb.answered requests, ?_⟩
  · rw [hb.replies_kept visit hk, hreplies']
  · rw [hrests.coordinator]
    exact hrests.idle

/-- To show an alert of a name. -/
def hello (name text : String) (listener : ListenerId) : Request :=
  .showAlert (Alert.asSource { name, cookie := "c", title := "t", text, textClickable := true })
    (some listener)

/-- Two names take turns, and both stand in the table when the signal fires. -/
def twoNames : List Request :=
  [hello "a" "one" 0, hello "b" "two" 1, .emit "b" (.activated none), hello "b" "three" 1,
    hello "a" "four" 0, .closeAlert "b", .emit "a" (.activated (some "ok")), .emit "a" .dismissed,
    hello "" "five" 2, hello "a" "six" 0, hello "b" "seven" 0, .fire]

/-- Six handlers are made for the two names, and three of them still are if one name is left out. -/
theorem names_do_not_interfere_twoNames :
    ({} : Board).setUp {} { supported := true, identity := .ok "id" } =
      (some ⟨.ok 0, Host.questions⟩, fresh "ToastBgThread" (some "id")) ∧
    SameFor 0 "a" ((fresh "ToastBgThread" (some "id")).served .inTurn 0 twoNames)
      ((fresh "ToastBgThread" (some "id")).served .reversed 0
        (twoNames.filter (Request.concerns "a"))) ∧
    ((fresh "ToastBgThread" (some "id")).served .inTurn 0 twoNames).handlers.length = 6 ∧
    (twoNames.filter (Request.concerns "a")).length = 6 ∧
    ((fresh "ToastBgThread" (some "id")).served .inTurn 0 twoNames).toastsOf "a" =
      [(("a", "c", "t", "one"), 1), (("a", "c", "t", "four"), 1), (("a", "c", "t", "six"), 1)] ∧
    (((fresh "ToastBgThread" (some "id")).served .inTurn 0 twoNames).tale "a").map
      (·.2.topic) = [.shown, .finished, .shown, .actionTaken, .finished, .shown, .finished] := by
  have hstart : ({} : Board).setUp {} { supported := true, identity := .ok "id" } =
      (some ⟨.ok 0, Host.questions⟩, fresh "ToastBgThread" (some "id")) := rfl
  exact ⟨hstart, (names_do_not_interfere hstart (.concerns "a") twoNames).1,
    by decide +kernel, by decide +kernel, by decide +kernel, by decide +kernel⟩

end Board

end ToastBoard
