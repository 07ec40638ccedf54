import ToastBoard.Proofs.Interleaving
import ToastBoard.Proofs.Schedules

/-!
# One name, shown by many at once

Calls that show alerts of one name go on step by step, between the steps of each other and of the
worker, on a board on which nothing goes wrong. Whoever comes under the name displaces the one that
stood there, and the call that displaced it ends it once its own handler was submitted. If that is
before the call of the displaced handler came to submit it, then the other call is refused, finds
the name taken and lets go of the handler that it had displaced itself.

What holds while the calls go on comes in three parts, so that each step has to be looked at for
each of them: the board and the calls are in order, it is decided what the calls return, and each
displaced handler has its fate.
-/

namespace ToastBoard

open Board

/-- Two neighbours in a list that has got a new head. -/
theorem neighbours_cons {α : Type} {a q p : α} {l : List α} (h : [q, p] <:+: a :: l) :
    q = a ∧ l.head? = some p ∨ [q, p] <:+: l := by
  rcases List.infix_cons_iff.mp h with ⟨rest, he⟩ | h
  · obtain ⟨hq, hp⟩ := List.cons.inj he
    exact .inl ⟨hq, (congrArg List.head? hp).symm⟩
  · exact .inr h

/-- Whatever is in a list and not at its head comes after something. -/
theorem exists_before {α : Type} {x : α} {l : List α} (hx : x ∈ l) (hne : l.head? ≠ some x) :
    ∃ q, [q, x] <:+: l := by
  induction l with
  | nil => cases hx
  | cons a l ih =>
    have hm : x ∈ l := (List.mem_cons.mp hx).resolve_left fun he => hne (congrArg some he.symm)
    by_cases hh : l.head? = some x
    · obtain ⟨rest, rfl⟩ := List.head?_eq_some_iff.mp hh
      exact ⟨a, [], rest, rfl⟩
    · obtain ⟨q, hq⟩ := ih hm hh
      exact ⟨q, List.infix_cons hq⟩

/-- Calls to show alerts of one name, all under way at once. -/
structure Contest extends Traffic where
  /-- The handlers that these calls have put under the name, the newest first. -/
  newer : List HandlerId := []
  /-- Who stood under the name before. -/
  earlier : Option HandlerId := none
  /-- What the calls of some handlers return, as far as that is decided. -/
  answers : List (HandlerId × Except Failure Unit) := []
  /-- The handlers that ended before their own calls had submitted them. -/
  overtaken : List HandlerId := []

namespace Call

/-- Whom a call holds. -/
def holds : Call → List HandlerId
  | .install h | .leave h | .depart h => [h]
  | .submit h old | .restore h old => old.toList ++ [h]
  | .finish _ held => held
  | .close _ | .drain _ => []

/-- What a step decides about what its call returns. -/
def decides (co : Coordinator) (b : Board) : Call → List (HandlerId × Except Failure Unit)
  | .submit h _ => [(h, (b.submit co.station h).1)]
  | _ => []

/-- Whom a step ends that was not submitted yet. -/
def overtakes (b : Board) : Call → List HandlerId
  | .finish (h :: _) _ | .depart h => if b.phase h = .created then [h] else []
  | _ => []

/-- A call that shows an alert of a name. -/
def Presents (name : String) (b : Board) : Call → Prop
  | .install h | .submit h _ => (b.handler h).name = name
  | .restore .. | .finish .. => True
  | .depart h => b.phase h = .unregistered
  | .close _ | .drain _ | .leave _ => False

end Call

namespace Contest

variable {co : Coordinator} {name : String} {t t' : Contest}

/-- Everybody who has stood under the name, the newest first. -/
def line (t : Contest) : List HandlerId := t.newer ++ t.earlier.toList

/-- What may happen next. -/
inductive Move where
  /-- Somebody calls to show an alert of the name; its handler is made. -/
  | shown (fields : Snapshot) (listener : Option ListenerId)
  /-- The call at a place goes on by a step. -/
  | next (i : Nat)
  /-- The worker takes a step. -/
  | worked

/-- A call goes on by a step. -/
def proceed (co : Coordinator) (t : Contest) (call : Call) (others : List Call) : Contest where
  toTraffic := t.toTraffic.proceed co call others
  newer := call.installs ++ t.newer
  earlier := t.earlier
  answers := call.decides co t.board ++ t.answers
  overtaken := call.overtakes t.board ++ t.overtaken

/-- What is so after something happened. -/
def after (co : Coordinator) (t : Contest) : Move → Contest
  | .shown fields listener => { t with toTraffic := t.toTraffic.after co (.shown fields listener) }
  | .next i =>
    match t.calls[i]? with
    | none => t
    | some call => t.proceed co call (t.calls.eraseIdx i)
  | .worked => { t with board := t.board.work co.station }

/-- Whether a move shows an alert of no other name. -/
def Move.Names (name : String) : Move → Prop
  | .shown fields _ => fields.name = name
  | _ => True

/-- Nobody has called yet. -/
def opened (co : Coordinator) (name : String) (b : Board) : Contest where
  board := b
  installed := (b.registry co.registry).handlers
  earlier := b.current? co.registry name

/-- What may come of calls that show alerts of a name, after whatever a coordinator was asked for
since it was set up. -/
inductive Run (co : Coordinator) (name : String) : Contest → Prop where
  /-- The coordinator is as it has become. -/
  | start {settings : Settings} {host : Host} {c : CoordinatorId} {b : Board} (beats : List Beat)
      (setUp : ({} : Board).setUp settings host = (some ⟨.ok c, Host.questions⟩, b))
      (here : (beats.foldl (beat c) b).coordinator c = co) :
      Run co name (opened co name (beats.foldl (beat c) b))
  /-- Something happens. -/
  | step {t : Contest} (run : Run co name t) (m : Move) (names : m.Names name) :
      Run co name (t.after co m)

/-- A run goes on with moves that show alerts of the name. -/
theorem Run.follow {moves : List Move} (run : Run co name t) (names : ∀ m ∈ moves, m.Names name) :
    Run co name (moves.foldl (after co) t) := by
  induction moves generalizing t with
  | nil => exact run
  | cons m rest ih =>
    exact ih (run.step m (names m List.mem_cons_self)) fun m' hm =>
      names m' (List.mem_cons_of_mem _ hm)

/-- What the call of a handler returns: it is refused if the handler was over by the time. -/
def verdict (name : String) (t : Contest) (h : HandlerId) : Except Failure Unit :=
  if h ∈ t.overtaken then .error (.other ("handler for '" ++ name ++ "' already initialized"))
  else .ok ()

/-- How it stands with a handler that was displaced by another one: the call of the other is about
to submit it; or it was refused, and is going to let go of the displaced handler or has done so; or
it was accepted, and is going to end the displaced handler or has done so. -/
def Fate (t : Contest) (q p : HandlerId) : Prop :=
  .submit q (some p) ∈ t.calls ∨
  ((∃ e, (q, .error e) ∈ t.answers) ∧ (.restore q (some p) ∈ t.calls ∨ p ∈ t.abandoned)) ∨
  ((q, .ok ()) ∈ t.answers ∧ (.finish [p] [p, q] ∈ t.calls ∨ t.board.phase p = .unregistered))

/-- The board is in order, and so are the calls and the name. -/
structure Kept (co : Coordinator) (name : String) (t : Contest) : Prop where
  /-- Handlers are at their places. -/
  placed : t.toTraffic.Placed co
  /-- Calls fit. -/
  due : t.toTraffic.Due co
  /-- Nothing goes wrong. -/
  steady : t.board.Steady co.station
  /-- The board is in order, and calls hold their handlers. -/
  sound : t.board.Sound false {} { founded with holders := t.calls.flatMap Call.holds }
  /-- All calls show alerts of the name. -/
  shows : ∀ c ∈ t.calls, c.Presents name t.board
  /-- Nobody who is current, carried by a call or let go of is over. -/
  standing : ∀ x ∈ t.places co, t.board.phase x ≠ .unregistered
  /-- The newest handler is current. -/
  entry : t.board.current? co.registry name = t.line.head?
  /-- Who was not submitted is about to be. -/
  unbegun : ∀ x, t.board.phase x = .created →
    .install x ∈ t.calls ∨ ∃ old, .submit x old ∈ t.calls
  /-- All handlers of the name have stood under it or are over, unless they are just coming. -/
  covered : ∀ x < t.board.handlers.length, (t.board.handler x).name = name →
    x ∈ t.line ∨ t.board.phase x = .unregistered ∨ .install x ∈ t.calls
  /-- Those that have stood under the name were put there. -/
  installed : ∀ x ∈ t.line, x ∈ t.installed

/-- What calls return is decided when they submit their handlers. -/
structure Judged (name : String) (t : Contest) : Prop where
  /-- For each new handler it is decided once it was submitted. -/
  answered : ∀ h ∈ t.newer, h ∈ t.answers.map (·.1) ∨ ∃ old, .submit h old ∈ t.calls
  /-- And not before. -/
  undecided : ∀ {h old}, .submit h old ∈ t.calls → h ∈ t.newer ∧ h ∉ t.answers.map (·.1)
  /-- It is decided once. -/
  once : (t.answers.map (·.1)).Nodup
  /-- It is refusal exactly for those that were overtaken. -/
  verdicts : ∀ {h r}, (h, r) ∈ t.answers → h ∈ t.newer ∧ r = t.verdict name h
  /-- Who was overtaken is over. -/
  ended : ∀ h ∈ t.overtaken, h ∈ t.newer ∧ t.board.phase h = .unregistered
  /-- Who is submitted too late was overtaken. -/
  late : ∀ {h old}, .submit h old ∈ t.calls → t.board.phase h ≠ .created → h ∈ t.overtaken

/-- All is as it should be in the middle of things. -/
structure Fair (co : Coordinator) (name : String) (t : Contest) : Prop where
  /-- The board is in order. -/
  kept : t.Kept co name
  /-- So is what calls return. -/
  judged : t.Judged name
  /-- Each displaced handler has its fate. -/
  fates : ∀ {q p}, [q, p] <:+: t.line → t.Fate q p

/-- Who has stood under the name was made. -/
theorem Kept.made (hk : t.Kept co name) {x : HandlerId} (hx : x ∈ t.line) :
    x < t.board.handlers.length :=
  lt_of_home (hk.placed.home _ (hk.installed x hx))

/-- What a call is about to show remains so. -/
theorem Kept.presents (hk : t.Kept co name) (ho : t.board.Onward t'.board) {c : Call}
    (hc : c ∈ t.calls) : c.Presents name t'.board := by
  have hshows := hk.shows c hc
  have hfits := hk.due.fits c hc
  have hname : ∀ {x}, (t.board.handler x).registry = some co.registry →
      (t'.board.handler x).name = (t.board.handler x).name := fun hr => (ho.home hr).2
  cases c with
  | install x => exact (hname hfits.1).trans hshows
  | submit x old => exact (hname hfits.1).trans hshows
  | restore x old => trivial
  | finish hs held => trivial
  | depart x => exact ho.over (lt_of_home hfits.1) hshows
  | close name => exact hshows
  | drain visit => exact hshows
  | leave x => exact hshows

/-- Calls come and go on, and some handlers come under the name. -/
theorem Kept.later (hk : t.Kept co name) (gone new : List Call) (came : List HandlerId)
    {others : List Call} (hcalls : t.calls.Perm (gone ++ others))
    (hcalls' : t'.calls = new ++ others)
    (hplaced : t'.toTraffic.Placed co) (hdue : t'.toTraffic.Due co)
    (hsteady : t'.board.Steady co.station)
    (hsound : t'.board.Sound false {} { founded with holders := t'.calls.flatMap Call.holds })
    (ho : t.board.Onward t'.board) (hline : t'.line = came ++ t.line)
    (hi : t'.installed = came ++ t.installed)
    (hentry : t'.board.current? co.registry name = t'.line.head?)
    (hnew : ∀ c ∈ new, c.Presents name t'.board)
    (hstanding : ∀ x ∈ t'.places co, t'.board.phase x ≠ .unregistered)
    (hunbegun : ∀ x, t'.board.phase x = .created →
      (.install x ∈ new ∨ ∃ old, .submit x old ∈ new) ∨
        t.board.phase x = .created ∧ .install x ∉ gone ∧ ∀ old, .submit x old ∉ gone)
    (hmade : ∀ x < t'.board.handlers.length, x < t.board.handlers.length ∨ .install x ∈ new)
    (hcame : ∀ x, .install x ∈ gone → x ∈ came) : t'.Kept co name := by
  have hlater : ∀ c ∈ t.calls, c ∈ gone ∨ c ∈ t'.calls := by
    intro c hc
    rw [hcalls']
    exact (List.mem_append.mp (hcalls.mem_iff.mp hc)).imp_right (List.mem_append_right _)
  have hcoming : ∀ {c}, c ∈ new → c ∈ t'.calls := fun hc => hcalls' ▸ List.mem_append_left _ hc
  refine ⟨hplaced, hdue, hsteady, hsound, fun c hc => ?_, hstanding, hentry, fun x hx => ?_,
    fun x hlt hname => ?_, fun x hx => ?_⟩
  · rw [hcalls'] at hc
    rcases List.mem_append.mp hc with hc | hc
    · exact hnew c hc
    · exact hk.presents ho (hcalls.mem_iff.mpr (List.mem_append_right _ hc))
  · rcases hunbegun x hx with hc | ⟨hp, hinstall, hsubmit⟩
    · exact hc.imp hcoming (Exists.imp fun _ => hcoming)
    · rcases hk.unbegun x hp with hc | ⟨old, hc⟩
      · exact .inl ((hlater _ hc).resolve_left hinstall)
      · exact .inr ⟨old, (hlater _ hc).resolve_left (hsubmit old)⟩
  · rcases hmade x hlt with hlt | hc
    · rw [Handler.name, ho.fields x hlt] at hname
      rw [hline]
      rcases hk.covered x hlt hname with hm | hp | hc
      · exact .inl (List.mem_append_right _ hm)
      · exact .inr (.inl (ho.over hlt hp))
      · rcases hlater _ hc with hg | hc
        · exact .inl (List.mem_append_left _ (hcame x hg))
        · exact .inr (.inr hc)
    · exact .inr (.inr (hcoming hc))
  · rw [hi]
    rw [hline] at hx
    exact List.mem_append.mpr ((List.mem_append.mp hx).imp_right (hk.installed x))

/-- Nothing is decided while the same handlers are to be submitted. -/
theorem Judged.same (hj : t.Judged name)
    (hsubmit : ∀ {x old}, .submit x old ∈ t'.calls ↔ .submit x old ∈ t.calls)
    (hnewer : t'.newer = t.newer) (hanswers : t'.answers = t.answers)
    (hovertaken : t'.overtaken = t.overtaken)
    (hphase : ∀ x ∈ t.newer, (t'.board.phase x = .created ↔ t.board.phase x = .created) ∧
      (t.board.phase x = .unregistered → t'.board.phase x = .unregistered)) :
    t'.Judged name := by
  refine ⟨?_, ?_, ?_, ?_, ?_, ?_⟩
  · rw [hnewer, hanswers]
    exact fun x hx => (hj.answered x hx).imp_right (Exists.imp fun _ => hsubmit.mpr)
  · rw [hnewer, hanswers]
    exact fun hc => hj.undecided (hsubmit.mp hc)
  · rw [hanswers]
    exact hj.once
  · rw [hnewer, hanswers]
    intro x r hm
    rw [verdict, hovertaken]
    exact hj.verdicts hm
  · rw [hnewer, hovertaken]
    exact fun x hx => ⟨(hj.ended x hx).1, (hphase x (hj.ended x hx).1).2 (hj.ended x hx).2⟩
  · rw [hovertaken]
    intro x old hc hp
    have hm := hsubmit.mp hc
    exact hj.late hm fun hcreated => hp ((hphase x (hj.undecided hm).1).1.mpr hcreated)

/-- Nor is anything decided while each handler is in the phase it was in. -/
theorem Judged.tidied (hj : t.Judged name)
    (hsubmit : ∀ {x old}, .submit x old ∈ t'.calls ↔ .submit x old ∈ t.calls)
    (hnewer : t'.newer = t.newer) (hanswers : t'.answers = t.answers)
    (hovertaken : t'.overtaken = t.overtaken)
    (hphase : ∀ x, t'.board.phase x = t.board.phase x) : t'.Judged name :=
  hj.same hsubmit hnewer hanswers hovertaken fun x _ => by
    rw [hphase]
    exact ⟨.rfl, id⟩

/-- A handler is submitted, and it is decided what its call returns. -/
theorem Judged.submitted (hj : t.Judged name) {h : HandlerId} {old : Option HandlerId} {next : Call}
    {others : List Call} (hcalls : t.calls.Perm (.submit h old :: others))
    (hapart : (t.calls.flatMap Call.shows).Nodup) (hcalls' : t'.calls = next :: others)
    (hnext : ∀ x old, next ≠ .submit x old) (hnewer : t'.newer = t.newer)
    (hanswers : t'.answers = (h, t.verdict name h) :: t.answers)
    (hovertaken : t'.overtaken = t.overtaken)
    (hphase : ∀ x ≠ h, t'.board.phase x = t.board.phase x)
    (hover : t.board.phase h = .unregistered → t'.board.phase h = .unregistered) :
    t'.Judged name := by
  have hfirst : .submit h old ∈ t.calls := hcalls.mem_iff.mpr List.mem_cons_self
  have hnodup := (hcalls.flatMap_right Call.shows).nodup_iff.mp hapart
  -- no other call is to submit the same handler
  have hsubmit : ∀ {x old}, .submit x old ∈ t'.calls → .submit x old ∈ t.calls ∧ x ≠ h := by
    intro x old' hc
    rw [hcalls'] at hc
    have hm := (List.mem_cons.mp hc).resolve_left fun he => hnext x old' he.symm
    refine ⟨hcalls.mem_iff.mpr (List.mem_cons_of_mem _ hm), fun he => ?_⟩
    refine (List.nodup_cons.mp hnodup).1 (List.mem_flatMap.mpr ⟨_, hm, ?_⟩)
    exact List.mem_singleton.mpr he.symm
  refine ⟨?_, ?_, ?_, ?_, ?_, ?_⟩
  · rw [hnewer, hanswers]
    intro x hx
    rcases hj.answered x hx with hm | ⟨old', hc⟩
    · exact .inl (List.mem_cons_of_mem _ hm)
    · rcases List.mem_cons.mp (hcalls.mem_iff.mp hc) with he | hc
      · cases he
        exact .inl List.mem_cons_self
      · exact .inr ⟨old', hcalls' ▸ List.mem_cons_of_mem _ hc⟩
  · rw [hnewer, hanswers]
    intro x old' hc
    obtain ⟨hm, hne⟩ := hsubmit hc
    obtain ⟨hn, hnot⟩ := hj.undecided hm
    exact ⟨hn, fun hx => (List.mem_cons.mp hx).elim hne hnot⟩
  · rw [hanswers]
    exact List.nodup_cons.mpr ⟨(hj.undecided hfirst).2, hj.once⟩
  · rw [hnewer, hanswers]
    intro x r hm
    rw [verdict, hovertaken]
    rcases List.mem_cons.mp hm with he | hm
    · cases he
      exact ⟨(hj.undecided hfirst).1, rfl⟩
    · exact hj.verdicts hm
  · rw [hnewer, hovertaken]
    intro x hx
    obtain ⟨hn, hp⟩ := hj.ended x hx
    refine ⟨hn, ?_⟩
    by_cases he : x = h
    · rw [he] at hp ⊢
      exact hover hp
    · rw [hphase x he]
      exact hp
  · rw [hovertaken]
    intro x old' hc hp
    obtain ⟨hm, hne⟩ := hsubmit hc
    rw [hphase x hne] at hp
    exact hj.late hm hp

/-- A handler comes under the name and is about to be submitted. -/
theorem Judged.installed (hj : t.Judged name) {h : HandlerId} {old : Option HandlerId}
    {others : List Call} (hcalls : t.calls.Perm (.install h :: others))
    (hcalls' : t'.calls = .submit h old :: others) (hnewer : t'.newer = h :: t.newer)
    (hanswers : t'.answers = t.answers) (hovertaken : t'.overtaken = t.overtaken)
    (hphase : ∀ x, t'.board.phase x = t.board.phase x) (hp : t.board.phase h = .created)
    (hfresh : h ∉ t.newer) : t'.Judged name := by
  have hsubmit : ∀ {x old'}, .submit x old' ∈ t'.calls → x = h ∨ .submit x old' ∈ t.calls := by
    intro x old' hc
    rw [hcalls'] at hc
    rcases List.mem_cons.mp hc with he | hc
    · cases he
      exact .inl rfl
    · exact .inr (hcalls.mem_iff.mpr (List.mem_cons_of_mem _ hc))
  refine ⟨?_, ?_, ?_, ?_, ?_, ?_⟩
  · rw [hnewer, hanswers, hcalls']
    intro x hx
    rcases List.mem_cons.mp hx with rfl | hx
    · exact .inr ⟨old, List.mem_cons_self⟩
    · refine (hj.answered x hx).imp_right (Exists.imp fun old' hc => List.mem_cons_of_mem _ ?_)
      exact (List.mem_cons.mp (hcalls.mem_iff.mp hc)).resolve_left Call.noConfusion
  · rw [hnewer, hanswers]
    intro x old' hc
    rcases hsubmit hc with rfl | hc
    · refine ⟨List.mem_cons_self, fun hm => ?_⟩
      obtain ⟨a, ha, rfl⟩ := List.mem_map.mp hm
      exact hfresh (hj.verdicts ha).1
    · exact ⟨List.mem_cons_of_mem _ (hj.undecided hc).1, (hj.undecided hc).2⟩
  · rw [hanswers]
    exact hj.once
  · rw [hnewer, hanswers]
    intro x r hm
    rw [verdict, hovertaken]
    exact ⟨List.mem_cons_of_mem _ (hj.verdicts hm).1, (hj.verdicts hm).2⟩
  · rw [hnewer, hovertaken]
    intro x hx
    rw [hphase]
    exact ⟨List.mem_cons_of_mem _ (hj.ended x hx).1, (hj.ended x hx).2⟩
  · rw [hovertaken]
    intro x old' hc hne
    rw [hphase] at hne
    rcases hsubmit hc with rfl | hc
    · exact absurd hp hne
    · exact hj.late hc hne

/-- A handler ends, and is overtaken if it was not submitted. -/
theorem Judged.ends (hj : t.Judged name) {p : HandlerId}
    (hsubmit : ∀ {x old}, .submit x old ∈ t'.calls ↔ .submit x old ∈ t.calls)
    (hnewer : t'.newer = t.newer) (hanswers : t'.answers = t.answers)
    (hovertaken : t'.overtaken = (if t.board.phase p = .created then [p] else []) ++ t.overtaken)
    (hphase : ∀ x, t'.board.phase x = if x = p then .unregistered else t.board.phase x)
    (hp : t.board.phase p = .created → ∃ old, .submit p old ∈ t.calls) : t'.Judged name := by
  have hlost : ∀ {x}, x ∈ t'.overtaken ↔ x = p ∧ t.board.phase p = .created ∨ x ∈ t.overtaken := by
    intro x
    rw [hovertaken, List.mem_append]
    split <;> simp [*]
  refine ⟨?_, ?_, ?_, ?_, ?_, ?_⟩
  · rw [hnewer, hanswers]
    exact fun x hx => (hj.answered x hx).imp_right (Exists.imp fun _ => hsubmit.mpr)
  · rw [hnewer, hanswers]
    exact fun hc => hj.undecided (hsubmit.mp hc)
  · rw [hanswers]
    exact hj.once
  · rw [hnewer, hanswers]
    intro x r hm
    obtain ⟨hn, hr⟩ := hj.verdicts hm
    -- nothing was decided yet about a handler that was not submitted
    have hsame : x ∈ t'.overtaken ↔ x ∈ t.overtaken := by
      rw [hlost]
      refine ⟨fun hx => hx.resolve_left ?_, .inr⟩
      rintro ⟨he, hcreated⟩
      obtain ⟨old, hc⟩ := hp hcreated
      exact (hj.undecided hc).2 (List.mem_map.mpr ⟨_, hm, he⟩)
    refine ⟨hn, hr.trans ?_⟩
    simp only [verdict, hsame]
  · rw [hnewer]
    intro x hx
    rw [hphase]
    rcases hlost.mp hx with ⟨rfl, hcreated⟩ | hx
    · obtain ⟨old, hc⟩ := hp hcreated
      exact ⟨(hj.undecided hc).1, if_pos rfl⟩
    · refine ⟨(hj.ended x hx).1, ?_⟩
      split
      · rfl
      · exact (hj.ended x hx).2
  · intro x old hc hne
    rw [hphase] at hne
    rw [hlost]
    have hm := hsubmit.mp hc
    by_cases hcreated : t.board.phase x = .created
    · split at hne
      · rename_i he
        exact .inl ⟨he, he ▸ hcreated⟩
      · exact absurd hcreated hne
    · exact .inr (hj.late hm hcreated)

/-- Fates go on. -/
theorem Fair.fated (hf : t.Fair co name) {q p : HandlerId} (call : Call)
    (hline : ∀ {q p}, [q, p] <:+: t'.line → [q, p] <:+: t.line ∨ .submit q (some p) ∈ t'.calls)
    (ho : t.board.Onward t'.board) (hanswers : ∀ a ∈ t.answers, a ∈ t'.answers)
    (habandoned : ∀ p ∈ t.abandoned, p ∈ t'.abandoned)
    (hlater : ∀ c ∈ t.calls, c = call ∨ c ∈ t'.calls)
    (hsubmit : ∀ {q p}, call = .submit q (some p) → t'.Fate q p)
    (hrestore : ∀ {q p}, call = .restore q (some p) → p ∈ t'.abandoned)
    (hfinish : ∀ {q p}, call = .finish [p] [p, q] → t'.board.phase p = .unregistered)
    (hqp : [q, p] <:+: t'.line) : t'.Fate q p := by
  rcases hline hqp with hqp | hc
  · rcases hf.fates hqp with hc | ⟨⟨e, he⟩, hc⟩ | ⟨hok, hc⟩
    · exact (hlater _ hc).elim (fun he => hsubmit he.symm) .inl
    · refine .inr (.inl ⟨⟨e, hanswers _ he⟩, ?_⟩)
      rcases hc with hc | hm
      · exact ((hlater _ hc).imp_left fun he => hrestore he.symm).symm
      · exact .inr (habandoned p hm)
    · refine .inr (.inr ⟨hanswers _ hok, ?_⟩)
      rcases hc with hc | hp
      · exact ((hlater _ hc).imp_left fun he => hfinish he.symm).symm
      · have hm : p ∈ t.line := hqp.subset (List.mem_cons_of_mem _ List.mem_cons_self)
        exact .inr (ho.over (hf.kept.made hm) hp)
  · exact .inl hc

end Contest

end ToastBoard
