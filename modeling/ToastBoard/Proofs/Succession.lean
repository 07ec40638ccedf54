import Mathlib.Data.List.Forall2
import Mathlib.Data.List.Sort
import ToastBoard.Proofs.Releases
import ToastBoard.Proofs.Steady

/-!
# Toasts come in the order of the alerts

A worker takes handlers in the order in which they were submitted. If that is the order in which
they were made, then so is the order of the toasts: once a worker has nothing to do, the toasts that
are not released are those of the live handlers, oldest first, however many toasts were recorded and
withdrawn in between.
-/

namespace ToastBoard

open Board

/-- What is to be seen of a toast: its name, its cookie, its title and its text. -/
def Toast.face (t : Toast) : String × String × String × String :=
  (t.name, t.cookie, t.title, t.text)

/-- What is to be seen of a toast for an alert. -/
def Snapshot.face (fields : Snapshot) : String × String × String × String :=
  (fields.name, fields.cookie, fields.title, fields.text)

theorem Toast.Shows.face {t : Toast} {fields : Snapshot} (ht : t.Shows fields) :
    t.face = fields.face := by
  rw [Toast.face, ht.name, ht.cookie, ht.title, ht.text, Snapshot.face]

/-- What is picked out of two lists that go together is mapped to the same. -/
theorem forall₂_filter_map {α β γ : Type} {p : α → Bool} {q : β → Bool} {f : α → γ} {g : β → γ}
    {l : List α} {m : List β} (h : List.Forall₂ (fun a b => p a = q b ∧ f a = g b) l m) :
    (l.filter p).map f = (m.filter q).map g := by
  induction h with
  | nil => rfl
  | cons hab _ ih => grind

namespace Board

variable {b b' : Board} {h : HandlerId} {s : StationId} {T : Terms}

/-- The toasts as they were recorded. -/
def cards (b : Board) : List Toast := b.screen.toasts.map Toast.card

/-- What is to be seen on the screen: the toasts that are not released, oldest first. -/
def seen (b : Board) : List (String × String × String × String) :=
  b.screen.unreleased.map Toast.face

/-- Whom a worker has tried to register or is going to, in its order. -/
def line (b : Board) (s : StationId) : List HandlerId :=
  b.screen.attempts.map (·.handler) ++ b.jobs s

/-- Handlers are tried in the order in which they were made, and each attempt leads to a toast. -/
structure Lined (s : StationId) (b : Board) : Prop where
  /-- Handlers are taken in the order in which they were made. -/
  sorted : (b.line s).Pairwise (· < ·)
  /-- They were made. -/
  known : ∀ x ∈ b.line s, x < b.handlers.length
  /-- What is under way is the newest attempt. -/
  inside : ∀ {i : Nat}, (b.station s).inside = some i → i + 1 = b.screen.attempts.length
  /-- Each attempt but the one under way has led to a toast. -/
  done : b.cards.length + (if (b.station s).inside.isSome then 1 else 0) =
    b.screen.attempts.length
  /-- A toast was recorded for the handler that was tried. -/
  shows : ∀ {i : Nat} {t : Toast} {a : Attempt}, b.cards[i]? = some t →
    b.screen.attempts[i]? = some a → t.Shows (b.handler a.handler).fields
  /-- What a handler has to release comes from its own attempt. -/
  ripe : ∀ {h id}, (b.handler h).registration = some id →
    ∃ a, b.screen.attempts[id - 1]? = some a ∧ a.handler = h

/-- Whoever shows and closes alerts leaves the line as it is. -/
theorem Stirs.line (hs : b.Stirs b') : b'.line s = b.line s := by
  rw [Board.line, jobs, station, hs.stations, hs.attempts]
  rfl

/-- A job goes to the end of the line. -/
theorem line_queued (hs : s < b.stations.length) : (b.queued s h).line s = b.line s ++ [h] := by
  rw [line, jobs_queued hs, ← List.append_assoc]
  rfl

/-- An attempt that begins was next in the line. -/
theorem Steady.line_entered (hst : b.Steady s) {rest : List HandlerId} (hj : b.jobs s = h :: rest) :
    ((b.dequeued s).beginAttempt s h).line s = b.line s := by
  obtain ⟨a, rfl, -, hscreen, hstation⟩ := hst.beginAttempt hj
  have hrest : ((b.dequeued s).beginAttempt s a.handler).jobs s = rest := by
    rw [jobs, hstation]
    exact List.flatMap_map .. |>.trans (List.flatMap_singleton' rest)
  rw [line, hrest, hscreen, List.map_append, List.append_assoc, line, hj]
  rfl

/-- Whoever was tried stays in the line. -/
theorem Steady.line_resolved (hst : b.Steady s) (h : HandlerId) :
    (b.resolved s h).line s = b.line s := by
  rw [line, jobs, (screen_resolved hst.faults).2.1, station_resolved hst.lt_stations]
  rfl

namespace Lined

/-- A handler that was tried was made. -/
theorem lt_of_attempt (hb : b.Lined s) {i : Nat} {a : Attempt}
    (ha : b.screen.attempts[i]? = some a) : a.handler < b.handlers.length :=
  hb.known _ (List.mem_append_left _ (List.mem_map_of_mem (List.mem_of_getElem? ha)))

/-- Whoever shows and closes alerts keeps the order of toasts. -/
theorem stirs (hb : b.Lined s) (hs : b.Stirs b') : b'.Lined s := by
  have hstation : b'.station s = b.station s := by rw [station, hs.stations, station]
  have hcards : b'.cards = b.cards := hs.cards
  refine ⟨?_, fun x hx => ?_, ?_, ?_, fun {i t a} ht ha => ?_, fun hr => ?_⟩
  · rw [hs.line]
    exact hb.sorted
  · rw [hs.line] at hx
    exact Nat.lt_of_lt_of_le (hb.known x hx) hs.onward.length
  · rw [hstation, hs.attempts]
    exact hb.inside
  · rw [hstation, hs.attempts, hcards]
    exact hb.done
  · rw [hcards] at ht
    rw [hs.attempts] at ha
    rw [hs.onward.fields _ (hb.lt_of_attempt ha)]
    exact hb.shows ht ha
  · rw [hs.attempts]
    exact hb.ripe (hs.registration hr)

/-- A handler made after all others goes to the end of the line. -/
theorem queued (hb : b.Lined s) (hs : s < b.stations.length) (hlt : h < b.handlers.length)
    (hnew : ∀ x ∈ b.line s, x < h) : (b.queued s h).Lined s := by
  have hline : (b.queued s h).line s = b.line s ++ [h] := line_queued hs
  have hsame : ∀ x, ((b.queued s h).handler x).fields = (b.handler x).fields ∧
      ((b.queued s h).handler x).registration = (b.handler x).registration := by
    intro x
    change ((b.update h fun hd => { hd with phase := .initializing }).handler x).fields = _ ∧
      ((b.update h fun hd => { hd with phase := .initializing }).handler x).registration = _
    rw [handler_update]
    split <;> exact ⟨rfl, rfl⟩
  have hlength : (b.queued s h).handlers.length = b.handlers.length := length_update ..
  refine ⟨?_, fun x hx => ?_, ?_, ?_, fun {i t a} ht ha => ?_, fun {x id} hr => ?_⟩
  · rw [hline]
    exact List.pairwise_append.mpr ⟨hb.sorted, List.pairwise_singleton .., fun x hx y hy =>
      List.mem_singleton.mp hy ▸ hnew x hx⟩
  · rw [hlength]
    rw [hline] at hx
    rcases List.mem_append.mp hx with hx | hx
    · exact hb.known x hx
    · exact List.mem_singleton.mp hx ▸ hlt
  · rw [inside_queued]
    exact hb.inside
  · rw [inside_queued]
    exact hb.done
  · rw [(hsame _).1]
    exact hb.shows ht ha
  · rw [(hsame x).2] at hr
    exact hb.ripe hr

/-- A worker takes a job. -/
theorem dequeued (hb : b.Lined s) (hst : b.Steady s) {rest : List HandlerId}
    (hj : b.jobs s = h :: rest) : (b.dequeued s).Lined s := by
  have hinside : ((b.dequeued s).station s).inside = (b.station s).inside := by
    rw [hst.station_dequeued hj]
  have hline : ((b.dequeued s).line s).Sublist (b.line s) := by
    rw [line, hst.jobs_dequeued hj, line, hj]
    exact (List.sublist_cons_self h rest).append_left _
  refine ⟨hb.sorted.sublist hline, fun x hx => hb.known x (hline.mem hx), ?_, ?_, hb.shows,
    hb.ripe⟩
  · rw [hinside]
    exact hb.inside
  · rw [hinside]
    exact hb.done

/-- A worker begins an attempt. -/
theorem entered (hb : b.Lined s) (hst : b.Steady s) {rest : List HandlerId}
    (hj : b.jobs s = h :: rest) (hi : (b.station s).inside = none) :
    ((b.dequeued s).beginAttempt s h).Lined s := by
  have hline := hst.line_entered hj
  obtain ⟨a, rfl, -, hscreen, hstation⟩ := hst.beginAttempt hj
  have hcards : ((b.dequeued s).beginAttempt s a.handler).cards = b.cards := by
    rw [cards, hscreen, cards]
  have hdone := hb.done
  rw [hi] at hdone
  have hold : ∀ {i}, i < b.screen.attempts.length →
      (b.screen.attempts ++ [a])[i]? = b.screen.attempts[i]? := List.getElem?_append_left
  refine ⟨hline ▸ hb.sorted, fun x hx => hb.known x (hline ▸ hx), ?_, ?_, fun {i t x} ht hx => ?_,
    fun hr => ?_⟩
  · rw [hstation, hscreen]
    rintro i hi
    rw [← Option.some.inj hi, List.length_append]
    rfl
  · rw [hcards, hstation, hscreen, List.length_append, ← hdone]
    rfl
  · rw [hcards] at ht
    have hlt : i < b.screen.attempts.length := by
      have := (List.getElem?_eq_some_iff.mp ht).1
      simp only [Option.isSome_none, Bool.false_eq_true, if_false] at hdone
      omega
    rw [hscreen, hold hlt] at hx
    exact hb.shows ht hx
  · obtain ⟨x, hx, hxh⟩ := hb.ripe hr
    refine ⟨x, ?_, hxh⟩
    rw [hscreen, hold (List.getElem?_eq_some_iff.mp hx).1]
    exact hx

/-- A worker finishes an attempt. -/
theorem resolved (hb : b.Lined s) (hst : b.Steady s) {a : Attempt}
    (hi : b.inside? s = some a) : (b.resolved s a.handler).Lined s := by
  have hstation := station_resolved (h := a.handler) hst.lt_stations
  obtain ⟨-, hattempts, t, ht, hcards⟩ := screen_resolved (s := s) (h := a.handler) hst.faults
  have hcards' : (b.resolved s a.handler).cards = b.cards ++ [t.card] := hcards
  obtain ⟨i, hin, hget⟩ : ∃ i, (b.station s).inside = some i ∧ b.screen.attempts[i]? = some a :=
    Option.bind_eq_some_iff.mp hi
  have hlt := hb.lt_of_attempt hget
  have hnewest := hb.inside hin
  have hdone : b.cards.length + 1 = b.screen.attempts.length := by
    have hd := hb.done
    rwa [hin] at hd
  have hindex : b.cards.length = i := by omega
  have hfields : ∀ x, ((b.resolved s a.handler).handler x).fields = (b.handler x).fields := by
    intro x
    by_cases hx : x = a.handler
    · rw [hx, handler_resolved_self hlt]
      split <;> rfl
    · rw [handler_resolved hx]
  have hline := hst.line_resolved a.handler
  refine ⟨hline ▸ hb.sorted, fun x hx => ?_, ?_, ?_, fun {j t' x} ht' hx => ?_,
    fun {x id} hr => ?_⟩
  · rw [length_resolved]
    exact hb.known x (hline ▸ hx)
  · rw [hstation]
    simp
  · rw [hstation, hattempts, hcards', List.length_append]
    exact hdone
  · rw [hattempts] at hx
    rw [hfields]
    rw [hcards'] at ht'
    rcases Nat.lt_or_ge j b.cards.length with hj | hj
    · rw [List.getElem?_append_left hj] at ht'
      exact hb.shows ht' hx
    · have hj' : j = i := by
        have := (List.getElem?_eq_some_iff.mp hx).1
        omega
      rw [hj', ← hindex, List.getElem?_concat_length] at ht'
      rw [hj', hget] at hx
      cases ht'
      cases hx
      exact ⟨ht.name, ht.cookie, ht.title, ht.text⟩
  · rw [hattempts]
    by_cases hx : x = a.handler
    · rw [hx, handler_resolved_self hlt] at hr
      split at hr
      · rw [hx]
        exact hb.ripe hr
      · refine ⟨a, ?_, hx.symm⟩
        have hid : b.screen.toasts.length + 1 = id := Option.some.inj hr
        have hlen : b.cards.length = b.screen.toasts.length := List.length_map ..
        rw [← hid, Nat.add_sub_cancel, ← hlen, hindex]
        exact hget
    · rw [handler_resolved hx] at hr
      exact hb.ripe hr

/-- A step of the worker keeps the order of toasts. -/
theorem work (hb : b.Lined s) (hst : b.Steady s) (hj : b.Jobs) : (b.work s).Lined s := by
  have hworks := hst.works hj
  generalize b.work s = b' at hworks
  cases hworks with
  | idle => exact hb
  | skipped hi hjobs hp htidies => exact (hb.dequeued hst hjobs).stirs htidies.toStirs
  | entered hi hjobs hp => exact hb.entered hst hjobs hi
  | finished hi htidies => exact (hb.resolved hst hi).stirs htidies.toStirs

/-- When there is nothing to do, each attempt has led to a toast of its handler, which is released
unless the handler is live. -/
theorem toasts (hb : b.Lined s) (hs : b.Sound false {} T) (hidle : b.isIdle s = true)
    (href : ∀ x, b.phase x = .live → b.refersTo x = true) :
    List.Forall₂ (fun t x => t.releases = (if b.phase x = .live then 0 else 1) ∧
      t.face = (b.handler x).fields.face) b.screen.toasts
      (b.screen.attempts.map (·.handler)) := by
  have hinside : (b.station s).inside = none ∧ (b.station s).worker.queue = [] := by
    simpa [isIdle] using hidle
  have hlength : b.screen.toasts.length = b.screen.attempts.length := by
    have hdone := hb.done
    rw [hinside.1, cards, List.length_map] at hdone
    exact hdone
  have hripe : ∀ {i : Nat} {t : Toast} {a : Attempt}, b.screen.toasts[i]? = some t →
      b.screen.attempts[i]? = some a → ∀ {x}, (b.handler x).registration = some t.id →
      a.handler = x := by
    intro i t a ht ha x hr
    obtain ⟨y, hy, hyx⟩ := hb.ripe hr
    rw [hs.toasts.numbered ht, Nat.add_sub_cancel, ha] at hy
    rw [Option.some.inj hy, hyx]
  refine List.forall₂_iff_get.mpr ⟨hlength.trans (List.length_map ..).symm, fun i hi hi' => ?_⟩
  have hia : i < b.screen.attempts.length := hlength ▸ hi
  have ht := List.getElem?_eq_getElem hi
  have ha := List.getElem?_eq_getElem hia
  have hshows : b.screen.toasts[i].card.Shows (b.handler b.screen.attempts[i].handler).fields :=
    hb.shows (by rw [cards, List.getElem?_map, ht]; rfl) ha
  simp only [List.get_eq_getElem, List.getElem_map]
  refine ⟨?_, Toast.Shows.face ⟨hshows.name, hshows.cookie, hshows.title, hshows.text⟩⟩
  have hlive : b.screen.toasts[i].releases = 0 ↔
      b.phase b.screen.attempts[i].handler = .live := by
    refine ⟨fun h0 => ?_, fun hl => ?_⟩
    · rcases hs.toasts.owned _ (List.mem_of_getElem? ht) h0 with hloose | ⟨x, hx⟩
      · cases hloose
      · rw [hripe ht ha hx]
        exact hs.toasts.live hx (Option.some_ne_none _)
    · obtain ⟨id, hid⟩ := Option.ne_none_iff_exists'.mp (hs.toasts.standing hl (href _ hl))
      obtain ⟨t, hm, rfl, h0, -⟩ := hs.toasts.shown hid
      obtain ⟨j, hj⟩ := List.getElem?_of_mem hm
      have hja : j < b.screen.attempts.length := hlength ▸ (List.getElem?_eq_some_iff.mp hj).1
      have hsame : (b.screen.attempts.map (·.handler))[j]? =
          (b.screen.attempts.map (·.handler))[i]? := by
        rw [List.getElem?_map, List.getElem?_map, List.getElem?_eq_getElem hja, ha]
        exact congrArg some (hripe hj (List.getElem?_eq_getElem hja) hid)
      have hji : j = i :=
        (List.getElem?_inj ((List.length_map _).symm ▸ hja) hs.jobs.tried).mp hsame
      rw [hji, ht] at hj
      rw [Option.some.inj hj]
      exact h0
  have honce := hs.toasts.once _ (List.mem_of_getElem? ht)
  split
  · rename_i hl
    exact hlive.mpr hl
  · rename_i hl
    have hne : b.screen.toasts[i].releases ≠ 0 := fun h0 => hl (hlive.mp h0)
    omega

/-- When there is nothing to do, the toasts that are to be seen are those of the live handlers, in
the order in which these were made. -/
theorem seen (hb : b.Lined s) (hs : b.Sound false {} T) (hidle : b.isIdle s = true)
    (href : ∀ x, b.phase x = .live → b.refersTo x = true) :
    b.seen = ((List.range b.handlers.length).filter (b.phase · = .live)).map
      fun x => (b.handler x).fields.face := by
  have hpairs : List.Forall₂ (fun (t : Toast) x => decide (t.releases = 0) =
      decide (b.phase x = .live) ∧ t.face = (b.handler x).fields.face) b.screen.toasts
      (b.screen.attempts.map (·.handler)) := by
    refine (hb.toasts hs hidle href).imp fun t x ⟨hr, hf⟩ => ⟨decide_eq_decide.mpr ?_, hf⟩
    rw [hr]
    split <;> simp_all
  have hsorted : (b.screen.attempts.map (·.handler)).Pairwise (· < ·) :=
    (List.pairwise_append.mp hb.sorted).1
  have hsame : (b.screen.attempts.map (·.handler)).filter (b.phase · = .live) =
      (List.range b.handlers.length).filter (b.phase · = .live) := by
    refine List.Pairwise.eq_of_mem_iff (r := (· < ·)) (hsorted.filter _)
      (List.pairwise_lt_range.filter _) fun x => ?_
    simp only [List.mem_filter, decide_eq_true_eq, List.mem_range]
    refine and_congr_left fun hl => ⟨fun hx => hb.known x (List.mem_append_left _ hx),
      fun _ => ?_⟩
    obtain ⟨id, hid⟩ := Option.ne_none_iff_exists'.mp (hs.toasts.standing hl (href x hl))
    obtain ⟨a, ha, rfl⟩ := hb.ripe hid
    exact List.mem_map_of_mem (List.mem_of_getElem? ha)
  rw [← hsame]
  exact forall₂_filter_map hpairs

end Lined

end Board

end ToastBoard
