import Mathlib.Data.List.Basic
import ToastBoard.Proofs.Precedence

/-!
# Assignments without a NUL

An environment is completed with the assignments of a file unless one of them has a value with a
NUL. A value consists of characters of its line, line feeds and texts of variables, and lines
consist of characters of the file; so where neither the file nor the environment has a NUL, the
environment is completed, and its values still have none.
-/

namespace ToastBoard

namespace DotEnv

variable {P : Char → Prop} {lookup : List Char → List Char}

/-- A value consists of characters of its text, line feeds and characters of variables. -/
theorem forall_mem_readValue (hfeed : P '\n') (hlookup : ∀ name, ∀ c ∈ lookup name, P c)
    {progress : Progress} {weak : Bool} {s value : List Char}
    (h : readValue lookup progress weak s = some value) (hs : ∀ c ∈ s, P c) :
    ∀ c ∈ value, P c := by
  have hmap : ∀ {r : Option (List Char)} {f : List Char → List Char},
      (∀ old, r = some old → ∀ c ∈ old, P c) → (∀ old, (∀ c ∈ old, P c) → ∀ c ∈ f old, P c) →
        ∀ new, r.map f = some new → ∀ c ∈ new, P c := by
    intro r f hr hf new hnew
    obtain ⟨old, hold, rfl⟩ := Option.map_eq_some_iff.mp hnew
    exact hf old (hr old hold)
  revert value
  -- A step ends the value, hands on what the rest gives, or puts characters in front of that.
  fun_induction readValue lookup progress weak s <;> grind

/-- So does the value of an assignment. -/
theorem forall_mem_readAssigned (hfeed : P '\n') (hlookup : ∀ name, ∀ c ∈ lookup name, P c)
    {name s : List Char} {key value : String}
    (h : readAssigned lookup name s = .assignment key value) (hs : ∀ c ∈ s, P c) :
    ∀ c ∈ value.toList, P c := by
  have hrest : ∀ c ∈ s.dropWhile isSpace, P c := fun c hc => hs c (List.dropWhile_subset _ hc)
  unfold readAssigned at h
  split at h
  · cases h
    exact List.forall_mem_nil P
  · cases h
    exact List.forall_mem_nil P
  · cases hv : readValue lookup .plain false (s.dropWhile isSpace) with
    | none => rw [hv] at h; cases h
    | some read =>
      rw [hv] at h
      cases h
      rw [String.toList_ofList]
      exact forall_mem_readValue hfeed hlookup hv hrest

/-- What follows a name stands in the text. -/
theorem rest_subset_of_readName {s name rest : List Char} (h : readName s = some (name, rest)) :
    rest ⊆ s := by
  cases s with
  | nil => cases h
  | cons c s =>
    rw [readName] at h
    split at h
    · cases h
      exact List.Subset.trans (List.dropWhile_subset _) (List.subset_cons_self c s)
    · cases h

theorem forall_mem_readAfterName (hfeed : P '\n') (hlookup : ∀ name, ∀ c ∈ lookup name, P c)
    {name s : List Char} {key value : String}
    (h : readAfterName lookup name s = .assignment key value) (hs : ∀ c ∈ s, P c) :
    ∀ c ∈ value.toList, P c := by
  have hrest : ∀ c ∈ s.dropWhile isSpace, P c := fun c hc => hs c (List.dropWhile_subset _ hc)
  unfold readAfterName at h
  split at h
  · rename_i rest heq
    rw [heq] at hrest
    exact forall_mem_readAssigned hfeed hlookup h (List.forall_mem_of_forall_mem_cons hrest)
  · cases h

/-- The value that a line assigns consists of characters of the line, line feeds and characters of
variables. -/
theorem forall_mem_readLine (hfeed : P '\n') (hlookup : ∀ name, ∀ c ∈ lookup name, P c)
    {line : List Char} {key value : String}
    (h : readLine lookup line = .assignment key value) (hline : ∀ c ∈ line, P c) :
    ∀ c ∈ value.toList, P c := by
  have htrimmed : ∀ c ∈ ((line.reverse.dropWhile isSpace).reverse).dropWhile isSpace, P c := by
    intro c hc
    have hc := List.dropWhile_subset _ (List.mem_reverse.mp (List.dropWhile_subset _ hc))
    exact hline c (List.mem_reverse.mp hc)
  unfold readLine at h
  generalize ((line.reverse.dropWhile isSpace).reverse).dropWhile isSpace = s at h htrimmed
  split at h
  · cases h
  · cases h
  · cases hname : readName s with
    | none => rw [hname] at h; cases h
    | some read =>
      obtain ⟨name, rest⟩ := read
      rw [hname] at h
      have hrest : ∀ c ∈ rest.dropWhile isSpace, P c := fun c hc =>
        htrimmed c (rest_subset_of_readName hname (List.dropWhile_subset _ hc))
      simp only at h
      generalize rest.dropWhile isSpace = rest at h hrest
      split at h
      · exact forall_mem_readAssigned hfeed hlookup h fun c hc =>
          hrest c (List.mem_cons_of_mem _ hc)
      · split at h
        · cases hsecond : readName rest with
          | none => rw [hsecond] at h; cases h
          | some read =>
            rw [hsecond] at h
            exact forall_mem_readAfterName hfeed hlookup h fun c hc =>
              hrest c (rest_subset_of_readName hsecond hc)
        · cases h

theorem flatten_cutLines {α : Type} (isEnd : α → Bool) (cs : List α) :
    (cutLines isEnd cs).flatten = cs := by
  fun_induction cutLines isEnd cs <;> simp_all

theorem scanLine_prefix (scan : Scan) (cs : List Char) : (scanLine scan cs).1 <+: cs := by
  fun_induction scanLine scan cs <;> simp_all

theorem chomp_subset (line : List Char) : chomp line ⊆ line := by
  intro c hc
  rw [← List.mem_reverse]
  unfold chomp at hc
  split at hc
  · rename_i rest heq
    rw [heq]
    exact List.mem_cons_of_mem _ (List.mem_cons_of_mem _ (List.mem_reverse.mp hc))
  · rename_i rest _ heq
    rw [heq]
    exact List.mem_cons_of_mem _ (List.mem_reverse.mp hc)
  · exact List.mem_reverse.mpr hc

/-- A line that is joined consists of characters of the lines it is joined from. -/
theorem subset_of_mem_joinLines {ls : List (List Char)} {before line : List Char} {scan : Scan}
    (h : some line ∈ joinLines ls before scan) : line ⊆ before ++ ls.flatten := by
  fun_induction joinLines ls before scan with
  | case1 => cases h
  | case2 => simp at h
  | case3 next ls before scan _ ih =>
    rcases List.mem_cons.mp h with h | h
    · cases h
      exact List.nil_subset _
    · exact fun c hc => List.mem_append_right _ (List.mem_append_right _ (ih h hc))
  | case4 next ls before scan _ kept hscan ih =>
    rcases List.mem_cons.mp h with h | h
    · cases h
      have hkept := scanLine_prefix scan next
      rw [hscan] at hkept
      refine List.append_subset.mpr ⟨List.subset_append_left _ _, fun c hc => ?_⟩
      exact List.mem_append_right _ (List.mem_append_left _ (hkept.subset hc))
    · exact fun c hc => List.mem_append_right _ (List.mem_append_right _ (ih h hc))
  | case5 next ls before scan _ kept hscan ih =>
    rcases List.mem_cons.mp h with h | h
    · cases h
      have hwhole : before ++ next ⊆ before ++ (next :: ls).flatten := by
        rw [List.flatten_cons, ← List.append_assoc]
        exact List.subset_append_left _ _
      exact List.Subset.trans (chomp_subset _) hwhole
    · exact fun c hc => List.mem_append_right _ (List.mem_append_right _ (ih h hc))
  | case6 next ls before scan _ kept later hlater hscan ih =>
    rw [List.flatten_cons, ← List.append_assoc]
    exact ih h

/-- Lines that are decoded have a NUL only if their bytes have. -/
theorem not_mem_decodeLines {ls : List (List UInt8)} (hls : ∀ line ∈ ls, (0 : UInt8) ∉ line) :
    ∀ line ∈ decodeLines ls, '\x00' ∉ line := by
  fun_induction decodeLines ls with
  | case1 => exact List.forall_mem_nil _
  | case2 => exact List.forall_mem_nil _
  | case3 line rest text htext ih =>
    refine List.forall_mem_cons.mpr ⟨?_, ih fun l hl => hls l (List.mem_cons_of_mem _ hl)⟩
    have hbytes := fromUTF8?_eq_some_iff.mp htext
    rw [← zero_mem_toUTF8_iff, ← hbytes, List.mem_toArray]
    exact hls line List.mem_cons_self

theorem unmarked_subset (bytes : List UInt8) : unmarked bytes ⊆ bytes := by
  unfold unmarked
  split
  · rename_i rest
    exact fun x hx => List.mem_cons_of_mem _ (List.mem_cons_of_mem _ (List.mem_cons_of_mem _ hx))
  · exact List.Subset.refl _

/-- A line has a NUL only if the file has. -/
theorem not_mem_lines {file : ByteArray} (hfile : (0 : UInt8) ∉ file.data) {line : List Char}
    (h : some line ∈ lines file) : '\x00' ∉ line := by
  have hbytes : ∀ l ∈ cutLines (· == 0x0A) (unmarked file.data.toList), (0 : UInt8) ∉ l := by
    intro l hl h0
    have hflat : (0 : UInt8) ∈ (cutLines (· == 0x0A) (unmarked file.data.toList)).flatten :=
      List.mem_flatten.mpr ⟨l, hl, h0⟩
    rw [flatten_cutLines] at hflat
    exact hfile (Array.mem_toList_iff.mp (unmarked_subset _ hflat))
  intro hnul
  have hjoined := subset_of_mem_joinLines h hnul
  rw [List.nil_append] at hjoined
  obtain ⟨l, hl, hnul⟩ := List.mem_flatten.mp hjoined
  exact not_mem_decodeLines hbytes l hl hnul

end DotEnv

/-- No value has a NUL. -/
def Environment.NulFree (e : Environment) : Prop := ∀ x ∈ e.entries, (0 : UInt8) ∉ x.2.data

/-- The file has no NUL. -/
def DotEnvFile.NulFree : DotEnvFile → Prop
  | .absent => True
  | .contents bytes => (0 : UInt8) ∉ bytes.data

/-- A text without a NUL is a file without one. -/
theorem DotEnvFile.nulFree_ofText {text : String} :
    (DotEnvFile.ofText text).NulFree ↔ '\x00' ∉ text.toList :=
  not_congr (zero_mem_toUTF8_iff text)

namespace Environment.NulFree

variable {e : Environment}

theorem not_mem_text (he : e.NulFree) {name text : String} (h : e.text? name = some text) :
    '\x00' ∉ text.toList := by
  obtain ⟨before, after, hsplit, -⟩ := List.lookup_eq_some_iff.mp (text?_eq_some_iff.mp h)
  have hentry : (name, text.toUTF8) ∈ e.entries := by
    rw [hsplit]
    exact List.mem_append_right _ List.mem_cons_self
  rw [← zero_mem_toUTF8_iff]
  exact he _ hentry

/-- A variable can be set to any text without a NUL. -/
theorem set? (he : e.NulFree) {value : String} (hvalue : '\x00' ∉ value.toList)
    (name : String) : ∃ E, e.set? name value.toUTF8 = some E ∧ E.NulFree := by
  rw [← zero_mem_toUTF8_iff] at hvalue
  refine ⟨⟨(name, value.toUTF8) :: e.entries⟩, ?_, List.forall_mem_cons.mpr ⟨hvalue, he⟩⟩
  exact if_neg (by simpa using hvalue)

/-- A line without a NUL assigns no value with a NUL. -/
theorem not_mem_assigned (he : e.NulFree) {line : List Char} {name value : String}
    (hread : DotEnv.readLine (DotEnv.variableText e) line = .assignment name value)
    (hline : '\x00' ∉ line) : '\x00' ∉ value.toList := by
  have hlookup : ∀ name, ∀ c ∈ DotEnv.variableText e name, c ≠ '\x00' := by
    rintro name c hc rfl
    unfold DotEnv.variableText at hc
    split at hc
    · exact List.not_mem_nil hc
    · exact he.not_mem_text ‹_› hc
  have hchars : ∀ c ∈ line, c ≠ '\x00' := by
    rintro c hc rfl
    exact hline hc
  exact fun hnul => DotEnv.forall_mem_readLine (by decide) hlookup hread hchars _ hnul rfl

/-- The lines of a file complete an environment if they have no NUL. -/
theorem complete (he : e.NulFree) {ls : List (Option (List Char))}
    (hls : ∀ line, some line ∈ ls → '\x00' ∉ line) :
    ∃ E, DotEnv.complete e ls = some E ∧ E.NulFree := by
  fun_induction DotEnv.complete e ls with
  | case1 e => exact ⟨e, rfl, he⟩
  | case2 e => exact ⟨e, rfl, he⟩
  | case3 e line rest hread ih => exact ih he fun l hl => hls l (List.mem_cons_of_mem _ hl)
  | case4 e => exact ⟨e, rfl, he⟩
  | case5 e line rest name value hread hset ih =>
    exact ih he fun l hl => hls l (List.mem_cons_of_mem _ hl)
  | case6 e line rest name value hread hunset hpanic =>
    obtain ⟨E, hE, -⟩ := he.set? (he.not_mem_assigned hread (hls line List.mem_cons_self)) name
    rw [hpanic] at hE
    cases hE
  | case7 e line rest name value hread hunset E hset ih =>
    obtain ⟨E', hE', hfree⟩ :=
      he.set? (he.not_mem_assigned hread (hls line List.mem_cons_self)) name
    rw [hset] at hE'
    cases hE'
    exact ih hfree fun l hl => hls l (List.mem_cons_of_mem _ hl)

/-- An environment without a NUL can be completed with any file without a NUL. -/
theorem withFile? (he : e.NulFree) {dotEnv : DotEnvFile} (hfile : dotEnv.NulFree) :
    ∃ E, e.withFile? dotEnv = some E ∧ E.NulFree := by
  cases dotEnv with
  | absent => exact ⟨e, rfl, he⟩
  | contents bytes => exact he.complete fun line hline => DotEnv.not_mem_lines hfile hline

end Environment.NulFree

end ToastBoard
