import Mathlib.Data.List.Basic
import ToastBoard.Proofs.Encodings

/-!
# Files that are texts

The bytes of characters under 128 stand for nothing but these characters, so a text is cut into
lines where its bytes are, and a byte order mark stands for one character. A file of variables that
is a text is read as this text.
-/

namespace ToastBoard

theorem ofNat_eq_iff {n : Nat} (hn : n < 256) {k : UInt8} : UInt8.ofNat n = k ↔ n = k.toNat := by
  rw [← UInt8.toNat_inj, UInt8.toNat_ofNat_of_lt' hn]

/-- A byte under 128 only spells the character of its number: the bytes of longer spellings are 128
and more. -/
theorem ascii_mem_utf8EncodeChar_iff {k : UInt8} (hk : k.toNat < 128) (c : Char) :
    k ∈ String.utf8EncodeChar c ↔ c.toNat = k.toNat := by
  change _ ↔ c.val.toNat = _
  simp only [String.utf8EncodeChar]
  split_ifs <;> simp only [List.mem_cons, List.not_mem_nil, or_false, eq_comm (a := k)]
  · exact ofNat_eq_iff (by omega)
  · rw [ofNat_eq_iff (by omega), ofNat_eq_iff (by omega)]
    omega
  · rw [ofNat_eq_iff (by omega), ofNat_eq_iff (by omega), ofNat_eq_iff (by omega)]
    omega
  · rw [ofNat_eq_iff (by omega), ofNat_eq_iff (by omega), ofNat_eq_iff (by omega),
      ofNat_eq_iff (by omega)]
    omega

/-- The bytes of the byte order mark spell nothing else. -/
theorem eq_mark_of_utf8EncodeChar {c : Char} {after rest : List UInt8}
    (h : String.utf8EncodeChar c ++ after = 0xEF :: 0xBB :: 0xBF :: rest) : c = '\uFEFF' := by
  refine Char.ext (UInt32.toNat.inj ?_)
  change c.val.toNat = 0xFEFF
  simp only [String.utf8EncodeChar] at h
  split_ifs at h <;> simp only [List.cons_append, List.nil_append, List.cons.injEq] at h
  · have hfirst := (ofNat_eq_iff (by omega)).mp h.1
    change _ = 239 at hfirst
    omega
  · have hfirst := (ofNat_eq_iff (by omega)).mp h.1
    change _ = 239 at hfirst
    omega
  · have hfirst := (ofNat_eq_iff (by omega)).mp h.1
    have hsecond := (ofNat_eq_iff (by omega)).mp h.2.1
    have hthird := (ofNat_eq_iff (by omega)).mp h.2.2.1
    change _ = 239 at hfirst
    change _ = 187 at hsecond
    change _ = 191 at hthird
    omega
  · have hfirst := (ofNat_eq_iff (by omega)).mp h.1
    change _ = 239 at hfirst
    omega

/-- The bytes of a text are those of its characters. -/
theorem toList_toUTF8 (s : String) :
    s.toUTF8.data.toList = s.toList.flatMap String.utf8EncodeChar := by
  conv_lhs => rw [← String.ofList_toList (s := s)]
  exact List.toList_data_toByteArray

theorem zero_mem_toUTF8_iff (s : String) :
    (0 : UInt8) ∈ s.toUTF8.data ↔ '\x00' ∈ s.toList := by
  have hnul : ∀ c, (0 : UInt8) ∈ String.utf8EncodeChar c ↔ c = '\x00' := fun c => by
    rw [ascii_mem_utf8EncodeChar_iff (by decide)]
    change c.toNat = '\x00'.toNat ↔ _
    exact Char.toNat_inj
  rw [← Array.mem_toList_iff, toList_toUTF8, List.mem_flatMap]
  simp only [hnul, exists_eq_right]

namespace DotEnv

/-- Characters without a byte order mark at their start. -/
def withoutMark : List Char → List Char
  | '\uFEFF' :: rest => rest
  | cs => cs

theorem unmarked_flatMap (cs : List Char) :
    unmarked (cs.flatMap String.utf8EncodeChar) =
      (withoutMark cs).flatMap String.utf8EncodeChar := by
  cases cs with
  | nil => rfl
  | cons c cs =>
    by_cases hc : c = '\uFEFF'
    · subst hc
      rfl
    · have hkept : withoutMark (c :: cs) = c :: cs := by
        unfold withoutMark
        split
        · rename_i heq
          exact absurd (List.cons.inj heq).1 hc
        · rfl
      rw [hkept, unmarked]
      rintro rest heq
      exact hc (eq_mark_of_utf8EncodeChar heq)

/-- What has no end of a line becomes part of the first line. -/
theorem cutLines_append {α : Type} {isEnd : α → Bool} {part : List α} (hne : part ≠ [])
    (hpart : ∀ x ∈ part, isEnd x = false) (rest : List α) :
    cutLines isEnd (part ++ rest) = match cutLines isEnd rest with
      | [] => [part]
      | line :: lines => (part ++ line) :: lines := by
  induction part with
  | nil => exact absurd rfl hne
  | cons x part ih =>
    have hx : ¬isEnd x = true := by simp [hpart x List.mem_cons_self]
    rw [List.cons_append, cutLines, if_neg hx]
    cases part with
    | nil =>
      rw [List.nil_append]
      cases cutLines isEnd rest <;> rfl
    | cons y part =>
      rw [ih (List.cons_ne_nil y part) fun z hz => hpart z (List.mem_cons_of_mem x hz)]
      cases cutLines isEnd rest <;> rfl

/-- The bytes of a text are cut where the text is. -/
theorem cutLines_flatMap (cs : List Char) :
    cutLines (· == 0x0A) (cs.flatMap String.utf8EncodeChar) =
      (cutLines (· == '\n') cs).map (·.flatMap String.utf8EncodeChar) := by
  induction cs with
  | nil => rfl
  | cons c cs ih =>
    rw [List.flatMap_cons]
    by_cases hc : c = '\n'
    · subst hc
      change [0x0A] :: cutLines _ (cs.flatMap String.utf8EncodeChar) = _
      rw [ih]
      rfl
    · have hpart : ∀ x ∈ String.utf8EncodeChar c, (x == 0x0A) = false := by
        rintro x hx
        refine beq_eq_false_iff_ne.mpr fun hfeed => ?_
        rw [hfeed, ascii_mem_utf8EncodeChar_iff (by decide)] at hx
        exact hc (Char.toNat_inj.mp hx)
      rw [cutLines_append String.utf8EncodeChar_ne_nil hpart, ih, cutLines,
        if_neg (by simpa using hc)]
      cases cutLines (· == '\n') cs <;> simp

/-- Lines of a text are decoded as they were. -/
theorem decodeLines_map (ls : List (List Char)) :
    decodeLines (ls.map (·.flatMap String.utf8EncodeChar)) = ls := by
  induction ls with
  | nil => rfl
  | cons line ls ih =>
    have hbytes : (⟨(line.flatMap String.utf8EncodeChar).toArray⟩ : ByteArray) =
        (String.ofList line).toUTF8 := by
      refine ByteArray.ext (Array.toList_inj.mp ?_)
      rw [toList_toUTF8, String.toList_ofList]
    rw [List.map_cons, decodeLines, fromUTF8?_eq_some_iff.mpr hbytes]
    simp only [String.toList_ofList, ih]

/-- A file that is a text has the lines of the text. -/
theorem lines_toUTF8 (text : String) :
    lines text.toUTF8 = joinLines (cutLines (· == '\n') (withoutMark text.toList)) [] .plain := by
  rw [lines, toList_toUTF8, unmarked_flatMap, cutLines_flatMap, decodeLines_map]

end DotEnv

/-- A file of variables that is a text is read as this text. -/
theorem Environment.withFile?_ofText (e : Environment) (text : String) :
    e.withFile? (.ofText text) = DotEnv.complete e
      (DotEnv.joinLines (DotEnv.cutLines (· == '\n') (DotEnv.withoutMark text.toList)) [] .plain) :=
  congrArg (DotEnv.complete e) (DotEnv.lines_toUTF8 text)

end ToastBoard
