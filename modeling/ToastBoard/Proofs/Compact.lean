import ToastBoard.Proofs.Spelling

/-!
# Texts of values

The tokens of a value are read as that value, with whatever follows them, and no two numbers are
neighbours among them. So a text is read as the value whose tokens are laid out in it, and a compact
text as the value that it was written for, if the numbers in it are spelled as numbers. A value
without numbers is written on one line.
-/

namespace ToastBoard

namespace Json

open Token (Parts)

/-- The numbers in a value are spelled as numbers. -/
def IsSpelled (v : Json) : Prop := ∀ t ∈ v.tokens, t.IsSpelled

section Neighbours

variable {t u : Token} {ts us : List Token}

/-- What is no number need not be parted from what follows it. -/
theorem parts_of_left (ht : t.isNumber = false) : Parts t u := by
  intro h
  rw [ht] at h
  cases h

/-- What is no number need not be parted from what comes before it. -/
theorem parts_of_right (hu : u.isNumber = false) : Parts t u := fun _ => hu

/-- Between two lists of tokens there may be any token but a number. -/
theorem isChain_append_cons (ht : t.isNumber = false) (hts : ts.IsChain Parts)
    (hus : us.IsChain Parts) : (ts ++ t :: us).IsChain Parts := by
  rw [List.isChain_append, List.isChain_cons]
  refine ⟨hts, ⟨fun _ _ => parts_of_left ht, hus⟩, fun _ _ v hv => ?_⟩
  cases hv
  exact parts_of_right ht

/-- Around a list of tokens there may be any tokens but numbers. -/
theorem isChain_enclosed (ht : t.isNumber = false) (hu : u.isNumber = false)
    (hts : ts.IsChain Parts) : (t :: (ts ++ [u])).IsChain Parts := by
  rw [List.isChain_cons]
  exact ⟨fun _ _ => parts_of_left ht, isChain_append_cons hu hts .nil⟩

/-- A key may stand before a list of tokens. -/
theorem isChain_member (k : Literal) (hts : ts.IsChain Parts) :
    (.text k :: .colon :: ts).IsChain Parts := by
  rw [List.isChain_cons, List.isChain_cons]
  exact ⟨fun _ _ => parts_of_left rfl, fun _ _ => parts_of_left rfl, hts⟩

end Neighbours

mutual

/-- No two numbers are neighbours in a value. -/
theorem isChain_tokens : ∀ v : Json, v.tokens.IsChain Parts
  | .null | .bool _ | .number _ | .text _ => .singleton _
  | .list items => isChain_enclosed rfl rfl (isChain_itemTokens items)
  | .record members => isChain_enclosed rfl rfl (isChain_memberTokens members)

/-- No two numbers stand next to each other between the items of a list. -/
theorem isChain_itemTokens : ∀ items : List Json, (itemTokens items).IsChain Parts
  | [] => .nil
  | [v] => isChain_tokens v
  | v :: w :: rest =>
    isChain_append_cons rfl (isChain_tokens v) (isChain_itemTokens (w :: rest))

/-- No two numbers stand next to each other between the members of a record. -/
theorem isChain_memberTokens : ∀ members : List (Literal × Json),
    (memberTokens members).IsChain Parts
  | [] => .nil
  | [(k, v)] => isChain_member k (isChain_tokens v)
  | (k, v) :: m :: rest =>
    isChain_member k
      (isChain_append_cons rfl (isChain_tokens v) (isChain_memberTokens (m :: rest)))

end

/-- A value does not begin with the end of a list. -/
theorem head_of_tokens (v : Json) : ∃ t ts, v.tokens = t :: ts ∧ t ≠ .closeList := by
  cases v <;> exact ⟨_, _, rfl, Token.noConfusion⟩

/-- Items begin with a token that does not end a list. -/
theorem head_of_itemTokens : ∀ {items : List Json}, items ≠ [] →
    ∃ t ts, itemTokens items = t :: ts ∧ t ≠ .closeList
  | [v], _ => v.head_of_tokens
  | v :: w :: rest, _ => by
    obtain ⟨t, ts, hv, ht⟩ := v.head_of_tokens
    exact ⟨t, ts ++ .comma :: itemTokens (w :: rest), by rw [itemTokens, hv]; rfl, ht⟩

/-- Members begin with a key. -/
theorem head_of_memberTokens : ∀ {members : List (Literal × Json)}, members ≠ [] →
    ∃ k ts, memberTokens members = .text k :: ts
  | [_], _ | _ :: _ :: _, _ => ⟨_, _, rfl⟩

mutual

/-- The tokens of a value are read as that value, with whatever follows them. Every token takes at
most two steps of the search. -/
theorem ofTokens_tokens : ∀ (v : Json) {n : Nat}, 2 * v.tokens.length ≤ n + 1 →
    ∀ rest : List Token, ofTokens n (v.tokens ++ rest) = some (v, rest)
  | .null, _ + 1, _, _ | .bool _, _ + 1, _, _ | .number _, _ + 1, _, _ | .text _, _ + 1, _, _ => rfl
  | .list [], _ + 1, _, _ | .record [], _ + 1, _, _ => rfl
  | .list (v :: items), n + 1, hn, rest => by
    obtain ⟨t, ts, hts, ht⟩ := head_of_itemTokens (List.cons_ne_nil v items)
    simp only [tokens, List.length_cons, List.length_append, List.length_nil] at hn
    have hitems := itemsOfTokens_itemTokens (v :: items) (List.cons_ne_nil _ _) (n := n) (by omega)
      rest
    rw [tokens, List.cons_append, List.append_assoc, List.singleton_append, ofTokens, hitems]
    · rfl
    · rw [hts]
      exact fun _ heq => ht (List.head_eq_of_cons_eq heq)
  | .record (m :: members), n + 1, hn, rest => by
    obtain ⟨k, ts, hts⟩ := head_of_memberTokens (List.cons_ne_nil m members)
    simp only [tokens, List.length_cons, List.length_append, List.length_nil] at hn
    have hmembers := membersOfTokens_memberTokens (m :: members) (List.cons_ne_nil _ _) (n := n)
      (by omega) rest
    rw [tokens, List.cons_append, List.append_assoc, List.singleton_append, ofTokens, hmembers]
    · rfl
    · rw [hts]
      exact fun _ heq => Token.noConfusion (List.head_eq_of_cons_eq heq)

/-- The items of a list are read up to the bracket that closes it. -/
theorem itemsOfTokens_itemTokens : ∀ (items : List Json), items ≠ [] → ∀ {n : Nat},
    2 * (itemTokens items).length ≤ n → ∀ rest : List Token,
    itemsOfTokens n (itemTokens items ++ .closeList :: rest) = some (items, rest)
  | v :: items, _, 0, hn, _ => by
    obtain ⟨t, ts, hts, -⟩ := head_of_itemTokens (List.cons_ne_nil v items)
    simp [hts] at hn
  | [v], _, n + 1, hn, rest => by
    have hv := v.ofTokens_tokens (n := n) hn (.closeList :: rest)
    rw [itemTokens, itemsOfTokens, hv]
    rfl
  | v :: w :: items, _, n + 1, hn, rest => by
    rw [itemTokens, List.length_append, List.length_cons] at hn
    have hv := v.ofTokens_tokens (n := n) (by omega)
      (.comma :: (itemTokens (w :: items) ++ .closeList :: rest))
    have hitems := itemsOfTokens_itemTokens (w :: items) (List.cons_ne_nil _ _) (n := n) (by omega)
      rest
    rw [itemTokens, List.append_assoc, List.cons_append, itemsOfTokens, hv]
    simp [hitems]

/-- The members of a record are read up to the brace that closes it. -/
theorem membersOfTokens_memberTokens : ∀ (members : List (Literal × Json)), members ≠ [] →
    ∀ {n : Nat}, 2 * (memberTokens members).length ≤ n → ∀ rest : List Token,
    membersOfTokens n (memberTokens members ++ .closeRecord :: rest) = some (members, rest)
  | [(k, v)], _, n + 1, hn, rest => by
    simp only [memberTokens, List.length_cons] at hn
    have hv := v.ofTokens_tokens (n := n) (by omega) (.closeRecord :: rest)
    rw [memberTokens, List.cons_append, List.cons_append, membersOfTokens, hv]
    rfl
  | (k, v) :: m :: members, _, n + 1, hn, rest => by
    simp only [memberTokens, List.length_append, List.length_cons] at hn
    have hv := v.ofTokens_tokens (n := n) (by omega)
      (.comma :: (memberTokens (m :: members) ++ .closeRecord :: rest))
    have hmembers := membersOfTokens_memberTokens (m :: members) (List.cons_ne_nil _ _) (n := n)
      (by omega) rest
    rw [memberTokens, List.cons_append, List.cons_append, List.append_assoc, List.cons_append,
      membersOfTokens, hv]
    simp [hmembers]

end

/-- No number stands in a value. -/
def IsNumberless (v : Json) : Prop := ∀ t ∈ v.tokens, t.isNumber = false

instance (v : Json) : Decidable v.IsNumberless :=
  inferInstanceAs (Decidable (∀ t ∈ v.tokens, t.isNumber = false))

/-- Without numbers, all numbers are spelled as they are written. -/
theorem IsNumberless.isSpelled {v : Json} (hv : v.IsNumberless) : v.IsSpelled := by
  intro t ht
  cases t with
  | number spelling => exact Bool.noConfusion (hv _ ht)
  | _ => trivial

theorem isNumberless_null : null.IsNumberless := by
  simp [IsNumberless, tokens, Token.isNumber]

theorem isNumberless_bool (b : Bool) : (bool b).IsNumberless := by
  simp [IsNumberless, tokens, Token.isNumber]

theorem isNumberless_text (l : Literal) : (text l).IsNumberless := by
  simp [IsNumberless, tokens, Token.isNumber]

/-- A token of a list is a token of an item or stands between two items. -/
theorem mem_itemTokens {t : Token} : ∀ {items : List Json}, t ∈ itemTokens items →
    t = .comma ∨ ∃ v ∈ items, t ∈ v.tokens
  | [v], ht => .inr ⟨v, List.mem_cons_self, ht⟩
  | v :: w :: rest, ht => by
    rw [itemTokens, List.mem_append, List.mem_cons] at ht
    rcases ht with hv | hcomma | hrest
    · exact .inr ⟨v, List.mem_cons_self, hv⟩
    · exact .inl hcomma
    · exact (mem_itemTokens hrest).imp_right fun ⟨u, hu, ht⟩ => ⟨u, List.mem_cons_of_mem _ hu, ht⟩

/-- A token of a record is a key, a token of a value, or stands between them. -/
theorem mem_memberTokens {t : Token} : ∀ {members : List (Literal × Json)},
    t ∈ memberTokens members →
      t = .comma ∨ t = .colon ∨ ∃ m ∈ members, t = .text m.1 ∨ t ∈ m.2.tokens
  | [(k, v)], ht => by
    rw [memberTokens, List.mem_cons, List.mem_cons] at ht
    rcases ht with hkey | hcolon | hv
    · exact .inr (.inr ⟨(k, v), List.mem_cons_self, .inl hkey⟩)
    · exact .inr (.inl hcolon)
    · exact .inr (.inr ⟨(k, v), List.mem_cons_self, .inr hv⟩)
  | (k, v) :: m :: rest, ht => by
    rw [memberTokens, List.mem_cons, List.mem_cons, List.mem_append, List.mem_cons] at ht
    rcases ht with hkey | hcolon | hv | hcomma | hrest
    · exact .inr (.inr ⟨(k, v), List.mem_cons_self, .inl hkey⟩)
    · exact .inr (.inl hcolon)
    · exact .inr (.inr ⟨(k, v), List.mem_cons_self, .inr hv⟩)
    · exact .inl hcomma
    · exact (mem_memberTokens hrest).imp_right (.imp_right fun ⟨u, hu, ht⟩ =>
        ⟨u, List.mem_cons_of_mem _ hu, ht⟩)

/-- A list has no numbers if its items have none. -/
theorem isNumberless_list {items : List Json} (h : ∀ v ∈ items, v.IsNumberless) :
    (list items).IsNumberless := by
  intro t ht
  rw [tokens, List.mem_cons, List.mem_append, List.mem_singleton] at ht
  rcases ht with rfl | ht | rfl
  · rfl
  · rcases mem_itemTokens ht with rfl | ⟨v, hv, ht⟩
    · rfl
    · exact h v hv t ht
  · rfl

/-- A record has no numbers if its members have none. -/
theorem isNumberless_record {members : List (Literal × Json)}
    (h : ∀ m ∈ members, m.2.IsNumberless) : (record members).IsNumberless := by
  intro t ht
  rw [tokens, List.mem_cons, List.mem_append, List.mem_singleton] at ht
  rcases ht with rfl | ht | rfl
  · rfl
  · rcases mem_memberTokens ht with rfl | rfl | ⟨m, hm, rfl | ht⟩
    · rfl
    · rfl
    · rfl
    · exact h m hm t ht
  · rfl

/-- The text of a value without numbers has no control character, so it is one line. -/
theorem IsNumberless.toNat_of_mem_write {v : Json} (hv : v.IsNumberless) {c : Char}
    (hc : c ∈ v.write.toList) : 0x20 ≤ c.toNat := by
  rw [write, String.toList_ofList, List.mem_flatMap] at hc
  obtain ⟨t, ht, hc⟩ := hc
  exact Token.toNat_of_mem_write (hv t ht) hc

/-- The tokens of a value spell that value and nothing else. -/
theorem ofAllTokens_tokens (v : Json) : ofAllTokens v.tokens = some v := by
  have hv := v.ofTokens_tokens (Nat.le_succ (2 * v.tokens.length)) []
  rw [List.append_nil] at hv
  rw [ofAllTokens, hv]

/-- A text spells a value if the tokens of the value are laid out in it, behind any blanks. -/
def IsSpelledBy (v : Json) (text : String) : Prop :=
  ∃ blanks laid, (∀ c ∈ blanks, Token.isBlank c = true) ∧ Token.Lays laid v.tokens ∧
    text.toList = blanks ++ laid

/-- A text that spells a value is read as this value. -/
theorem IsSpelledBy.read_eq {v : Json} {text : String} (h : v.IsSpelledBy text) :
    read text = some v := by
  obtain ⟨blanks, laid, hblanks, hlaid, htext⟩ := h
  rw [read, htext, Token.readAll_blanks hblanks, hlaid.readAll_eq v.isChain_tokens,
    Option.bind_some, ofAllTokens_tokens]

/-- A value is spelled by its written tokens with the same blanks around all of them. -/
theorem isSpelledBy_blanks {v : Json} {blanks : List Char} {text : String} (hv : v.IsSpelled)
    (hblanks : ∀ c ∈ blanks, Token.isBlank c = true)
    (htext : text.toList = blanks ++ v.tokens.flatMap fun t => t.write ++ blanks) :
    v.IsSpelledBy text :=
  ⟨blanks, _, hblanks, Token.lays_flatMap_write hblanks hv, htext⟩

/-- The compact text of a value spells it. -/
theorem isSpelledBy_write {v : Json} (hv : v.IsSpelled) : v.IsSpelledBy v.write := by
  refine isSpelledBy_blanks hv (List.forall_mem_nil _) ?_
  simp only [write, String.toList_ofList, List.append_nil, List.nil_append]

/-- A compact text is read as the value it was written for. -/
theorem read_write {v : Json} (hv : v.IsSpelled) : read v.write = some v :=
  (isSpelledBy_write hv).read_eq

end Json

end ToastBoard
