import Mathlib.Data.List.TakeWhile
import ToastBoard.Json.Token

/-!
# Numerals

A number is spelled with an optional sign, a zero or digits that start with another, an optional
fraction and an optional exponent. Exactly such a text is read as a number with nothing left, and it
is read as far as that if what follows it does not go on with it.
-/

namespace ToastBoard.Token

/-- One or more digits. -/
def IsDigits (s : List Char) : Prop := s ≠ [] ∧ ∀ c ∈ s, c.isDigit = true

/-- What stands before the point: a zero alone, or digits that start with another. -/
def IsWhole (s : List Char) : Prop := s = ['0'] ∨ IsDigits s ∧ s.head? ≠ some '0'

/-- A point and digits, or nothing. -/
def IsFraction (s : List Char) : Prop := s = [] ∨ ∃ ds, IsDigits ds ∧ s = '.' :: ds

/-- A sign, or none. -/
def IsSign (s : List Char) : Prop := s = [] ∨ s = ['+'] ∨ s = ['-']

/-- An exponent of either case, with an optional sign, or nothing. -/
def IsExponent (s : List Char) : Prop :=
  s = [] ∨ ∃ e sign ds, (e = 'e' ∨ e = 'E') ∧ IsSign sign ∧ IsDigits ds ∧ s = e :: (sign ++ ds)

/-- The spelling of a number without its sign. -/
def IsMagnitude (s : List Char) : Prop :=
  ∃ whole fraction exponent, IsWhole whole ∧ IsFraction fraction ∧ IsExponent exponent ∧
    s = whole ++ fraction ++ exponent

/-- The spelling of a number. -/
def IsNumeral (s : List Char) : Prop :=
  ∃ sign magnitude, (sign = [] ∨ sign = ['-']) ∧ IsMagnitude magnitude ∧ s = sign ++ magnitude

/-- Whether a text goes on with a number that came to its end. -/
def extends? : List Char → Bool
  | [] => false
  | c :: _ => c.isDigit || c = '.' || c = 'e' || c = 'E'

variable {s ds r rest : List Char}

/-- Digits begin with a digit. -/
theorem IsDigits.head (h : IsDigits s) : ∃ c r, s = c :: r ∧ c.isDigit = true := by
  obtain ⟨hne, hall⟩ := h
  obtain ⟨c, r, rfl⟩ := List.exists_cons_of_ne_nil hne
  exact ⟨c, r, rfl, hall c List.mem_cons_self⟩

/-- A magnitude begins with a digit. -/
theorem IsMagnitude.head (h : IsMagnitude s) : ∃ c r, s = c :: r ∧ c.isDigit = true := by
  obtain ⟨whole, fraction, exponent, hwhole, -, -, rfl⟩ := h
  rcases hwhole with rfl | ⟨hdigits, -⟩
  · exact ⟨'0', fraction ++ exponent, rfl, rfl⟩
  · obtain ⟨c, r, rfl, hc⟩ := hdigits.head
    exact ⟨c, r ++ fraction ++ exponent, rfl, hc⟩

/-- A numeral begins with a sign or a digit. -/
theorem IsNumeral.head (h : IsNumeral s) : ∃ c r, s = c :: r ∧ (c = '-' ∨ c.isDigit = true) := by
  obtain ⟨sign, magnitude, hsign, hmagnitude, rfl⟩ := h
  rcases hsign with rfl | rfl
  · obtain ⟨c, r, rfl, hc⟩ := hmagnitude.head
    exact ⟨c, r, rfl, .inr hc⟩
  · exact ⟨'-', magnitude, rfl, .inl rfl⟩

/-- What is read as digits are digits. -/
theorem isDigits_of_readDigits (h : readDigits s = some (ds, r)) : s = ds ++ r ∧ IsDigits ds := by
  unfold readDigits at h
  split at h
  · cases h
  · rename_i hsome
    cases h
    refine ⟨List.takeWhile_append_dropWhile.symm, fun hnil => hsome (by rw [hnil]; rfl), ?_⟩
    exact fun c hc => List.mem_takeWhile_imp hc

/-- What is read as a whole number is one. -/
theorem isWhole_of_readWhole (h : readWhole s = some (ds, r)) : s = ds ++ r ∧ IsWhole ds := by
  unfold readWhole at h
  split at h
  · cases h
    exact ⟨rfl, .inl rfl⟩
  · rename_i hzero
    obtain ⟨rfl, hdigits⟩ := isDigits_of_readDigits h
    refine ⟨rfl, .inr ⟨hdigits, fun hhead => ?_⟩⟩
    obtain ⟨c, rest, rfl, -⟩ := hdigits.head
    obtain rfl := Option.some.inj hhead
    exact hzero (rest ++ r) rfl

/-- What is read as a fraction is one. -/
theorem isFraction_of_readFraction (h : readFraction s = some (ds, r)) :
    s = ds ++ r ∧ IsFraction ds := by
  unfold readFraction at h
  split at h
  · obtain ⟨⟨digits, rest⟩, hdigits, he⟩ := Option.map_eq_some_iff.mp h
    cases he
    obtain ⟨rfl, hall⟩ := isDigits_of_readDigits hdigits
    exact ⟨rfl, .inr ⟨digits, hall, rfl⟩⟩
  · cases h
    exact ⟨rfl, .inl rfl⟩

/-- What is read as digits with a sign is a sign and digits. -/
theorem isDigits_of_readSigned (h : readSigned s = some (ds, r)) :
    ∃ sign digits, IsSign sign ∧ IsDigits digits ∧ ds = sign ++ digits ∧ s = ds ++ r := by
  unfold readSigned at h
  split at h
  case h_3 =>
    obtain ⟨rfl, hall⟩ := isDigits_of_readDigits h
    exact ⟨[], ds, .inl rfl, hall, rfl, rfl⟩
  all_goals
    obtain ⟨⟨digits, rest⟩, hdigits, he⟩ := Option.map_eq_some_iff.mp h
    cases he
    obtain ⟨rfl, hall⟩ := isDigits_of_readDigits hdigits
    refine ⟨[_], digits, ?_, hall, rfl, rfl⟩
    first | exact .inr (.inl rfl) | exact .inr (.inr rfl)

/-- What is read as an exponent is one. -/
theorem isExponent_of_readExponent (h : readExponent s = some (ds, r)) :
    s = ds ++ r ∧ IsExponent ds := by
  unfold readExponent at h
  split at h
  case h_3 =>
    cases h
    exact ⟨rfl, .inl rfl⟩
  all_goals
    obtain ⟨⟨signed, rest⟩, hsigned, he⟩ := Option.map_eq_some_iff.mp h
    cases he
    obtain ⟨sign, digits, hsign, hall, rfl, rfl⟩ := isDigits_of_readSigned hsigned
    exact ⟨rfl, .inr ⟨_, sign, digits, by simp, hsign, hall, rfl⟩⟩

/-- What is read as a magnitude is one. -/
theorem isMagnitude_of_readMagnitude (h : readMagnitude s = some (ds, r)) :
    s = ds ++ r ∧ IsMagnitude ds := by
  simp only [readMagnitude, Option.bind_eq_bind, Option.bind_eq_some_iff, Option.some.injEq,
    Prod.mk.injEq] at h
  obtain ⟨⟨whole, _⟩, hwhole, ⟨fraction, _⟩, hfraction, ⟨exponent, _⟩, hexponent, rfl, rfl⟩ := h
  obtain ⟨rfl, isWhole⟩ := isWhole_of_readWhole hwhole
  obtain ⟨rfl, isFraction⟩ := isFraction_of_readFraction hfraction
  obtain ⟨rfl, isExponent⟩ := isExponent_of_readExponent hexponent
  exact ⟨by simp, whole, fraction, exponent, isWhole, isFraction, isExponent, rfl⟩

/-- What is read as a number is a numeral. -/
theorem isNumeral_of_readNumber (h : readNumber s = some (ds, r)) :
    s = ds ++ r ∧ IsNumeral ds := by
  unfold readNumber at h
  split at h
  · obtain ⟨⟨magnitude, rest⟩, hmagnitude, he⟩ := Option.map_eq_some_iff.mp h
    cases he
    obtain ⟨rfl, hall⟩ := isMagnitude_of_readMagnitude hmagnitude
    exact ⟨rfl, ['-'], magnitude, .inr rfl, hall, rfl⟩
  · obtain ⟨hs, hall⟩ := isMagnitude_of_readMagnitude h
    exact ⟨hs, [], ds, .inl rfl, hall, rfl⟩

/-- Digits are read up to what is none. -/
theorem readDigits_append (hs : IsDigits s) (hrest : ∀ c ∈ rest.head?, c.isDigit = false) :
    readDigits (s ++ rest) = some (s, rest) := by
  have hstop : rest.takeWhile Char.isDigit = [] ∧ rest.dropWhile Char.isDigit = rest := by
    cases rest with
    | nil => exact ⟨rfl, rfl⟩
    | cons c rest => simp [hrest c rfl]
  have hfull : ¬s.isEmpty = true := by simpa using hs.1
  rw [readDigits, List.takeWhile_append_of_pos hs.2, List.dropWhile_append_of_pos hs.2, hstop.1,
    hstop.2, List.append_nil, if_neg hfull]

/-- A whole number is read up to what is not a digit. -/
theorem readWhole_append (hs : IsWhole s) (hrest : ∀ c ∈ rest.head?, c.isDigit = false) :
    readWhole (s ++ rest) = some (s, rest) := by
  rcases hs with rfl | ⟨hdigits, hzero⟩
  · rfl
  · have happend := readDigits_append hdigits hrest
    obtain ⟨c, r, rfl, -⟩ := hdigits.head
    rw [List.cons_append, readWhole]
    · exact happend
    · exact fun _ heq => hzero (congrArg some (List.head_eq_of_cons_eq heq))

/-- A fraction is read up to what is not a digit. -/
theorem readFraction_append (hs : IsFraction s)
    (hrest : ∀ c ∈ rest.head?, c.isDigit = false ∧ c ≠ '.') :
    readFraction (s ++ rest) = some (s, rest) := by
  rcases hs with rfl | ⟨digits, hdigits, rfl⟩
  · rw [List.nil_append, readFraction]
    rintro _ rfl
    exact (hrest '.' rfl).2 rfl
  · rw [List.cons_append, readFraction, readDigits_append hdigits fun c hc => (hrest c hc).1]
    rfl

/-- Digits with a sign are read up to what is not a digit. -/
theorem readSigned_append {sign : List Char} (hsign : IsSign sign) (hs : IsDigits s)
    (hrest : ∀ c ∈ rest.head?, c.isDigit = false) :
    readSigned (sign ++ s ++ rest) = some (sign ++ s, rest) := by
  have happend := readDigits_append hs hrest
  rcases hsign with rfl | rfl | rfl
  · obtain ⟨c, r, rfl, hc⟩ := hs.head
    have hne : ∀ d : Char, d.isDigit = false → c ≠ d := by
      rintro d hd rfl
      rw [hc] at hd
      cases hd
    rw [List.nil_append, List.cons_append, readSigned]
    · exact happend
    · exact fun _ heq => hne _ (by decide) (List.head_eq_of_cons_eq heq)
    · exact fun _ heq => hne _ (by decide) (List.head_eq_of_cons_eq heq)
  all_goals
    simp only [List.cons_append, List.nil_append, readSigned, happend]
    rfl

/-- An exponent is read up to what is not a digit. -/
theorem readExponent_append (hs : IsExponent s)
    (hrest : ∀ c ∈ rest.head?, c.isDigit = false ∧ c ≠ 'e' ∧ c ≠ 'E') :
    readExponent (s ++ rest) = some (s, rest) := by
  rcases hs with rfl | ⟨e, sign, digits, he, hsign, hdigits, rfl⟩
  · rw [List.nil_append, readExponent]
    · rintro _ rfl
      exact (hrest 'e' rfl).2.1 rfl
    · rintro _ rfl
      exact (hrest 'E' rfl).2.2 rfl
  · have happend := readSigned_append hsign hdigits fun c hc => (hrest c hc).1
    rcases he with rfl | rfl
    all_goals
      rw [List.cons_append, readExponent, happend]
      rfl

/-- Behind an exponent there is what is behind the number, and else the letter that begins it. -/
theorem head_of_exponent (hs : IsExponent s) (hrest : extends? rest = false) :
    ∀ c ∈ (s ++ rest).head?, c.isDigit = false ∧ c ≠ '.' := by
  rcases hs with rfl | ⟨e, sign, digits, he, -, -, rfl⟩
  · cases rest with
    | nil => nofun
    | cons d rest =>
      rintro c ⟨⟩
      simp only [extends?, Bool.or_eq_false_iff, decide_eq_false_iff_not] at hrest
      exact ⟨hrest.1.1.1, hrest.1.1.2⟩
  · rintro c ⟨⟩
    rcases he with rfl | rfl <;> decide

/-- A magnitude is read up to what does not extend it. -/
theorem readMagnitude_append (hs : IsMagnitude s) (hrest : extends? rest = false) :
    readMagnitude (s ++ rest) = some (s, rest) := by
  obtain ⟨whole, fraction, exponent, hwhole, hfraction, hexponent, rfl⟩ := hs
  have hlast : ∀ c ∈ rest.head?, c.isDigit = false ∧ c ≠ 'e' ∧ c ≠ 'E' := by
    cases rest with
    | nil => nofun
    | cons d rest =>
      rintro c ⟨⟩
      simp only [extends?, Bool.or_eq_false_iff, decide_eq_false_iff_not] at hrest
      exact ⟨hrest.1.1.1, hrest.1.2, hrest.2⟩
  have hmiddle := head_of_exponent hexponent hrest
  have hfirst : ∀ c ∈ (fraction ++ (exponent ++ rest)).head?, c.isDigit = false := by
    rcases hfraction with rfl | ⟨digits, -, rfl⟩
    · exact fun c hc => (hmiddle c hc).1
    · rintro c ⟨⟩
      rfl
  simp [readMagnitude, readWhole_append hwhole hfirst, readFraction_append hfraction hmiddle,
    readExponent_append hexponent hlast]

/-- A numeral is read, if what follows it does not go on with it. -/
theorem readNumber_append (hs : IsNumeral s) (hrest : extends? rest = false) :
    readNumber (s ++ rest) = some (s, rest) := by
  obtain ⟨sign, magnitude, hsign, hmagnitude, rfl⟩ := hs
  have happend := readMagnitude_append hmagnitude hrest
  rcases hsign with rfl | rfl
  · obtain ⟨c, r, rfl, hc⟩ := hmagnitude.head
    rw [List.nil_append, List.cons_append, readNumber]
    · exact happend
    · rintro _ heq
      obtain rfl := List.head_eq_of_cons_eq heq
      cases hc
  · rw [List.cons_append, List.nil_append, List.cons_append, readNumber, happend]
    rfl

/-- Exactly the numerals are read as numbers with nothing left. -/
theorem readNumber_eq_self_iff : readNumber s = some (s, []) ↔ IsNumeral s := by
  constructor
  · exact fun h => (isNumeral_of_readNumber h).2
  · intro h
    have hread : readNumber (s ++ []) = some (s, []) := readNumber_append h rfl
    rwa [List.append_nil] at hread

end ToastBoard.Token
