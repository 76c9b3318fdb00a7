import RemoteSession.Proofs.Json.Tokens
import RemoteSession.Proofs.Toml.Integers

/-!
# Numerals of a text

A numeral is spelled by its parts (`Numeral.Spelled`) : a sign, a whole part without zeros in
front, a fraction and an exponent with or without a sign, each of the last two if there is
one. A text that spells a numeral is one word and is read as this numeral
(`Token.spells_numeral`).

The compact text of an integer spells one (`Numeral.spelled_integerChars`), and the value of
this numeral is the integer again (`Numeral.value?_ofInteger`) : no digit is lost at either
end of the range of 64 bits, signed or not, and none of them is read as a double. No other
numeral than one of digits alone (`Numeral.Counts`) has an integer that is not below zero as
its value (`Numeral.counts_of_value?`).
-/

namespace RemoteSession.Json

namespace Numeral

/-- Digits and nothing else. -/
def AreDigits (cs : List Char) : Prop :=
  ∀ c ∈ cs, c.isDigit = true

instance (cs : List Char) : Decidable (AreDigits cs) :=
  decidable_of_iff (cs.all Char.isDigit = true) List.all_eq_true

/-- The ways to spell a fraction, which has no digits if there is none. -/
inductive SpelledFraction : List Char → List Char → Prop where
  | absent : SpelledFraction [] []
  | digits {digits : List Char} : AreDigits digits → digits ≠ [] →
    SpelledFraction ('.' :: digits) digits

/-- The ways to spell the sign of an exponent. -/
inductive SpelledSign : List Char → Bool → Prop where
  | absent : SpelledSign [] false
  | plus : SpelledSign ['+'] false
  | minus : SpelledSign ['-'] true

/-- The ways to spell an exponent. -/
inductive SpelledExponent : List Char → Option Exponent → Prop where
  | absent : SpelledExponent [] none
  | digits {mark : Char} {sign digits : List Char} {negative : Bool} : mark = 'e' ∨ mark = 'E' →
    SpelledSign sign negative → AreDigits digits → digits ≠ [] →
    SpelledExponent (mark :: (sign ++ digits)) (some ⟨negative, digits⟩)

/-- The sign of a numeral. -/
def signChars (negative : Bool) : List Char :=
  if negative then ['-'] else []

/-- The ways to spell a numeral. -/
inductive Spelled : List Char → Numeral → Prop where
  | parts {negative : Bool} {whole fraction fractionDigits exponentChars : List Char}
    {exponent : Option Exponent} : AreDigits whole → isWhole whole = true →
    SpelledFraction fraction fractionDigits → SpelledExponent exponentChars exponent →
    Spelled (signChars negative ++ (whole ++ (fraction ++ exponentChars)))
      ⟨negative, whole, fractionDigits, exponent⟩

/-- A numeral of digits alone, with the number that they spell. -/
structure Counts (n : Numeral) (count : Nat) : Prop where
  negative : n.negative = false
  fraction : n.fraction = []
  exponent : n.exponent = none
  value : Nat.ofDigitChars 10 n.whole 0 = count

/-- The numeral of an integer. -/
def ofInteger (i : Int) : Numeral :=
  ⟨decide (i < 0), Nat.toDigits 10 i.natAbs, [], none⟩

variable {cs digits rest fraction exponentChars : List Char} {exponent : Option Exponent}
  {n : Numeral} {negative : Bool}

/-! ## Digits -/

/-- A text that does not go on with a digit. -/
def Stops (rest : List Char) : Prop :=
  ∀ c ∈ rest.head?, c.isDigit = false

theorem Stops.takeWhile (h : Stops rest) : rest.takeWhile Char.isDigit = [] := by
  cases rest with
  | nil => rfl
  | cons c rest => rw [List.takeWhile_cons_of_neg (by simp [h c rfl])]

theorem Stops.dropWhile (h : Stops rest) : rest.dropWhile Char.isDigit = rest := by
  cases rest with
  | nil => rfl
  | cons c rest => rw [List.dropWhile_cons_of_neg (by simp [h c rfl])]

theorem AreDigits.takeWhile (h : AreDigits digits) (hrest : Stops rest) :
    (digits ++ rest).takeWhile Char.isDigit = digits := by
  rw [List.takeWhile_append_of_pos h, hrest.takeWhile, List.append_nil]

theorem AreDigits.dropWhile (h : AreDigits digits) (hrest : Stops rest) :
    (digits ++ rest).dropWhile Char.isDigit = rest := by
  rw [List.dropWhile_append_of_pos h, hrest.dropWhile]

/-- Digits begin with no sign. -/
theorem AreDigits.sign (h : AreDigits digits) (hne : digits ≠ []) (rest : List Char) :
    sign (digits ++ rest) = (false, digits ++ rest) := by
  cases digits with
  | nil => exact absurd rfl hne
  | cons c digits =>
    have hdigit := h c List.mem_cons_self
    rw [Numeral.sign]
    rintro _ heq
    cases heq
    cases hdigit

theorem ne_nil_of_isWhole (h : isWhole digits = true) : digits ≠ [] := by
  rintro rfl
  cases h

/-! ## Parts -/

theorem SpelledExponent.stops (h : SpelledExponent exponentChars exponent) :
    Stops exponentChars := by
  cases h with
  | absent => exact nofun
  | digits hmark => rcases hmark with rfl | rfl <;> simp [Stops]

theorem SpelledFraction.stops (h : SpelledFraction fraction digits) (hrest : Stops rest) :
    Stops (fraction ++ rest) := by
  cases h with
  | absent => exact hrest
  | digits => simp [Stops]

theorem SpelledFraction.read (h : SpelledFraction fraction digits)
    (hexponent : SpelledExponent exponentChars exponent) :
    fractionOf? (fraction ++ exponentChars) = some (digits, exponentChars) := by
  cases h with
  | absent =>
    cases hexponent with
    | absent => rfl
    | digits hmark => rcases hmark with rfl | rfl <;> rfl
  | digits hdigits hne =>
    have hempty : digits.isEmpty = false := by simp [hne]
    rw [List.cons_append, fractionOf?, hdigits.takeWhile hexponent.stops,
      hdigits.dropWhile hexponent.stops]
    simp only [hempty, Bool.false_eq_true, if_false]

theorem SpelledSign.read {sign : List Char} (h : SpelledSign sign negative)
    (hdigits : AreDigits digits) (hne : digits ≠ []) :
    exponentOf? (sign ++ digits) = some ⟨negative, digits⟩ := by
  have hvalid : (!digits.isEmpty && digits.all Char.isDigit) = true := by
    rw [Bool.and_eq_true, List.all_eq_true]
    exact ⟨by simpa using hne, hdigits⟩
  cases h with
  | plus => exact if_pos hvalid
  | minus => exact if_pos hvalid
  | absent =>
    cases digits with
    | nil => exact absurd rfl hne
    | cons c digits =>
      have hdigit := hdigits c List.mem_cons_self
      rw [List.nil_append, exponentOf?]
      · exact if_pos hvalid
      · rintro _ heq
        cases heq
        cases hdigit
      · rintro _ heq
        cases heq
        cases hdigit

/-- A numeral is read from its text. -/
theorem Spelled.read (h : Spelled cs n) : ofChars? cs = some n := by
  cases h with
  | @parts negative whole _ _ _ _ hdigits hwhole hfraction hexponent =>
    have hne := ne_nil_of_isWhole hwhole
    have hstops := hfraction.stops hexponent.stops
    have hsign : ∀ rest,
        sign (signChars negative ++ (whole ++ rest)) = (negative, whole ++ rest) := by
      intro rest
      cases negative with
      | true => rfl
      | false => exact hdigits.sign hne rest
    rw [ofChars?, hsign]
    dsimp only
    rw [hdigits.takeWhile hstops, hwhole, hdigits.dropWhile hstops, hfraction.read hexponent]
    cases hexponent with
    | absent => rfl
    | digits hmark hsigned hmore hnone =>
      have hread := hsigned.read hmore hnone
      rcases hmark with rfl | rfl <;>
        exact Option.bind_eq_some_iff.2 ⟨(), rfl, Option.bind_eq_some_iff.2 ⟨_, rfl,
          Option.bind_eq_some_iff.2 ⟨(), rfl, Option.bind_eq_some_iff.2 ⟨_, hread, rfl⟩⟩⟩⟩

/-! ## Integers -/

theorem areDigits_toDigits (n : Nat) : AreDigits (Nat.toDigits 10 n) :=
  Toml.all_isDigit_toDigits n

theorem isWhole_toDigits (n : Nat) : isWhole (Nat.toDigits 10 n) = true := by
  rcases Toml.toDigits_cases n with rfl | ⟨c, cs, hcons, hne⟩
  · rfl
  · rw [hcons, isWhole]
    · exact nofun
    · rintro heq
      cases heq
      exact hne rfl
    · rintro rest heq
      cases heq
      exact hne rfl

/-- The text of an integer is its numeral. -/
theorem spelled_integerChars (i : Int) : Spelled (Value.integerChars i) (ofInteger i) := by
  have hchars : Value.integerChars i =
      signChars (decide (i < 0)) ++ (Nat.toDigits 10 i.natAbs ++ ([] ++ [])) := by
    unfold Value.integerChars signChars
    by_cases h : i < 0 <;> simp [h]
  rw [hchars]
  exact .parts (areDigits_toDigits _) (isWhole_toDigits _) .absent .absent

theorem wholeValue_ofInteger (i : Int) : (ofInteger i).wholeValue = i := by
  unfold wholeValue ofInteger
  simp only [Nat.ofDigitChars_ten_toDigits, decide_eq_true_eq]
  omega

/-- The numeral of an integer of 64 bits has its value. -/
theorem value?_ofInteger (i : Integer) : (ofInteger i.value).value? = some (.integer i) := by
  have hwhole := wholeValue_ofInteger i.value
  have hzero : ((ofInteger i.value).negative && (ofInteger i.value).wholeValue == 0) = false := by
    rw [hwhole, Bool.and_eq_false_iff]
    by_cases h : i.value < 0
    · exact .inr (beq_false_of_ne (by omega))
    · exact .inl (decide_eq_false h)
  have hfits : Integer.ofInt? i.value = some i := dif_pos ⟨i.lower, i.upper⟩
  rw [value?, hzero, hwhole, hfits]
  rfl

/-! ## Counts -/

theorem Counts.value?_eq {count : Nat} (h : n.Counts count)
    (hlt : count < 18446744073709551616) :
    ∃ i, n.value? = some (.integer i) ∧ i.value = count := by
  obtain ⟨hnegative, hfraction, hexponent, hvalue⟩ := h
  have hwhole : n.wholeValue = count := by
    simp [wholeValue, hnegative, hvalue]
  have hfits : -9223372036854775808 ≤ (count : Int) ∧ (count : Int) < 18446744073709551616 := by
    omega
  refine ⟨⟨count, hfits.1, hfits.2⟩, ?_, rfl⟩
  simp [value?, hnegative, hfraction, hexponent, hwhole, Integer.ofInt?, hfits]

theorem value_of_ofInt? {value : Int} {i : Integer} (h : Integer.ofInt? value = some i) :
    i.value = value := by
  obtain ⟨_, heq⟩ := Option.dite_none_right_eq_some.1 h
  cases heq
  rfl

/-- An integer that is read has neither fraction nor exponent, and is no zero with a sign. -/
theorem form_of_value? {i : Integer} (h : n.value? = some (.integer i)) :
    n.fraction = [] ∧ n.exponent = none ∧ (n.negative = true → n.wholeValue ≠ 0) ∧
      i.value = n.wholeValue := by
  have hdouble : n.double?.map Number.double ≠ some (.integer i) := fun heq => by
    obtain ⟨_, -, heq⟩ := Option.map_eq_some_iff.1 heq
    cases heq
  unfold value? at h
  split at h
  · next hform =>
    split at h
    · next i' hi' =>
      cases h
      simp only [Bool.and_eq_true, List.isEmpty_iff, Option.isNone_iff_eq_none] at hform
      obtain ⟨⟨hfraction, hexponent⟩, hzero⟩ := hform
      refine ⟨hfraction, hexponent, fun hnegative hnull => ?_, value_of_ofInt? hi'⟩
      rw [hnegative, hnull] at hzero
      cases hzero
    · exact absurd h hdouble
  · exact absurd h hdouble

theorem counts_of_value? {i : Integer} (h : n.value? = some (.integer i)) (hle : 0 ≤ i.value) :
    n.Counts i.value.toNat := by
  obtain ⟨hfraction, hexponent, hzero, hvalue⟩ := form_of_value? h
  have hwhole := wholeValue.eq_def n
  cases hnegative : n.negative with
  | false =>
    simp only [hnegative, Bool.false_eq_true, if_false] at hwhole
    refine ⟨hnegative, hfraction, hexponent, ?_⟩
    rw [hvalue, hwhole, Int.toNat_natCast]
  | true =>
    have hne := hzero hnegative
    simp only [hnegative, if_true] at hwhole
    omega

end Numeral

namespace Token

variable {cs : List Char} {n : Numeral}

theorem isWordChar_of_isDigit {c : Char} (h : c.isDigit = true) : isWordChar c = true := by
  simp [isWordChar, Char.isAlphanum, h]

theorem isWordChar_of_mem_numeral (h : Numeral.Spelled cs n) :
    ∀ c ∈ cs, isWordChar c = true := by
  have hword : ∀ {digits}, Numeral.AreDigits digits → ∀ c ∈ digits, isWordChar c = true :=
    fun hdigits c hc => isWordChar_of_isDigit (hdigits c hc)
  obtain @⟨negative, _, _, _, _, _, hwhole, -, hfraction, hexponent⟩ := h
  have hsign : ∀ c ∈ Numeral.signChars negative, isWordChar c = true := by
    cases negative <;> decide
  simp only [List.mem_append, or_imp, forall_and]
  refine ⟨hsign, hword hwhole, ?_, ?_⟩
  · cases hfraction with
    | absent => exact nofun
    | digits hdigits => exact List.forall_mem_cons.2 ⟨by decide, hword hdigits⟩
  · cases hexponent with
    | absent => exact nofun
    | digits hmark hsigned hdigits =>
      refine List.forall_mem_cons.2 ⟨?_, List.forall_mem_append.2 ⟨?_, hword hdigits⟩⟩
      · rcases hmark with rfl | rfl <;> decide
      · cases hsigned <;> decide

/-- The text of a numeral is none of the words that are literals. -/
theorem ofWord?_of_read (hread : Numeral.ofChars? cs = some n) :
    ofWord? cs = some (.number n) := by
  have hne : ∀ word, Numeral.ofChars? word = none → cs ≠ word := by
    rintro word hnone rfl
    rw [hread] at hnone
    cases hnone
  rw [ofWord?, if_neg (hne _ (by decide)), if_neg (hne _ (by decide)), if_neg (hne _ (by decide)),
    hread, Option.map_some]

/-- A numeral is one token. -/
theorem spells_numeral (h : Numeral.Spelled cs n) : Spells cs [.number n] := by
  refine spells_word (isWordChar_of_mem_numeral h) (ofWord?_of_read h.read) ?_
  rintro rfl
  have hread := h.read
  cases hread

end Token

end RemoteSession.Json
