import RemoteSession.Toml.Parser

/-!
# Keys as they are written and read

A key is written bare, as a literal or as a basic string, and each of these spellings is
read as the key, whatever characters it has (`simpleKey?_writeKey`).
-/

namespace RemoteSession.Toml

/-! ## Basic strings -/

/-- The digits of a control character name it. -/
theorem charOfDigits?_upperHex : ∀ n < 128,
    charOfDigits? ['0', '0', Text.upperHex (n / 16), Text.upperHex (n % 16)] =
      some (Char.ofNat n) := by
  decide

/-- The ways in which a character stands in a basic string. -/
inductive StandsFor (c : Char) : List Char → Prop
  | letter {l : Char} (hescape : escapeOf? l = some c) : StandsFor c ['\\', l]
  | digits {a b d e : Char} (hdigits : charOfDigits? [a, b, d, e] = some c) :
    StandsFor c ['\\', 'u', a, b, d, e]
  | itself (hquote : c ≠ '"') (hslash : c ≠ '\\') (hplain : isPlain c = true) : StandsFor c [c]

theorem standsFor_escaped {c : Char} (hquote : c ≠ '"') (hline : c ≠ '\n') :
    StandsFor c (escaped c) := by
  unfold escaped
  split
  · next h =>
    subst h
    exact .letter rfl
  split
  · next h =>
    subst h
    exact .letter rfl
  split
  · next h =>
    subst h
    exact .letter rfl
  split
  · next h =>
    subst h
    exact .letter rfl
  split
  · next h =>
    subst h
    exact .letter rfl
  split
  · next h =>
    have hlt : c.toNat < 128 := by
      simp at h
      omega
    have hdigits := charOfDigits?_upperHex c.toNat hlt
    rw [Char.ofNat_toNat] at hdigits
    exact .digits hdigits
  · next hslash h =>
    refine .itself hquote hslash ?_
    simp at h
    simp [isPlain]
    omega

theorem standsFor_basicChar (c : Char) : StandsFor c (basicChar c) := by
  unfold basicChar
  split
  · next h =>
    subst h
    exact .letter rfl
  split
  · next h =>
    subst h
    exact .letter rfl
  · next hquote hline => exact standsFor_escaped hquote hline

/-- The letter of an escape is none of the two before digits. -/
theorem ne_of_escapeOf? {l c : Char} (h : escapeOf? l = some c) : l ≠ 'u' ∧ l ≠ 'U' := by
  constructor <;> rintro rfl <;> cases h

/-- A character in a basic string is read as it was. -/
theorem StandsFor.readBasic {c : Char} {w : List Char} (h : StandsFor c w) (rest : List Char) :
    readBasic (w ++ rest) = Read.cons c (readBasic rest) := by
  cases h with
  | @letter l hescape =>
    obtain ⟨hu, hU⟩ := ne_of_escapeOf? hescape
    simp only [List.cons_append, List.nil_append]
    rw [Toml.readBasic, hescape]
    · rfl
    all_goals simp_all
  | digits hdigits =>
    simp only [List.cons_append, List.nil_append]
    rw [Toml.readBasic, Read.consDigits, hdigits]
    rfl
  | itself hquote hslash hplain =>
    rw [List.cons_append, List.nil_append, Toml.readBasic]
    all_goals simp_all

/-- The inside of a basic string is read up to its closing quote. -/
theorem readBasic_flatMap (cs rest : List Char) :
    readBasic (cs.flatMap basicChar ++ '"' :: rest) = some (cs, rest) := by
  induction cs with
  | nil => rfl
  | cons c cs ih =>
    rw [List.flatMap_cons, List.append_assoc, (standsFor_basicChar c).readBasic, ih]
    rfl

/-! ## Literals -/

/-- A literal without quotes inside is read up to its closing quote. -/
theorem readLiteral_append {cs : List Char} (hcs : ∀ c ∈ cs, c ≠ '\'' ∧ isPlain c = true)
    (rest : List Char) : readLiteral (cs ++ '\'' :: rest) = some (cs, rest) := by
  induction cs with
  | nil => rfl
  | cons c cs ih =>
    obtain ⟨hquote, hplain⟩ := hcs c List.mem_cons_self
    have hread : readLiteral (c :: (cs ++ '\'' :: rest)) =
        Read.cons c (readLiteral (cs ++ '\'' :: rest)) := by
      rw [readLiteral]
      · simp [hplain]
      · simp_all
    rw [List.cons_append, hread, ih fun d hd => hcs d (List.mem_cons_of_mem c hd)]
    rfl

theorem le_longestRun (c : Char) (current best : Nat) (cs : List Char) :
    best ≤ longestRun c current best cs := by
  induction cs generalizing current best with
  | nil => exact Nat.le_refl best
  | cons d cs ih =>
    unfold longestRun
    split
    · exact Nat.le_trans (Nat.le_max_left ..) (ih _ _)
    · exact ih _ _

/-- Without a run of a character there is none of it. -/
theorem not_mem_of_longestRun {c : Char} {current best : Nat} {cs : List Char}
    (h : longestRun c current best cs = 0) : c ∉ cs := by
  induction cs generalizing current best with
  | nil => exact List.not_mem_nil
  | cons d cs ih =>
    unfold longestRun at h
    split at h
    · have := le_longestRun c (current + 1) (max best (current + 1)) cs
      omega
    · next hne =>
      intro hin
      rcases List.mem_cons.1 hin with rfl | hin
      · exact hne rfl
      · exact ih h hin

/-! ## Keys -/

theorem isPlain_of_isControl {c : Char} (hcontrol : isControl c = false) (hline : c ≠ '\n') :
    isPlain c = true := by
  by_cases htab : c = '\t'
  · rw [htab]
    rfl
  · simp [isControl, htab, hline] at hcontrol
    simp [isPlain, hcontrol]

/-- A text of one line without quotes and control characters can stand as a literal. -/
theorem plain_of_traits {cs : List Char} (hcontrol : (Traits.of cs).control = false)
    (hsingle : (Traits.of cs).longestSingle = 0) (hlines : (Traits.of cs).lines = false) :
    ∀ c ∈ cs, c ≠ '\'' ∧ isPlain c = true := by
  simp only [Traits.of] at hcontrol hsingle hlines
  refine fun c hc => ⟨fun hquote => ?_, ?_⟩
  · exact not_mem_of_longestRun hsingle (hquote ▸ hc)
  · refine isPlain_of_isControl (Bool.eq_false_iff.2 fun h => ?_) fun hline => ?_
    · exact Bool.eq_false_iff.1 hcontrol (List.any_eq_true.2 ⟨c, hc, h⟩)
    · rw [hline] at hc
      rw [List.contains_iff_mem.2 hc] at hlines
      cases hlines

/-- The spelling of a key is basic, or else the key can stand as a literal. -/
theorem keySpelling_cases (cs : List Char) :
    (Traits.of cs).keySpelling = .basic ∨
      (Traits.of cs).keySpelling = .literal ∧ ∀ c ∈ cs, c ≠ '\'' ∧ isPlain c = true := by
  unfold Traits.keySpelling
  split
  · exact .inl rfl
  split
  · next h =>
    simp only [Bool.and_eq_true, Bool.not_eq_true', beq_iff_eq] at h
    obtain ⟨⟨hcontrol, hlines⟩, hsingle⟩ := h
    exact .inr ⟨rfl, plain_of_traits hcontrol hsingle hlines⟩
  · exact .inl rfl

/-- Every spelling of a key in one line is read as the key. -/
theorem readLineString_spell (cs rest : List Char) :
    readLineString (spell (Traits.of cs).keySpelling cs ++ rest) = some (cs, rest) := by
  rcases keySpelling_cases cs with h | ⟨h, hcs⟩
  · rw [h]
    simp only [spell, List.cons_append, List.append_assoc, List.nil_append, readLineString]
    exact readBasic_flatMap cs rest
  · rw [h]
    simp only [spell, List.cons_append, List.append_assoc, List.nil_append, readLineString]
    exact readLiteral_append hcs rest

/-- A key begins with a character of bare keys or with a quote. -/
theorem writeKey_eq_cons (key : String) : ∃ c cs, writeKey key = c :: cs ∧
    (isBareKeyChar c = true ∨ c = '"' ∨ c = '\'') := by
  unfold writeKey
  simp only
  split
  · next h =>
    rw [Bool.and_eq_true, Bool.not_eq_true', List.all_eq_true] at h
    cases hk : key.toList with
    | nil =>
      rw [hk] at h
      cases h.1
    | cons c cs => exact ⟨c, cs, rfl, .inl (h.2 c (hk ▸ List.mem_cons_self))⟩
  · rcases keySpelling_cases key.toList with h | ⟨h, -⟩
    · rw [h]
      exact ⟨'"', _, rfl, .inr (.inl rfl)⟩
    · rw [h]
      exact ⟨'\'', _, rfl, .inr (.inr rfl)⟩

/-- A key is read as it was, up to the blank after it. -/
theorem simpleKey?_writeKey (key : String) (rest : List Char) :
    simpleKey? (writeKey key ++ ' ' :: rest) = some (key, ' ' :: rest) := by
  unfold writeKey
  simp only
  split
  · next h =>
    rw [Bool.and_eq_true, Bool.not_eq_true', List.all_eq_true] at h
    obtain ⟨hne, hall⟩ := h
    have hread : readLineString (key.toList ++ ' ' :: rest) = none := by
      cases hk : key.toList with
      | nil =>
        rw [hk] at hne
        cases hne
      | cons c cs =>
        have hbare := hall c (hk ▸ List.mem_cons_self)
        rw [List.cons_append, readLineString]
        · rintro rest' heq
          cases heq
          cases hbare
        · rintro rest' heq
          cases heq
          cases hbare
    have htake : (key.toList ++ ' ' :: rest).takeWhile isBareKeyChar = key.toList := by
      rw [List.takeWhile_append_of_pos hall]
      exact List.append_nil _
    have hdrop : (key.toList ++ ' ' :: rest).dropWhile isBareKeyChar = ' ' :: rest :=
      List.dropWhile_append_of_pos hall
    simp only [simpleKey?, hread, htake, hdrop, hne, String.ofList_toList]
    rfl
  · simp only [simpleKey?, readLineString_spell, String.ofList_toList]

end RemoteSession.Toml
