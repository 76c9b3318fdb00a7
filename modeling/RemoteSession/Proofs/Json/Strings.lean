import RemoteSession.Proofs.Json.Tokens

/-!
# Strings of a text

A character in a string may be spelled in several ways (`Token.SpelledChar`) : as it is,
unless it is a quote, a backslash or below the blank, by a letter, by the unit of 16 bits
that it is, and by two units if it needs them. A string is one token with the characters
that are spelled in it (`Token.spells_string`), whichever way each of them is. The compact
text of a string is spelled in one of these ways (`Token.spells_quoted`).
-/

namespace RemoteSession.Json.Token

/-- The number that hexadecimal digits spell behind others. -/
def hexNumber? (value : Nat) (digits : List Char) : Option Nat :=
  digits.foldlM (fun read c => (Text.hexValue? c).map (read * 16 + ·)) value

/-- Four hexadecimal digits that name a unit of 16 bits. -/
structure NamesUnit (digits : List Char) (unit : Nat) : Prop where
  length : digits.length = 4
  value : hexNumber? 0 digits = some unit

/-- The ways to spell a character in a string. -/
inductive SpelledChar : List Char → Char → Prop where
  | itself {c : Char} : 0x20 ≤ c.toNat → c ≠ '"' → c ≠ '\\' → SpelledChar [c] c
  | letter {letter c : Char} : ofEscape? letter = some c → SpelledChar ['\\', letter] c
  | unit {digits : List Char} {unit : Nat} : NamesUnit digits unit →
    unit < 0xD800 ∨ 0xE000 ≤ unit → SpelledChar ('\\' :: 'u' :: digits) (Char.ofNat unit)
  | pair {digits digits' : List Char} {high low : Nat} :
    NamesUnit digits high → 0xD800 ≤ high → high < 0xDC00 →
    NamesUnit digits' low → 0xDC00 ≤ low → low < 0xE000 →
    SpelledChar ('\\' :: 'u' :: digits ++ '\\' :: 'u' :: digits')
      (Char.ofNat (0x10000 + (high - 0xD800) * 0x400 + (low - 0xDC00)))

/-- Characters spelled one after another. -/
inductive SpelledChars : List Char → List Char → Prop where
  | nil : SpelledChars [] []
  | cons {spelling spellings : List Char} {c : Char} {cs : List Char} : SpelledChar spelling c →
    SpelledChars spellings cs → SpelledChars (spelling ++ spellings) (c :: cs)

/-- A string of which some characters have been read, newest first. -/
def Quoted.read (cs : List Char) : Quoted :=
  ⟨some cs, none⟩

variable {cs digits spelling : List Char} {c : Char} {unit high low : Nat}

/-! ## Units -/

theorem pushUnit_of_not_surrogate (h : unit < 0xD800 ∨ 0xE000 ≤ unit) (cs : List Char) :
    (Quoted.read cs).pushUnit unit = .read (Char.ofNat unit :: cs) := by
  have hhigh : ¬(0xD800 ≤ unit ∧ unit < 0xDC00) := by omega
  have hlow : ¬(0xDC00 ≤ unit ∧ unit < 0xE000) := by omega
  simp [Quoted.read, Quoted.pushUnit, Quoted.push, hhigh, hlow]

theorem pushUnit_of_high (hle : 0xD800 ≤ high) (hlt : high < 0xDC00) (cs : List Char) :
    (Quoted.read cs).pushUnit high = ⟨some cs, some high⟩ := by
  simp [Quoted.read, Quoted.pushUnit, hle, hlt]

theorem pushUnit_of_low (hle : 0xDC00 ≤ low) (hlt : low < 0xE000) (cs : List Char) (high : Nat) :
    Quoted.pushUnit ⟨some cs, some high⟩ low =
      .read (Char.ofNat (0x10000 + (high - 0xD800) * 0x400 + (low - 0xDC00)) :: cs) := by
  simp [Quoted.read, Quoted.pushUnit, hle, hlt]

/-- Digits that are still missing are read as the unit that they name. -/
theorem foldlM_hexDigits {value : Nat} (hvalue : hexNumber? value digits = some unit)
    (hne : digits ≠ []) (found : List Token) (q : Quoted) :
    digits.foldlM Scanner.step? ⟨found, .hex q digits.length value⟩ =
      some ⟨found, .quoted (q.pushUnit unit)⟩ := by
  induction digits generalizing value with
  | nil => exact absurd rfl hne
  | cons c rest ih =>
    rw [hexNumber?, List.foldlM_cons] at hvalue
    obtain ⟨next, hnext, hrest⟩ := Option.bind_eq_some_iff.1 hvalue
    obtain ⟨digit, hdigit, rfl⟩ := Option.map_eq_some_iff.1 hnext
    have hstep : ∀ missing, Scanner.step? ⟨found, .hex q missing value⟩ c =
        some (if missing ≤ 1 then ⟨found, .quoted (q.pushUnit (value * 16 + digit))⟩
          else ⟨found, .hex q (missing - 1) (value * 16 + digit)⟩) := fun missing => by
      simp only [Scanner.step?, hdigit, Option.map_some]
    rw [List.foldlM_cons, hstep]
    cases rest with
    | nil =>
      cases hrest
      rfl
    | cons d rest =>
      have hmissing : ¬(c :: d :: rest).length ≤ 1 := by simp
      rw [if_neg hmissing]
      exact ih hrest (List.cons_ne_nil d rest)

theorem foldlM_unit (h : NamesUnit digits unit) (found : List Token) (q : Quoted) :
    ('\\' :: 'u' :: digits).foldlM Scanner.step? ⟨found, .quoted q⟩ =
      some ⟨found, .quoted (q.pushUnit unit)⟩ := by
  have hslash : Scanner.step? ⟨found, .quoted q⟩ '\\' = some ⟨found, .escape q⟩ := rfl
  have hmark : Scanner.step? ⟨found, .escape q⟩ 'u' = some ⟨found, .hex q 4 0⟩ := rfl
  have hne : digits ≠ [] := by
    rintro rfl
    cases h.length
  have hread := foldlM_hexDigits h.value hne found q
  rw [h.length] at hread
  rw [List.foldlM_cons, hslash, Option.bind_eq_bind, Option.bind_some, List.foldlM_cons, hmark,
    Option.bind_eq_bind, Option.bind_some, hread]

/-! ## Characters -/

/-- A character is read as it was spelled. -/
theorem foldlM_spelledChar (h : SpelledChar spelling c) (found : List Token) (cs : List Char) :
    spelling.foldlM Scanner.step? ⟨found, .quoted (.read cs)⟩ =
      some ⟨found, .quoted (.read (c :: cs))⟩ := by
  cases h with
  | itself hcontrol hquote hslash =>
    have hstep : Scanner.step? ⟨found, .quoted (.read cs)⟩ c =
        some ⟨found, .quoted (.read (c :: cs))⟩ :=
      (if_neg hquote).trans ((if_neg hslash).trans (if_neg (Nat.not_lt.2 hcontrol)))
    rw [List.foldlM_cons, hstep]
    rfl
  | @letter letter c hletter =>
    have hslash : Scanner.step? ⟨found, .quoted (.read cs)⟩ '\\' =
        some ⟨found, .escape (.read cs)⟩ := rfl
    have hne : letter ≠ 'u' := by
      rintro rfl
      cases hletter
    have hstep : Scanner.step? ⟨found, .escape (.read cs)⟩ letter =
        some ⟨found, .quoted (.read (c :: cs))⟩ := by
      rw [Scanner.step?]
      simp only [if_neg hne, hletter, Option.map_some]
      rfl
    rw [List.foldlM_cons, hslash, Option.bind_eq_bind, Option.bind_some, List.foldlM_cons, hstep]
    rfl
  | unit hunit hplain =>
    rw [foldlM_unit hunit, pushUnit_of_not_surrogate hplain]
  | pair hhigh hhighle hhighlt hlow hlowle hlowlt =>
    rw [List.foldlM_append, foldlM_unit hhigh, pushUnit_of_high hhighle hhighlt,
      Option.bind_eq_bind, Option.bind_some, foldlM_unit hlow, pushUnit_of_low hlowle hlowlt]

theorem foldlM_spelledChars {s : List Char} (h : SpelledChars spelling s) (found : List Token)
    (cs : List Char) :
    spelling.foldlM Scanner.step? ⟨found, .quoted (.read cs)⟩ =
      some ⟨found, .quoted (.read (s.reverse ++ cs))⟩ := by
  induction h generalizing cs with
  | nil => rfl
  | cons hc _ ih =>
    rw [List.foldlM_append, foldlM_spelledChar hc, Option.bind_eq_bind, Option.bind_some, ih,
      List.reverse_cons, List.append_assoc, List.singleton_append]

/-- A text between quotes is one token. -/
theorem spells_string {s : String} (h : SpelledChars spelling s.toList) :
    Spells ('"' :: spelling ++ ['"']) [.string (some s)] := by
  intro found
  refine ⟨⟨.string (some s) :: found, .between⟩, ?_, rfl⟩
  have hopen : Scanner.step? ⟨found, .between⟩ '"' = some ⟨found, .quoted (.read [])⟩ := rfl
  have hclose : ∀ q, Scanner.step? ⟨found, .quoted q⟩ '"' =
      some ⟨.string q.text :: found, .between⟩ := fun _ => rfl
  have htext : (Quoted.read s.toList.reverse).text = some s := by
    simp [Quoted.read, Quoted.text]
  rw [List.cons_append, List.foldlM_cons, hopen, Option.bind_eq_bind, Option.bind_some,
    List.foldlM_append, foldlM_spelledChars h, Option.bind_eq_bind, Option.bind_some,
    List.append_nil, List.foldlM_cons, hclose, htext]
  rfl

/-- Characters that stand for themselves. -/
theorem spelledChars_itself (h : ∀ c ∈ cs, 0x20 ≤ c.toNat ∧ c ≠ '"' ∧ c ≠ '\\') :
    SpelledChars cs cs := by
  induction cs with
  | nil => exact .nil
  | cons c cs ih =>
    obtain ⟨hcontrol, hquote, hslash⟩ := h c List.mem_cons_self
    exact .cons (.itself hcontrol hquote hslash) (ih fun d hd => h d (List.mem_cons_of_mem c hd))

/-! ## Compact texts -/

/-- The digits of a control character name it. -/
theorem hexValue?_lowerHex : ∀ n < 16, Text.hexValue? (Text.lowerHex n) = some n := by
  decide

theorem namesUnit_control {n : Nat} (h : n < 0x20) :
    NamesUnit ['0', '0', Text.lowerHex (n / 16), Text.lowerHex (n % 16)] n := by
  have hzero : Text.hexValue? '0' = some 0 := rfl
  have hupper := hexValue?_lowerHex (n / 16) (by omega)
  have hlower := hexValue?_lowerHex (n % 16) (by omega)
  have hunit : n / 16 * 16 + n % 16 = n := by omega
  exact ⟨rfl, by simp [hexNumber?, hzero, hupper, hlower, hunit]⟩

theorem spelledChar_escapedChar (c : Char) : SpelledChar (Value.escapedChar c) c := by
  unfold Value.escapedChar
  iterate 7
    split
    · next h =>
      subst h
      exact .letter rfl
  split
  · next h =>
    have hunit := SpelledChar.unit (namesUnit_control h) (.inl (by omega))
    rwa [Char.ofNat_toNat] at hunit
  · next hquote hslash _ _ _ _ _ hcontrol =>
    exact .itself (Nat.not_lt.1 hcontrol) hquote hslash

theorem spelledChars_escapedChars (s : List Char) :
    SpelledChars (s.flatMap Value.escapedChar) s := by
  induction s with
  | nil => exact .nil
  | cons c s ih =>
    rw [List.flatMap_cons]
    exact .cons (spelledChar_escapedChar c) ih

end RemoteSession.Json.Token
