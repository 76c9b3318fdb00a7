import RemoteSession.Proofs.Toml.Keys

/-!
# Strings as they are written and read

A text is written as a string of one of four spellings, and at the end of a line each of them
is read as the text, whatever characters it has (`readString_writeString`). In a string of
several lines up to two quotes may stand next to each other, at its end too, where three more
close it; so the reader has to look two characters ahead of a quote, and the writer to put an
escape before every third.
-/

namespace RemoteSession.Toml

variable {c : Char} {cs w : List Char}

/-! ## Runs of quotes -/

/-- A text with three of a character in a row has a run of at least three. -/
theorem three_le_longestRun (h : [c, c, c] <:+: cs) (current best : Nat) :
    3 ≤ longestRun c current best cs := by
  induction cs generalizing current best with
  | nil => exact absurd (List.infix_nil.1 h) (List.cons_ne_nil _ _)
  | cons d cs ih =>
    rcases List.infix_cons_iff.1 h with ⟨more, hmore⟩ | h
    · cases hmore
      change 3 ≤ longestRun c current best (c :: c :: c :: more)
      simp only [longestRun, if_true]
      refine Nat.le_trans ?_ (le_longestRun ..)
      omega
    · unfold longestRun
      split
      · exact ih h _ _
      · exact ih h _ _

/-! ## Literals of several lines -/

theorem readLongLiteral_cons {rest : List Char} (hc : c = '\n' ∨ isPlain c = true)
    (hquotes : c = '\'' → ¬['\'', '\''] <+: rest) :
    readLongLiteral (c :: rest) = Read.cons c (readLongLiteral rest) := by
  rw [readLongLiteral]
  · simp [hc]
  · exact fun _ hquote heq => hquotes hquote ⟨_, heq.symm⟩
  · exact fun _ hquote heq => hquotes hquote ⟨_, heq.symm⟩
  · exact fun _ hquote heq => hquotes hquote ⟨_, heq.symm⟩
  · rintro _ rfl -
    exact absurd hc (by decide)

/-- A literal of several lines is read up to its closing quotes. -/
theorem readLongLiteral_append (hcs : ∀ c ∈ cs, c = '\n' ∨ isPlain c = true)
    (hruns : ¬['\'', '\'', '\''] <:+: cs) (rest : List Char) :
    readLongLiteral (cs ++ '\'' :: '\'' :: '\'' :: '\n' :: rest) = some (cs, '\n' :: rest) := by
  induction cs with
  | nil => rfl
  | cons c cs ih =>
    by_cases hquotes : c = '\'' ∧ ['\'', '\''] <+: cs ++ '\'' :: '\'' :: '\'' :: '\n' :: rest
    · -- Two quotes behind a quote are closing ones, for want of three in a row before.
      obtain ⟨rfl, hpair⟩ := hquotes
      cases cs with
      | nil => rfl
      | cons d cs =>
        obtain ⟨rfl, hlast⟩ := List.cons_prefix_cons.1 hpair
        cases cs with
        | nil => rfl
        | cons e cs =>
          obtain ⟨rfl, -⟩ := List.cons_prefix_cons.1 hlast
          exact absurd (List.prefix_append ['\'', '\'', '\''] cs).isInfix hruns
    · rw [List.cons_append, readLongLiteral_cons (hcs c List.mem_cons_self) fun hc hnext =>
        hquotes ⟨hc, hnext⟩, ih (fun d hd => hcs d (List.mem_cons_of_mem c hd)) fun h =>
        hruns (List.infix_cons h)]
      rfl

/-! ## Basic strings of several lines -/

/-- A backslash before the letter of an escape does not end a line. -/
theorem endsLine_of_escape {l : Char} (h : escapeOf? l = some c) (rest : List Char) :
    endsLine (l :: rest) = false := by
  have hblank : isBlank l = false := by
    refine Bool.eq_false_iff.2 fun hl => ?_
    simp only [isBlank, Bool.or_eq_true, beq_iff_eq] at hl
    rcases hl with rfl | rfl <;> cases h
  rw [endsLine, List.dropWhile_cons_of_neg (by simp [hblank])]
  split
  · next heq =>
    cases heq
    cases h
  · next heq =>
    cases heq
    cases h
  · rfl

theorem StandsFor.readLongBasic (h : StandsFor c w) (rest : List Char) :
    readLongBasic false (w ++ rest) = Read.cons c (readLongBasic false rest) := by
  cases h with
  | @letter l hescape =>
    obtain ⟨hu, hU⟩ := ne_of_escapeOf? hescape
    simp only [List.cons_append, List.nil_append]
    rw [Toml.readLongBasic, hescape, endsLine_of_escape hescape]
    · rfl
    all_goals simp_all
  | digits hdigits =>
    simp only [List.cons_append, List.nil_append]
    rw [Toml.readLongBasic, Read.consDigits, hdigits]
    rfl
  | itself hquote hslash hplain =>
    rw [List.cons_append, List.nil_append, Toml.readLongBasic]
    · simp [hslash, hplain]
    case x_5 =>
      rintro _ rfl -
      cases hplain
    all_goals simp_all

theorem StandsFor.exists_cons (h : StandsFor c w) :
    ∃ d rest, w = d :: rest ∧ d ≠ '"' ∧ isPlain d = true := by
  cases h with
  | letter => exact ⟨'\\', _, rfl, by decide⟩
  | digits => exact ⟨'\\', _, rfl, by decide⟩
  | itself hquote hslash hplain => exact ⟨c, [], rfl, hquote, hplain⟩

theorem readLongBasic_quote {rest : List Char} (h : ¬['"', '"'] <+: rest) :
    readLongBasic false ('"' :: rest) = Read.cons '"' (readLongBasic false rest) := by
  rw [readLongBasic]
  · exact fun _ heq => h ⟨_, heq.symm⟩
  · exact fun _ heq => h ⟨_, heq.symm⟩
  · exact fun _ heq => h ⟨_, heq.symm⟩

theorem longBasicChars_quote (quotes : Nat) (cs : List Char) :
    longBasicChars quotes ('"' :: cs) =
      if quotes = 2 then '\\' :: '"' :: longBasicChars 0 cs
      else '"' :: longBasicChars (quotes + 1) cs := rfl

theorem longBasicChars_newline (quotes : Nat) (cs : List Char) :
    longBasicChars quotes ('\n' :: cs) = '\n' :: longBasicChars 0 cs := rfl

theorem longBasicChars_other (hquote : c ≠ '"') (hline : c ≠ '\n') (quotes : Nat)
    (cs : List Char) : longBasicChars quotes (c :: cs) = escaped c ++ longBasicChars 0 cs := by
  rw [longBasicChars]
  all_goals simp_all

/-- What is written for a character begins with a quote only if it is one that two others do
not precede, and with a line end only if it is one. -/
theorem longBasicChars_cons (quotes : Nat) (c : Char) (cs : List Char) :
    ∃ d rest, longBasicChars quotes (c :: cs) = d :: rest ∧
      (d = '"' → c = '"' ∧ quotes ≠ 2) ∧ (c ≠ '\n' → isPlain d = true) := by
  by_cases hquote : c = '"'
  · subst hquote
    rw [longBasicChars_quote]
    split
    · exact ⟨'\\', _, rfl, fun heq => absurd heq (by decide), fun _ => rfl⟩
    · next hfew => exact ⟨'"', _, rfl, fun _ => ⟨rfl, hfew⟩, fun _ => rfl⟩
  by_cases hline : c = '\n'
  · subst hline
    exact ⟨'\n', _, rfl, fun heq => absurd heq (by decide), fun hne => absurd rfl hne⟩
  · obtain ⟨d, rest, hescaped, hd, hplain⟩ := (standsFor_escaped hquote hline).exists_cons
    rw [longBasicChars_other hquote hline, hescaped]
    exact ⟨d, _, rfl, fun heq => absurd heq hd, fun _ => hplain⟩

/-- A basic string of several lines is read up to its closing quotes. -/
theorem readLongBasic_append {quotes : Nat} (hle : quotes ≤ 2) (cs rest : List Char) :
    readLongBasic false (longBasicChars quotes cs ++ '"' :: '"' :: '"' :: '\n' :: rest) =
      some (cs, '\n' :: rest) := by
  induction cs generalizing quotes with
  | nil => rfl
  | cons c cs ih =>
    by_cases hquote : c = '"'
    · subst hquote
      rw [longBasicChars_quote]
      split
      · have hread := StandsFor.readLongBasic (.letter (l := '"') rfl)
          (longBasicChars 0 cs ++ '"' :: '"' :: '"' :: '\n' :: rest)
        rw [ih (Nat.zero_le 2)] at hread
        exact hread
      next hfew =>
      by_cases hpair : ['"', '"'] <+:
          longBasicChars (quotes + 1) cs ++ '"' :: '"' :: '"' :: '\n' :: rest
      · -- Two quotes behind a quote are closing ones, for the writer puts no third in a row.
        cases cs with
        | nil => rfl
        | cons d cs =>
          obtain ⟨e, more, hwritten, he, -⟩ := longBasicChars_cons (quotes + 1) d cs
          rw [hwritten] at hpair
          obtain ⟨rfl, hlast⟩ := List.cons_prefix_cons.1 hpair
          obtain ⟨rfl, hone⟩ := he rfl
          rw [longBasicChars_quote, if_neg hone] at hwritten
          obtain ⟨-, rfl⟩ := List.cons.inj hwritten
          obtain rfl : quotes = 0 := by omega
          cases cs with
          | nil => rfl
          | cons f cs =>
            obtain ⟨e, more, hwritten, he, -⟩ := longBasicChars_cons 2 f cs
            rw [hwritten] at hlast
            obtain ⟨rfl, -⟩ := List.cons_prefix_cons.1 hlast
            exact absurd rfl (he rfl).2
      · rw [List.cons_append, readLongBasic_quote hpair, ih (by omega)]
        rfl
    by_cases hline : c = '\n'
    · subst hline
      have hread : readLongBasic false
          ('\n' :: (longBasicChars 0 cs ++ '"' :: '"' :: '"' :: '\n' :: rest)) =
            Read.cons '\n' (readLongBasic false
              (longBasicChars 0 cs ++ '"' :: '"' :: '"' :: '\n' :: rest)) := by
        rw [readLongBasic]
        all_goals simp
      rw [longBasicChars_newline, List.cons_append, hread, ih (Nat.zero_le 2)]
      rfl
    · rw [longBasicChars_other hquote hline, List.append_assoc,
        (standsFor_escaped hquote hline).readLongBasic, ih (Nat.zero_le 2)]
      rfl

/-! ## Spellings -/

/-- The texts that a spelling has room for. -/
inductive Fits (cs : List Char) : Spelling → Prop
  | basic : Fits cs .basic
  | literal (hplain : ∀ c ∈ cs, c ≠ '\'' ∧ isPlain c = true) : Fits cs .literal
  | longBasic : Fits cs .longBasic
  | longLiteral (hplain : ∀ c ∈ cs, c = '\n' ∨ isPlain c = true)
    (hruns : ¬['\'', '\'', '\''] <:+: cs) : Fits cs .longLiteral

/-- A text is spelled in a way that has room for it. -/
theorem fits_spelling (cs : List Char) : Fits cs (Traits.of cs).spelling := by
  unfold Traits.spelling
  split
  · exact .basic
  split
  · next h =>
    simp only [Bool.and_eq_true, Bool.not_eq_true', beq_iff_eq] at h
    obtain ⟨⟨hcontrol, hsingle⟩, hlines⟩ := h
    exact .literal (plain_of_traits hcontrol hsingle hlines)
  split
  · exact .longBasic
  split
  · next h =>
    simp only [Bool.and_eq_true, Bool.not_eq_true', decide_eq_true_eq] at h
    obtain ⟨hcontrol, hsingle⟩ := h
    refine .longLiteral (fun c hc => ?_) fun hruns => ?_
    · by_cases hline : c = '\n'
      · exact .inl hline
      · refine .inr (isPlain_of_isControl (Bool.eq_false_iff.2 fun h => ?_) hline)
        exact Bool.eq_false_iff.1 hcontrol (List.any_eq_true.2 ⟨c, hc, h⟩)
    · have hthree : 3 ≤ (Traits.of cs).longestSingle := three_le_longestRun hruns 0 0
      omega
  split
  · exact .longBasic
  · exact .basic

/-- The line end that stands before a text of several lines is left out, and no other is. -/
theorem dropLineEnd_opening {lines : Bool} (h : lines = false → isPlain c = true)
    (rest : List Char) :
    dropLineEnd ((if lines then ['\n'] else []) ++ c :: rest) = c :: rest := by
  cases lines with
  | true => rfl
  | false =>
    change dropLineEnd (c :: rest) = c :: rest
    have hplain := h rfl
    unfold dropLineEnd
    split
    · next heq =>
      cases heq
      cases hplain
    · next heq =>
      cases heq
      cases hplain
    · rfl

/-- What three quotes do not open is a string in one line. -/
theorem readString_of_not_long (hdouble : ¬['"', '"', '"'] <+: w)
    (hsingle : ¬['\'', '\'', '\''] <+: w) : readString w = readLineString w := by
  rw [readString]
  · exact fun rest heq => hdouble ⟨rest, heq.symm⟩
  · exact fun rest heq => hsingle ⟨rest, heq.symm⟩

/-- Every spelling with room for a text is read as the text, up to the end of the line. -/
theorem Fits.readString {spelling : Spelling} (h : Fits cs spelling) (rest : List Char) :
    readString (spell spelling cs ++ '\n' :: rest) = some (cs, '\n' :: rest) := by
  cases h with
  | basic =>
    simp only [spell, List.cons_append, List.append_assoc, List.nil_append]
    rw [readString_of_not_long]
    · exact readBasic_flatMap cs _
    · cases cs with
      | nil => simp
      | cons c cs =>
        obtain ⟨d, more, hwritten, hd, -⟩ := (standsFor_basicChar c).exists_cons
        simp [hwritten, hd.symm]
    · simp
  | literal hplain =>
    simp only [spell, List.cons_append, List.append_assoc, List.nil_append]
    rw [readString_of_not_long]
    · exact readLiteral_append hplain _
    · simp
    · cases cs with
      | nil => simp
      | cons c cs =>
        have hquote : c ≠ '\'' := (hplain c List.mem_cons_self).1
        simp [hquote.symm]
  | longBasic =>
    have hread := readLongBasic_append (Nat.zero_le 2) cs rest
    simp only [spell, List.cons_append, List.append_assoc, List.nil_append, Toml.readString]
    cases cs with
    | nil => exact hread
    | cons c cs =>
      obtain ⟨d, more, hwritten, -, hd⟩ := longBasicChars_cons 0 c cs
      rw [hwritten, List.cons_append] at hread ⊢
      rw [dropLineEnd_opening]
      · exact hread
      · exact fun hlines => hd fun hline => by simp [hline] at hlines
  | longLiteral hplain hruns =>
    have hread := readLongLiteral_append hplain hruns rest
    simp only [spell, List.cons_append, List.append_assoc, List.nil_append, Toml.readString]
    cases cs with
    | nil => exact hread
    | cons c cs =>
      rw [List.cons_append] at hread ⊢
      rw [dropLineEnd_opening]
      · exact hread
      · intro hlines
        refine (hplain c List.mem_cons_self).resolve_left fun hline => ?_
        simp [hline] at hlines

/-- A text is read as it was, up to the end of the line. -/
theorem readString_writeString (s : String) (rest : List Char) :
    readString (writeString s ++ '\n' :: rest) = some (s.toList, '\n' :: rest) :=
  (fits_spelling s.toList).readString rest

/-- A string begins with a quote. -/
theorem writeString_eq_cons (s : String) :
    ∃ c cs, writeString s = c :: cs ∧ (c = '"' ∨ c = '\'') := by
  unfold writeString
  cases (Traits.of s.toList).spelling with
  | basic => exact ⟨'"', _, rfl, .inl rfl⟩
  | literal => exact ⟨'\'', _, rfl, .inr rfl⟩
  | longBasic => exact ⟨'"', _, rfl, .inl rfl⟩
  | longLiteral => exact ⟨'\'', _, rfl, .inr rfl⟩

end RemoteSession.Toml
