import RemoteSession.Json.Value

/-!
# Tokens of a text

What a text is split into. A text spells some tokens (`Token.Spells`) if the machine, set
between two tokens, has read them once the text has ended, a word at its end included, which
only the next character completes. So texts that spell tokens can be put side by side with a
mark between them (`Token.Spells.append`), and blanks around them change nothing
(`Token.Spells.blanks`).
-/

namespace RemoteSession.Json

namespace Token

/-- Read from between two tokens, a text completes these tokens, if need be by its end. -/
def Spells (cs : List Char) (tokens : List Token) : Prop :=
  ∀ found, ∃ s, cs.foldlM Scanner.step? ⟨found, .between⟩ = some s ∧
    s.settle? = some (tokens.reverse ++ found)

/-- Blanks and nothing else. -/
def AreBlank (cs : List Char) : Prop :=
  ∀ c ∈ cs, isSpace c = true

instance (cs : List Char) : Decidable (AreBlank cs) :=
  decidable_of_iff (cs.all isSpace = true) List.all_eq_true

variable {cs ds : List Char} {tokens more : List Token} {t : Token} {c : Char}

/-! ## Marks -/

/-- A character that continues no word begins a token after what has been read. -/
theorem step?_of_settle? {s : Scanner} {found : List Token} (hs : s.settle? = some found)
    (hc : isWordChar c = false) : s.step? c = Scanner.begin? found c := by
  obtain ⟨tokens, mode⟩ := s
  cases mode with
  | between =>
    cases hs
    rfl
  | word spelled =>
    rw [Scanner.step?]
    simp only [hc, Bool.false_eq_true, if_false, hs, Option.bind_some]
  | quoted q => cases hs
  | escape q => cases hs
  | hex q missing value => cases hs

theorem ofPunctuation?_cases (h : ofPunctuation? c = some t) :
    c = '[' ∨ c = ']' ∨ c = '\x7b' ∨ c = '\x7d' ∨ c = ',' ∨ c = ':' := by
  unfold ofPunctuation? at h
  split at h <;> simp_all

/-- A mark is a token of its own. -/
theorem begin?_of_ofPunctuation? (h : ofPunctuation? c = some t) (found : List Token) :
    isWordChar c = false ∧ Scanner.begin? found c = some ⟨t :: found, .between⟩ := by
  rcases ofPunctuation?_cases h with rfl | rfl | rfl | rfl | rfl | rfl <;> cases h <;>
    exact ⟨by decide, rfl⟩

theorem spells_nil : Spells [] [] := fun _ => ⟨_, rfl, rfl⟩

/-- Texts with a mark between them. -/
theorem Spells.append (h : Spells cs tokens) (hc : ofPunctuation? c = some t)
    (hmore : Spells ds more) : Spells (cs ++ c :: ds) (tokens ++ t :: more) := by
  intro found
  obtain ⟨s, hread, hsettle⟩ := h found
  obtain ⟨hword, hbegin⟩ := begin?_of_ofPunctuation? hc (tokens.reverse ++ found)
  obtain ⟨s', hread', hsettle'⟩ := hmore (t :: (tokens.reverse ++ found))
  refine ⟨s', ?_, ?_⟩
  · rw [List.foldlM_append, hread, Option.bind_eq_bind, Option.bind_some, List.foldlM_cons,
      step?_of_settle? hsettle hword, hbegin, Option.bind_eq_bind, Option.bind_some, hread']
  · rw [hsettle', List.reverse_append, List.reverse_cons, List.append_assoc, List.append_assoc,
      List.singleton_append]

/-- A text between two marks. -/
theorem Spells.enclosed {d : Char} {u : Token} (hc : ofPunctuation? c = some t)
    (h : Spells cs tokens) (hd : ofPunctuation? d = some u) :
    Spells (c :: cs ++ [d]) (t :: tokens ++ [u]) :=
  (spells_nil.append hc h).append hd spells_nil

/-! ## Blanks -/

theorem isWordChar_of_isSpace (h : isSpace c = true) : isWordChar c = false := by
  simp only [isSpace, Bool.or_eq_true, beq_iff_eq] at h
  rcases h with ((rfl | rfl) | rfl) | rfl <;> decide

/-- A run of blanks completes what stands before it. -/
theorem foldlM_blanks (h : AreBlank cs) {s : Scanner} {found : List Token}
    (hs : s.settle? = some found) :
    ∃ s', cs.foldlM Scanner.step? s = some s' ∧ s'.settle? = some found := by
  induction cs generalizing s with
  | nil => exact ⟨s, rfl, hs⟩
  | cons c cs ih =>
    have hc := h c List.mem_cons_self
    have hstep : s.step? c = some ⟨found, .between⟩ := by
      rw [step?_of_settle? hs (isWordChar_of_isSpace hc), Scanner.begin?, if_pos hc]
    rw [List.foldlM_cons, hstep]
    exact ih (fun d hd => h d (List.mem_cons_of_mem c hd)) rfl

theorem foldlM_blanks_between (h : AreBlank cs) (found : List Token) :
    cs.foldlM Scanner.step? ⟨found, .between⟩ = some ⟨found, .between⟩ := by
  induction cs with
  | nil => rfl
  | cons c cs ih =>
    have hstep : Scanner.step? ⟨found, .between⟩ c = some ⟨found, .between⟩ :=
      if_pos (h c List.mem_cons_self)
    rw [List.foldlM_cons, hstep]
    exact ih fun d hd => h d (List.mem_cons_of_mem c hd)

/-- Blanks may stand around a text. -/
theorem Spells.blanks {before after : List Char} (hbefore : AreBlank before)
    (h : Spells cs tokens) (hafter : AreBlank after) :
    Spells (before ++ cs ++ after) tokens := by
  intro found
  obtain ⟨s, hread, hsettle⟩ := h found
  obtain ⟨s', hread', hsettle'⟩ := foldlM_blanks hafter hsettle
  refine ⟨s', ?_, hsettle'⟩
  rw [List.append_assoc, List.foldlM_append, foldlM_blanks_between hbefore, Option.bind_eq_bind,
    Option.bind_some, List.foldlM_append, hread, Option.bind_eq_bind, Option.bind_some, hread']

theorem Spells.blanks_before (hcs : AreBlank cs) (h : Spells ds tokens) :
    Spells (cs ++ ds) tokens := by
  rw [← List.append_nil (cs ++ ds)]
  exact h.blanks hcs nofun

/-! ## Words -/

/-- Further characters of a word. -/
theorem foldlM_word (h : ∀ c ∈ cs, isWordChar c = true) (found : List Token)
    (spelled : List Char) :
    cs.foldlM Scanner.step? ⟨found, .word spelled⟩ =
      some ⟨found, .word (cs.reverse ++ spelled)⟩ := by
  induction cs generalizing spelled with
  | nil => rfl
  | cons c cs ih =>
    have hstep : Scanner.step? ⟨found, .word spelled⟩ c = some ⟨found, .word (c :: spelled)⟩ :=
      if_pos (h c List.mem_cons_self)
    rw [List.foldlM_cons, hstep, Option.bind_eq_bind, Option.bind_some,
      ih fun d hd => h d (List.mem_cons_of_mem c hd), List.reverse_cons, List.append_assoc,
      List.singleton_append]

theorem isSpace_of_isWordChar (h : isWordChar c = true) : isSpace c = false ∧ c ≠ '"' := by
  refine ⟨Bool.eq_false_iff.2 fun hspace => ?_, ?_⟩
  · simp only [isSpace, Bool.or_eq_true, beq_iff_eq] at hspace
    rcases hspace with ((rfl | rfl) | rfl) | rfl <;> cases h
  · rintro rfl
    cases h

/-- A word is one token. -/
theorem spells_word (h : ∀ c ∈ cs, isWordChar c = true) (ht : ofWord? cs = some t)
    (hne : cs ≠ []) : Spells cs [t] := by
  intro found
  obtain ⟨c, cs, rfl⟩ := List.exists_cons_of_ne_nil hne
  have hc := h c List.mem_cons_self
  obtain ⟨hspace, hquote⟩ := isSpace_of_isWordChar hc
  have hstep : Scanner.step? ⟨found, .between⟩ c = some ⟨found, .word [c]⟩ := by
    rw [Scanner.step?, Scanner.begin?, hspace, if_neg Bool.false_ne_true, if_neg hquote, if_pos hc]
  refine ⟨⟨found, .word (cs.reverse ++ [c])⟩, ?_, ?_⟩
  · rw [List.foldlM_cons, hstep, Option.bind_eq_bind, Option.bind_some,
      foldlM_word (fun d hd => h d (List.mem_cons_of_mem c hd))]
  · have hword : (cs.reverse ++ [c]).reverse = c :: cs := by simp
    rw [← hword] at ht
    exact congrArg (Option.map (· :: found)) ht

/-! ## The whole text -/

theorem ofChars?_of_spells (h : Spells cs tokens) : ofChars? cs = some tokens := by
  obtain ⟨s, hread, hsettle⟩ := h []
  rw [List.append_nil] at hsettle
  rw [ofChars?, Scanner.start, hread, Option.bind_some, hsettle, Option.map_some,
    List.reverse_reverse]

end Token

end RemoteSession.Json
