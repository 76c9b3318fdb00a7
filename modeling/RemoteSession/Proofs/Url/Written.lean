import RemoteSession.Proofs.Url.Schemes

/-!
# The scheme that a base is written with

A base that begins with the name of a scheme and its mark is read as an address of this
scheme, in lower case, or not at all. But slashes at the end of a base are taken away before
the mark is looked for. Where nothing but slashes follows the mark, they are the last of it :
what is left is the name and a colon, which is taken for a host, and a scheme is put before it
(`Endpoint.guesses_iff`). So the scheme that is written is kept if and only if anything else
follows it, or it is the one that is put there anyway (`Endpoint.keeps_scheme_iff`).
-/

namespace RemoteSession.Endpoint

/-! ## Slashes at the end -/

theorem dropSlashes_append {rest : List Char} (h : ∃ c ∈ rest, c ≠ '/') (cs : List Char) :
    dropSlashes (cs ++ rest) = cs ++ dropSlashes rest := by
  have hkept : (rest.reverse.dropWhile (· == '/')).isEmpty = false := by
    obtain ⟨c, hc, hne⟩ := h
    rw [← Bool.not_eq_true, List.isEmpty_iff, List.dropWhile_eq_nil_iff]
    exact fun hall => hne (beq_iff_eq.1 (hall c (List.mem_reverse.2 hc)))
  rw [dropSlashes, List.reverse_append, List.dropWhile_append, hkept, if_neg Bool.false_ne_true,
    List.reverse_append, List.reverse_reverse, dropSlashes]

theorem dropSlashes_of_slashes {rest : List Char} (h : ∀ c ∈ rest, c = '/') (cs : List Char) :
    dropSlashes (cs ++ rest) = dropSlashes cs := by
  have hgone : ∀ c ∈ rest.reverse, (c == '/') = true := fun c hc =>
    beq_iff_eq.2 (h c (List.mem_reverse.1 hc))
  rw [dropSlashes, List.reverse_append, List.dropWhile_append_of_pos hgone, dropSlashes]

theorem dropSlashes_concat (cs : List Char) {c : Char} (h : c ≠ '/') :
    dropSlashes (cs ++ [c]) = cs ++ [c] :=
  List.rdropWhile_concat_neg _ _ _ (by simpa using h)

/-! ## Bases with a scheme -/

variable {base : String} {name rest : List Char}

theorem trimBase_of_other (hbase : (Text.trim base).toList = name ++ schemeMark.toList ++ rest)
    (h : ∃ c ∈ rest, c ≠ '/') :
    trimBase base = name ++ schemeMark.toList ++ dropSlashes rest := by
  rw [trimBase, hbase, dropSlashes_append h]

theorem holds_of_other (hbase : (Text.trim base).toList = name ++ schemeMark.toList ++ rest)
    (h : ∃ c ∈ rest, c ≠ '/') : holds schemeMark (trimBase base) = true := by
  rw [trimBase_of_other hbase h]
  exact holds_iff.2 ⟨name, dropSlashes rest, rfl⟩

/-- The slashes of the mark go with those that follow it. -/
theorem trimBase_of_slashes (hbase : (Text.trim base).toList = name ++ schemeMark.toList ++ rest)
    (h : ∀ c ∈ rest, c = '/') : trimBase base = name ++ [':'] := by
  have hmark : schemeMark.toList = [':'] ++ ['/', '/'] := by decide
  have hslashes : ∀ c ∈ ['/', '/'], c = '/' := by decide
  rw [trimBase, hbase, dropSlashes_of_slashes h, hmark, ← List.append_assoc,
    dropSlashes_of_slashes hslashes, dropSlashes_concat name (by decide)]

theorem not_holds_colon (hname : IsSchemeName name) :
    ¬holds schemeMark (name ++ [':']) = true := fun hholds => by
  have hslash : '/' ∈ name ++ [':'] := (holds_iff.1 hholds).subset (by decide)
  rcases List.mem_append.1 hslash with hmem | hmem
  · exact hname.notMem (by decide) hmem
  · exact absurd hmem (by decide)

/-- A scheme is put before a base that begins with one exactly when nothing but slashes
follows its mark. -/
theorem guesses_iff (hname : IsSchemeName name)
    (hbase : (Text.trim base).toList = name ++ schemeMark.toList ++ rest) :
    withScheme (trimBase base) = inferScheme (trimBase base) ++ trimBase base ↔
      ∀ c ∈ rest, c = '/' := by
  constructor
  · intro hguess
    by_contra hother
    rw [withScheme, if_pos (holds_of_other hbase (by simpa using hother))] at hguess
    have hempty : inferScheme (trimBase base) = [] := List.append_left_eq_self.1 hguess.symm
    unfold inferScheme at hempty
    split at hempty <;> exact absurd hempty (by decide)
  · intro hslashes
    rw [withScheme, if_neg]
    rw [trimBase_of_slashes hbase hslashes]
    exact not_holds_colon hname

/-- The schemes of requests do not look like local hosts. -/
theorem not_looksLocal_colon (h : name.map Char.toLower ∈ ["http".toList, "https".toList]) :
    looksLocal (hostPart (name ++ [':'])) = false := by
  rw [hostPart_eq, List.map_append]
  rcases List.mem_cons.1 h with h | h
  · rw [h]
    decide
  · rw [List.mem_singleton.1 h]
    decide

/-- The scheme that is put before the name of another one is this one only if it is the
secure one. -/
theorem word_of_guess_iff :
    (if looksLocal (hostPart (name ++ [':'])) then Url.Scheme.http else .https).word =
      String.ofList (name.map Char.toLower) ↔ name.map Char.toLower = "https".toList := by
  constructor
  · intro hword
    have hlower := (congrArg String.toList hword).symm
    rw [String.toList_ofList] at hlower
    split at hlower
    · next hlocal =>
      rw [not_looksLocal_colon (by rw [hlower]; decide)] at hlocal
      cases hlocal
    · exact hlower
  · intro hlower
    rw [if_neg (by rw [not_looksLocal_colon (by rw [hlower]; decide)]; exact Bool.false_ne_true),
      hlower]
    rfl

/-- A base that begins with the name of a scheme and its mark either is refused or has one
of the two schemes of requests, and this is the one that is written, in lower case, if and
only if something else than slashes follows the mark, or it is the secure one. Only where
nothing else follows is a scheme put before the base. -/
theorem keeps_scheme_iff (hname : IsSchemeName name)
    (hbase : (Text.trim base).toList = name ++ schemeMark.toList ++ rest) :
    (withScheme (trimBase base) = inferScheme (trimBase base) ++ trimBase base ↔
      ∀ c ∈ rest, c = '/') ∧
    ∀ token e, Endpoint.new base token = .ok e →
      (e.baseUrl.scheme = .http ∨ e.baseUrl.scheme = .https) ∧
      (e.baseUrl.scheme.word = String.ofList (name.map Char.toLower) ↔
        (∃ c ∈ rest, c ≠ '/') ∨ name.map Char.toLower = "https".toList) := by
  refine ⟨guesses_iff hname hbase, fun token e h => ⟨(parse_of_new h).2, ?_⟩⟩
  by_cases hother : ∃ c ∈ rest, c ≠ '/'
  · have hwritten : withScheme (trimBase base) = name ++ schemeMark.toList ++ dropSlashes rest := by
      rw [withScheme, if_pos (holds_of_other hbase hother), trimBase_of_other hbase hother]
    exact iff_of_true (word_of_new hname hwritten h) (.inl hother)
  · have hslashes : ∀ c ∈ rest, c = '/' := by simpa using hother
    have htrim := trimBase_of_slashes hbase hslashes
    have hscheme := scheme_of_guess (htrim ▸ not_holds_colon hname) h
    rw [hscheme, htrim, or_iff_right hother]
    exact word_of_guess_iff

/-- A scheme in capitals before a host with blanks around it, and one without a host. -/
theorem keeps_scheme_iff_capitals :
    IsSchemeName "HTTP".toList ∧
      (Text.trim " HTTP://rc.example.com/\n").toList =
        "HTTP".toList ++ schemeMark.toList ++ "rc.example.com/".toList ∧
      ∃ e, Endpoint.new " HTTP://rc.example.com/\n" none = .ok e ∧
        e.baseUrl.scheme.word = "http" := by
  have hname : IsSchemeName "HTTP".toList := by decide
  have hbase : (Text.trim " HTTP://rc.example.com/\n").toList =
      "HTTP".toList ++ schemeMark.toList ++ "rc.example.com/".toList := by decide
  have hnew : Endpoint.new " HTTP://rc.example.com/\n" none =
      .ok ⟨⟨.http, "", none, .name "rc.example.com", none, [""], none, none⟩, none⟩ := rfl
  have hother : ∃ c ∈ "rc.example.com/".toList, c ≠ '/' := ⟨'r', by decide, by decide⟩
  exact ⟨hname, hbase, _, hnew, ((keeps_scheme_iff hname hbase).2 none _ hnew).2.2 (.inl hother)⟩

/-- The plain scheme without a host is taken for the name of a host, with the secure
scheme. -/
theorem scheme_replaced :
    ¬∀ (base : String) (token : Option String) (e : Endpoint) (name rest : List Char),
      IsSchemeName name → (Text.trim base).toList = name ++ schemeMark.toList ++ rest →
        Endpoint.new base token = .ok e →
          e.baseUrl.scheme.word = String.ofList (name.map Char.toLower) := by
  intro hkept
  have hword := hkept "http://" none
    ⟨⟨.https, "", none, .name "http", none, [""], none, none⟩, none⟩ "http".toList []
    (by decide) (by decide) rfl
  exact absurd hword (by decide)

end RemoteSession.Endpoint
