import RemoteSession.Proofs.Config.Blanks
import RemoteSession.Service.Client

/-!
# Credentials

The credential of an endpoint is to be bare (`Endpoint.Bare`) : some text without blanks around
it that does not begin with the name of the scheme, which the header of a request puts before
it. The blanks around a text are left out, then the name of the scheme as often as it stands at
the beginning, then the blanks that this has laid bare (`Endpoint.normaliseToken_eq`). So a text
without a credential is one of blanks only, and the credential is bare unless the name of the
scheme comes once more behind the blanks that are left out last (`Endpoint.Exposes`). A name
alone loses the blank behind it first, and is then taken for a credential
(`Endpoint.normalised_iff`).
-/

namespace RemoteSession.Endpoint

open Text

/-- The name of the scheme and the blank that belongs to it. -/
def schemeName : List Char := "Bearer ".toList

/-- A credential that can stand behind the name of the scheme. -/
structure Bare (token : String) : Prop where
  ne_empty : token ≠ ""
  trimmed : trim token = token
  unnamed : ¬schemeName <+: token.toList

/-- A header in which the name of the scheme stands once. -/
def NamesOnce (header : String) : Prop :=
  ∃ rest, header.toList = schemeName ++ rest ∧ ¬schemeName <+: rest

/-- A text without other words than the name of the scheme. -/
def NamesOnly (text : String) : Prop :=
  ∀ word ∈ text.toList.splitOnP isBlankChar, word = [] ∨ word = "Bearer".toList

instance (text : String) : Decidable (NamesOnly text) :=
  inferInstanceAs (Decidable (∀ word ∈ _, _))

/-- An endpoint whose credential was fully normalised when it was made of a text. -/
structure Normalised (e : Endpoint) (text : String) : Prop where
  bare : ∀ token ∈ e.token, Bare token
  /-- The credential of the credential is the credential. -/
  stable : ∀ token ∈ e.token, normaliseToken token = some token
  /-- Every request with a credential names the scheme once. -/
  header : ∀ network method path body,
    ∀ header ∈ (Service.request ⟨e, network⟩ method path body).authorization, NamesOnce header
  missing : NamesOnly text → e.token = none

/-- A text in which blanks and the name of the scheme come behind the names at its beginning. -/
def Exposes (text : String) : Prop :=
  ∃ (n : Nat) (blanks rest : List Char), blanks ≠ [] ∧ (∀ c ∈ blanks, isBlankChar c = true) ∧
    (trim text).toList = (List.replicate n schemeName).flatten ++ (blanks ++ (schemeName ++ rest))

variable {cs ds : List Char} {text token : String}

/-! ## Leaving names out -/

theorem dropBearer_names (n : Nat) (cs : List Char) :
    dropBearer ((List.replicate n schemeName).flatten ++ cs) = dropBearer cs := by
  induction n with
  | zero => rfl
  | succ n ih =>
    rw [List.replicate_succ, List.flatten_cons, List.append_assoc, ← ih]
    rfl

/-- Names are left out until the rest does not begin with one. -/
theorem exists_dropBearer (cs : List Char) :
    ∃ n, cs = (List.replicate n schemeName).flatten ++ dropBearer cs ∧
      ¬schemeName <+: dropBearer cs := by
  fun_induction dropBearer cs with
  | case1 rest ih =>
    obtain ⟨n, hrest, hunnamed⟩ := ih
    refine ⟨n + 1, ?_, hunnamed⟩
    rw [List.replicate_succ, List.flatten_cons, List.append_assoc, ← hrest]
    rfl
  | case2 cs hnot =>
    refine ⟨0, rfl, ?_⟩
    rintro ⟨rest, rfl⟩
    exact hnot rest rfl

theorem dropBearer_of_unnamed (h : ¬schemeName <+: cs) : dropBearer cs = cs := by
  obtain ⟨n, hcs, -⟩ := exists_dropBearer cs
  cases n with
  | zero => exact hcs.symm
  | succ n =>
    rw [List.replicate_succ, List.flatten_cons, List.append_assoc] at hcs
    exact absurd ⟨_, hcs.symm⟩ h

theorem dropBearer_isSuffix (cs : List Char) : dropBearer cs <:+ cs := by
  obtain ⟨n, hcs, -⟩ := exists_dropBearer cs
  exact ⟨_, hcs.symm⟩

/-- A text that does not end in a blank is not made of names alone. -/
theorem dropBearer_eq_nil_iff (h : dropBlankEnd cs = cs) : dropBearer cs = [] ↔ cs = [] := by
  refine ⟨fun hnil => ?_, by rintro rfl; rfl⟩
  obtain ⟨n, hcs, -⟩ := exists_dropBearer cs
  rw [hnil, List.append_nil] at hcs
  cases n with
  | zero => exact hcs
  | succ n =>
    have hends : cs = ((List.replicate n schemeName).flatten ++ "Bearer".toList) ++ [' '] := by
      rw [hcs, List.replicate_succ', List.flatten_append, List.flatten_singleton,
        List.append_assoc]
      rfl
    have hblank : ∀ c ∈ [' '], isBlankChar c = true := by decide
    have hshorter := (dropBlankEnd_isPrefix
      ((List.replicate n schemeName).flatten ++ "Bearer".toList)).length_le
    rw [← dropBlankEnd_append hblank, ← hends, h, hends] at hshorter
    simp at hshorter

/-! ## The credential of a text -/

theorem toList_trim (text : String) :
    (trim text).toList = dropBlankEnd (dropBlank text.toList) :=
  String.toList_ofList

theorem dropBlankEnd_trim (text : String) :
    dropBlankEnd (trim text).toList = (trim text).toList := by
  rw [toList_trim, dropBlankEnd_dropBlankEnd]

/-- What is left of a text when blanks, names and blanks again are left out. -/
def leftOf (text : String) : List Char :=
  dropBlank (dropBearer (trim text).toList)

theorem leftOf_isSuffix (text : String) : leftOf text <:+ (trim text).toList :=
  (List.dropWhile_suffix _).trans (dropBearer_isSuffix _)

/-- There is nothing to leave out at the end a second time. -/
theorem dropBlankEnd_leftOf (text : String) : dropBlankEnd (leftOf text) = leftOf text :=
  dropBlankEnd_of_suffix (leftOf_isSuffix text) (dropBlankEnd_trim text)

theorem dropBlank_leftOf (text : String) : dropBlank (leftOf text) = leftOf text :=
  dropBlank_of_prefix (List.prefix_refl _)

theorem trim_leftOf (text : String) :
    trim (String.ofList (leftOf text)) = String.ofList (leftOf text) := by
  rw [trim, String.toList_ofList, dropBlank_leftOf, dropBlankEnd_leftOf]

theorem normaliseToken_eq (text : String) : normaliseToken text =
    if leftOf text = [] then none else some (String.ofList (leftOf text)) := by
  have hbare : trim (String.ofList (dropBearer (trim text).toList)) =
      String.ofList (leftOf text) := by
    rw [trim, String.toList_ofList, ← leftOf, dropBlankEnd_leftOf]
  rw [normaliseToken, hbare]
  simp only [String.ofList_eq_empty_iff]

/-- Nothing is left of a text if and only if all of it is blank. -/
theorem leftOf_eq_nil_iff : leftOf text = [] ↔ isBlank text = true := by
  have hends := dropBlankEnd_trim text
  have hrest := dropBlankEnd_of_suffix (dropBearer_isSuffix _) hends
  have hblank : leftOf text = [] ↔ dropBlankEnd (dropBearer (trim text).toList) = [] := by
    rw [leftOf, dropBlank_eq_nil_iff, dropBlankEnd_eq_nil_iff]
  rw [hblank, hrest, dropBearer_eq_nil_iff hends, String.toList_eq_nil_iff, trim_eq_empty_iff]

/-- A name begins what is left if and only if it stood behind the blanks that go last. -/
theorem named_leftOf_iff : schemeName <+: leftOf text ↔ Exposes text := by
  constructor
  · rintro ⟨rest, hleft⟩
    obtain ⟨n, htext, hunnamed⟩ := exists_dropBearer (trim text).toList
    have hsplit : (dropBearer (trim text).toList).takeWhile isBlankChar ++ (schemeName ++ rest) =
        dropBearer (trim text).toList := by
      rw [hleft]
      exact List.takeWhile_append_dropWhile
    refine ⟨n, (dropBearer (trim text).toList).takeWhile isBlankChar, rest, fun hnil => ?_,
      fun c hc => List.mem_takeWhile_imp hc, ?_⟩
    · rw [hnil, List.nil_append] at hsplit
      exact hunnamed ⟨rest, hsplit⟩
    · rw [hsplit]
      exact htext
  · rintro ⟨n, blanks, rest, hne, hblanks, htext⟩
    have hunnamed : ¬schemeName <+: blanks ++ (schemeName ++ rest) := by
      obtain ⟨b, more, rfl⟩ := List.exists_cons_of_ne_nil hne
      rintro ⟨tail, htail⟩
      obtain ⟨rfl, -⟩ := List.cons.inj htail
      exact absurd (hblanks 'B' List.mem_cons_self) (by decide)
    have hleft : leftOf text = schemeName ++ rest := by
      rw [leftOf, htext, dropBearer_names, dropBearer_of_unnamed hunnamed, dropBlank,
        List.dropWhile_append_of_pos hblanks]
      rfl
    exact hleft ▸ List.prefix_append _ _

/-- Leaving out again changes nothing if and only if no name begins what is left. -/
theorem leftOf_leftOf_iff :
    leftOf (String.ofList (leftOf text)) = leftOf text ↔ ¬schemeName <+: leftOf text := by
  have hagain : leftOf (String.ofList (leftOf text)) = dropBlank (dropBearer (leftOf text)) := by
    rw [leftOf, trim_leftOf, String.toList_ofList]
  rw [hagain]
  constructor
  · rintro hsame ⟨rest, hleft⟩
    have hshorter : dropBlank (dropBearer (leftOf text)) <:+ rest := by
      rw [← hleft]
      exact (List.dropWhile_suffix _).trans (dropBearer_isSuffix rest)
    have hlength := hshorter.length_le
    rw [hsame, ← hleft, List.length_append] at hlength
    exact absurd hlength (Nat.not_le.2 (Nat.lt_add_of_pos_left (by decide)))
  · intro hunnamed
    rw [dropBearer_of_unnamed hunnamed, dropBlank_leftOf]

/-! ## The credential of an endpoint -/

variable {base : String} {e : Endpoint}

theorem token_of_new (h : new base (some text) = .ok e) : e.token = normaliseToken text := by
  rw [new_eq] at h
  cases hbase : new base none with
  | error fault =>
    rw [hbase] at h
    cases h
  | ok address =>
    rw [hbase, Except.map, Except.ok.injEq] at h
    rw [← h, Option.bind_some]

/-- There is no credential if and only if all of the text is blank. -/
theorem token_eq_none_iff (h : new base (some text) = .ok e) :
    e.token = none ↔ isBlank text = true := by
  rw [token_of_new h, normaliseToken_eq, ← leftOf_eq_nil_iff]
  simp

theorem token_eq_some_iff (h : new base (some text) = .ok e) :
    e.token = some token ↔ leftOf text ≠ [] ∧ String.ofList (leftOf text) = token := by
  rw [token_of_new h, normaliseToken_eq]
  simp

/-- A header with what is left of a text names the scheme once if no name begins it. -/
theorem namesOnce_iff (token : String) :
    NamesOnce ("Bearer " ++ token) ↔ ¬schemeName <+: token.toList := by
  have hheader : ("Bearer " ++ token).toList = schemeName ++ token.toList := String.toList_append
  constructor
  · rintro ⟨rest, hrest, hunnamed⟩
    rw [hheader, List.append_cancel_left_eq] at hrest
    exact hrest ▸ hunnamed
  · exact fun hunnamed => ⟨_, hheader, hunnamed⟩

theorem bare_leftOf_iff (hne : leftOf text ≠ []) :
    Bare (String.ofList (leftOf text)) ↔ ¬Exposes text := by
  rw [← named_leftOf_iff]
  refine ⟨fun hbare => ?_, fun hunnamed => ⟨?_, trim_leftOf text, ?_⟩⟩
  · have hunnamed := hbare.unnamed
    rwa [String.toList_ofList] at hunnamed
  · exact fun hempty => hne (String.ofList_eq_empty_iff.1 hempty)
  · rwa [String.toList_ofList]

/-- A text that exposes a name leaves something. -/
theorem Exposes.leftOf_ne_nil (h : Exposes text) : leftOf text ≠ [] := by
  obtain ⟨rest, hrest⟩ := named_leftOf_iff.2 h
  intro hnil
  rw [hnil] at hrest
  exact absurd (List.append_eq_nil_iff.1 hrest).1 (by decide)

/-- An endpoint that was made of a text has no credential if and only if the text is blank, and
else one that is not empty and has no blanks around it. The credential is fully normalised if
and only if no name of the scheme comes behind blanks that come behind names at the beginning
of the text, and the text has other words than the name of the scheme or no words at all. -/
theorem normalised_iff (h : new base (some text) = .ok e) :
    (e.token = none ↔ isBlank text = true) ∧
    (∀ token ∈ e.token, token ≠ "" ∧ trim token = token) ∧
    (e.Normalised text ↔ ¬Exposes text ∧ (NamesOnly text → isBlank text = true)) := by
  have hnone := token_eq_none_iff h
  refine ⟨hnone, fun token htoken => ?_, fun hnormal => ⟨fun hexposes => ?_, ?_⟩, ?_⟩
  · obtain ⟨hne, rfl⟩ := (token_eq_some_iff h).1 htoken
    exact ⟨fun hempty => hne (String.ofList_eq_empty_iff.1 hempty), trim_leftOf text⟩
  · have hne := hexposes.leftOf_ne_nil
    have hbare := hnormal.bare _ ((token_eq_some_iff h).2 ⟨hne, rfl⟩)
    exact (bare_leftOf_iff hne).1 hbare hexposes
  · exact fun honly => hnone.1 (hnormal.missing honly)
  · rintro ⟨hexposes, honly⟩
    have hunnamed : ¬schemeName <+: leftOf text := mt named_leftOf_iff.1 hexposes
    refine ⟨?_, ?_, ?_, fun hnames => hnone.2 (honly hnames)⟩
    · intro token htoken
      obtain ⟨hne, rfl⟩ := (token_eq_some_iff h).1 htoken
      exact (bare_leftOf_iff hne).2 hexposes
    · intro token htoken
      obtain ⟨hne, rfl⟩ := (token_eq_some_iff h).1 htoken
      rw [normaliseToken_eq, leftOf_leftOf_iff.2 hunnamed, if_neg hne]
    · intro network method path body header hheader
      obtain ⟨token, htoken, rfl⟩ := Option.map_eq_some_iff.1 hheader
      obtain ⟨-, rfl⟩ := (token_eq_some_iff h).1 htoken
      rw [namesOnce_iff, String.toList_ofList]
      exact hunnamed

/-- A credential with blanks around it and with two names before it. -/
theorem normalised_iff_named_twice :
    ∃ e, new "http://127.0.0.1:8787" (some "\tBearer Bearer  abc ") = .ok e ∧
      e.token = some "abc" ∧ e.Normalised "\tBearer Bearer  abc " := by
  have hnew : new "http://127.0.0.1:8787" (some "\tBearer Bearer  abc ") =
      .ok ⟨⟨.http, "", none, .ipv4 0x7F000001, some 8787, [""], none, none⟩, some "abc"⟩ := rfl
  have hunnamed : ¬schemeName <+: leftOf "\tBearer Bearer  abc " := by decide +kernel
  have hwords : ¬NamesOnly "\tBearer Bearer  abc " := by decide +kernel
  obtain ⟨-, -, hiff⟩ := normalised_iff hnew
  exact ⟨_, hnew, rfl, hiff.2 ⟨mt named_leftOf_iff.2 hunnamed, fun honly => absurd honly hwords⟩⟩

/-- A name without a credential loses the blank that belongs to it and is taken for one, and a
second name behind two blanks stays. -/
theorem not_normalised :
    (∃ e, new "http://127.0.0.1:8787" (some "Bearer ") = .ok e ∧ e.token = some "Bearer" ∧
      ¬e.Normalised "Bearer ") ∧
    ∃ e, new "http://127.0.0.1:8787" (some "Bearer  Bearer abc") = .ok e ∧
      e.token = some "Bearer abc" ∧ ¬e.Normalised "Bearer  Bearer abc" := by
  let address : Url := ⟨.http, "", none, .ipv4 0x7F000001, some 8787, [""], none, none⟩
  refine ⟨⟨⟨address, some "Bearer"⟩, rfl, rfl, fun hnormal => ?_⟩,
    ⟨address, some "Bearer abc"⟩, rfl, rfl, fun hnormal => ?_⟩
  · have honly : NamesOnly "Bearer " := by decide +kernel
    exact absurd (hnormal.missing honly) (Option.some_ne_none _)
  · have hnamed : schemeName <+: "Bearer abc".toList := by decide +kernel
    exact (hnormal.bare _ rfl).unnamed hnamed

end RemoteSession.Endpoint
