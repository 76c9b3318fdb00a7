import RemoteSession.Proofs.Stream.Addresses
import RemoteSession.Proofs.Stream.Tickets
import RemoteSession.Proofs.Url.Paths
import RemoteSession.Proofs.Url.Schemes

/-!
# The query of a stream

The address of a stream is sent as a text. Nothing before its query has a character that
begins a query or a fragment (`Url.IsPlain`), as all parts of an address are written with
these escaped, or cannot have them. So who takes the text apart finds the path before the
first `?`, then a form of two pairs, where the stream resumes and its ticket, whatever
characters this has, and no fragment (`Endpoint.streamUrl_carries`). What the base had of
a query and a fragment is gone.
-/

namespace RemoteSession

namespace Url

/-! ## Texts before a query -/

/-- Whether nothing in a text begins a query or a fragment. -/
def IsPlain (cs : List Char) : Prop :=
  ∀ c ∈ cs, c ≠ '?' ∧ c ≠ '#'

instance (cs : List Char) : Decidable (IsPlain cs) :=
  inferInstanceAs (Decidable (∀ c ∈ cs, c ≠ '?' ∧ c ≠ '#'))

theorem isPlain_append {xs ys : List Char} : IsPlain (xs ++ ys) ↔ IsPlain xs ∧ IsPlain ys := by
  simp only [IsPlain, List.mem_append, or_imp, forall_and]
  grind

theorem isPlain_of_forall {p : Char → Bool} {cs : List Char} (h : ∀ c ∈ cs, p c = true)
    (hquery : p '?' = false) (hfragment : p '#' = false) : IsPlain cs := fun c hc =>
  ⟨Text.ne_of_test (h c hc) hquery, Text.ne_of_test (h c hc) hfragment⟩

/-- What is written with these characters escaped has none of them. -/
theorem isPlain_encode {escaped : Char → Bool} (hquery : escaped '?' = true)
    (hfragment : escaped '#' = true) (cs : List Char) : IsPlain (Percent.encode escaped cs) := by
  refine Percent.forall_mem_encode (fun c _ _ hkept => ?_) (by decide) (by decide)
  exact ⟨(Text.ne_of_test hquery hkept).symm, (Text.ne_of_test hfragment hkept).symm⟩

/-- A text is taken apart at the query that follows what has none. -/
theorem splitTail_append {start query : List Char} (hstart : IsPlain start) (hquery : '#' ∉ query) :
    splitTail (start ++ '?' :: query) = (start, some query, none) := by
  have hall : ∀ c ∈ start ++ '?' :: query, (c != '#') = true := fun c hc => by
    rw [bne_iff_ne]
    rintro rfl
    rcases List.mem_append.1 hc with hc | hc
    · exact (hstart _ hc).2 rfl
    rcases List.mem_cons.1 hc with hc | hc
    · exact absurd hc (by decide)
    · exact hquery hc
  have hbefore : (start ++ '?' :: query).takeWhile (· != '#') = start ++ '?' :: query :=
    List.takeWhile_eq_self_iff.2 hall
  have hafter : (start ++ '?' :: query).dropWhile (· != '#') = [] :=
    List.dropWhile_eq_nil_iff.2 hall
  have hplain : ∀ c ∈ start, (c != '?') = true := fun c hc => bne_iff_ne.2 (hstart c hc).1
  unfold splitTail
  simp only [hbefore, hafter]
  rw [List.takeWhile_append_of_pos hplain, List.dropWhile_append_of_pos hplain,
    List.takeWhile_cons_of_neg (by decide), List.dropWhile_cons_of_neg (by decide),
    List.append_nil]
  rfl

/-! ## Parts of an address -/

/-- User name and password are texts with what ends them escaped. -/
theorem userInfoOf_eq (text : List Char) : ∃ name password,
    userInfoOf text = (String.ofList (Percent.encode Percent.inUserInfo name),
      Option.map (fun cs => String.ofList (Percent.encode Percent.inUserInfo cs)) password) := by
  simp only [userInfoOf]
  split
  · exact ⟨_, none, rfl⟩
  · exact ⟨_, none, rfl⟩
  · next password _ _ => exact ⟨_, some password, rfl⟩

theorem isPlain_userInfoText {url : Url} {text : List Char}
    (h : (url.username, url.password) = userInfoOf text) : IsPlain url.userInfoText.toList := by
  obtain ⟨name, password, heq⟩ := userInfoOf_eq text
  obtain ⟨hname, hpassword⟩ := Prod.mk.inj (h.trans heq)
  have hescaped : ∀ cs, IsPlain (Percent.encode Percent.inUserInfo cs) :=
    isPlain_encode (by decide) (by decide)
  have hat : IsPlain "@".toList := by decide
  have hcolon : IsPlain ":".toList := by decide
  cases password with
  | none =>
    simp only [userInfoText, hname, hpassword, Option.map_none]
    split
    · decide
    · rw [String.toList_append, String.toList_ofList, isPlain_append]
      exact ⟨hescaped name, hat⟩
  | some password =>
    simp only [userInfoText, hname, hpassword, Option.map_some, String.toList_append,
      String.toList_ofList, isPlain_append]
    exact ⟨⟨⟨hescaped name, hcolon⟩, hescaped password⟩, hat⟩

theorem isPlain_host {host : Host} (h : host.IsRead) : IsPlain host.text.toList := by
  cases h with
  | name word _ hword =>
    refine isPlain_of_forall (p := fun c => !Host.isForbiddenInName c) (fun c hc => ?_)
      (by decide) (by decide)
    rw [hword c hc, Bool.not_false]
  | ipv4 address =>
    refine isPlain_of_forall (p := fun c => c.isDigit || c == '.') (fun c hc => ?_)
      (by decide) (by decide)
    rw [Bool.or_eq_true, beq_iff_eq]
    exact Endpoint.isDigit_of_mem_ipv4Text hc
  | ipv6 pieces _ =>
    have hpieces : IsPlain (Host.ipv6Text pieces).toList :=
      isPlain_of_forall (fun _ => Host.isPieceChar_of_mem_ipv6Text) (by decide) (by decide)
    rw [Host.text, String.toList_append, String.toList_append, isPlain_append, isPlain_append]
    exact ⟨⟨by decide, hpieces⟩, by decide⟩

theorem isPlain_portText (url : Url) : IsPlain url.portText.toList := by
  unfold portText
  split
  · next port _ =>
    have hdigits : IsPlain (Nat.toDigits 10 port) :=
      isPlain_of_forall (Toml.all_isDigit_toDigits port) (by decide) (by decide)
    rw [String.toList_append, isPlain_append]
    exact ⟨by decide, by simpa using hdigits⟩
  · decide

theorem isPlain_pathText {path : List String} (h : ∀ s ∈ path, IsPlain s.toList) :
    IsPlain (pathText path).toList := by
  intro c hc
  rw [toList_pathText] at hc
  obtain ⟨s, hs, hc⟩ := List.mem_flatMap.1 hc
  rcases List.mem_cons.1 hc with rfl | hc
  · decide
  · exact h s hs c hc

theorem IsSegment.isPlain {s : String} (h : IsSegment s) : IsPlain s.toList := by
  refine isPlain_of_forall (p := fun c => !Percent.inPath c) (fun c hc => ?_) (by decide)
    (by decide)
  rw [(h.written c hc).2.1, Bool.not_false]

/-- What is added to a path is escaped, whatever the name. -/
theorem isPlain_addSegment {path : List String} (h : ∀ s ∈ path, IsPlain s.toList)
    (name : String) : ∀ s ∈ addSegment path name, IsPlain s.toList := by
  intro s hs
  by_cases hdots : name = "." ∨ name = ".."
  · refine h s ?_
    simpa [addSegment, hdots] using hs
  obtain ⟨hone, htwo⟩ := not_or.1 hdots
  rw [addSegment_of_ne hone htwo] at hs
  rcases mem_pushSegments hs with hs | rfl | ⟨hs, -⟩
  · split at hs
    · cases hs
    · exact h s hs
  · decide
  · rw [List.mem_singleton.1 hs, addedSegment, String.toList_ofList]
    exact isPlain_encode (by decide) (by decide) _

/-! ## The query -/

/-- The written form of an address up to its query. -/
def beforeQuery (url : Url) : String :=
  url.scheme.word ++ "://" ++ url.userInfoText ++ url.host.text ++ url.portText ++
    pathText url.path

theorem toList_text {url : Url} {query : String} (hquery : url.query = some query)
    (hfragment : url.fragment = none) :
    url.text.toList = url.beforeQuery.toList ++ '?' :: query.toList := by
  simp [Url.text, target, beforeQuery, hquery, hfragment]

/-- The text of an address has these pairs in its query, and nothing after it. -/
structure Carries (url : Url) (sent : List (String × String)) : Prop where
  pairs : url.pairs = sent
  text : ∃ query, url.query = some query ∧
    splitTail url.text.toList = (url.beforeQuery.toList, some query.toList, none)

end Url

namespace Endpoint

open Url

variable {base : String} {token : Option String} {e : Endpoint}

/-- Nothing before the query of a stream begins one, or a fragment. -/
theorem isPlain_streamUrl (h : Endpoint.new base token = .ok e) (session ticket : String)
    (resume : Resume) : IsPlain (e.streamUrl session ticket resume).beforeQuery.toList := by
  obtain ⟨hparse, -⟩ := parse_of_new h
  obtain ⟨userText, huser⟩ := exists_user_of_parse hparse
  obtain ⟨hostText, hhost⟩ := exists_host_of_parse hparse
  have hscheme : ∀ scheme : Scheme, IsPlain scheme.word.toList := by
    intro scheme
    cases scheme <;> decide
  have huserInfo : IsPlain (e.streamUrl session ticket resume).userInfoText.toList :=
    isPlain_userInfoText huser
  have hpath : IsPlain (pathText (e.streamUrl session ticket resume).path).toList := by
    have hstem : ∀ s ∈ stem e.baseUrl.path ++ ["ws"] ++ ["events"], IsPlain s.toList := by
      intro s hs
      rw [List.append_assoc] at hs
      rcases List.mem_append.1 hs with hs | hs
      · exact (isSegment_of_parse hparse s (stem_subset _ hs)).isPlain
      · have hwords : ∀ s ∈ ["ws"] ++ ["events"], IsPlain s.toList := by decide
        exact hwords s hs
    refine isPlain_pathText ?_
    rw [path_streamUrl]
    exact isPlain_addSegment hstem session
  simp only [beforeQuery, String.toList_append, isPlain_append]
  exact ⟨⟨⟨⟨⟨hscheme _, by decide⟩, huserInfo⟩, isPlain_host (Host.isRead_of_parse hhost)⟩,
    isPlain_portText _⟩, hpath⟩

theorem carries_streamUrl (h : Endpoint.new base token = .ok e) (session ticket : String)
    (resume : Resume) :
    (e.streamUrl session ticket resume).Carries [resume.pair, ("ticket", ticket)] := by
  refine ⟨pairs_streamUrl e session ticket resume, ?_⟩
  have hstart := isPlain_streamUrl h session ticket resume
  have hquery : (e.streamUrl session ticket resume).query =
      some (formPair resume.pair.1 resume.pair.2 ++ "&" ++ formPair "ticket" ticket) := by
    simp only [streamUrl]
  have hfragment : (e.streamUrl session ticket resume).fragment = none := by
    simp only [streamUrl]
  generalize e.streamUrl session ticket resume = url at hstart hquery hfragment ⊢
  generalize hsent : formPair resume.pair.1 resume.pair.2 ++ "&" ++ formPair "ticket" ticket = query
    at hquery
  have hsharp : '#' ∉ query.toList := by
    rw [← hsent, String.toList_append, String.toList_append, List.mem_append, List.mem_append]
    rintro ((hmem | hmem) | hmem)
    · exact ne_of_mem_formPair hmem rfl (by decide) rfl
    · exact absurd hmem (by decide)
    · exact ne_of_mem_formPair hmem rfl (by decide) rfl
  exact ⟨query, hquery, by rw [toList_text hquery hfragment, splitTail_append hstart hsharp]⟩

/-- The query of a stream is where it resumes, as a number in decimal, and the ticket, and
nothing else, whatever the ticket, the number and the session, and whatever the base had of
a query and a fragment. -/
theorem streamUrl_carries (h : Endpoint.new base token = .ok e) (session ticket : String) :
    (∀ seq, (e.streamUrl session ticket (.fromSeq seq)).Carries
      [("from_seq", toString seq.toNat), ("ticket", ticket)]) ∧
    ∀ count, (e.streamUrl session ticket (.lastN count)).Carries
      [("last_n", toString count.toNat), ("ticket", ticket)] :=
  ⟨fun seq => carries_streamUrl h session ticket (.fromSeq seq),
    fun count => carries_streamUrl h session ticket (.lastN count)⟩

/-- A ticket with all that means something in a query, below a base with a query and a
fragment. -/
theorem streamUrl_carries_marks :
    ∃ e, Endpoint.new "https://me@rc.example.com/a?ticket=old&x#y" none = .ok e ∧
      (e.streamUrl "a?b" "a&b=c+d%26 #é" (.fromSeq 18446744073709551615)).Carries
        [("from_seq", "18446744073709551615"), ("ticket", "a&b=c+d%26 #é")] := by
  have hnew : Endpoint.new "https://me@rc.example.com/a?ticket=old&x#y" none =
      .ok ⟨⟨.https, "me", none, .name "rc.example.com", none, ["a"], some "ticket=old&x",
        some "y"⟩, none⟩ := rfl
  exact ⟨_, hnew, (streamUrl_carries hnew "a?b" "a&b=c+d%26 #é").1 18446744073709551615⟩

end Endpoint

end RemoteSession
