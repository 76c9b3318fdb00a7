import RemoteSession.Proofs.Service.Termination

/-!
# Streams and requests below one base

The address of a stream and that of a request are made of the same base by different means :
what belongs to a request is put behind the text of the base's path without its slashes at
the end, and what belongs to a stream behind its segments without an empty one at the end.
Server and user are the same (`Endpoint.same_place_iff`), and so is the path unless the path
of the base ends in more than one empty segment (`Url.stem_eq_trunk_iff`). Slashes at the end
of the base are taken away before it is read, so that such a path is one with a query behind
it, or reversed slashes, or dot segments at its end (`Endpoint.paths_differ_with_query`).
-/

namespace RemoteSession

namespace Url

/-! ## Ends of paths -/

theorem trunk_concat_empty (path : List String) : trunk (path ++ [""]) = trunk path :=
  List.rdropWhile_concat_pos _ _ _ rfl

theorem trunk_concat (path : List String) {s : String} (hs : s ≠ "") :
    trunk (path ++ [s]) = path ++ [s] :=
  List.rdropWhile_concat_neg _ _ _ (by simpa using hs)

theorem stem_concat (path : List String) {s : String} (hs : s ≠ "") :
    stem (path ++ [s]) = path ++ [s] := by
  have hlast : (path ++ [s]).getLast? ≠ some "" := by
    rw [List.getLast?_concat]
    exact fun h => hs (Option.some.inj h)
  unfold stem
  rw [if_neg hlast]
  exact if_neg (concat_ne path hs)

theorem stem_concat_empty (path : List String) :
    stem (path ++ [""]) = if path = [""] then [] else path := by
  unfold stem
  rw [if_pos List.getLast?_concat, List.dropLast_concat]

/-- The two ways to leave out what ends a path agree unless more than one empty segment
ends it, and there is more than these. -/
theorem stem_eq_trunk_iff (path : List String) :
    stem path = trunk path ↔ ∀ before, path = before ++ ["", ""] → before = [] := by
  constructor
  · rintro h before rfl
    by_contra hne
    have hsplit : before ++ ["", ""] = before ++ [""] ++ [""] := by simp
    have hmore : before ++ [""] ≠ [""] := fun heq => hne (List.append_left_eq_self.1 heq)
    rw [hsplit, stem_concat_empty, if_neg hmore, trunk_concat_empty, trunk_concat_empty] at h
    have hshort : (trunk before).length ≤ before.length :=
      (List.rdropWhile_prefix _ _).length_le
    rw [← h, List.length_append, List.length_singleton] at hshort
    exact Nat.not_succ_le_self _ hshort
  · intro h
    rcases List.eq_nil_or_concat path with rfl | ⟨init, s, rfl⟩
    · rfl
    rw [List.concat_eq_append] at h ⊢
    by_cases hs : s = ""
    · subst hs
      rw [stem_concat_empty, trunk_concat_empty]
      rcases List.eq_nil_or_concat init with rfl | ⟨before, t, rfl⟩
      · rfl
      rw [List.concat_eq_append] at h ⊢
      by_cases ht : t = ""
      · subst ht
        obtain rfl := h before (by simp)
        rfl
      · rw [if_neg (concat_ne before ht), trunk_concat before ht]
    · rw [stem_concat init hs, trunk_concat init hs]

/-! ## Names of letters and digits -/

theorem toNat_lt_of_isAlphanum {c : Char} (h : c.isAlphanum = true) : c.toNat < 0x80 := by
  have hle : ∀ d : Char, c ≤ d → c.toNat ≤ d.toNat := fun d hd => hd
  delta Char.isAlphanum Char.isAlpha Char.isUpper Char.isLower Char.isDigit at h
  simp only [Bool.or_eq_true, Bool.and_eq_true, decide_eq_true_iff] at h
  rcases h with (h | h) | h
  · exact Nat.lt_of_le_of_lt (hle 'Z' h.2) (by decide)
  · exact Nat.lt_of_le_of_lt (hle 'z' h.2) (by decide)
  · exact Nat.lt_of_le_of_lt (hle '9' h.2) (by decide)

/-- A letter or a digit stands for itself wherever it is in an address. -/
theorem plain_of_isAlphanum {c : Char} (h : c.isAlphanum = true) :
    Percent.inSegment c = false ∧ isSlash c = false ∧ isIgnored c = false := by
  have hall : ∀ c : Char, c.toNat < 0x80 → c.isAlphanum = true →
      Percent.inSegment c = false ∧ isSlash c = false ∧ isIgnored c = false :=
    Text.forall_of_toNat_lt (by decide)
  exact hall c (toNat_lt_of_isAlphanum h) h

variable {name : String}

theorem filter_of_isAlphanum (h : ∀ c ∈ name.toList, c.isAlphanum = true) :
    name.toList.filter (!isIgnored ·) = name.toList :=
  List.filter_eq_self.2 fun c hc => by rw [(plain_of_isAlphanum (h c hc)).2.2, Bool.not_false]

theorem addedSegment_of_isAlphanum (h : ∀ c ∈ name.toList, c.isAlphanum = true) :
    addedSegment name = name := by
  rw [addedSegment, filter_of_isAlphanum h, Percent.encode_eq_self fun c hc =>
    ⟨toNat_lt_of_isAlphanum (h c hc), (plain_of_isAlphanum (h c hc)).1⟩, String.ofList_toList]

theorem isAddable_of_isAlphanum (h : ∀ c ∈ name.toList, c.isAlphanum = true) :
    IsAddable name := by
  refine ⟨?_, ?_, fun c hc => (plain_of_isAlphanum (h c hc)).2.2⟩
  · rintro rfl
    exact absurd (h '.' (by decide)) (by decide)
  · rintro rfl
    exact absurd (h '.' (by decide)) (by decide)

/-- A name of letters and digits is a segment as it is. -/
theorem isSegment_of_isAlphanum (h : ∀ c ∈ name.toList, c.isAlphanum = true) :
    IsSegment name := by
  have hadd := isAddable_of_isAlphanum h
  have hsaid := (says_addedSegment_iff name).2 hadd.2.2
  rw [addedSegment_of_isAlphanum h] at hsaid
  refine ⟨fun c hc => ?_, hsaid.isDot_eq_false hadd.1 hadd.2.1⟩
  obtain ⟨hsegment, hslash, -⟩ := plain_of_isAlphanum (h c hc)
  rw [Percent.inSegment, Bool.or_eq_false_iff] at hsegment
  exact ⟨toNat_lt_of_isAlphanum (h c hc), hsegment.1, hslash⟩

end Url

namespace Endpoint

open Url

variable {e : Endpoint} {session : String}

/-- A stream and a request reach the same port where no port is written. -/
theorem defaultPort_forStream (scheme : Scheme) :
    scheme.forStream.defaultPort = scheme.defaultPort := by
  cases scheme <;> rfl

/-- The address of the request that names a session as its stream does. -/
theorem urlFor_events (h : ∀ s ∈ e.baseUrl.path, IsSegment s)
    (hsession : ∀ c ∈ session.toList, c.isAlphanum = true) :
    e.urlFor ("/ws/events/" ++ session) =
      { e.baseUrl with
        path := trunk e.baseUrl.path ++ ["ws", "events", session]
        query := none } := by
  have hsegment := isSegment_of_isAlphanum hsession
  have hstart : "/ws/events/".toList.filter (!isIgnored ·) =
      '/' :: ("ws".toList ++ '/' :: ("events".toList ++ ['/'])) := by decide
  have hpath : ("/ws/events/" ++ session).toList.filter (!isIgnored ·) =
      '/' :: ("ws".toList ++ '/' :: ("events".toList ++ '/' :: session.toList)) := by
    simp only [String.toList_append, List.filter_append, hstart, filter_of_isAlphanum hsession,
      List.cons_append, List.append_assoc, List.nil_append]
  have hdots : ∀ s ∈ ["ws", "events", session], isDot s = false :=
    List.forall_mem_cons.2 ⟨by decide, List.forall_mem_cons.2 ⟨by decide,
      List.forall_mem_singleton.2 hsegment.not_dot⟩⟩
  rw [urlFor_eq, path_urlFor h hpath, splitAt_append _ (by decide) (by decide),
    splitAt_append _ (by decide) (by decide),
    splitAt_of_forall fun c hc => (hsegment.written c hc).2.2, List.map_cons, List.map_cons,
    List.map_singleton, hsegment.segmentOf_eq]
  have hpushed : pushSegments (trunk e.baseUrl.path) (["ws", "events", session] ++ []) =
      trunk e.baseUrl.path ++ ["ws", "events", session] := by
    rw [pushSegments_append hdots, pushSegments]
  exact congrArg (fun path => { e.baseUrl with path, query := none }) hpushed

/-- The stream of a session whose name has only letters and digits, and the request that
names it in the same way, are for the same server, as the same user, one by the plain scheme
exactly if the other is. They have the same path if and only if the path of the base does not
end in more than one empty segment, or has no others. -/
theorem same_place_iff {base : String} {token : Option String}
    (h : Endpoint.new base token = .ok e)
    (hsession : ∀ c ∈ session.toList, c.isAlphanum = true) (ticket : String) (resume : Resume) :
    let stream := e.streamUrl session ticket resume
    let request := e.urlFor ("/ws/events/" ++ session)
    (request.scheme = .http ∧ stream.scheme = .ws ∨
      request.scheme = .https ∧ stream.scheme = .wss) ∧
    (stream.username = request.username ∧ stream.password = request.password ∧
      stream.host = request.host ∧ stream.effectivePort = request.effectivePort) ∧
    (stream.path = request.path ↔ ∀ before, e.baseUrl.path = before ++ ["", ""] → before = []) := by
  intro stream request
  obtain ⟨hparse, hscheme⟩ := parse_of_new h
  have hrequest := urlFor_events (isSegment_of_parse hparse) hsession
  have hstream : stream.scheme = e.baseUrl.scheme.forStream := by simp only [stream, streamUrl]
  have hpath : stream.path = stem e.baseUrl.path ++ ["ws", "events", addedSegment session] :=
    path_streamUrl_of_isAddable (isAddable_of_isAlphanum hsession)
  rw [addedSegment_of_isAlphanum hsession] at hpath
  simp only [request, hrequest]
  refine ⟨?_, ⟨rfl, rfl, rfl, ?_⟩, ?_⟩
  · rw [hstream]
    rcases hscheme with hscheme | hscheme
    · exact .inl ⟨hscheme, by rw [hscheme]; rfl⟩
    · exact .inr ⟨hscheme, by rw [hscheme]; rfl⟩
  · rw [effectivePort, effectivePort, hstream, defaultPort_forStream]
    rfl
  · rw [← stem_eq_trunk_iff, hpath]
    exact List.append_left_inj _

/-- A base with a user, a port, an empty segment inside its path and one at its end. -/
theorem same_place_iff_below_path :
    ∃ e, Endpoint.new "https://me:pw@rc.example.com:8443/a//b/?q=1#f" none = .ok e ∧
      (∀ c ∈ "S1".toList, c.isAlphanum = true) ∧
      (e.streamUrl "S1" "t" (.lastN 1)).scheme = .wss ∧
      (e.streamUrl "S1" "t" (.lastN 1)).effectivePort = 8443 ∧
      (e.streamUrl "S1" "t" (.lastN 1)).path = (e.urlFor ("/ws/events/" ++ "S1")).path := by
  have hnew : Endpoint.new "https://me:pw@rc.example.com:8443/a//b/?q=1#f" none =
      .ok ⟨⟨.https, "me", some "pw", .name "rc.example.com", some 8443, ["a", "", "b", ""],
        some "q=1", some "f"⟩, none⟩ := rfl
  have hname : ∀ c ∈ "S1".toList, c.isAlphanum = true := by decide
  obtain ⟨hscheme, ⟨-, -, -, hport⟩, hpath⟩ := same_place_iff hnew hname "t" (.lastN 1)
  refine ⟨_, hnew, hname, ?_, hport.trans (by decide), hpath.2 ?_⟩
  · rcases hscheme with ⟨hplain, -⟩ | ⟨-, hsecure⟩
    · exact absurd hplain (by decide)
    · exact hsecure
  · exact (stem_eq_trunk_iff _).1 (by decide)

/-- Where a query keeps the slashes at the end of a path, the stream has one of them and the
request has none. -/
theorem paths_differ_with_query :
    ∃ e, Endpoint.new "http://127.0.0.1:8787/rc//?x=1" none = .ok e ∧
      (∀ c ∈ "s1".toList, c.isAlphanum = true) ∧
      (e.streamUrl "s1" "t" (.lastN 256)).path = ["rc", "", "ws", "events", "s1"] ∧
      (e.urlFor ("/ws/events/" ++ "s1")).path = ["rc", "ws", "events", "s1"] := by
  refine ⟨⟨⟨.http, "", none, .ipv4 0x7F000001, some 8787, ["rc", "", ""], some "x=1", none⟩, none⟩,
    ?_, ?_, ?_, ?_⟩
  · rfl
  all_goals decide

end Endpoint

end RemoteSession
