import Mathlib.Data.List.DropRight
import RemoteSession.Proofs.Stream.Addresses
import RemoteSession.Proofs.Url.Paths
import RemoteSession.Service.Client

/-!
# The session that is ended

The name of a session is put between slashes into the path of the request for its end, and
the path is read as any other : what the name holds of slashes, dot segments and escapes
counts as such. So the request is for the session if and only if the name has none of them
(`Service.terminateSession_says_iff`). Such a name is added as it is to the path of a
stream too, so that what is ended is what was followed.

That no other name will do rests on lengths. A part of the name between two slashes is
shorter than the name, and undoing escapes does not make it longer
(`Percent.length_decode_le`), so that it stands for the name only if it is all of it.
-/

namespace RemoteSession

namespace Url

/-- The segments of a path before the empty ones at its end. -/
def trunk (path : List String) : List String :=
  path.rdropWhile (· == "")

theorem mem_of_mem_trunk {path : List String} {s : String} (h : s ∈ trunk path) : s ∈ path :=
  (path.rdropWhile_prefix (p := _)).subset h

/-- The slashes at the end of the text of a path are its empty segments there. -/
theorem dropSlashes_pathText {path : List String} (h : ∀ s ∈ path, IsSegment s) :
    Endpoint.dropSlashes (pathText path).toList =
      (trunk path).flatMap fun s => '/' :: s.toList := by
  rw [toList_pathText]
  change List.rdropWhile (· == '/') _ = _
  induction path using List.reverseRecOn with
  | nil => rfl
  | append_singleton path s ih =>
    rw [trunk, List.rdropWhile_concat, List.flatMap_append, List.flatMap_singleton]
    by_cases hs : s = ""
    · subst hs
      rw [if_pos (by decide)]
      change List.rdropWhile _ (_ ++ ['/']) = _
      rw [List.rdropWhile_concat_pos _ _ _ (by decide)]
      exact ih fun t ht => h t (List.mem_append_left _ ht)
    · obtain ⟨cs, c, hcs⟩ := (List.eq_nil_or_concat s.toList).resolve_left
        fun hnil => hs (String.toList_eq_nil_iff.1 hnil)
      have hc : ¬(c == '/') = true := by
        have hwritten := (h s (by simp)).written c (by simp [hcs])
        exact fun heq => by simp [beq_iff_eq.1 heq, isSlash] at hwritten
      rw [if_neg (by simpa using hs), List.flatMap_append, List.flatMap_singleton, hcs,
        List.concat_eq_append, ← List.cons_append, ← List.append_assoc,
        List.rdropWhile_concat, if_neg hc]

/-- The names that stand between slashes as they are. -/
def IsSpliceable (name : String) : Prop :=
  IsAddable name ∧ (∀ c ∈ name.toList, isSlash c = false) ∧ Says name name

instance (name : String) : Decidable (IsSpliceable name) :=
  inferInstanceAs (Decidable (_ ∧ _ ∧ _))

/-- The segments that a name between slashes is read as, before dot segments are
followed. -/
def spliced (name : String) : List String :=
  (splitAt isSlash (name.toList.filter (!isIgnored ·))).map segmentOf

theorem spliced_of_isSpliceable {name : String} (h : IsSpliceable name) :
    spliced name = [segmentOf name.toList] ∧ Says (segmentOf name.toList) name ∧
      isDot (segmentOf name.toList) = false := by
  obtain ⟨⟨hone, htwo, hignored⟩, hslash, hself⟩ := h
  have hsaid : Says (segmentOf name.toList) name := by
    rw [segmentOf, says_encode_inPath, String.ofList_toList]
    exact hself
  have hkept : name.toList.filter (!isIgnored ·) = name.toList :=
    List.filter_eq_self.2 fun c hc => by rw [hignored c hc, Bool.not_false]
  refine ⟨?_, hsaid, hsaid.isDot_eq_false hone htwo⟩
  rw [spliced, hkept, splitAt_of_forall hslash, List.map_singleton]

/-- A name of which one segment stands for all of it is that segment. -/
theorem isSpliceable_of_mem {name segment : String} (hmem : segment ∈ spliced name)
    (hdot : isDot segment = false) (hsaid : Says segment name) : IsSpliceable name := by
  obtain ⟨part, hpart, rfl⟩ := List.mem_map.1 hmem
  obtain ⟨hsub, hslash⟩ := of_mem_splitAt hpart
  have hpart_said : Says (String.ofList part) name := says_encode_inPath.1 hsaid
  have hlength := Percent.length_decode_le (Text.Utf8.encode (String.ofList part))
  rw [hpart_said, Text.Utf8.encode, Text.Utf8.encode, String.toList_ofList] at hlength
  obtain rfl : part = name.toList :=
    Text.Utf8.eq_of_sublist (hsub.trans List.filter_sublist) hlength
  rw [String.ofList_toList] at hpart_said
  refine ⟨⟨?_, ?_, fun c hc => ?_⟩, hslash, hpart_said⟩
  · rintro rfl
    exact absurd hdot (by decide)
  · rintro rfl
    exact absurd hdot (by decide)
  · simpa using (List.mem_filter.1 (hsub.subset hc)).2

end Url

/-- Of the base only path and query are replaced. -/
theorem Endpoint.urlFor_eq (e : Endpoint) (path : String) :
    e.urlFor path = { e.baseUrl with path := (e.urlFor path).path, query := none } := by
  simp only [Endpoint.urlFor, Url.withPath]

/-- A path below the base is read after the path of the base, without the empty segments at
its end. -/
theorem Endpoint.path_urlFor {e : Endpoint} (h : ∀ s ∈ e.baseUrl.path, Url.IsSegment s)
    {path : String} {rest : List Char}
    (hpath : path.toList.filter (!Url.isIgnored ·) = '/' :: rest) :
    (e.urlFor path).path = Url.pushSegments (Url.trunk e.baseUrl.path)
      ((Url.splitAt Url.isSlash rest).map Url.segmentOf) := by
  have htrunk : ∀ s ∈ Url.trunk e.baseUrl.path, Url.IsSegment s := fun s hs =>
    h s (Url.mem_of_mem_trunk hs)
  have hbase : ((Url.trunk e.baseUrl.path).flatMap fun s => '/' :: s.toList).filter
      (!Url.isIgnored ·) = (Url.trunk e.baseUrl.path).flatMap fun s => '/' :: s.toList :=
    List.filter_eq_self.2 fun c hc => by
      rw [Url.not_isIgnored_of_mem htrunk c hc, Bool.not_false]
  unfold Endpoint.urlFor
  simp only [Url.withPath, String.toList_append, String.toList_ofList, Url.dropSlashes_pathText h,
    List.filter_append, hbase, hpath]
  exact Url.pathOf_append htrunk rest

namespace Service

open Url

/-- An operation at an endpoint is one request and what is made of the response. -/
def Sends {α : Type} (e : Endpoint) (operation : Service → Except ServiceError α)
    (r : Http.Request) : Prop :=
  ∃ judge : Http.Response → Except ServiceError α,
    ∀ network, operation ⟨e, network⟩ = (send ⟨e, network⟩ r).bind judge

/-- The address of the request for the end of a session. -/
def terminationUrl (e : Endpoint) (session : String) : Url :=
  e.urlFor ("/api/sessions/" ++ session ++ "/terminate")

theorem sends_terminateSession (e : Endpoint) (session : String) :
    Sends e (·.terminateSession session) ⟨.post, terminationUrl e session, e.token, none⟩ :=
  ⟨_, fun _ => rfl⟩

variable {e : Endpoint} {session : String}

theorem path_terminationUrl (h : ∀ s ∈ e.baseUrl.path, IsSegment s) :
    (terminationUrl e session).path =
      pushSegments (trunk e.baseUrl.path ++ ["api", "sessions"])
        (spliced session ++ ["terminate"]) := by
  have hwords : ∀ s ∈ ["api", "sessions"], isDot s = false := by decide
  have hstart : "/api/sessions/".toList.filter (!isIgnored ·) =
      '/' :: ("api".toList ++ '/' :: ("sessions".toList ++ ['/'])) := by decide
  have hend : "/terminate".toList.filter (!isIgnored ·) = '/' :: "terminate".toList := by decide
  have hword : splitAt isSlash "terminate".toList = ["terminate".toList] :=
    splitAt_of_forall (by decide)
  have hpath : ("/api/sessions/" ++ session ++ "/terminate").toList.filter (!isIgnored ·) =
      '/' :: ("api".toList ++ '/' :: ("sessions".toList ++ '/' ::
        (session.toList.filter (!isIgnored ·) ++ '/' :: "terminate".toList))) := by
    simp only [String.toList_append, List.filter_append, hstart, hend, List.cons_append,
      List.append_assoc, List.nil_append]
  rw [terminationUrl, Endpoint.path_urlFor h hpath, splitAt_append _ (by decide) (by decide),
    splitAt_append _ (by decide) (by decide), splitAt_append_cons (by decide),
    hword, List.map_cons, List.map_cons, List.map_append, ← pushSegments_append hwords]
  rfl

/-- The request for the end of a session whose name is one segment. -/
theorem path_of_isSpliceable (h : ∀ s ∈ e.baseUrl.path, IsSegment s)
    (hname : IsSpliceable session) :
    (terminationUrl e session).path =
      trunk e.baseUrl.path ++ ["api", "sessions", segmentOf session.toList, "terminate"] := by
  obtain ⟨hspliced, -, hdot⟩ := spliced_of_isSpliceable hname
  have hterminate : isDot "terminate" = false := by decide
  rw [path_terminationUrl h, hspliced, List.singleton_append, pushSegments_cons hdot,
    pushSegments_cons hterminate, pushSegments]
  simp

/-- Where the path has one segment that stands for the session, the name is this
segment. -/
theorem isSpliceable_of_path (h : ∀ s ∈ e.baseUrl.path, IsSegment s) {segment : String}
    (hpath : (terminationUrl e session).path =
      trunk e.baseUrl.path ++ ["api", "sessions", segment, "terminate"])
    (hsaid : Says segment session) : IsSpliceable session := by
  have hterminate : isDot "terminate" = false := by decide
  obtain ⟨k, kept, heq, hkept⟩ := exists_pushSegments
    (trunk e.baseUrl.path ++ ["api", "sessions"]) (spliced session) hterminate
  have hsplit : trunk e.baseUrl.path ++ ["api", "sessions", segment, "terminate"] =
      trunk e.baseUrl.path ++ ["api", "sessions"] ++ [segment] ++ ["terminate"] := by simp
  rw [path_terminationUrl h, heq, hsplit] at hpath
  generalize trunk e.baseUrl.path ++ ["api", "sessions"] = before at hpath
  have hbefore : before.take k ++ kept = before ++ [segment] := List.append_cancel_right hpath
  -- The segment is one more than there were, so that it is not of those before.
  have hmem : segment ∈ kept := by
    rcases List.eq_nil_or_concat kept with rfl | ⟨init, last, rfl⟩
    · have hlength := congrArg List.length hbefore
      simp only [List.append_nil, List.length_take, List.length_append,
        List.length_singleton] at hlength
      omega
    · rw [List.concat_eq_append, ← List.append_assoc] at hbefore
      have hlast := (List.append_inj' hbefore rfl).2
      rw [List.concat_eq_append, List.singleton_inj.1 hlast]
      exact List.mem_append_right init List.mem_cons_self
  exact isSpliceable_of_mem (hkept segment hmem).1 (hkept segment hmem).2 hsaid

/-- What ends a session is one request. It goes to the server of the endpoint, with the path
of the base and the segments `api`, `sessions`, one for the session and `terminate`, exactly
when the name of the session has no slashes, tabs and line ends, is neither `.` nor `..` and
holds no escape. The path of the stream of such a session has a segment for the same name. -/
theorem terminateSession_says_iff {base : String} {token : Option String}
    (h : Endpoint.new base token = .ok e) (session : String) :
    ∃ r, Sends e (·.terminateSession session) r ∧
      ((∃ segment,
          r = ⟨.post,
            { e.baseUrl with
              path := trunk e.baseUrl.path ++ ["api", "sessions", segment, "terminate"]
              query := none },
            e.token, none⟩ ∧ Says segment session) ↔
        IsSpliceable session) ∧
      (IsSpliceable session → ∀ ticket resume, ∃ segment,
        (e.streamUrl session ticket resume).path =
          stem e.baseUrl.path ++ ["ws", "events", segment] ∧ Says segment session) := by
  have hsegments := isSegment_of_parse (Endpoint.parse_of_new h).1
  refine ⟨_, sends_terminateSession e session, ⟨?_, ?_⟩, ?_⟩
  · rintro ⟨segment, hr, hsaid⟩
    have hpath := congrArg (·.url.path) hr
    exact isSpliceable_of_path hsegments hpath hsaid
  · intro hname
    refine ⟨_, ?_, (spliced_of_isSpliceable hname).2.1⟩
    rw [← path_of_isSpliceable hsegments hname]
    exact congrArg (Http.Request.mk .post · e.token none) (e.urlFor_eq _)
  · intro hname ticket resume
    exact ⟨_, Endpoint.path_streamUrl_of_isAddable hname.1,
      (says_addedSegment_iff session).2 hname.1.2.2⟩

/-- A name with blanks, marks and letters of other alphabets below a path. -/
theorem terminateSession_says_iff_spliceable :
    ∃ e, Endpoint.new "https://rc.example.com/a/../b c//" none = .ok e ∧
      IsSpliceable "bäck up? 100% #1" ∧ ∃ r, Sends e (·.terminateSession "bäck up? 100% #1") r ∧
        ∃ segment, r.url.path = ["b%20c", "api", "sessions", segment, "terminate"] ∧
          Says segment "bäck up? 100% #1" := by
  have hname : IsSpliceable "bäck up? 100% #1" := by decide
  have hnew : Endpoint.new "https://rc.example.com/a/../b c//" none =
      .ok ⟨⟨.https, "", none, .name "rc.example.com", none, ["b%20c"], none, none⟩, none⟩ := rfl
  obtain ⟨r, hsends, hiff, -⟩ := terminateSession_says_iff hnew "bäck up? 100% #1"
  obtain ⟨segment, rfl, hsaid⟩ := hiff.2 hname
  exact ⟨_, hnew, hname, _, hsends, segment, rfl, hsaid⟩

/-- A name with slashes and dots is the end of another session. -/
theorem terminateSession_of_slash :
    ∃ e, Endpoint.new "http://127.0.0.1:8787" none = .ok e ∧
      Sends e (·.terminateSession "a/../b") ⟨.post, terminationUrl e "b", e.token, none⟩ ∧
      ¬∃ segment, (terminationUrl e "a/../b").path =
        trunk e.baseUrl.path ++ ["api", "sessions", segment, "terminate"] ∧
          Says segment "a/../b" := by
  refine ⟨⟨⟨.http, "", none, .ipv4 0x7F000001, some 8787, [""], none, none⟩, none⟩, rfl, ?_, ?_⟩
  · have hsame : terminationUrl
        ⟨⟨.http, "", none, .ipv4 0x7F000001, some 8787, [""], none, none⟩, none⟩ "b" =
      terminationUrl
        ⟨⟨.http, "", none, .ipv4 0x7F000001, some 8787, [""], none, none⟩, none⟩ "a/../b" := by
      decide
    rw [hsame]
    exact sends_terminateSession _ _
  · rintro ⟨segment, hpath, hsaid⟩
    have hsegments : ∀ s ∈ [""], IsSegment s := List.forall_mem_singleton.2 .empty
    exact absurd (isSpliceable_of_path hsegments hpath hsaid) (by decide)

end Service

end RemoteSession
