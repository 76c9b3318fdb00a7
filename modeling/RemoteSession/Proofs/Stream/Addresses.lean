import RemoteSession.Proofs.Url.Segments
import RemoteSession.Stream.Resume

/-!
# The session that a stream is of

The path of a stream is the path of the base with three segments more, of which the last
stands for the session. It is added whole, so that slashes and escapes in the name of a
session are escaped. But what is added loses its tabs and line ends first, and `.` and `..`
are not added at all. All other names are in the path as they are, and only those
(`Endpoint.streamUrl_says_iff`).
-/

namespace RemoteSession

namespace Url

/-- The segments of a path after which more are put : one that is empty only ends it. -/
def stem (path : List String) : List String :=
  let kept := if path.getLast? = some "" then path.dropLast else path
  if kept = [""] then [] else kept

theorem stem_subset (path : List String) : stem path ⊆ path := by
  simp only [stem]
  split
  · split
    · exact List.nil_subset path
    · exact List.dropLast_subset path
  · split
    · exact List.nil_subset path
    · exact List.Subset.refl path

/-- The names that are added to a path as they are. -/
def IsAddable (name : String) : Prop :=
  name ≠ "." ∧ name ≠ ".." ∧ ∀ c ∈ name.toList, isIgnored c = false

instance (name : String) : Decidable (IsAddable name) :=
  inferInstanceAs (Decidable (_ ∧ _ ∧ _))

/-- A name as it is added : what an address ignores is left out, the rest escaped. -/
def addedSegment (name : String) : String :=
  String.ofList (Percent.encode Percent.inSegment (name.toList.filter (!isIgnored ·)))

/-- What is added stands for what of the name is not ignored. -/
theorem says_addedSegment (name : String) :
    Says (addedSegment name) (String.ofList (name.toList.filter (!isIgnored ·))) :=
  says_encode_inSegment

theorem says_addedSegment_iff (name : String) :
    Says (addedSegment name) name ↔ ∀ c ∈ name.toList, isIgnored c = false := by
  have hkept : ∀ c : Char, (!isIgnored c) = true ↔ isIgnored c = false := fun c => by simp
  constructor
  · intro h
    have heq := congrArg String.toList ((says_addedSegment name).unique h)
    rw [String.toList_ofList, List.filter_eq_self] at heq
    exact fun c hc => (hkept c).1 (heq c hc)
  · intro h
    have hall := List.filter_eq_self.2 fun c hc => (hkept c).2 (h c hc)
    have hsaid := says_addedSegment name
    rwa [hall, String.ofList_toList] at hsaid

variable {path : List String} {name : String}

theorem addSegment_of_ne (hone : name ≠ ".") (htwo : name ≠ "..") :
    addSegment path name =
      pushSegments (if path = [""] then [] else path) [addedSegment name] := by
  simp [addSegment, addedSegment, hone, htwo]

theorem Says.addSegment_eq (h : Says (addedSegment name) name) (hone : name ≠ ".")
    (htwo : name ≠ "..") :
    addSegment path name = (if path = [""] then [] else path) ++ [addedSegment name] := by
  rw [addSegment_of_ne hone htwo, pushSegments_cons (h.isDot_eq_false hone htwo)]
  rfl

/-- A path that ends in a word is not the empty one. -/
theorem concat_ne (path : List String) {word : String} (h : word ≠ "") : path ++ [word] ≠ [""] := by
  intro heq
  have hlast := congrArg List.getLast? heq
  rw [List.getLast?_concat] at hlast
  exact h (Option.some.inj hlast)

/-- The two segments before the name of a session. -/
theorem addSegment_addSegment (path : List String) :
    addSegment (addSegment (dropEmptyEnd path) "ws") "events" =
      stem path ++ ["ws"] ++ ["events"] := by
  have hws : addedSegment "ws" = "ws" := by decide
  have hevents : addedSegment "events" = "events" := by decide
  have hstem : (if dropEmptyEnd path = [""] then [] else dropEmptyEnd path) = stem path := by
    unfold dropEmptyEnd stem
    rcases path with _ | ⟨s, _ | ⟨t, rest⟩⟩
    · rfl
    · by_cases hs : s = "" <;> simp [hs]
    · simp
  have hfirst : addSegment (dropEmptyEnd path) "ws" = stem path ++ ["ws"] := by
    rw [Says.addSegment_eq (by decide) (by decide) (by decide), hws, hstem]
  rw [hfirst, Says.addSegment_eq (by decide) (by decide) (by decide), hevents,
    if_neg (concat_ne _ (by decide))]

end Url

namespace Endpoint

open Url

variable {e : Endpoint} {session ticket : String} {resume : Resume}

theorem path_streamUrl :
    (e.streamUrl session ticket resume).path =
      addSegment (stem e.baseUrl.path ++ ["ws"] ++ ["events"]) session := by
  rw [← addSegment_addSegment]
  rfl

/-- The path of the stream of a session whose name is added as it is. -/
theorem path_streamUrl_of_isAddable (h : IsAddable session) :
    (e.streamUrl session ticket resume).path =
      stem e.baseUrl.path ++ ["ws", "events", addedSegment session] := by
  rw [path_streamUrl, ((says_addedSegment_iff session).2 h.2.2).addSegment_eq h.1 h.2.1,
    if_neg (concat_ne _ (by decide)), List.append_assoc, List.append_assoc]
  rfl

/-- Where the path of a stream has one segment that stands for its session, the name is
added as it is. -/
theorem isAddable_of_path {segment : String}
    (hpath : (e.streamUrl session ticket resume).path =
      stem e.baseUrl.path ++ ["ws", "events", segment]) (hsaid : Says segment session) :
    IsAddable session := by
  have hsplit : stem e.baseUrl.path ++ ["ws", "events", segment] =
      stem e.baseUrl.path ++ ["ws"] ++ ["events"] ++ [segment] := by simp
  rw [path_streamUrl, hsplit] at hpath
  generalize hbase : stem e.baseUrl.path ++ ["ws"] ++ ["events"] = base at hpath
  have hne : base ≠ [""] := hbase ▸ concat_ne _ (by decide)
  by_cases hdots : session = "." ∨ session = ".."
  · have hlength := congrArg List.length hpath
    simp [addSegment, hdots] at hlength
  obtain ⟨hone, htwo⟩ := not_or.1 hdots
  rw [addSegment_of_ne hone htwo, if_neg hne, pushSegments] at hpath
  split at hpath
  · -- What is left of the name goes up a level.
    have hlength := congrArg List.length hpath
    simp [← hbase] at hlength
  split at hpath
  · -- What is left of the name is the level itself, and the path ends in an empty segment.
    obtain rfl : "" = segment := List.singleton_inj.1 (List.append_cancel_left hpath)
    obtain rfl : session = "" := hsaid.unique (by decide)
    decide
  · have hsegment := List.singleton_inj.1 (List.append_cancel_left hpath)
    exact ⟨hone, htwo, (says_addedSegment_iff session).1 (hsegment ▸ hsaid)⟩

/-- The path of a stream is that of the base with the segments `ws`, `events` and one for
the session exactly when the name of the session is neither `.` nor `..` and has no tabs and
line ends, whatever else it has. Different sessions with such names have different
paths. -/
theorem streamUrl_says_iff (e : Endpoint) :
    (∀ session ticket resume,
      (∃ segment, (e.streamUrl session ticket resume).path =
          stem e.baseUrl.path ++ ["ws", "events", segment] ∧ Says segment session) ↔
        IsAddable session) ∧
    ∀ session session' ticket ticket' resume resume', IsAddable session → IsAddable session' →
      session ≠ session' →
      (e.streamUrl session ticket resume).path ≠ (e.streamUrl session' ticket' resume').path := by
  constructor
  · intro session ticket resume
    constructor
    · rintro ⟨segment, hpath, hsaid⟩
      exact isAddable_of_path hpath hsaid
    · intro h
      exact ⟨_, path_streamUrl_of_isAddable h, (says_addedSegment_iff session).2 h.2.2⟩
  · intro session session' ticket ticket' resume resume' h h' hne hpath
    rw [path_streamUrl_of_isAddable h, path_streamUrl_of_isAddable h'] at hpath
    have hsegment : addedSegment session = addedSegment session' := by
      simpa using List.append_cancel_left hpath
    have hsaid := (says_addedSegment_iff session).2 h.2.2
    rw [hsegment] at hsaid
    exact hne (hsaid.unique ((says_addedSegment_iff session').2 h'.2.2))

/-- A slash and its escape in a name are told apart. -/
theorem streamUrl_says_iff_slash :
    let e : Endpoint := ⟨⟨.https, "", none, .name "rc.example.com", none, ["rc"], none, none⟩, none⟩
    IsAddable "a/../b" ∧ IsAddable "a%2F../b" ∧ "a/../b" ≠ "a%2F../b" ∧
      (e.streamUrl "a/../b" "t" (.lastN 1)).path ≠
        (e.streamUrl "a%2F../b" "u" (.fromSeq 7)).path := by
  intro e
  have hone : IsAddable "a/../b" := by decide
  have htwo : IsAddable "a%2F../b" := by decide
  have hne : "a/../b" ≠ "a%2F../b" := by decide
  exact ⟨hone, htwo, hne, (streamUrl_says_iff e).2 _ _ _ _ _ _ hone htwo hne⟩

/-- A name with a tab has the stream of the name without it. -/
theorem streamUrl_of_tab : ∃ e, Endpoint.new "http://127.0.0.1:8787" none = .ok e ∧
    (e.streamUrl "a\tb" "t" (.lastN 256)).path = ["ws", "events", "ab"] ∧
    ¬∃ segment, (e.streamUrl "a\tb" "t" (.lastN 256)).path =
      stem e.baseUrl.path ++ ["ws", "events", segment] ∧ Says segment "a\tb" := by
  refine ⟨⟨⟨.http, "", none, .ipv4 0x7F000001, some 8787, [""], none, none⟩, none⟩, ?_, ?_, ?_⟩
  · rfl
  · decide
  · rintro ⟨segment, hpath, hsaid⟩
    exact absurd (isAddable_of_path hpath hsaid) (by decide)

end Endpoint

end RemoteSession
