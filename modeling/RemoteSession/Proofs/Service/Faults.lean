import RemoteSession.Service.Error

/-!
# What failed requests say

The summary of a fault is made of its parts that are not blank, so that it is empty if the fault
has none (`Fault.summary_of_silent`) and not blank otherwise (`Fault.not_isBlank_summary`). An
error is to say something (`ServiceError.Tells`) : whoever reads it finds a text that is not
blank, or a status alone where the response had nothing to say. A rejected credential is told
with a text of its own then. The other responses are told by their status alone only if they
report no fault at all : a fault that is reported without a text that is not blank becomes an
error with an empty one, and no other response does (`ServiceError.tells_iff`).
-/

namespace RemoteSession

namespace Fault

/-- A fault without a message, a hint or an id that is not blank. -/
def Silent (f : Fault) : Prop :=
  ∀ given ∈ [f.message, f.hint, f.requestId], ∀ text ∈ given, Text.isBlank text = true

/-- The parts of a summary. -/
def parts (f : Fault) : List String :=
  part "" f.message ++ part "Hint: " f.hint ++ part "request_id=" f.requestId

variable {f : Fault} {label text : String}

/-- A blank text is no part of a summary, and every other one is. -/
theorem part_eq_nil_iff (label : String) (given : Option String) :
    part label given = [] ↔ ∀ text ∈ given, Text.isBlank text = true := by
  cases given <;> simp [part]

theorem parts_eq_nil_iff : f.parts = [] ↔ f.Silent := by
  simp [parts, Silent, part_eq_nil_iff]

theorem not_isBlank_of_mem_part {given : Option String} (h : text ∈ part label given) :
    Text.isBlank text = false := by
  cases given with
  | none => cases h
  | some given =>
    rw [part] at h
    split at h
    · cases h
    · next hnot =>
      rw [List.mem_singleton.1 h, Text.isBlank, String.toList_append, List.all_append]
      exact Bool.and_eq_false_imp.2 fun _ => Bool.eq_false_iff.2 hnot

theorem not_isBlank_of_mem_parts (h : text ∈ f.parts) : Text.isBlank text = false := by
  rcases List.mem_append.1 h with h | hid
  · rcases List.mem_append.1 h with hmessage | hhint
    · exact not_isBlank_of_mem_part hmessage
    · exact not_isBlank_of_mem_part hhint
  · exact not_isBlank_of_mem_part hid

theorem summary_of_silent (h : f.Silent) : f.summary = "" :=
  congrArg (" · ".intercalate ·) (parts_eq_nil_iff.2 h)

/-- A summary begins with a part that is not blank, if there is one. -/
theorem not_isBlank_summary (h : ¬f.Silent) : Text.isBlank f.summary = false := by
  obtain ⟨first, rest, hparts⟩ := List.exists_cons_of_ne_nil (mt parts_eq_nil_iff.1 h)
  have hfirst : Text.isBlank first = false :=
    not_isBlank_of_mem_parts (hparts ▸ List.mem_cons_self)
  have hsummary : f.summary = " · ".intercalate (first :: rest) :=
    congrArg (" · ".intercalate ·) hparts
  rw [hsummary]
  cases rest with
  | nil => rwa [String.intercalate_singleton]
  | cons second rest =>
    rw [String.intercalate_cons_cons, Text.isBlank, String.append_assoc, String.toList_append,
      List.all_append]
    exact Bool.and_eq_false_imp.2 fun hblank => absurd hblank (Bool.eq_false_iff.1 hfirst)

end Fault

namespace ServiceError

open Http (Status)

/-- The fault that a body reports, if it reports one. -/
def reported (body : String) : Option Fault :=
  (FaultReport.decode? body).bind FaultReport.fault

/-- A body that has nothing to say : it reports no fault, or one without a text. -/
def SaysNothing (body : String) : Prop :=
  ∀ f ∈ reported body, f.Silent

/-- What an error of a response that is no success is to be. -/
structure Tells (status : Status) (body : String) (e : ServiceError) : Prop where
  rejected_iff : e.isUnauthorized = true ↔ status = .unauthorized
  detail : ∀ text, e = .unauthorized text → Text.isBlank text = false
  message : ∀ code text, e = .fault status code text → Text.isBlank text = false
  /-- A rejection without a reason is told as one. -/
  generic : SaysNothing body → status = .unauthorized → e = .unauthorized rejectedDetail
  /-- All else without a reason is told by its status. -/
  plain : SaysNothing body → status ≠ .unauthorized → e = .refused status

variable {status : Status} {body : String} {f : Fault}

/-! ## The error of a response -/

theorem ofResponse_unauthorized (body : String) :
    ofResponse .unauthorized body = .unauthorized (rejection (reported body)) := by
  unfold ofResponse ofFault
  rw [if_pos rfl, reported]

theorem rejected_ofResponse_iff (status : Status) (body : String) :
    (ofResponse status body).isUnauthorized = true ↔ status = .unauthorized := by
  rw [isUnauthorized_ofResponse, decide_eq_true_iff]

theorem ofResponse_of_reported (hstatus : status ≠ .unauthorized) (h : reported body = some f) :
    ofResponse status body = .fault status (f.code.getD defaultCode) f.summary := by
  rw [reported] at h
  rw [ofResponse, h, ofFault, if_neg hstatus]

theorem ofResponse_of_unreported (hstatus : status ≠ .unauthorized) (h : reported body = none) :
    ofResponse status body = .refused status := by
  rw [reported] at h
  rw [ofResponse, h, ofFault, if_neg hstatus]

theorem rejection_of_saysNothing (h : SaysNothing body) :
    rejection (reported body) = rejectedDetail := by
  cases hfault : reported body with
  | none => rfl
  | some f =>
    rw [rejection, Option.map_some, Fault.summary_of_silent (h f hfault)]
    rfl

/-- The detail of a rejection is the summary of a fault, or a text for want of one. -/
theorem not_isBlank_rejection (fault : Option Fault) :
    Text.isBlank (rejection fault) = false := by
  have hrejected : Text.isBlank rejectedDetail = false := by decide
  cases fault with
  | none => exact hrejected
  | some f =>
    rw [rejection, Option.map_some]
    dsimp only
    split
    · exact hrejected
    · next hne => exact Fault.not_isBlank_summary (mt Fault.summary_of_silent hne)

theorem tells_of_unauthorized (body : String) :
    Tells .unauthorized body (ofResponse .unauthorized body) where
  rejected_iff := rejected_ofResponse_iff _ body
  detail := fun text h => by
    rw [ofResponse_unauthorized, unauthorized.injEq] at h
    exact h ▸ not_isBlank_rejection _
  message := fun code text h => by
    rw [ofResponse_unauthorized] at h
    cases h
  generic := fun hnothing _ => by
    rw [ofResponse_unauthorized, rejection_of_saysNothing hnothing]
  plain := fun _ hstatus => absurd rfl hstatus

/-- A response that reports no fault is told by its status, which is no text that could be
blank. -/
theorem tells_of_unreported (hstatus : status ≠ .unauthorized) (h : reported body = none) :
    Tells status body (ofResponse status body) := by
  have hrejected := rejected_ofResponse_iff status body
  rw [ofResponse_of_unreported hstatus h] at hrejected ⊢
  exact ⟨hrejected, nofun, nofun, fun _ h => absurd h hstatus, fun _ _ => rfl⟩

theorem tells_of_reported_iff (hstatus : status ≠ .unauthorized) (h : reported body = some f) :
    Tells status body (ofResponse status body) ↔ ¬f.Silent := by
  have hrejected := rejected_ofResponse_iff status body
  rw [ofResponse_of_reported hstatus h] at hrejected ⊢
  constructor
  · intro htells hsilent
    have htext := htells.message _ _ rfl
    rw [Fault.summary_of_silent hsilent] at htext
    exact absurd htext (by decide)
  · intro hspeaks
    refine ⟨hrejected, nofun, ?_, fun _ h => absurd h hstatus, ?_⟩
    · rintro code text ⟨⟩
      exact Fault.not_isBlank_summary hspeaks
    · exact fun hnothing => absurd (hnothing f h) hspeaks

/-- The error of a response is a rejected credential if and only if the status is 401, and then
it has a detail that is not blank. The other errors say something if and only if no fault is
reported, or one with a text that is not blank; else the message is empty. -/
theorem tells_iff (status : Status) (body : String) :
    ((ofResponse status body).isUnauthorized = true ↔ status = .unauthorized) ∧
    (Tells status body (ofResponse status body) ↔
      status = .unauthorized ∨ ∀ f, reported body = some f → ¬f.Silent) ∧
    (¬Tells status body (ofResponse status body) →
      ∃ code, ofResponse status body = .fault status code "") := by
  refine ⟨rejected_ofResponse_iff status body, ?_⟩
  by_cases hstatus : status = .unauthorized
  · subst hstatus
    have htells := tells_of_unauthorized body
    exact ⟨iff_of_true htells (.inl rfl), fun hnot => absurd htells hnot⟩
  cases hfault : reported body with
  | none =>
    have htells := tells_of_unreported hstatus hfault
    exact ⟨iff_of_true htells (.inr nofun), fun hnot => absurd htells hnot⟩
  | some f =>
    have hiff := tells_of_reported_iff hstatus hfault
    refine ⟨?_, fun hnot => ⟨f.code.getD defaultCode, ?_⟩⟩
    · rw [hiff, or_iff_right hstatus]
      exact ⟨by rintro hspeaks _ ⟨⟩; exact hspeaks, fun hspeaks => hspeaks f rfl⟩
    · have hsilent : f.Silent := Classical.not_not.1 fun hspeaks => hnot (hiff.2 hspeaks)
      rw [ofResponse_of_reported hstatus hfault, Fault.summary_of_silent hsilent]

/-- A fault without texts becomes an error with an empty message, where a status alone was to
be told. -/
theorem not_tells_of_empty_fault :
    let body := "\x7b\"error\":\x7b\x7d\x7d"
    SaysNothing body ∧ ofResponse ⟨400⟩ body = .fault ⟨400⟩ "error" "" ∧
      ¬Tells ⟨400⟩ body (ofResponse ⟨400⟩ body) := by
  intro body
  have hfault : reported body = some ⟨none, none, none, none⟩ := by decide +kernel
  have herror : ofResponse ⟨400⟩ body = .fault ⟨400⟩ "error" "" := by decide +kernel
  refine ⟨?_, herror, fun htells => ?_⟩
  · rintro f hf
    obtain rfl := Option.some.inj (hfault.symm.trans hf)
    exact Fault.parts_eq_nil_iff.1 rfl
  · exact absurd (htells.message _ _ herror) (by decide)

end ServiceError

end RemoteSession
