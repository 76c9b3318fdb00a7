import Mathlib.Data.List.ModifyLast
import RemoteSession.Proofs.Timeline.Caps

/-!
# Changes tell all

A timeline reports what each input changes (`Timeline.report`), and who only hears the
reports can keep up with it. A change made again, by what it says and nothing else
(`Timeline.replay`), is the change that the timeline made : an entry more with the oldest
given up past the limit, or a text more at the end of the last item or of the thought that
is going on. So one who begins with an empty timeline and makes every change that is
reported always holds the timeline itself, and no report means that nothing changed
(`Timeline.replay_reports`).

A text more is only reported for a last item that there is, and that is an assistant's
(`Timeline.extends_last`) : what a chunk joins was not given up.
-/

namespace RemoteSession

namespace Timeline

/-- An item with a text more at its end. -/
def Item.extend (item : Item) (text : String) : Item :=
  { item with text := item.text ++ text }

/-- A change made again. -/
def replay (t : Timeline) : Change → Timeline
  | .appended item => { t with items := keepLast t.config.maxItems (t.items ++ [item]) }
  | .extended _ text => { t with items := t.items.modifyLast (·.extend text) }
  | .thinkingProgress text => { t with thinkingLive := t.thinkingLive ++ text }
  | .thinkingCommitted thought =>
    { t with
      thinkingLive := ""
      thinkingHistory := kept t.config.sideLogLimit (t.thinkingHistory ++ [thought]) }
  | .toolCall record =>
    { t with toolCalls := kept t.config.sideLogLimit (t.toolCalls ++ [record]) }
  | .toolOutput record =>
    { t with toolOutputs := kept t.config.sideLogLimit (t.toolOutputs ++ [record]) }

/-- Changes made again, in order. -/
def replayAll (t : Timeline) (changes : List Change) : Timeline :=
  changes.foldl replay t

/-- What an input is reported to change. -/
def report (t : Timeline) : Input → Option Change
  | .event e => (t.apply e).2
  | .echo text seq tsMs => some (t.recordLocalInput text seq tsMs).2

/-- What some inputs are reported to change, in order. -/
def reports (t : Timeline) : List Input → List Change
  | [] => []
  | input :: rest => (t.report input).toList ++ (t.take input).reports rest

variable {t : Timeline}

/-! ## Parts of an input -/

/-- What a step of a timeline reports, made again, is what the step made. -/
def Told (t : Timeline) (out : Timeline × Option Change) : Prop :=
  t.replayAll out.2.toList = out.1

theorem told_none (t : Timeline) : t.Told (t, none) :=
  rfl

theorem told_some {t' : Timeline} {change : Change} (h : t.replay change = t') :
    t.Told (t', some change) :=
  h

theorem pushCapped_eq {α : Type} (limit : Option Nat) (entries : List α) (entry : α) :
    pushCapped limit entries entry = kept limit (entries ++ [entry]) := by
  cases limit <;> rfl

theorem told_append (t : Timeline) (kind : ItemKind) (e : Event) (text : String) :
    t.Told (t.append kind e text) := by
  unfold append
  split
  · exact t.told_none
  · exact told_some rfl

/-- A chunk of an assistant that joins an item joins the last one. -/
theorem told_applyAssistant (t : Timeline) (e : Event) (data : String) :
    t.Told (t.applyAssistant e data) := by
  unfold applyAssistant
  split
  · exact t.told_none
  split
  · next last hlast =>
    split
    · obtain ⟨items, hitems⟩ := List.getLast?_eq_some_iff.1 hlast
      have hextended : t.items.modifyLast (·.extend data) = items ++ [last.extend data] := by
        rw [hitems, List.modifyLast_concat]
      have hjoined : t.items.dropLast ++ [last.extend data] = items ++ [last.extend data] := by
        rw [hitems, List.dropLast_concat]
      refine told_some ?_
      rw [replay, hextended, ← hjoined]
      rfl
    · exact t.told_append .assistant e data
  · exact t.told_append .assistant e data

theorem told_apply (t : Timeline) (e : Event) : t.Told (t.apply e) := by
  unfold apply
  cases e.body with
  | status state exitCode => exact t.told_append .status e _
  | error message => exact t.told_append .error e message
  | assistant data => exact t.told_applyAssistant e data
  | thinkingDelta delta =>
    dsimp only
    split
    · exact t.told_none
    · exact told_some rfl
  | thinkingDone =>
    dsimp only
    split
    · exact t.told_none
    · exact told_some (by rw [replay, pushCapped_eq])
  | toolCall payload => exact told_some (by rw [replay, pushCapped_eq])
  | toolOutput payload => exact told_some (by rw [replay, pushCapped_eq])
  | user => exact t.told_none
  | unknown kind => exact t.told_none

/-- An item more is not told as a text more. -/
theorem append_ne_extended {kind : ItemKind} {e : Event} {text more : String} {seq : UInt64} :
    (t.append kind e text).2 ≠ some (.extended seq more) := by
  unfold append
  split <;> exact nofun

/-- A chunk of an assistant is told to join the last item only, and that is an assistant's. -/
theorem last_of_applyAssistant {e : Event} {data text : String} {seq : UInt64}
    (h : (t.applyAssistant e data).2 = some (.extended seq text)) :
    ∃ last, t.items.getLast? = some last ∧ last.kind = .assistant := by
  unfold applyAssistant at h
  split at h
  · cases h
  split at h
  · next last hlast =>
    split at h
    · next htakes =>
      rw [Item.takes, Bool.and_eq_true, beq_iff_eq] at htakes
      exact ⟨last, hlast, htakes.1⟩
    · exact absurd h append_ne_extended
  · exact absurd h append_ne_extended

/-! ## All inputs -/

/-- The report of an input, made again, is what the input made. -/
theorem replayAll_report (t : Timeline) (input : Input) :
    t.replayAll (t.report input).toList = t.take input := by
  cases input with
  | event e => exact t.told_apply e
  | echo text seq tsMs => rfl

/-- Who makes all changes that are reported holds the timeline. -/
theorem replayAll_reports (t : Timeline) (inputs : List Input) :
    t.replayAll (t.reports inputs) = inputs.foldl take t := by
  induction inputs generalizing t with
  | nil => rfl
  | cons input rest ih =>
    have hone := t.replayAll_report input
    have hrest := ih (t.take input)
    rw [replayAll] at hone hrest ⊢
    rw [reports, List.foldl_append, hone, hrest, List.foldl_cons]

/-- A text more is reported for a last item that there is, and that is an assistant's. -/
theorem extends_last {input : Input} {seq : UInt64} {text : String}
    (h : t.report input = some (.extended seq text)) :
    ∃ last, t.items.getLast? = some last ∧ last.kind = .assistant := by
  cases input with
  | echo => cases h
  | event e =>
    rw [report, apply] at h
    cases hbody : e.body <;> rw [hbody] at h <;> dsimp only at h
    case assistant => exact last_of_applyAssistant h
    case status => exact absurd h append_ne_extended
    case error => exact absurd h append_ne_extended
    case thinkingDelta => split at h <;> cases h
    case thinkingDone => split at h <;> cases h
    all_goals cases h

/-- What is reported of an input, made again on the timeline before, gives the timeline
after : without a report it is the same, and a text more is for the last item, which there
is. So who begins with an empty timeline and makes all changes that are reported holds the
timeline, whatever the limits are. -/
theorem replay_reports (limits : Config) (inputs : List Input) :
    (∀ (t : Timeline) (input : Input),
      (match t.report input with
        | some change => t.replay change
        | none => t) = t.take input ∧
      ∀ seq text, t.report input = some (.extended seq text) →
        ∃ last, t.items.getLast? = some last ∧ last.kind = .assistant) ∧
    (empty limits).replayAll ((empty limits).reports inputs) = ofInputs limits inputs := by
  refine ⟨fun t input => ⟨?_, fun seq text h => extends_last h⟩, replayAll_reports _ inputs⟩
  have hone := t.replayAll_report input
  cases hreport : t.report input <;> rw [hreport] at hone <;> exact hone

end Timeline

end RemoteSession
