import RemoteSession.Proofs.Timeline.Changes

/-!
# Channels

A timeline has four parts that know nothing of each other : the transcript, the thoughts, the
calls of tools and their answers (`Timeline.Channel`). Every input is for one of them or for
none, and every change is a change of one. An input for a part does to that part, and reports
of it, what it does where the part stands alone (`Timeline.only_take`), and an input for
another part leaves it alone (`Timeline.only_take_of_ne`), although it takes a number that the
chunks of an assistant are counted by.

So a part of the timeline of some inputs is the timeline of the inputs for that part, and the
changes reported of it are all changes that those inputs report (`Timeline.ofInputs_channel`).
-/

namespace RemoteSession

namespace Timeline

/-- The parts of a timeline. -/
inductive Channel where
  | transcript
  | thinking
  | toolCalls
  | toolOutputs
deriving DecidableEq, Repr

/-- The part that an event is for. What the user wrote and what is of no known kind is for
none. -/
def Channel.ofBody? : Event.Body → Option Channel
  | .status _ _ => some .transcript
  | .error _ => some .transcript
  | .assistant _ => some .transcript
  | .thinkingDelta _ => some .thinking
  | .thinkingDone => some .thinking
  | .toolCall _ => some .toolCalls
  | .toolOutput _ => some .toolOutputs
  | .user => none
  | .unknown _ => none

/-- The part that an input is for. -/
def Input.channel? : Input → Option Channel
  | .event e => Channel.ofBody? e.body
  | .echo _ _ _ => some .transcript

/-- The part that changes. -/
def Change.channel : Change → Channel
  | .appended _ => .transcript
  | .extended _ _ => .transcript
  | .thinkingProgress _ => .thinking
  | .thinkingCommitted _ => .thinking
  | .toolCall _ => .toolCalls
  | .toolOutput _ => .toolOutputs

/-- One part of a timeline, with the others empty. -/
def only (t : Timeline) : Channel → Timeline
  | .transcript => { empty t.config with items := t.items }
  | .thinking =>
    { empty t.config with thinkingLive := t.thinkingLive, thinkingHistory := t.thinkingHistory }
  | .toolCalls => { empty t.config with toolCalls := t.toolCalls }
  | .toolOutputs => { empty t.config with toolOutputs := t.toolOutputs }

/-- The inputs for one part. -/
def Input.through (c : Channel) (inputs : List Input) : List Input :=
  inputs.filter fun input => input.channel? = some c

/-- The changes of one part. -/
def Change.through (c : Channel) (changes : List Change) : List Change :=
  changes.filter fun change => change.channel = c

variable {t : Timeline} {e : Event} {c : Channel}

/-! ## One input -/

/-- An item more is of the transcript, and what it depends on is. -/
theorem only_append (t : Timeline) (kind : ItemKind) (e : Event) (text : String) :
    (t.only .transcript).append kind e text =
      ((t.append kind e text).1.only .transcript, (t.append kind e text).2) := by
  unfold append
  split <;> rfl

/-- Whether a chunk of an assistant joins an item is decided by the transcript alone. -/
theorem only_applyAssistant (t : Timeline) (e : Event) (data : String) :
    (t.only .transcript).applyAssistant e data =
      ((t.applyAssistant e data).1.only .transcript, (t.applyAssistant e data).2) := by
  have happend := t.only_append .assistant e data
  have hitems : (t.only .transcript).items = t.items := rfl
  unfold applyAssistant
  rw [hitems, happend]
  split
  · rfl
  split
  · split <;> rfl
  · rfl

/-- An event does to its part, and reports of it, what it does where the part stands alone. -/
theorem only_apply (t : Timeline) (h : Channel.ofBody? e.body = some c) :
    (t.only c).apply e = ((t.apply e).1.only c, (t.apply e).2) := by
  unfold apply
  generalize e.body = body at h ⊢
  cases body with
  | status state exitCode =>
    cases h
    exact t.only_append .status e _
  | error message =>
    cases h
    exact t.only_append .error e message
  | assistant data =>
    cases h
    exact t.only_applyAssistant e data
  | thinkingDelta delta =>
    cases h
    dsimp only
    split <;> rfl
  | thinkingDone =>
    cases h
    have hlive : (t.only .thinking).thinkingLive = t.thinkingLive := rfl
    dsimp only
    rw [hlive]
    split <;> rfl
  | toolCall payload =>
    cases h
    rfl
  | toolOutput payload =>
    cases h
    rfl
  | user => cases h
  | unknown kind => cases h

/-- Items are of no part but the transcript. -/
theorem only_items (t : Timeline) (hc : c ≠ .transcript) (items : List Item) :
    only { t with items := items } c = t.only c := by
  cases c with
  | transcript => exact absurd rfl hc
  | _ => rfl

/-- An event leaves a part alone that it is not for. -/
theorem only_apply_of_ne (t : Timeline) (h : Channel.ofBody? e.body ≠ some c) :
    (t.apply e).1.only c = t.only c := by
  unfold apply
  generalize e.body = body at h ⊢
  have hne : ∀ {d : Channel}, Channel.ofBody? body = some d → c ≠ d := fun hd hcd =>
    h (hcd ▸ hd)
  cases body with
  | status state exitCode =>
    obtain ⟨items, heq⟩ := t.append_eq .status e (Event.statusText state exitCode)
    dsimp only
    rw [heq, t.only_items (hne rfl)]
  | error message =>
    obtain ⟨items, heq⟩ := t.append_eq .error e message
    dsimp only
    rw [heq, t.only_items (hne rfl)]
  | assistant data =>
    obtain ⟨items, heq⟩ := t.applyAssistant_eq e data
    dsimp only
    rw [heq, t.only_items (hne rfl)]
  | thinkingDelta delta =>
    have hc : c ≠ .thinking := hne rfl
    dsimp only
    split
    · rfl
    · cases c <;> first | rfl | exact absurd rfl hc
  | thinkingDone =>
    have hc : c ≠ .thinking := hne rfl
    dsimp only
    split
    · rfl
    · cases c <;> first | rfl | exact absurd rfl hc
  | toolCall payload =>
    have hc : c ≠ .toolCalls := hne rfl
    cases c <;> first | rfl | exact absurd rfl hc
  | toolOutput payload =>
    have hc : c ≠ .toolOutputs := hne rfl
    cases c <;> first | rfl | exact absurd rfl hc
  | user => rfl
  | unknown kind => rfl

theorem channel_of_append {kind : ItemKind} {text : String} {change : Change}
    (h : (t.append kind e text).2 = some change) : change.channel = .transcript := by
  unfold append at h
  split at h
  · cases h
  · cases h
    rfl

theorem channel_of_applyAssistant {data : String} {change : Change}
    (h : (t.applyAssistant e data).2 = some change) : change.channel = .transcript := by
  unfold applyAssistant at h
  split at h
  · cases h
  split at h
  · split at h
    · cases h
      rfl
    · exact channel_of_append h
  · exact channel_of_append h

/-- What an event reports is a change of its part. -/
theorem channel_of_apply {change : Change} (h : (t.apply e).2 = some change) :
    Channel.ofBody? e.body = some change.channel := by
  unfold apply at h
  generalize e.body = body at h ⊢
  cases body with
  | status state exitCode => exact congrArg some (channel_of_append h).symm
  | error message => exact congrArg some (channel_of_append h).symm
  | assistant data => exact congrArg some (channel_of_applyAssistant h).symm
  | thinkingDelta delta =>
    dsimp only at h
    split at h <;> cases h
    rfl
  | thinkingDone =>
    dsimp only at h
    split at h <;> cases h
    rfl
  | toolCall payload =>
    cases h
    rfl
  | toolOutput payload =>
    cases h
    rfl
  | user => cases h
  | unknown kind => cases h

/-- An input does to its part, and reports of it, what it does where the part stands alone,
and reports of no other part. -/
theorem only_take (t : Timeline) {input : Input} (h : input.channel? = some c) :
    (t.only c).take input = (t.take input).only c ∧ (t.only c).report input = t.report input ∧
      Change.through c (t.report input).toList = (t.report input).toList := by
  have hmine : ∀ {change : Change}, t.report input = some change → change.channel = c := by
    intro change hreport
    cases input with
    | event e => exact Option.some.inj ((channel_of_apply hreport).symm.trans h)
    | echo text seq tsMs =>
      cases hreport
      exact Option.some.inj h
  have hall : Change.through c (t.report input).toList = (t.report input).toList := by
    refine List.filter_eq_self.2 fun change hin => decide_eq_true ?_
    exact hmine (Option.mem_toList.1 hin)
  cases input with
  | event e =>
    have heq := t.only_apply h
    exact ⟨congrArg Prod.fst heq, (congrArg Prod.snd heq :), hall⟩
  | echo text seq tsMs =>
    cases h
    exact ⟨rfl, rfl, hall⟩

/-- An input leaves a part alone that it is not for, and reports nothing of it. -/
theorem only_take_of_ne (t : Timeline) {input : Input} (h : input.channel? ≠ some c) :
    (t.take input).only c = t.only c ∧ Change.through c (t.report input).toList = [] := by
  cases input with
  | event e =>
    refine ⟨t.only_apply_of_ne h, List.filter_eq_nil_iff.2 fun change hin hmine => h ?_⟩
    rw [← of_decide_eq_true hmine]
    exact channel_of_apply (Option.mem_toList.1 hin)
  | echo text seq tsMs =>
    have hc : c ≠ .transcript := fun hc => h (congrArg some hc.symm)
    refine ⟨t.only_items hc _, List.filter_eq_nil_iff.2 fun change hin hmine => hc ?_⟩
    rw [← of_decide_eq_true hmine]
    cases Option.mem_toList.1 hin
    rfl

/-! ## All inputs -/

/-- A part of a timeline goes on as the inputs for it make it go on, with what they report. -/
theorem only_takeAll (t : Timeline) (c : Channel) (inputs : List Input) :
    (inputs.foldl take t).only c = (Input.through c inputs).foldl take (t.only c) ∧
      Change.through c (t.reports inputs) = (t.only c).reports (Input.through c inputs) := by
  induction inputs generalizing t with
  | nil => exact ⟨rfl, rfl⟩
  | cons input rest ih =>
    obtain ⟨hrest, hreports⟩ := ih (t.take input)
    have hsplit : Change.through c (t.reports (input :: rest)) =
        Change.through c (t.report input).toList ++
          Change.through c ((t.take input).reports rest) :=
      List.filter_append ..
    rw [List.foldl_cons, hrest, hsplit, hreports]
    by_cases hmine : input.channel? = some c
    · obtain ⟨htake, hreport, hall⟩ := t.only_take hmine
      have hthrough : Input.through c (input :: rest) = input :: Input.through c rest :=
        List.filter_cons_of_pos (decide_eq_true hmine)
      rw [hthrough, List.foldl_cons, htake, hall, reports, hreport, htake]
      exact ⟨rfl, rfl⟩
    · obtain ⟨hsame, hnone⟩ := t.only_take_of_ne hmine
      have hthrough : Input.through c (input :: rest) = Input.through c rest :=
        List.filter_cons_of_neg fun h => hmine (of_decide_eq_true h)
      rw [hthrough, hsame, hnone, List.nil_append]
      exact ⟨rfl, rfl⟩

/-- Whatever the inputs are and in whatever order they come : the items, and the changes that
are reported of them, are those of the inputs for the transcript alone, with all thoughts, calls
of tools, their answers, and events of the user and of no known kind left out; the thought that
is going on, the thoughts before it and what is reported of them are those of the events of
thoughts alone; and each tool log is that of its own events alone. -/
theorem ofInputs_channel (limits : Config) (inputs : List Input) :
    let t := ofInputs limits inputs
    let alone (c : Channel) := ofInputs limits (Input.through c inputs)
    t.items = (alone .transcript).items ∧
      t.thinkingLive = (alone .thinking).thinkingLive ∧
      t.thinkingHistory = (alone .thinking).thinkingHistory ∧
      t.toolCalls = (alone .toolCalls).toolCalls ∧
      t.toolOutputs = (alone .toolOutputs).toolOutputs ∧
      ∀ c, t.only c = alone c ∧
        Change.through c ((empty limits).reports inputs) =
          (empty limits).reports (Input.through c inputs) := by
  intro t alone
  have honly : ∀ c, t.only c = alone c ∧ Change.through c ((empty limits).reports inputs) =
      (empty limits).reports (Input.through c inputs) := by
    intro c
    have hempty : (empty limits).only c = empty limits := by cases c <;> rfl
    have hall := (empty limits).only_takeAll c inputs
    rwa [hempty] at hall
  have hpart := fun c => (honly c).1
  refine ⟨?_, ?_, ?_, ?_, ?_, honly⟩
  · rw [← hpart .transcript]
    rfl
  · rw [← hpart .thinking]
    rfl
  · rw [← hpart .thinking]
    rfl
  · rw [← hpart .toolCalls]
    rfl
  · rw [← hpart .toolOutputs]
    rfl

end Timeline

end RemoteSession
