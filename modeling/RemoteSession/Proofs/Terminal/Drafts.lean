import RemoteSession.Terminal.Screen

/-!
# Texts for the writer

What a terminal makes of something that it is told is a draft (`Sink.draft`) : a line with a
label, with a line feed before it if the terminal takes itself to be within a line, or the
text of an assistant as it is. Everything else follows from the drafts and from whether the
writer takes them (`Screen.follow_eq`). The drafts of a course that are taken make up what
is written (`Screen.written_followAll`), and the last of them, taken or not, is where the
terminal takes itself to stand (`Screen.atLineStart_followAll`).
-/

namespace RemoteSession.Terminal

open Timeline

/-- A line with a label. -/
def labelled (label text : String) : String :=
  "[" ++ label ++ "] " ++ text ++ "\n"

namespace Sink

/-- A line with a label and a time, if the time can be shown. -/
def stamped? (s : Sink) (label : String) (tsMs : Int64) (text : String) : Option String :=
  match Clock.read tsMs s.offset with
  | .ok time => some (labelled (label ++ " " ++ time) text)
  | .error _ => none

/-- The line with a label that is made of something told, if one is. -/
def line? (s : Sink) : Telling → Option String
  | .notice text => some (labelled "rc" text)
  | .connection .idle => none
  | .connection .connecting => none
  | .connection state => some (labelled "rc" state.text)
  | .change (.appended ⟨.status, tsMs, _, text⟩) => s.stamped? "status" tsMs text
  | .change (.appended ⟨.error, tsMs, _, text⟩) => s.stamped? "error" tsMs text
  | .change (.thinkingCommitted thought) =>
    if s.activity then s.stamped? "thinking" thought.tsMs (Text.trimEnd thought.text) else none
  | .change (.toolCall record) =>
    if s.activity then s.stamped? "tool" record.tsMs record.payload.text else none
  | .change (.toolOutput record) =>
    if s.activity then s.stamped? "tool output" record.tsMs record.payload.text else none
  | .change _ => none

/-- The text of an assistant that something told has. -/
def fragment : Telling → String
  | .change (.appended ⟨.assistant, _, _, text⟩) => text
  | .change (.extended _ text) => text
  | _ => ""

/-- What is made of something told, in plain form : nothing if it is empty. -/
def draft (s : Sink) (t : Telling) : String :=
  match s.line? t with
  | some line => if s.atLineStart then line else "\n" ++ line
  | none => fragment t

/-- A text in the form that the terminal has. -/
def shown (s : Sink) (text : String) : String :=
  if s.raw then String.ofList (rawNewlines text.toList) else text

variable {s : Sink}

/-! ## One thing told -/

/-- What a step of a terminal comes to if it writes a text, up to the state that it reports.
One that cannot be shown writes nothing. -/
def Writes (s : Sink) (text : String) : Except Clock.Overflow (Sink × String) → Prop
  | .ok out => ∃ state, out = ({ (s.write text).1 with published := state }, (s.write text).2)
  | .error _ => text = ""

@[simp] theorem shown_empty (s : Sink) : s.shown "" = "" := by
  unfold shown
  split <;> rfl

theorem write_eq (s : Sink) (text : String) :
    s.write text =
      ({ s with atLineStart := if text = "" then s.atLineStart else text.endsWith "\n" },
        s.shown text) := by
  unfold write
  split
  · next h => rw [h, shown_empty]
  · rfl

theorem writes_write (s : Sink) (text : String) : s.Writes text (.ok (s.write text)) :=
  ⟨s.published, by rw [write_eq]⟩

theorem writes_nothing (s : Sink) : s.Writes "" (.ok (s, "")) :=
  s.writes_write ""

theorem line_eq (s : Sink) (label text : String) :
    s.line label text =
      s.write (if s.atLineStart then labelled label text else "\n" ++ labelled label text) := by
  unfold line labelled
  dsimp only
  split
  · rw [String.empty_append]
  · simp only [String.append_assoc]

theorem draft_of_line {t : Telling} {line : String} (h : s.line? t = some line) :
    s.draft t = if s.atLineStart then line else "\n" ++ line := by
  rw [draft, h]

theorem draft_of_no_line {t : Telling} (h : s.line? t = none) : s.draft t = fragment t := by
  rw [draft, h]

theorem writes_line {t : Telling} {label text : String}
    (h : s.line? t = some (labelled label text)) :
    s.Writes (s.draft t) (.ok (s.line label text)) := by
  rw [draft_of_line h, line_eq]
  exact s.writes_write _

theorem writes_stampedLine {t : Telling} {label text : String} {tsMs : Int64}
    (h : s.line? t = s.stamped? label tsMs text) (hfragment : fragment t = "") :
    s.Writes (s.draft t) (s.stampedLine label tsMs text) := by
  unfold stampedLine
  unfold stamped? at h
  cases htime : Clock.read tsMs s.offset with
  | ok time =>
    rw [htime] at h
    exact writes_line h
  | error e =>
    rw [htime] at h
    exact (draft_of_no_line h).trans hfragment

/-- What only shows where thoughts and tools are shown. -/
theorem writes_activity {t : Telling} {label text : String} {tsMs : Int64}
    (h : s.line? t = if s.activity then s.stamped? label tsMs text else none)
    (hfragment : fragment t = "") :
    s.Writes (s.draft t)
      (if s.activity then s.stampedLine label tsMs text else .ok (s, "")) := by
  cases hactivity : s.activity with
  | true =>
    rw [hactivity] at h
    exact writes_stampedLine h hfragment
  | false =>
    rw [hactivity] at h
    rw [draft_of_no_line h, hfragment]
    exact s.writes_nothing

theorem writes_render (s : Sink) (change : Change) :
    s.Writes (s.draft (.change change)) (s.render change) := by
  cases change with
  | appended item =>
    obtain ⟨kind, tsMs, seq, text⟩ := item
    cases kind with
    | status => exact writes_stampedLine rfl rfl
    | error => exact writes_stampedLine rfl rfl
    | assistant => exact s.writes_write text
    | user => exact s.writes_nothing
  | extended seq text => exact s.writes_write text
  | thinkingProgress text => exact s.writes_nothing
  | thinkingCommitted thought => exact writes_activity rfl rfl
  | toolCall record => exact writes_activity rfl rfl
  | toolOutput record => exact writes_activity rfl rfl

/-- The state that is reported does not show by itself. -/
theorem Writes.publish {text : String} {out : Sink × String} (h : s.Writes text (.ok out))
    (state : ConnectionState) : s.Writes text (.ok ({ out.1 with published := state }, out.2)) := by
  obtain ⟨_, rfl⟩ := h
  exact ⟨state, rfl⟩

theorem writes_tell (s : Sink) (t : Telling) : s.Writes (s.draft t) (s.tell t) := by
  cases t with
  | change change => exact s.writes_render change
  | notice text => exact writes_line rfl
  | connection state =>
    cases state with
    | idle => exact s.writes_nothing.publish _
    | connecting => exact s.writes_nothing.publish _
    | connected => exact Writes.publish (writes_line rfl) _
    | reconnecting attempt => exact Writes.publish (writes_line rfl) _
    | closed reason => exact Writes.publish (writes_line rfl) _

/-- Two terminals that show the same and stand at the same place of a line. -/
structure Alike (s other : Sink) : Prop where
  activity : s.activity = other.activity
  offset : s.offset = other.offset
  atLineStart : s.atLineStart = other.atLineStart

theorem line?_congr {other : Sink} (hactivity : s.activity = other.activity)
    (hoffset : s.offset = other.offset) (t : Telling) : s.line? t = other.line? t := by
  unfold line? stamped?
  rw [hactivity, hoffset]

/-- Drafts are in plain form. -/
theorem Alike.draft_eq {other : Sink} (h : s.Alike other) (t : Telling) :
    s.draft t = other.draft t := by
  unfold draft
  rw [line?_congr h.activity h.offset, h.atLineStart]

end Sink

/-- A text made for the writer, and whether the writer took it. -/
structure Draft where
  text : String
  taken : Bool

namespace Screen

/-- The draft of something told. Without a text there is none. -/
def draft? (s : Screen) (o : Occasion) : Option Draft :=
  if s.sink.draft o.telling = "" then none else some ⟨s.sink.draft o.telling, o.taken⟩

/-- The drafts of a course, in order. -/
def drafts (s : Screen) : List Occasion → List Draft
  | [] => []
  | o :: rest => (s.draft? o).toList ++ (s.follow o).drafts rest

/-- The text of those drafts that were taken, in the form that the terminal has. -/
def textOf (s : Screen) (drafts : List Draft) : String :=
  String.join ((drafts.filter Draft.taken).map fun d => s.sink.shown d.text)

variable {s : Screen}

/-! ## A course -/

/-- A draft is written if it is taken, and the terminal goes on behind it in any case. -/
theorem follow_eq (s : Screen) (o : Occasion) :
    ∃ state, s.follow o =
      ⟨{ (s.sink.write (s.sink.draft o.telling)).1 with published := state },
        s.written ++ s.textOf (s.draft? o).toList⟩ := by
  have hwrites := s.sink.writes_tell o.telling
  unfold follow textOf draft?
  generalize s.sink.draft o.telling = text at hwrites ⊢
  cases hout : s.sink.tell o.telling with
  | error e =>
    rw [hout] at hwrites
    refine ⟨s.sink.published, ?_⟩
    subst hwrites
    simp [Sink.write_eq]
  | ok out =>
    rw [hout] at hwrites
    obtain ⟨state, rfl⟩ := hwrites
    refine ⟨state, ?_⟩
    by_cases htext : text = ""
    · simp [htext, Sink.write_eq]
    · cases o.taken <;> simp [htext, Sink.write_eq]

theorem written_follow (s : Screen) (o : Occasion) :
    (s.follow o).written = s.written ++ s.textOf (s.draft? o).toList := by
  obtain ⟨state, h⟩ := s.follow_eq o
  rw [h]

/-- Where the terminal takes itself to stand after some drafts. -/
def standing (s : Screen) (drafts : List Draft) : Bool :=
  (drafts.getLast?.map fun d => d.text.endsWith "\n").getD s.sink.atLineStart

theorem atLineStart_follow (s : Screen) (o : Occasion) :
    (s.follow o).sink.atLineStart = s.standing (s.draft? o).toList := by
  obtain ⟨state, h⟩ := s.follow_eq o
  rw [h, Sink.write_eq, standing, draft?]
  split <;> simp_all

/-- How a terminal shows does not change. -/
theorem manner_follow (s : Screen) (o : Occasion) :
    (s.follow o).sink.raw = s.sink.raw ∧ (s.follow o).sink.activity = s.sink.activity ∧
      (s.follow o).sink.offset = s.sink.offset := by
  obtain ⟨state, h⟩ := s.follow_eq o
  rw [h, Sink.write_eq]
  exact ⟨rfl, rfl, rfl⟩

theorem shown_follow (s : Screen) (o : Occasion) : (s.follow o).sink.shown = s.sink.shown := by
  unfold Sink.shown
  rw [(s.manner_follow o).1]

theorem textOf_follow (s : Screen) (o : Occasion) : (s.follow o).textOf = s.textOf := by
  unfold textOf
  rw [shown_follow]

theorem textOf_append (s : Screen) (drafts more : List Draft) :
    s.textOf (drafts ++ more) = s.textOf drafts ++ s.textOf more := by
  simp [textOf, List.filter_append, String.join_append]

/-- The drafts that are taken, one after another, are what is written. -/
theorem written_followAll (s : Screen) (course : List Occasion) :
    (s.followAll course).written = s.written ++ s.textOf (s.drafts course) := by
  induction course generalizing s with
  | nil => simp [followAll, drafts, textOf]
  | cons o rest ih =>
    change ((s.follow o).followAll rest).written = _
    rw [ih, written_follow, textOf_follow, drafts, textOf_append, String.append_assoc]

/-- The last draft, taken or not, is what the terminal takes itself to stand behind. -/
theorem atLineStart_followAll (s : Screen) (course : List Occasion) :
    (s.followAll course).sink.atLineStart = s.standing (s.drafts course) := by
  induction course generalizing s with
  | nil => rfl
  | cons o rest ih =>
    change ((s.follow o).followAll rest).sink.atLineStart = _
    rw [ih, standing, atLineStart_follow, standing, standing, drafts, List.getLast?_append]
    cases ((s.follow o).drafts rest).getLast? <;> rfl

theorem text_ne_of_mem_drafts {course : List Occasion} {d : Draft} (h : d ∈ s.drafts course) :
    d.text ≠ "" := by
  induction course generalizing s with
  | nil => cases h
  | cons o rest ih =>
    rcases List.mem_append.1 h with h | h
    · rw [Option.mem_toList, draft?, Option.ite_none_left_eq_some] at h
      obtain ⟨hne, heq⟩ := h
      cases heq
      exact hne
    · exact ih h

end Screen

end RemoteSession.Terminal
