import RemoteSession.Proofs.Terminal.LineEnds
import RemoteSession.Proofs.Text.Blank

/-!
# Labelled lines on lines of their own

A line with a label belongs at the start of a line : right behind what is written if that
ends a line or is nothing, and else with a line feed between them (`Screen.Places`). The
terminal goes by the last text that it made for the writer. If that was taken, the output
ends as it does, and every labelled line comes to its place. If it was refused, the output
ends as it did before, and a labelled line comes to its place if and only if the refused
text would have ended a line exactly if the output does (`Screen.places_iff`).
-/

namespace RemoteSession.Terminal

/-- Whether a text ends a line, or there is none. -/
def endsLine (text : String) : Bool :=
  text.toList.getLast?.all (· == '\n')

variable {text more : String}

/-! ## Ends of texts -/

theorem getLast?_toList (h : text ≠ "") : ∃ c, text.toList.getLast? = some c :=
  Option.ne_none_iff_exists'.1 fun hnone =>
    h (String.toList_eq_nil_iff.1 (List.getLast?_eq_none_iff.1 hnone))

theorem endsWith_newline (h : text ≠ "") : text.endsWith "\n" = endsLine text := by
  obtain ⟨c, hc⟩ := getLast?_toList h
  rw [Bool.eq_iff_iff, Text.endsWith_newline_iff, endsLine, hc]
  simp

theorem endsLine_append (h : more ≠ "") : endsLine (text ++ more) = endsLine more := by
  obtain ⟨c, hc⟩ := getLast?_toList h
  rw [endsLine, endsLine, String.toList_append, List.getLast?_append, hc]
  rfl

namespace Sink

/-- What stands on a line of its own has a label. -/
theorem line?_eq_labelled {s : Sink} {t : Telling} {line : String} (h : s.line? t = some line) :
    ∃ label text, line = labelled label text := by
  unfold line? stamped? at h
  split at h <;> (repeat' split at h) <;> cases h <;> exact ⟨_, _, rfl⟩

theorem line_ne {s : Sink} {t : Telling} {line : String} (h : s.line? t = some line) :
    line ≠ "" := by
  obtain ⟨label, text, rfl⟩ := line?_eq_labelled h
  simp [labelled]

/-- A text in the form of the terminal ends as it did. -/
theorem endsLine_shown (s : Sink) (text : String) : endsLine (s.shown text) = endsLine text := by
  unfold shown endsLine
  split
  · rw [String.toList_ofList, getLast?_rawNewlines]
  · rfl

theorem length_shown_pos (s : Sink) (h : text ≠ "") : 0 < (s.shown text).length := by
  obtain ⟨c, hc⟩ := getLast?_toList h
  have hlast : (s.shown text).toList.getLast? = some c := by
    unfold shown
    split
    · rw [String.toList_ofList, getLast?_rawNewlines, hc]
    · exact hc
  obtain ⟨before, hbefore⟩ := List.getLast?_eq_some_iff.1 hlast
  rw [← String.length_toList, hbefore, List.length_append]
  exact Nat.lt_add_left _ Nat.one_pos

theorem shown_newline_append (s : Sink) (text : String) :
    s.shown ("\n" ++ text) = s.shown "\n" ++ s.shown text := by
  unfold shown
  split
  · rw [← String.ofList_append, String.toList_append]
    rfl
  · rfl

end Sink

namespace Screen

variable {s : Screen} {t : Telling} {line : String}

/-- A labelled line is written at the start of a line, with no line feed before it that it
does not need. -/
def Places (s : Screen) (t : Telling) (line : String) : Prop :=
  (s.follow t.written).written =
    s.written ++ (if endsLine s.written then "" else s.sink.shown "\n") ++ s.sink.shown line

/-- The terminal has to be right about where the output ends. -/
theorem places_iff_atLineStart (h : s.sink.line? t = some line) :
    s.Places t line ↔ s.sink.atLineStart = endsLine s.written := by
  have hne : line ≠ "" := Sink.line_ne h
  have hlead : ("\n" : String) ++ line ≠ "" := by simp
  have hwritten : (s.follow t.written).written =
      s.written ++ (if s.sink.atLineStart then "" else s.sink.shown "\n") ++ s.sink.shown line := by
    rw [written_follow, draft?, Telling.written, Sink.draft_of_line h]
    cases s.sink.atLineStart <;>
      simp [textOf, hne, hlead, Sink.shown_newline_append, String.append_assoc]
  rw [Places, hwritten]
  refine ⟨fun heq => ?_, fun heq => by rw [heq]⟩
  -- With the line feed the output is longer than without.
  have hfeed : 0 < (s.sink.shown "\n").length := s.sink.length_shown_pos (by decide)
  have hlength := congrArg String.length heq
  simp only [String.length_append] at hlength
  cases hat : s.sink.atLineStart <;> cases hends : endsLine s.written <;>
    simp only [hat, hends, reduceIte, Bool.false_eq_true, String.length_empty] at hlength ⊢ <;>
    omega

/-- Where the terminal takes itself to stand after some drafts, by the last of them. -/
theorem standing_eq (s : Screen) {drafts : List Draft} {last : Draft}
    (hlast : drafts.getLast? = some last) (hne : last.text ≠ "") :
    s.standing drafts = endsLine last.text := by
  rw [standing, hlast]
  exact endsWith_newline hne

/-- If the last draft is taken, what is written ends as it does. -/
theorem endsLine_written (s : Screen) (course : List Occasion) {last : Draft}
    (hlast : (s.drafts course).getLast? = some last) (htaken : last.taken = true) :
    endsLine (s.followAll course).written = endsLine last.text := by
  have hne := text_ne_of_mem_drafts (List.mem_of_getLast? hlast)
  obtain ⟨before, hbefore⟩ := List.getLast?_eq_some_iff.1 hlast
  have hshown : s.sink.shown last.text ≠ "" := fun h => by
    have hpos := s.sink.length_shown_pos hne
    rw [h] at hpos
    exact Nat.lt_irrefl 0 hpos
  rw [written_followAll, hbefore, textOf_append, ← String.append_assoc]
  have htext : s.textOf [last] = s.sink.shown last.text := by
    simp [textOf, htaken]
  rw [htext, endsLine_append hshown, Sink.endsLine_shown]

/-- After any course, a labelled line comes to its place if and only if the last text, if it
was refused, would have ended a line exactly if what is written does. While nothing is
refused, every labelled line comes to its place. -/
theorem places_iff (raw activity : Bool) (offset : Int) (course : List Occasion)
    (h : ((new raw activity offset).followAll course).sink.line? t = some line) :
    let start := new raw activity offset
    let s := start.followAll course
    (s.Places t line ↔ ∀ last ∈ (start.drafts course).getLast?,
        last.taken = false → endsLine last.text = endsLine s.written) ∧
      ((∀ d ∈ start.drafts course, d.taken = true) → s.Places t line) := by
  intro start s
  have hright : s.Places t line ↔ s.sink.atLineStart = endsLine s.written :=
    places_iff_atLineStart h
  have hat : s.sink.atLineStart = start.standing (start.drafts course) :=
    start.atLineStart_followAll course
  have hplaces : s.Places t line ↔ ∀ last ∈ (start.drafts course).getLast?,
      last.taken = false → endsLine last.text = endsLine s.written := by
    rw [hright, hat]
    cases hlast : (start.drafts course).getLast? with
    | none =>
      have hnil : start.drafts course = [] := List.getLast?_eq_none_iff.1 hlast
      have hwritten : s.written = "" := by
        rw [start.written_followAll, hnil]
        rfl
      simp only [Option.not_mem_none, false_implies, implies_true, iff_true]
      rw [hnil, hwritten]
      rfl
    | some last =>
      have hne := text_ne_of_mem_drafts (List.mem_of_getLast? hlast)
      rw [start.standing_eq hlast hne]
      cases htaken : last.taken with
      | true => simp [s, start.endsLine_written course hlast htaken, htaken]
      | false => simp [htaken]
  refine ⟨hplaces, fun hall => hplaces.2 fun last hlast hrefused => ?_⟩
  have htaken := hall last (List.mem_of_getLast? hlast)
  rw [hrefused] at htaken
  cases htaken

/-- A notice is refused behind a line, and the next one comes behind that line. -/
theorem places_of_refused_line :
    let spoken := ⟨.change (.appended ⟨.assistant, 0, 1, "a\n"⟩), true⟩
    let s := (new false false 0).followAll [spoken, ⟨.notice "x", false⟩]
    s.sink.line? (.notice "y") = some "[rc] y\n" ∧ s.Places (.notice "y") "[rc] y\n" := by
  intro spoken s
  have hline : s.sink.line? (.notice "y") = some "[rc] y\n" := by decide +kernel
  refine ⟨hline, (places_iff false false 0 _ hline).1.2 fun last hlast _ => ?_⟩
  cases hlast
  decide +kernel

/-- A notice is refused behind a text that does not end a line, and the next one comes onto
that line. A text that does not end a line is refused where nothing is written, and the next
notice comes behind a line feed. -/
theorem not_places_of_refused :
    let spoken := ⟨.change (.appended ⟨.assistant, 0, 1, "abc"⟩), true⟩
    let within := (new false false 0).followAll [spoken, ⟨.notice "x", false⟩]
    let below := (new false false 0).followAll [{ spoken with taken := false }]
    let next := Telling.notice "y"
    within.written = "abc" ∧ (within.follow next.written).written = "abc[rc] y\n" ∧
      below.written = "" ∧ (below.follow next.written).written = "\n[rc] y\n" ∧
      ¬within.Places next "[rc] y\n" ∧ ¬below.Places next "[rc] y\n" := by
  unfold Places
  decide +kernel

end Screen

end RemoteSession.Terminal
