import Mathlib.Data.List.Induction
import Mathlib.Data.UInt
import RemoteSession.Gate
import RemoteSession.Timeline.Basic

/-!
# Noise is invisible

A timeline behind a gate (`Reading`) shows what the leaders among the events of its frames
make of it : the events that exceed the cursor at the start and all events before them
(`Reading.leaders`). The cursor is then the greatest number of all events, leaders or not.
So frames that are no events, and events that repeat or come too late, may stand anywhere
among the frames : timeline, cursor and the changes that are shown are the same without
them (`Reading.offerAll_of_noisy`).
-/

namespace RemoteSession

/-- The events among some frames. -/
def Event.ofFrames (frames : List String) : List Event :=
  frames.filterMap Event.decode?

theorem Event.ofFrames_append (xs ys : List String) :
    Event.ofFrames (xs ++ ys) = Event.ofFrames xs ++ Event.ofFrames ys :=
  List.filterMap_append

/-- The greatest of a cursor and the numbers of some events. -/
def Event.highest (cursor : UInt64) (events : List Event) : UInt64 :=
  (events.map Event.seq).foldl max cursor

namespace Event

variable {cursor : UInt64} {events : List Event}

theorem highest_concat (cursor : UInt64) (events : List Event) (e : Event) :
    highest cursor (events ++ [e]) = max (highest cursor events) e.seq := by
  rw [highest, List.map_append, List.foldl_append]
  rfl

theorem max_lt_iff {a b n : UInt64} : max a b < n ↔ a < n ∧ b < n := by
  rw [UInt64.max_def]
  split
  · next hle => exact ⟨fun h => ⟨UInt64.lt_of_le_of_lt hle h, h⟩, And.right⟩
  · next hle =>
    have hlt : b < a := UInt64.not_le.1 hle
    exact ⟨fun h => ⟨h, UInt64.lt_trans hlt h⟩, And.left⟩

/-- A number exceeds the greatest one if it exceeds the cursor and all numbers. -/
theorem highest_lt_iff {n : UInt64} :
    highest cursor events < n ↔ cursor < n ∧ ∀ e ∈ events, e.seq < n := by
  induction events using List.reverseRecOn with
  | nil => simp [highest]
  | append_singleton events e ih =>
    rw [highest_concat, max_lt_iff, ih]
    simp [and_assoc, or_imp, forall_and]

theorem max_eq_left {a b : UInt64} (h : ¬a < b) : max a b = a := by
  rw [UInt64.max_def]
  split
  · next hle => exact UInt64.le_antisymm (UInt64.not_lt.1 h) hle
  · rfl

theorem max_eq_right {a b : UInt64} (h : a < b) : max a b = b := by
  rw [UInt64.max_def, if_pos (UInt64.le_of_lt h)]

end Event

/-- A timeline behind a gate, with the changes that were shown. -/
structure Reading where
  gate : Gate
  timeline : Timeline
  changes : List Timeline.Change

namespace Reading

/-- A timeline from a cursor, with nothing shown so far. -/
def start (cursor : UInt64) (t : Timeline) : Reading :=
  ⟨⟨cursor⟩, t, []⟩

/-- An event applied. -/
def apply (r : Reading) (e : Event) : Reading :=
  let (timeline, change) := r.timeline.apply e
  { r with timeline := timeline, changes := r.changes ++ change.toList }

/-- A frame offered to the gate, whose event is applied if it is accepted. -/
def offer (r : Reading) (frame : String) : Reading :=
  match r.gate.offerFrame frame with
  | (.accepted e, gate) => { r with gate := gate }.apply e
  | (.stale _ _, gate) => { r with gate := gate }
  | (.malformed, gate) => { r with gate := gate }

/-- Frames offered in their order. -/
def offerAll (r : Reading) (frames : List String) : Reading :=
  frames.foldl offer r

/-- An event applied without asking the gate, which then knows its number. -/
def follow (r : Reading) (e : Event) : Reading :=
  { r with gate := ⟨e.seq⟩ }.apply e

/-- The events that exceed a cursor and all events before them, with those that come
before the list. -/
def leaders (cursor : UInt64) (before : List Event) : List Event → List Event
  | [] => []
  | e :: rest =>
    if cursor < e.seq ∧ ∀ b ∈ before, b.seq < e.seq then e :: leaders cursor (before ++ [e]) rest
    else leaders cursor (before ++ [e]) rest

/-- A frame is noise after other frames if it is no event, or one that does not exceed the
cursor or an event among them. -/
def IsNoise (cursor : UInt64) (before : List String) (frame : String) : Prop :=
  ∀ e, Event.decode? frame = some e →
    e.seq ≤ cursor ∨ ∃ b ∈ Event.ofFrames before, e.seq ≤ b.seq

/-- Frames with noise among them, after other frames. -/
inductive Noisy (cursor : UInt64) : List String → List String → List String → Prop where
  | nil (before : List String) : Noisy cursor before [] []
  | keep {before frames noisy : List String} (frame : String) :
    Noisy cursor (before ++ [frame]) frames noisy →
      Noisy cursor before (frame :: frames) (frame :: noisy)
  | noise {before frames noisy : List String} (frame : String) : IsNoise cursor before frame →
    Noisy cursor (before ++ [frame]) frames noisy → Noisy cursor before frames (frame :: noisy)

/-- A frame that repeats another one is noise. -/
theorem isNoise_of_mem {cursor : UInt64} {before : List String} {frame : String}
    (h : frame ∈ before) : IsNoise cursor before frame := fun e he =>
  .inr ⟨e, List.mem_filterMap.2 ⟨frame, h, he⟩, UInt64.le_refl _⟩

variable {r : Reading} {cursor : UInt64}

/-! ## One frame -/

theorem offer_of_malformed {frame : String} (h : Event.decode? frame = none) :
    r.offer frame = r := by
  simp [offer, Gate.offerFrame, h]

theorem offer_of_event {frame : String} {e : Event} (h : Event.decode? frame = some e) :
    r.offer frame = if r.gate.cursor < e.seq then r.follow e else r := by
  simp only [offer, Gate.offerFrame, h, Gate.offer]
  by_cases hlt : r.gate.cursor < e.seq
  · rw [if_neg (UInt64.not_le.2 hlt), if_pos hlt]
    rfl
  · rw [if_pos (UInt64.not_lt.1 hlt), if_neg hlt]

theorem gate_follow (r : Reading) (e : Event) : (r.follow e).gate = ⟨e.seq⟩ := rfl

/-- The cursor is the greatest number of the events offered so far. -/
theorem cursor_offer {before : List Event}
    (h : r.gate.cursor = Event.highest cursor before) (frame : String) :
    (r.offer frame).gate.cursor = Event.highest cursor (before ++ Event.ofFrames [frame]) := by
  cases hd : Event.decode? frame with
  | none => simp [offer_of_malformed hd, Event.ofFrames, hd, h]
  | some e =>
    have hone : Event.ofFrames [frame] = [e] := by simp [Event.ofFrames, hd]
    rw [hone, Event.highest_concat, offer_of_event hd, ← h]
    split
    · next hlt => rw [gate_follow, Event.max_eq_right hlt]
    · next hlt => rw [Event.max_eq_left hlt]

/-- Noise changes nothing. -/
theorem offer_of_isNoise {before : List String} {frame : String}
    (h : r.gate.cursor = Event.highest cursor (Event.ofFrames before))
    (hnoise : IsNoise cursor before frame) : r.offer frame = r := by
  cases hd : Event.decode? frame with
  | none => exact offer_of_malformed hd
  | some e =>
    rw [offer_of_event hd, if_neg]
    rw [h, Event.highest_lt_iff]
    rintro ⟨hcursor, hbefore⟩
    rcases hnoise e hd with hle | ⟨b, hb, hle⟩
    · exact UInt64.not_lt.2 hle hcursor
    · exact UInt64.not_lt.2 hle (hbefore b hb)

/-! ## All frames -/

/-- What the gate accepts are the leaders. -/
theorem offerAll_eq_foldl {before : List Event}
    (h : r.gate.cursor = Event.highest cursor before) (frames : List String) :
    r.offerAll frames = (leaders cursor before (Event.ofFrames frames)).foldl follow r ∧
      (r.offerAll frames).gate.cursor =
        Event.highest cursor (before ++ Event.ofFrames frames) := by
  -- The events before are general : each frame is measured against all frames before it.
  induction frames generalizing r before with
  | nil => exact ⟨rfl, by simpa [offerAll, Event.ofFrames] using h⟩
  | cons frame rest ih =>
    have hcursor := cursor_offer h frame
    obtain ⟨hrest, hlast⟩ := ih hcursor
    have hsplit : Event.ofFrames (frame :: rest) =
        Event.ofFrames [frame] ++ Event.ofFrames rest := Event.ofFrames_append [frame] rest
    rw [hsplit, ← List.append_assoc]
    refine ⟨?_, hlast⟩
    change (r.offer frame).offerAll rest = _
    rw [hrest]
    cases hd : Event.decode? frame with
    | none =>
      have hnone : Event.ofFrames [frame] = [] := by simp [Event.ofFrames, hd]
      rw [hnone, List.append_nil, List.nil_append, offer_of_malformed hd]
    | some e =>
      have hone : Event.ofFrames [frame] = [e] := by simp [Event.ofFrames, hd]
      rw [hone, List.singleton_append, leaders, offer_of_event hd, h]
      by_cases hlt : Event.highest cursor before < e.seq
      · rw [if_pos hlt, if_pos (Event.highest_lt_iff.1 hlt), List.foldl_cons]
      · rw [if_neg hlt, if_neg fun hleads => hlt (Event.highest_lt_iff.2 hleads)]

theorem offerAll_noisy {before frames noisy : List String}
    (h : r.gate.cursor = Event.highest cursor (Event.ofFrames before))
    (hnoisy : Noisy cursor before frames noisy) : r.offerAll noisy = r.offerAll frames := by
  induction hnoisy generalizing r with
  | nil before => rfl
  | keep frame _ ih =>
    refine ih ?_
    rw [cursor_offer h frame, Event.ofFrames_append]
  | noise frame hnoise _ ih =>
    have hsame := offer_of_isNoise h hnoise
    have hcursor := cursor_offer h frame
    rw [hsame, ← Event.ofFrames_append] at hcursor
    change (r.offer frame).offerAll _ = _
    rw [hsame]
    exact ih hcursor

/-- Offering frames applies the leaders among their events and leaves the cursor at the
greatest number of them all, and noise among the frames changes nothing. -/
theorem offerAll_of_noisy (cursor : UInt64) (t : Timeline) (frames : List String) :
    let events := Event.ofFrames frames
    (start cursor t).offerAll frames = (leaders cursor [] events).foldl follow (start cursor t) ∧
      ((start cursor t).offerAll frames).gate.cursor = Event.highest cursor events ∧
      ∀ noisy, Noisy cursor [] frames noisy →
        (start cursor t).offerAll noisy = (start cursor t).offerAll frames := by
  intro events
  have hstart : (start cursor t).gate.cursor = Event.highest cursor [] := rfl
  obtain ⟨hfold, hcursor⟩ := offerAll_eq_foldl hstart frames
  exact ⟨hfold, hcursor, fun noisy hnoisy => offerAll_noisy hstart hnoisy⟩

/-- A frame is told twice, another is no event. -/
theorem offerAll_of_noisy_repeated :
    let frame := "\x7b\"seq\":1,\"kind\":\"user\"\x7d"
    Noisy 0 [] [frame] [frame, "no event", frame] ∧
      (start 0 (.empty .default)).offerAll [frame, "no event", frame] =
        (start 0 (.empty .default)).offerAll [frame] := by
  intro frame
  have hmalformed : IsNoise 0 ([] ++ [frame]) "no event" := by
    intro e he
    cases he
  have hnoisy : Noisy 0 [] [frame] [frame, "no event", frame] :=
    .keep frame (.noise _ hmalformed (.noise frame (isNoise_of_mem (by simp)) (.nil _)))
  exact ⟨hnoisy, (offerAll_of_noisy 0 (.empty .default) [frame]).2.2 _ hnoisy⟩

end Reading

end RemoteSession
