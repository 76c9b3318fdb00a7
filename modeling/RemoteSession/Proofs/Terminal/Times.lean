import RemoteSession.Proofs.Event.Frames
import RemoteSession.Proofs.Terminal.Calendar
import RemoteSession.Proofs.Terminal.Drafts
import RemoteSession.Proofs.Timeline.Noise

/-!
# Times of events on a terminal

The time of an event is whatever its sender wrote. A terminal shows it at an offset, and
that has no answer for an instant inside the calendar that the offset moves outside
(`Clock.isOk_read_iff`). So a terminal behind a timeline and a gate (`Viewer`) shows some
frames to their end if and only if no event that passes the gate, and of which the time is
shown, has such an instant (`Viewer.isOk_offerAll_iff`) : neither what else an event holds
nor what came before it matters.
-/

namespace RemoteSession

namespace Clock

/-- An instant inside the calendar, in milliseconds. -/
def InCalendar (ms : Int) : Prop :=
  firstSecond * 1000 ≤ ms ∧ ms < (lastSecond + 1) * 1000

/-- An instant with an answer at an offset : it stays inside the calendar, or it is outside
without the offset. -/
def CanShow (tsMs : Int64) (offset : Int) : Prop :=
  InCalendar tsMs.toInt → InCalendar (tsMs.toInt + offset * 1000)

theorem inCalendar_fdiv_iff (ms offset : Int) :
    inCalendar (ms.fdiv 1000 + offset) = true ↔ InCalendar (ms + offset * 1000) := by
  unfold inCalendar InCalendar firstSecond lastSecond
  rw [Bool.and_eq_true, decide_eq_true_iff, decide_eq_true_iff,
    Int.fdiv_eq_ediv_of_nonneg ms (by decide)]
  omega

theorem isOk_read_iff (tsMs : Int64) (offset : Int) :
    (read tsMs offset).isOk = true ↔ CanShow tsMs offset := by
  have hinstant := inCalendar_fdiv_iff tsMs.toInt 0
  have hlocal := inCalendar_fdiv_iff tsMs.toInt offset
  rw [Int.zero_mul, Int.add_zero, Int.add_zero] at hinstant
  rw [CanShow, ← hinstant, ← hlocal, read_eq]
  dsimp only
  cases inCalendar (tsMs.toInt.fdiv 1000) with
  | false => simp [Except.isOk, Except.toBool]
  | true =>
    cases inCalendar (tsMs.toInt.fdiv 1000 + offset) <;> simp [Except.isOk, Except.toBool]

/-- Universal time has an answer for every instant. -/
theorem canShow_universal (tsMs : Int64) : CanShow tsMs 0 := fun h => by
  rwa [Int.zero_mul, Int.add_zero]

end Clock

/-- Whether an event is shown with its time : a status or an error with a text, and where
thoughts and tools are shown, those too. -/
def Timeline.stamps (t : Timeline) (activity : Bool) (e : Event) : Bool :=
  match e.body with
  | .status state exitCode => Event.statusText state exitCode ≠ ""
  | .error message => message ≠ ""
  | .thinkingDone => activity && t.thinkingLive ≠ ""
  | .toolCall _ => activity
  | .toolOutput _ => activity
  | _ => false

/-- A timeline behind a gate whose changes go to a terminal. -/
structure Viewer where
  gate : Gate
  timeline : Timeline
  sink : Terminal.Sink

namespace Viewer

open Terminal Timeline

/-- An event applied, and its change shown. -/
def apply (v : Viewer) (e : Event) : Except Clock.Overflow Viewer :=
  match v.timeline.apply e with
  | (timeline, none) => .ok { v with timeline := timeline }
  | (timeline, some change) =>
    (v.sink.render change).map fun out => { v with timeline := timeline, sink := out.1 }

/-- A frame offered to the gate, whose event is applied if it is accepted. -/
def offer (v : Viewer) (frame : String) : Except Clock.Overflow Viewer :=
  match v.gate.offerFrame frame with
  | (.accepted e, gate) => { v with gate := gate }.apply e
  | (.stale _ _, gate) => .ok { v with gate := gate }
  | (.malformed, gate) => .ok { v with gate := gate }

/-- Frames offered in their order. -/
def offerAll (v : Viewer) (frames : List String) : Except Clock.Overflow Viewer :=
  frames.foldlM offer v

variable {v v' : Viewer} {r : Reading} {e : Event} {s : Sink} {t : Timeline}

/-! ## One event -/

theorem isOk_stampedLine_iff (s : Sink) (label text : String) (tsMs : Int64) :
    (s.stampedLine label tsMs text).isOk = true ↔ Clock.CanShow tsMs s.offset := by
  rw [← Clock.isOk_read_iff, Sink.stampedLine]
  cases Clock.read tsMs s.offset <;> rfl

theorem isOk_activity_iff (s : Sink) (label text : String) (tsMs : Int64) :
    (if s.activity then s.stampedLine label tsMs text else .ok (s, "")).isOk = true ↔
      (s.activity = true → Clock.CanShow tsMs s.offset) := by
  cases s.activity with
  | true => simp [isOk_stampedLine_iff]
  | false => simp [Except.isOk, Except.toBool]

/-- A report that a terminal can show, if there is one. -/
def CanRender (s : Sink) (report : Option Change) : Prop :=
  ∀ change ∈ report, (s.render change).isOk = true

theorem canRender_none (s : Sink) : CanRender s none := fun _ h => by cases h

theorem canRender_some {change : Change} :
    CanRender s (some change) ↔ (s.render change).isOk = true := by
  simp [CanRender]

theorem canRender_append_iff (t : Timeline) (kind : ItemKind) (text : String) :
    CanRender s (t.append kind e text).2 ↔
      (text ≠ "" → (s.render (.appended ⟨kind, e.tsMs, e.seq, text⟩)).isOk = true) := by
  rw [append]
  split
  · next hempty => simp [hempty, canRender_none]
  · next htext => simp [htext, canRender_some]

/-- What an assistant says is shown without a time. -/
theorem canRender_applyAssistant (t : Timeline) (e : Event) (data : String) :
    CanRender s (t.applyAssistant e data).2 := by
  have happend : CanRender s (t.append .assistant e data).2 :=
    (canRender_append_iff t .assistant data).2 fun _ => rfl
  unfold applyAssistant
  split
  · exact canRender_none s
  · split
    · split
      · exact canRender_some.2 rfl
      · exact happend
    · exact happend

/-- The change of an event can be shown unless its time is shown and has no answer. -/
theorem canRender_apply_iff (t : Timeline) (e : Event) :
    CanRender s (t.apply e).2 ↔
      (t.stamps s.activity e = true → Clock.CanShow e.tsMs s.offset) := by
  unfold Timeline.apply stamps
  cases e.body with
  | status state exitCode =>
    simp [canRender_append_iff, Sink.render, isOk_stampedLine_iff]
  | error message =>
    simp [canRender_append_iff, Sink.render, isOk_stampedLine_iff]
  | assistant data => simp [canRender_applyAssistant]
  | thinkingDelta delta =>
    by_cases hdelta : delta = ""
    · simp [hdelta, canRender_none]
    · simp [hdelta, canRender_some, Sink.render, Except.isOk, Except.toBool]
  | thinkingDone =>
    by_cases hlive : t.thinkingLive = ""
    · simp [hlive, canRender_none]
    · simp [hlive, canRender_some, Sink.render, isOk_activity_iff]
  | toolCall payload => simp [canRender_some, Sink.render, isOk_activity_iff]
  | toolOutput payload => simp [canRender_some, Sink.render, isOk_activity_iff]
  | user => simp [canRender_none]
  | unknown kind => simp [canRender_none]

theorem isOk_apply_iff (v : Viewer) (e : Event) :
    (v.apply e).isOk = true ↔ CanRender v.sink (v.timeline.apply e).2 := by
  unfold apply
  rcases v.timeline.apply e with ⟨timeline, _ | change⟩
  · simp [canRender_none, Except.isOk, Except.toBool]
  · rw [canRender_some]
    dsimp only
    cases v.sink.render change <;> rfl

/-! ## One frame -/

/-- A viewer that stands where a reading does, with a terminal that shows as another one. -/
structure Shows (v : Viewer) (r : Reading) (s : Sink) : Prop where
  gate : v.gate = r.gate
  timeline : v.timeline = r.timeline
  activity : v.sink.activity = s.activity
  offset : v.sink.offset = s.offset

theorem Shows.apply (h : v.Shows r s) (hok : v.apply e = .ok v') : v'.Shows (r.apply e) s := by
  unfold Viewer.apply at hok
  rw [h.timeline] at hok
  unfold Reading.apply
  rcases hreport : r.timeline.apply e with ⟨timeline, _ | change⟩
  · rw [hreport] at hok
    cases hok
    exact ⟨h.gate, rfl, h.activity, h.offset⟩
  · rw [hreport] at hok
    dsimp only at hok
    have hwrites := v.sink.writes_render change
    cases hout : v.sink.render change with
    | error overflow =>
      rw [hout] at hok
      cases hok
    | ok out =>
      rw [hout] at hok hwrites
      obtain ⟨state, rfl⟩ := hwrites
      cases hok
      rw [Sink.write_eq]
      exact ⟨h.gate, rfl, h.activity, h.offset⟩

/-- A frame has an event that passes the gate and whose time is shown. -/
structure Stamps (r : Reading) (activity : Bool) (frame : String) (e : Event) : Prop where
  event : Event.decode? frame = some e
  passes : r.gate.cursor < e.seq
  stamped : r.timeline.stamps activity e = true

theorem offer_of_passes {frame : String} (hevent : Event.decode? frame = some e)
    (hpasses : v.gate.cursor < e.seq) : v.offer frame = { v with gate := ⟨e.seq⟩ }.apply e := by
  simp only [offer, Gate.offerFrame, hevent, Gate.offer, if_neg (UInt64.not_le.2 hpasses)]

theorem offer_of_not_passes {frame : String}
    (h : ∀ e, Event.decode? frame = some e → ¬v.gate.cursor < e.seq) : v.offer frame = .ok v := by
  cases hevent : Event.decode? frame with
  | none => simp only [offer, Gate.offerFrame, hevent]
  | some e =>
    simp only [offer, Gate.offerFrame, hevent, Gate.offer,
      if_pos (UInt64.not_lt.1 (h e hevent))]

theorem Shows.isOk_offer_iff (h : v.Shows r s) (frame : String) :
    (v.offer frame).isOk = true ↔
      ∀ e, Stamps r s.activity frame e → Clock.CanShow e.tsMs s.offset := by
  by_cases hpass : ∃ e, Event.decode? frame = some e ∧ r.gate.cursor < e.seq
  · obtain ⟨e, hevent, hpasses⟩ := hpass
    have hone : ∀ e', Stamps r s.activity frame e' → e' = e := fun e' hstamps =>
      Option.some.inj (hstamps.event.symm.trans hevent)
    rw [offer_of_passes hevent (h.gate ▸ hpasses), isOk_apply_iff, canRender_apply_iff,
      h.timeline, h.activity, h.offset]
    constructor
    · intro hshow e' hstamps
      cases hone e' hstamps
      exact hshow hstamps.stamped
    · exact fun hshow hstamped => hshow e ⟨hevent, hpasses, hstamped⟩
  · rw [offer_of_not_passes fun e hevent hpasses => hpass ⟨e, hevent, h.gate ▸ hpasses⟩]
    exact ⟨fun _ e hstamps => (hpass ⟨e, hstamps.event, hstamps.passes⟩).elim, fun _ => rfl⟩

theorem Shows.offer {frame : String} (h : v.Shows r s) (hok : v.offer frame = .ok v') :
    v'.Shows (r.offer frame) s := by
  by_cases hpass : ∃ e, Event.decode? frame = some e ∧ r.gate.cursor < e.seq
  · obtain ⟨e, hevent, hpasses⟩ := hpass
    rw [offer_of_passes hevent (h.gate ▸ hpasses)] at hok
    have hnext : Shows { v with gate := ⟨e.seq⟩ } { r with gate := ⟨e.seq⟩ } s :=
      ⟨rfl, h.timeline, h.activity, h.offset⟩
    rw [Reading.offer_of_event hevent, if_pos hpasses]
    exact hnext.apply hok
  · have hno : ∀ e, Event.decode? frame = some e → ¬r.gate.cursor < e.seq :=
      fun e hevent hpasses => hpass ⟨e, hevent, hpasses⟩
    rw [offer_of_not_passes (h.gate ▸ hno)] at hok
    cases hok
    cases hevent : Event.decode? frame with
    | none => rwa [Reading.offer_of_malformed hevent]
    | some e => rwa [Reading.offer_of_event hevent, if_neg (hno e hevent)]

/-! ## All frames -/

theorem Shows.isOk_frames_iff (h : v.Shows r s) (frames : List String) :
    (v.offerAll frames).isOk = true ↔
      ∀ before frame after e, frames = before ++ frame :: after →
        Stamps (r.offerAll before) s.activity frame e → Clock.CanShow e.tsMs s.offset := by
  induction frames generalizing v r with
  | nil => simp [offerAll, Except.isOk, Except.toBool, pure, Except.pure]
  | cons first rest ih =>
    have hfirst := h.isOk_offer_iff first
    have hsplit : (v.offerAll (first :: rest)).isOk = true ↔
        (v.offer first).isOk = true ∧ ∀ before frame after e, rest = before ++ frame :: after →
          Stamps ((r.offer first).offerAll before) s.activity frame e →
            Clock.CanShow e.tsMs s.offset := by
      cases hok : v.offer first with
      | error overflow => simp [offerAll, hok, bind, Except.bind, Except.isOk, Except.toBool]
      | ok v' =>
        rw [← ih (h.offer hok)]
        simp [offerAll, hok, bind, Except.bind, Except.isOk, Except.toBool]
    rw [hsplit, hfirst]
    constructor
    · rintro ⟨hnow, hlater⟩ before frame after e hframes hstamps
      cases before with
      | nil =>
        cases hframes
        exact hnow e hstamps
      | cons _ before =>
        cases hframes
        exact hlater before frame after e rfl hstamps
    · intro hall
      refine ⟨fun e => hall [] first rest e rfl, fun before frame after e hrest => ?_⟩
      exact hall (first :: before) frame after e (by rw [hrest, List.cons_append])

/-- A terminal of any manner shows frames to their end, whatever they hold, if and only if no
event among them passes the gate, is shown with its time, and has a time without an answer.
In universal time it always does. -/
theorem isOk_offerAll_iff (cursor : UInt64) (limits : Config) (s : Sink) (frames : List String) :
    let t := Timeline.empty limits
    let shown := (Viewer.mk ⟨cursor⟩ t s).offerAll frames
    (shown.isOk = true ↔ ∀ before frame after e, frames = before ++ frame :: after →
        Stamps ((Reading.start cursor t).offerAll before) s.activity frame e →
          Clock.CanShow e.tsMs s.offset) ∧
      (s.offset = 0 → shown.isOk = true) := by
  intro t shown
  have hshows : (Viewer.mk ⟨cursor⟩ t s).Shows (Reading.start cursor t) s := ⟨rfl, rfl, rfl, rfl⟩
  have hiff := hshows.isOk_frames_iff frames
  refine ⟨hiff, fun huniversal => hiff.2 fun _ _ _ e _ _ => ?_⟩
  rw [huniversal]
  exact Clock.canShow_universal e.tsMs

/-- A status in the last second of the calendar, an hour east of universal time. -/
theorem not_isOk_offerAll_of_last_second :
    let frame := "\x7b\"session_id\":\"s\",\"engine\":\"\",\"ts_ms\":253402300799999," ++
      "\"seq\":1,\"kind\":\"status\",\"payload\":\x7b\"state\":\"running\"\x7d\x7d"
    let viewer := Viewer.mk ⟨0⟩ (.empty .default) (.new false false 3600)
    (∃ e, (viewer.gate.offerFrame frame).1 = .accepted e) ∧
      (viewer.offerAll [frame]).isOk = false := by
  intro frame viewer
  let payload := Json.Value.object [("state", .string "running")]
  let e : Event := ⟨"s", "", 253402300799999, 1, "status", some payload⟩
  have htext : frame = e.encode := by decide +kernel
  have hreadable : ∀ v ∈ e.payload, Event.Readable v := by
    intro v hv
    cases hv
    have hfits : payload.Fits Event.fieldRoom :=
      Json.Value.fits_object_iff.2 ⟨List.pairwise_singleton _ _, by simp [Json.Value.Fits.string]⟩
    exact ⟨nofun, hfits⟩
  have hevent : Event.decode? frame = some e := htext ▸ Event.decode?_encode hreadable
  have hgate : viewer.gate.offerFrame frame = (.accepted e, ⟨1⟩) := by
    rw [Gate.offerFrame, hevent]
    rfl
  refine ⟨⟨e, congrArg Prod.fst hgate⟩, ?_⟩
  have hover : ¬Clock.CanShow e.tsMs viewer.sink.offset := by
    rw [← Clock.isOk_read_iff]
    change ¬(Clock.read 253402300799999 3600).isOk = true
    decide +kernel
  have hfails : ¬(apply { viewer with gate := ⟨1⟩ } e).isOk = true := by
    rw [isOk_apply_iff, canRender_apply_iff]
    exact fun hshow => hover (hshow rfl)
  rw [offerAll, List.foldlM_cons, offer, hgate]
  dsimp only
  cases happly : apply { viewer with gate := ⟨1⟩ } e with
  | error overflow => rfl
  | ok v => exact absurd (by rw [happly]; rfl) hfails

end Viewer

end RemoteSession
