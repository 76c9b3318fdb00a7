import RemoteSession.Stream.Pump

/-!
# What a pump carries

A pump carries frames of the client to the socket and texts of the socket to the client, in
whichever order they are ready. As long as it runs, what it has written are the first texts of
those that were queued, the others wait, and all texts that it read are delivered
(`Pump.Running`). The step that sees an end (`Pump.Ends`) writes a close, or delivers the
reason of the end, or does neither, and is the last one that does anything (`Pump.Over`). So
nothing is lost, put in another order, or made up (`Pump.carried_of_run`), whatever happens
and in whichever order.
-/

namespace RemoteSession

/-- The text of a frame of the client. -/
def Outgoing.text? : Outgoing → Option String
  | .text content => some content
  | .close _ _ => none

/-- The text of a frame of a socket. -/
def SocketFrame.text? : SocketFrame → Option String
  | .text content => some content
  | .close _ => none

/-- The text that the client is handed. -/
def Incoming.text? : Incoming → Option String
  | .text content => some content
  | .closed _ => none

namespace Pump

/-! ## What goes in -/

/-- The frame that is queued, unless the pump has ended or was let go of. -/
def queuedBy (p : Pump) : Happening → List Outgoing
  | .offer frame => if p.finished || p.released then [] else [frame]
  | _ => []

/-- The text that is read, unless the pump has ended. -/
def readBy (p : Pump) : Happening → List String
  | .read (.text content) => if p.finished then [] else [content]
  | _ => []

/-- The frames that are queued while some things happen. -/
def framesQueued (p : Pump) : List Happening → List Outgoing
  | [] => []
  | e :: rest => p.queuedBy e ++ (p.step e).framesQueued rest

/-- The texts that are read while some things happen. -/
def textsRead (p : Pump) : List Happening → List String
  | [] => []
  | e :: rest => p.readBy e ++ (p.step e).textsRead rest

/-- What a pump sees as its end. -/
inductive Ends (p : Pump) : Happening → Prop
  /-- The client closes, whether the socket takes the close or not. -/
  | close {code : UInt16} {reason : String} {rest : List Outgoing}
      (hqueue : p.queue = .close code reason :: rest) (fault : Option String) : Ends p (.take fault)
  /-- The client has let go, and nothing waits any more. -/
  | released (hqueue : p.queue = []) (hreleased : p.released = true) (fault : Option String) :
      Ends p (.take fault)
  /-- The socket does not take a text. -/
  | refused {content : String} {rest : List Outgoing}
      (hqueue : p.queue = .text content :: rest) (detail : String) : Ends p (.take (some detail))
  /-- A text comes that nobody hears. -/
  | unheard (hdeaf : p.deaf = true) (content : String) : Ends p (.read (.text content))
  /-- The other side closes. -/
  | closed (frame : Option (UInt16 × String)) : Ends p (.read (.close frame))
  | failed (detail : String) : Ends p (.read (.failed detail))
  | ended : Ends p (.read .ended)

/-- Among some things that happen is one that a pump sees as its end. -/
def SeesEnd (p : Pump) (happenings : List Happening) : Prop :=
  ∃ before e later, happenings = before ++ e :: later ∧
    (p.run before).finished = false ∧ (p.run before).Ends e

variable {p : Pump} {queued : List Outgoing} {read : List String}

/-! ## One step -/

/-- A pump that runs has written the first texts that were queued, and delivered all that it
has read. -/
structure Running (p : Pump) (queued : List Outgoing) (read : List String) : Prop where
  finished : p.finished = false
  written : ∃ taken : List String, p.written = taken.map .text ∧
    queued = taken.map .text ++ p.queue
  delivered : p.delivered = read.map .text

/-- A pump that has ended may have written a close and delivered a reason at last; a text that
it read and did not deliver was the last, and nobody heard it. -/
structure Over (p : Pump) (queued : List Outgoing) (read : List String) : Prop where
  finished : p.finished = true
  written : ∃ (taken : List String) (close : Option (Option (UInt16 × String)))
    (rest : List Outgoing), p.written = taken.map .text ++ (close.map .close).toList ∧
      queued = taken.map .text ++ rest
  delivered : ∃ (heard : List String) (reason unheard : Option String),
    p.delivered = heard.map .text ++ (reason.map .closed).toList ∧
      read = heard ++ unheard.toList ∧ (unheard ≠ none → p.deaf = true)

theorem queuedBy_of_finished (h : p.finished = true) (e : Happening) : p.queuedBy e = [] := by
  cases e <;> simp [queuedBy, h]

theorem readBy_of_finished (h : p.finished = true) (e : Happening) : p.readBy e = [] := by
  unfold readBy
  split <;> simp [h]

/-- A client listens until it no longer wants to, and never again. -/
theorem deaf_step_iff {e : Happening} :
    (p.step e).deaf = true ↔ p.deaf = true ∨ e = .deafen := by
  unfold step takeNext readMessage finish write
  repeat' split
  all_goals simp_all

/-- A step that is no end keeps a pump running. -/
theorem Running.step (h : p.Running queued read) {e : Happening} (hends : ¬p.Ends e) :
    (p.step e).Running (queued ++ p.queuedBy e) (read ++ p.readBy e) := by
  obtain ⟨hfinished, ⟨taken, hwritten, rfl⟩, hdelivered⟩ := h
  cases e with
  | offer frame =>
    cases hreleased : p.released <;>
      exact ⟨by simp [Pump.step, *], ⟨taken, by simp [Pump.step, queuedBy, *]⟩,
        by simp [Pump.step, readBy, *]⟩
  | release => exact ⟨hfinished, ⟨taken, hwritten, List.append_nil _⟩, by simpa [readBy]⟩
  | deafen => exact ⟨hfinished, ⟨taken, hwritten, List.append_nil _⟩, by simpa [readBy]⟩
  | take fault =>
    cases hqueue : p.queue with
    | nil =>
      have hkept : p.released = false :=
        Bool.eq_false_iff.2 fun hreleased => hends (.released hqueue hreleased fault)
      have hstep : p.step (.take fault) = p := by simp [Pump.step, takeNext, *]
      rw [hstep]
      exact ⟨hfinished, ⟨taken, hwritten, by simp [queuedBy, hqueue]⟩, by simpa [readBy]⟩
    | cons frame rest =>
      cases frame with
      | close code reason => exact absurd (.close hqueue fault) hends
      | text content =>
        cases fault with
        | some detail => exact absurd (.refused hqueue detail) hends
        | none =>
          refine ⟨?_, ⟨taken ++ [content], ?_, ?_⟩, ?_⟩
          all_goals simp [Pump.step, takeNext, Outgoing.isClose, write, SocketFrame.ofOutgoing,
            queuedBy, readBy, *]
  | read message =>
    cases message with
    | text content =>
      have hears : p.deaf = false :=
        Bool.eq_false_iff.2 fun hdeaf => hends (.unheard hdeaf content)
      refine ⟨?_, ⟨taken, ?_, ?_⟩, ?_⟩
      all_goals simp [Pump.step, readMessage, queuedBy, readBy, *]
    | other =>
      have hstep : p.step (.read .other) = p := by simp [Pump.step, readMessage]
      rw [hstep]
      exact ⟨hfinished, ⟨taken, hwritten, List.append_nil _⟩, by simpa [readBy]⟩
    | close frame => exact absurd (.closed frame) hends
    | failed detail => exact absurd (.failed detail) hends
    | ended => exact absurd .ended hends

/-- A close is written or not, and nothing is delivered. -/
theorem write_close (p : Pump) (frame : Option (UInt16 × String)) (fault : Option String) :
    (∃ close : Option (Option (UInt16 × String)),
      (p.write (.close frame) fault).written = p.written ++ (close.map .close).toList) ∧
      (p.write (.close frame) fault).delivered = p.delivered := by
  cases fault with
  | none => exact ⟨⟨some frame, rfl⟩, rfl⟩
  | some detail => exact ⟨⟨none, (List.append_nil _).symm⟩, rfl⟩

/-- A reason is delivered or not, and nothing is written. -/
theorem delivered_finish (p : Pump) (why : String) : ∃ reason : Option String,
    (p.finish why).delivered = p.delivered ++ (reason.map .closed).toList := by
  cases hdeaf : p.deaf with
  | true => exact ⟨none, by simp [finish, hdeaf]⟩
  | false => exact ⟨some why, by simp [finish, hdeaf]⟩

/-- What the step that sees an end does : at most a close is written and at most a reason
delivered, and only for want of a listener a text that was read is not delivered. -/
theorem step_of_ends (hfinished : p.finished = false) {e : Happening} (hends : p.Ends e) :
    (p.step e).finished = true ∧ p.queuedBy e = [] ∧
      (∃ close : Option (Option (UInt16 × String)),
        (p.step e).written = p.written ++ (close.map .close).toList) ∧
      (∃ reason : Option String,
        (p.step e).delivered = p.delivered ++ (reason.map .closed).toList) ∧
      ∃ unheard : Option String,
        p.readBy e = unheard.toList ∧ (unheard ≠ none → (p.step e).deaf = true) := by
  cases hends with
  | @close code reason rest hqueue fault =>
    obtain ⟨hwritten, hdelivered⟩ :=
      write_close { p with queue := rest } (some (code, reason)) fault
    have hstep : p.step (.take fault) = { (Pump.write { p with queue := rest }
        (.close (some (code, reason))) fault) with finished := true } := by
      simp [Pump.step, takeNext, hfinished, hqueue, Outgoing.isClose, SocketFrame.ofOutgoing]
    rw [hstep]
    exact ⟨rfl, rfl, hwritten, ⟨none, by simp [hdelivered]⟩, none, rfl, absurd rfl⟩
  | released hqueue hreleased fault =>
    obtain ⟨hwritten, hdelivered⟩ := write_close p none fault
    have hstep : p.step (.take fault) =
        { (p.write (.close none) fault) with finished := true } := by
      simp [Pump.step, takeNext, hfinished, hqueue, hreleased]
    rw [hstep]
    exact ⟨rfl, rfl, hwritten, ⟨none, by simp [hdelivered]⟩, none, rfl, absurd rfl⟩
  | @refused content rest hqueue detail =>
    have hstep : p.step (.take (some detail)) =
        ({ p with queue := rest } : Pump).finish ("send failed: " ++ detail) := by
      simp [Pump.step, takeNext, hfinished, hqueue, Outgoing.isClose]
    rw [hstep]
    exact ⟨rfl, rfl, ⟨none, (List.append_nil _).symm⟩, delivered_finish _ _, none, rfl, absurd rfl⟩
  | unheard hdeaf content =>
    have hstep : p.step (.read (.text content)) = { p with finished := true } := by
      simp [Pump.step, readMessage, hfinished, hdeaf]
    rw [hstep]
    exact ⟨rfl, rfl, ⟨none, (List.append_nil _).symm⟩, ⟨none, (List.append_nil _).symm⟩,
      some content, by simp [readBy, hfinished], fun _ => hdeaf⟩
  | closed frame =>
    simp only [Pump.step, hfinished, readMessage]
    exact ⟨rfl, rfl, ⟨none, (List.append_nil _).symm⟩, delivered_finish p _, none, rfl, absurd rfl⟩
  | failed detail =>
    simp only [Pump.step, hfinished, readMessage]
    exact ⟨rfl, rfl, ⟨none, (List.append_nil _).symm⟩, delivered_finish p _, none, rfl, absurd rfl⟩
  | ended =>
    simp only [Pump.step, hfinished, readMessage]
    exact ⟨rfl, rfl, ⟨none, (List.append_nil _).symm⟩, delivered_finish p _, none, rfl, absurd rfl⟩

/-- A step that sees an end is the last one. -/
theorem Running.over (h : p.Running queued read) {e : Happening} (hends : p.Ends e) :
    (p.step e).Over (queued ++ p.queuedBy e) (read ++ p.readBy e) := by
  obtain ⟨hfinished, ⟨taken, hwritten, rfl⟩, hdelivered⟩ := h
  obtain ⟨hover, hqueued, ⟨close, hclose⟩, ⟨reason, hreason⟩, unheard, hread, hdeaf⟩ :=
    step_of_ends hfinished hends
  rw [hqueued, List.append_nil, hread]
  exact ⟨hover, ⟨taken, close, p.queue, hwritten ▸ hclose, rfl⟩, read, reason, unheard,
    hdelivered ▸ hreason, rfl, hdeaf⟩

/-- Nothing happens to a pump that has ended. -/
theorem Over.step (h : p.Over queued read) (e : Happening) :
    (p.step e).Over (queued ++ p.queuedBy e) (read ++ p.readBy e) := by
  obtain ⟨hfinished, hwritten, heard, reason, unheard, hdelivered, hread, hdeaf⟩ := h
  obtain ⟨hsameWritten, hsameDelivered, hstill⟩ := step_of_finished hfinished e
  rw [queuedBy_of_finished hfinished, readBy_of_finished hfinished, List.append_nil,
    List.append_nil]
  exact ⟨hstill, hsameWritten ▸ hwritten, heard, reason, unheard, hsameDelivered ▸ hdelivered,
    hread, fun hsome => deaf_step_iff.2 (.inl (hdeaf hsome))⟩

/-! ## Whole runs -/

theorem running_start : start.Running [] [] :=
  ⟨rfl, ⟨[], rfl, rfl⟩, rfl⟩

theorem run_append (p : Pump) (before later : List Happening) :
    p.run (before ++ later) = (p.run before).run later :=
  List.foldl_append

theorem Over.run (h : p.Over queued read) (happenings : List Happening) :
    (p.run happenings).Over (queued ++ p.framesQueued happenings)
      (read ++ p.textsRead happenings) := by
  induction happenings generalizing p queued read with
  | nil => simpa [framesQueued, textsRead]
  | cons e rest ih =>
    rw [framesQueued, textsRead, ← List.append_assoc, ← List.append_assoc]
    exact ih (h.step e)

theorem not_seesEnd_nil (p : Pump) : ¬p.SeesEnd [] := by
  rintro ⟨before, e, later, heq, -⟩
  exact List.append_ne_nil_of_right_ne_nil before (List.cons_ne_nil e later) heq.symm

theorem seesEnd_cons {e : Happening} (hends : ¬p.Ends e) {rest : List Happening} :
    p.SeesEnd (e :: rest) ↔ (p.step e).SeesEnd rest := by
  constructor
  · rintro ⟨before, last, later, heq, hfinished, hlast⟩
    cases before with
    | nil =>
      cases heq
      exact absurd hlast hends
    | cons first before =>
      cases heq
      exact ⟨before, last, later, rfl, hfinished, hlast⟩
  · rintro ⟨before, last, later, rfl, hfinished, hlast⟩
    exact ⟨e :: before, last, later, rfl, hfinished, hlast⟩

/-- A pump runs until it sees an end, and has ended from then on. -/
theorem Running.run (h : p.Running queued read) (happenings : List Happening) :
    (¬p.SeesEnd happenings ∧ (p.run happenings).Running (queued ++ p.framesQueued happenings)
      (read ++ p.textsRead happenings)) ∨
    (p.SeesEnd happenings ∧ (p.run happenings).Over (queued ++ p.framesQueued happenings)
      (read ++ p.textsRead happenings)) := by
  induction happenings generalizing p queued read with
  | nil => exact .inl ⟨not_seesEnd_nil p, by simpa [framesQueued, textsRead]⟩
  | cons e rest ih =>
    rw [framesQueued, textsRead, ← List.append_assoc, ← List.append_assoc]
    by_cases hends : p.Ends e
    · exact .inr ⟨⟨[], e, rest, rfl, h.finished, hends⟩, (h.over hends).run rest⟩
    · rw [seesEnd_cons hends]
      exact ih (h.step hends)

/-- Who does not listen after some things happened wanted to, or did not before. -/
theorem deaf_of_run {happenings : List Happening} (h : (p.run happenings).deaf = true) :
    p.deaf = true ∨ .deafen ∈ happenings := by
  induction happenings generalizing p with
  | nil => exact .inl h
  | cons e rest ih =>
    rcases ih h with hdeaf | hmem
    · rcases deaf_step_iff.1 hdeaf with hdeaf | rfl
      · exact .inl hdeaf
      · exact .inr List.mem_cons_self
    · exact .inr (List.mem_cons_of_mem e hmem)

/-- Nothing is written and nothing delivered by a pump that has ended. -/
theorem run_of_finished (h : p.finished = true) (happenings : List Happening) :
    (p.run happenings).written = p.written ∧ (p.run happenings).delivered = p.delivered ∧
      (p.run happenings).finished = true := by
  induction happenings generalizing p with
  | nil => exact ⟨rfl, rfl, h⟩
  | cons e rest ih =>
    obtain ⟨hwritten, hdelivered, hfinished⟩ := step_of_finished h e
    obtain ⟨hwritten', hdelivered', hfinished'⟩ := ih hfinished
    exact ⟨hwritten'.trans hwritten, hdelivered'.trans hdelivered, hfinished'⟩

/-! ## What comes out -/

theorem filterMap_text?_outgoing (texts : List String) :
    (texts.map Outgoing.text).filterMap Outgoing.text? = texts := by
  rw [List.filterMap_map]
  exact List.filterMap_some

theorem filterMap_text?_frames (texts : List String) (close : Option (Option (UInt16 × String))) :
    (texts.map SocketFrame.text ++ (close.map SocketFrame.close).toList).filterMap
        SocketFrame.text? =
      texts := by
  rw [List.filterMap_append, List.filterMap_map]
  cases close <;> simp [Function.comp_def, SocketFrame.text?]

theorem filterMap_text?_incoming (texts : List String) (reason : Option String) :
    (texts.map Incoming.text ++ (reason.map Incoming.closed).toList).filterMap Incoming.text? =
      texts := by
  rw [List.filterMap_append, List.filterMap_map]
  cases reason <;> simp [Function.comp_def, Incoming.text?]

/-- What came out of a pump, of what went into it. -/
structure Carried (p : Pump) (queued : List Outgoing) (read : List String) : Prop where
  /-- The texts delivered are those that were read, but for the last one if nobody hears it. -/
  delivered : ∃ unheard : Option String,
    read = p.delivered.filterMap Incoming.text? ++ unheard.toList ∧
      (unheard ≠ none → p.deaf = true ∧ p.finished = true)
  /-- A reason is delivered once at most, and last. -/
  closed : ∃ reason : Option String, p.delivered =
    (p.delivered.filterMap Incoming.text?).map .text ++ (reason.map .closed).toList
  /-- The texts written are the first of those that were queued. -/
  written : p.written.filterMap SocketFrame.text? <+: queued.filterMap Outgoing.text?
  /-- The other frames wait in the queue as long as the pump runs. -/
  waiting : p.finished = false →
    queued = (p.written.filterMap SocketFrame.text?).map .text ++ p.queue

theorem Running.carried (h : p.Running queued read) : p.Carried queued read := by
  obtain ⟨hfinished, ⟨taken, hwritten, hqueued⟩, hdelivered⟩ := h
  have htaken : p.written.filterMap SocketFrame.text? = taken := by
    simpa [hwritten] using filterMap_text?_frames taken none
  have hread : p.delivered.filterMap Incoming.text? = read := by
    simpa [hdelivered] using filterMap_text?_incoming read none
  have hclosed : p.delivered = (p.delivered.filterMap Incoming.text?).map .text ++ [] := by
    rw [hread, hdelivered, List.append_nil]
  refine ⟨⟨none, by simp [hread], absurd rfl⟩, ⟨none, hclosed⟩, ?_, fun _ => ?_⟩
  · rw [htaken, hqueued, List.filterMap_append, filterMap_text?_outgoing]
    exact List.prefix_append _ _
  · rw [htaken, hqueued]

theorem Over.carried (h : p.Over queued read) : p.Carried queued read := by
  obtain ⟨hfinished, ⟨taken, close, rest, hwritten, hqueued⟩,
    heard, reason, unheard, hdelivered, hread, hdeaf⟩ := h
  have htaken : p.written.filterMap SocketFrame.text? = taken := by
    rw [hwritten, filterMap_text?_frames]
  have hheard : p.delivered.filterMap Incoming.text? = heard := by
    rw [hdelivered, filterMap_text?_incoming]
  refine ⟨⟨unheard, by rw [hheard, hread], fun hsome => ⟨hdeaf hsome, hfinished⟩⟩,
    ⟨reason, by rw [hheard, hdelivered]⟩, ?_, fun hnot => ?_⟩
  · rw [htaken, hqueued, List.filterMap_append, filterMap_text?_outgoing]
    exact List.prefix_append _ _
  · exact absurd hfinished (by simp [hnot])

/-- A frame that ends something is in what a running pump carries nowhere. -/
theorem Running.not_mem (h : p.Running queued read) :
    (∀ frame, .close frame ∉ p.written) ∧ ∀ reason, .closed reason ∉ p.delivered := by
  obtain ⟨-, ⟨taken, hwritten, -⟩, hdelivered⟩ := h
  rw [hwritten, hdelivered]
  constructor <;> simp

/-- Whatever happens to a pump, and in whichever order : what it writes and delivers is what
was queued and read, in its order, all that was read if the client listens, and a reason comes
once and last. The pump has ended if and
only if it saw an end, and it has then if a close is written or a reason delivered; after that
nothing is written and nothing delivered any more. -/
theorem carried_of_run (happenings : List Happening) :
    let p := start.run happenings
    p.Carried (start.framesQueued happenings) (start.textsRead happenings) ∧
      (.deafen ∉ happenings →
        p.delivered.filterMap Incoming.text? = start.textsRead happenings) ∧
      (p.finished = true ↔ start.SeesEnd happenings) ∧
      ((∃ frame, .close frame ∈ p.written) ∨ (∃ reason, .closed reason ∈ p.delivered) →
        p.finished = true) ∧
      (p.finished = true → ∀ later : List Happening,
        (start.run (happenings ++ later)).written = p.written ∧
          (start.run (happenings ++ later)).delivered = p.delivered ∧
          (start.run (happenings ++ later)).finished = true) := by
  intro p
  have hcarried : p.Carried (start.framesQueued happenings) (start.textsRead happenings) := by
    obtain ⟨-, hrunning⟩ | ⟨-, hover⟩ := running_start.run happenings
    · exact hrunning.carried
    · exact hover.carried
  refine ⟨hcarried, fun hheard => ?_, ?_, ?_, fun hfinished later => ?_⟩
  · obtain ⟨unheard, hread, hdeaf⟩ := hcarried.delivered
    cases unheard with
    | none => rw [hread, Option.toList_none, List.append_nil]
    | some text =>
      rcases deaf_of_run (hdeaf (Option.some_ne_none text)).1 with hstart | hmem
      · cases hstart
      · exact absurd hmem hheard
  · obtain ⟨hnot, hrunning⟩ | ⟨hsees, hover⟩ := running_start.run happenings
    · exact iff_of_false (by simp [p, hrunning.finished]) hnot
    · exact iff_of_true hover.finished hsees
  · obtain ⟨-, hrunning⟩ | ⟨-, hover⟩ := running_start.run happenings
    · obtain ⟨hclose, hclosed⟩ := hrunning.not_mem
      rintro (⟨frame, hframe⟩ | ⟨reason, hreason⟩)
      · exact absurd hframe (hclose frame)
      · exact absurd hreason (hclosed reason)
    · exact fun _ => hover.finished
  · rw [run_append]
    exact run_of_finished hfinished later

/-- The socket takes one text and refuses the next : the reason is delivered after what was
read before, what comes later is not delivered, and nothing is written any more. -/
theorem carried_of_run_refused :
    let happenings : List Happening := [.offer (.text "a"), .read (.text "x"), .take none,
      .offer (.text "b"), .read .other, .take (some "reset"), .read (.text "y")]
    let p := start.run happenings
    p.written = [.text "a"] ∧ p.delivered = [.text "x", .closed "send failed: reset"] ∧
      p.delivered.filterMap Incoming.text? = start.textsRead happenings ∧
      start.SeesEnd happenings ∧
      ∀ later : List Happening, (start.run (happenings ++ later)).written = p.written ∧
        (start.run (happenings ++ later)).delivered = p.delivered := by
  intro happenings p
  obtain ⟨-, hheard, hsees, hends, hover⟩ := carried_of_run happenings
  have hwritten : p.written = [.text "a"] := by decide +kernel
  have hdelivered : p.delivered = [.text "x", .closed "send failed: reset"] := by decide +kernel
  have hfinished : p.finished = true := by
    refine hends (.inr ⟨"send failed: reset", ?_⟩)
    rw [hdelivered]
    exact List.mem_cons_of_mem _ List.mem_cons_self
  refine ⟨hwritten, hdelivered, hheard (by decide +kernel), hsees.1 hfinished, fun later => ?_⟩
  obtain ⟨hsameWritten, hsameDelivered, -⟩ := hover hfinished later
  exact ⟨hsameWritten, hsameDelivered⟩

end Pump

end RemoteSession
