import RemoteSession.Proofs.Session.Scenes
import RemoteSession.Proofs.Stream.Framing
import RemoteSession.Terminal.Display

/-!
# Lines are echoed when they are delivered

A line goes through three hands : it is composed, its message is handed to the connection, and
its echo is put on the timeline and shown. Either all of this is done, each once, or none of it
(`SessionView.Utters`). So a line is on the timeline exactly when it was delivered, whatever the
view and its connection were, and a line that was not leaves no trace
(`SessionView.echoed_iff_delivered`).

The parts of a call follow each other, but the runs of the client go on in between. What is
owed to the timeline is then among the parts that are left (`Stage.owed`), and once no call is
going on the lines that were delivered are those that were echoed, in their order
(`Stage.echoes_of_rest`).
-/

namespace RemoteSession

namespace Client

variable {c : Client} {m : Message}

/-- A message is taken exactly when the client is connected and its connection takes frames. -/
theorem snd_send (c : Client) (m : Message) :
    (c.send m).2 = (c.state.isConnected && c.outbound.any c.accepts) := by
  unfold send
  cases c.state.isConnected <;> cases c.outbound <;> rfl

end Client

namespace SessionView

variable {σ : Type} (v : SessionView σ)

/-- The line of a text, for the engine of the session and in the mode of the view. -/
def line? (text : String) : Option Composer.Line :=
  Composer.line? text ((v.session.map SessionMeta.engine).getD "") v.rawMode

/-- The item that echoes a line. -/
def echo (line : Composer.Line) (tsMs : Int64) : Timeline.Item :=
  ⟨.user, tsMs, v.system.client.gate.cursor, line.echo⟩

/-- The view with what its connections were handed and one item more. -/
def uttering (links : List Link) (item : Timeline.Item) : SessionView σ :=
  { v with
    system := { v.system with client := { v.system.client with links := links } }
    timeline := v.timeline.pushItem item }

/-- The two ways in which a line is sent: its message is handed to the current connection and
its echo is shown, or nothing happens. -/
inductive Utters (text : String) (tsMs : Int64) :
    SessionView σ × Bool × List ViewNotice → Prop where
  | echoed (line : Composer.Line) (link : Nat) (links : List Link) : v.line? text = some line →
    v.system.client.outbound = some link →
    v.system.client.Hands { v.system.client with links := links } link
      [.ofMessage line.message] →
    Utters text tsMs
      (v.uttering links (v.echo line tsMs), true, [.change (.appended (v.echo line tsMs))])
  | refused : Utters text tsMs (v, false, [])

variable {v}

theorem sendLine_of_none {text : String} (h : v.line? text = none) (tsMs : Int64) :
    v.sendLine text tsMs = (v, false, []) := by
  rw [line?] at h
  simp only [sendLine, h]

theorem sendLine_of_some {text : String} {line : Composer.Line} (h : v.line? text = some line)
    (tsMs : Int64) : v.sendLine text tsMs =
      if (v.send line.message).2 then
        let (timeline, change) := (v.send line.message).1.timeline.recordLocalInput line.echo
          (v.send line.message).1.system.client.gate.cursor tsMs
        ({ (v.send line.message).1 with timeline := timeline }, true, [.change change])
      else ((v.send line.message).1, false, []) := by
  rw [line?] at h
  simp only [sendLine, h]

variable (v)

theorem utters (text : String) (tsMs : Int64) : v.Utters text tsMs (v.sendLine text tsMs) := by
  cases hline : v.line? text with
  | none =>
    rw [sendLine_of_none hline]
    exact .refused
  | some line =>
    have hsends := v.system.client.sends line.message
    rw [sendLine_of_some hline, send]
    generalize v.system.client.send line.message = sent at hsends ⊢
    cases hsends with
    | taken link links hlink _ hhands => exact .echoed line link links hline hlink hhands
    | refused => exact .refused

variable {v} {text : String} {tsMs : Int64} {out : SessionView σ × Bool × List ViewNotice}

theorem Utters.delivered_iff (h : v.Utters text tsMs out) :
    out.2.1 = true ↔ ∃ link line, v.system.client.outbound = some link ∧
      v.line? text = some line ∧
      v.system.client.Hands out.1.system.client link [.ofMessage line.message] := by
  cases h with
  | echoed line link links hline hlink hhands =>
    exact ⟨fun _ => ⟨link, line, hlink, hline, hhands⟩, fun _ => rfl⟩
  | refused =>
    refine ⟨nofun, ?_⟩
    rintro ⟨link, line, -, -, hhands⟩
    simpa using hhands.self

theorem Utters.shown (h : v.Utters text tsMs out) (htaken : out.2.1 = true) :
    ∃ line links, v.line? text = some line ∧ out.1 = v.uttering links (v.echo line tsMs) ∧
      out.2.2 = [.change (.appended (v.echo line tsMs))] := by
  cases h with
  | echoed line link links hline => exact ⟨line, links, hline, rfl, rfl⟩
  | refused => cases htaken

theorem Utters.unchanged (h : v.Utters text tsMs out) (hrefused : out.2.1 = false) :
    out.1 = v ∧ out.2.2 = [] := by
  cases h with
  | echoed => cases hrefused
  | refused => exact ⟨rfl, rfl⟩

variable (v)

/-- A line is sent when its text is not blank and the connection takes frames. -/
theorem sent_eq (text : String) (tsMs : Int64) :
    (v.sendLine text tsMs).2.1 = ((v.line? text).isSome &&
      (v.system.client.state.isConnected &&
        v.system.client.outbound.any v.system.client.accepts)) := by
  cases hline : v.line? text with
  | none =>
    rw [sendLine_of_none hline]
    rfl
  | some line =>
    rw [sendLine_of_some hline, send, ← v.system.client.snd_send line.message]
    cases (v.system.client.send line.message).2 <;> rfl

/-- Whatever is attached, connected and to be sent: a line is sent exactly when its text is not
blank and the connection takes frames, which is exactly when its message is handed once to the
current connection and nothing to any other. Then one item is put on the timeline, the echo of
the line with the cursor of the client, and that change and no other is told, while nothing
else changes but what the connection was handed. When it is not sent the view is as it was and
nothing is told, so that no terminal shows anything. -/
theorem echoed_iff_delivered (text : String) (tsMs : Int64) :
    let c := v.system.client
    let out := v.sendLine text tsMs
    (out.2.1 = true ↔ ∃ link line, c.outbound = some link ∧ v.line? text = some line ∧
      c.Hands out.1.system.client link [.ofMessage line.message]) ∧
    out.2.1 = ((v.line? text).isSome && (c.state.isConnected && c.outbound.any c.accepts)) ∧
    (out.2.1 = true → ∃ line links, v.line? text = some line ∧
      out.1 = { v with
        system := { v.system with client := { c with links := links } }
        timeline := { v.timeline with
          items := Timeline.keepLast v.timeline.config.maxItems
            (v.timeline.items ++ [⟨.user, tsMs, c.gate.cursor, line.echo⟩]) } } ∧
      out.2.2 = [.change (.appended ⟨.user, tsMs, c.gate.cursor, line.echo⟩)]) ∧
    (out.2.1 = false → out.1 = v ∧ out.2.2 = [] ∧
      ∀ sink : Terminal.Sink, sink.hearAll out.2.2 = (sink, "")) := by
  intro c out
  have hutters : v.Utters text tsMs out := v.utters text tsMs
  refine ⟨hutters.delivered_iff, v.sent_eq text tsMs, hutters.shown, fun hrefused => ?_⟩
  obtain ⟨hview, hnotices⟩ := hutters.unchanged hrefused
  exact ⟨hview, hnotices, fun sink => by rw [hnotices]; rfl⟩

end SessionView

/-! ## In parts -/

/-- The echo that a part of a call is to put on the timeline. -/
def Part.echo? : Part → Option String
  | .mark echo _ => some echo
  | .record echo _ _ => some echo
  | _ => none

/-- The echoes among some entries, in order. -/
def Entry.echoes (entries : List Entry) : List String :=
  entries.filterMap fun
    | .echo text _ _ => some text
    | _ => none

namespace Stage

variable {σ : Type} (service : CursorService σ)

/-- The echoes that the parts that are left are to put on the timeline. -/
def owed (p : Stage σ) : List String :=
  p.rest.filterMap Part.echo?

/-- The echo of a line that is delivered in a turn. -/
def delivered (p : Stage σ) : Turn → List String
  | .go =>
    match p.rest with
    | .say line _ :: _ => if (p.view.send line.message).2 then [line.echo] else []
    | _ => []
  | .act _ => []

/-- The echoes of the lines that are delivered in some turns, in order. -/
def deliveredAll (p : Stage σ) : List Turn → List String
  | [] => []
  | turn :: rest => p.delivered turn ++ (p.step service turn).deliveredAll rest

variable {service} {p : Stage σ} {limits : Timeline.Config} {scene : Scene}

theorem owed_parts (v : SessionView σ) (a : ViewAction) :
    (Stage.mk v (v.parts service a)).owed = [] := by
  cases a with
  | line text tsMs =>
    simp only [owed, SessionView.parts]
    cases Composer.line? text ((v.session.map SessionMeta.engine).getD "") v.rawMode <;> rfl
  | keys octets =>
    simp only [owed, SessionView.parts]
    cases Composer.keystrokes? octets <;> rfl
  | _ => rfl

theorem echoes_acceptances (v : SessionView σ) (a : Action) :
    Entry.echoes (v.acceptances a) = [] := by
  cases a with
  | wake g w => simp [SessionView.acceptances, Entry.echoes, List.filterMap_map]
  | _ => rfl

/-- What is echoed in a turn was owed, and what is delivered is owed then. -/
theorem echoes_step (service : CursorService σ) (hp : p.view.Pending p.rest) (turn : Turn) :
    Entry.echoes (p.entries turn) ++ (p.step service turn).owed =
      p.owed ++ p.delivered turn := by
  obtain ⟨v, rest⟩ := p
  cases turn with
  | go =>
    cases hp with
    | last part halone =>
      cases part with
      | say line tsMs =>
        simp only [entries, step, SessionView.perform, SessionView.entries, owed, delivered]
        cases (v.send line.message).2 <;> rfl
      | _ => first | rfl | cases halone
    | blank =>
      simp only [entries, step, SessionView.perform, SessionView.entries, owed, delivered]
      cases v.session <;> rfl
    | _ => rfl
  | act b =>
    cases hown : b.own? with
    | some own =>
      simp only [entries, step, hown, echoes_acceptances, delivered, List.append_nil]
      rfl
    | none =>
      simp only [entries, step, hown, delivered, List.append_nil]
      cases rest with
      | nil => exact owed_parts v b
      | cons part rest => rfl

theorem echoes_run (service : CursorService σ) (hv : p.view.Shows limits scene)
    (hp : p.view.Pending p.rest) (turns : List Turn) :
    Entry.echoes (p.log service turns) ++ (p.after service turns).owed =
      p.owed ++ p.deliveredAll service turns := by
  induction turns generalizing p scene with
  | nil => exact (List.append_nil _).symm
  | cons turn rest ih =>
    obtain ⟨hview, hpending⟩ := shows_step service hv hp turn
    have hstep := echoes_step service hp turn
    have hrest := ih hview hpending
    calc Entry.echoes (p.log service (turn :: rest)) ++ (p.after service (turn :: rest)).owed
        = Entry.echoes (p.entries turn) ++ (Entry.echoes ((p.step service turn).log service rest) ++
            ((p.step service turn).after service rest).owed) := by
          rw [log, Entry.echoes, List.filterMap_append, List.append_assoc]
          rfl
      _ = p.owed ++ p.deliveredAll service (turn :: rest) := by
          rw [hrest, ← List.append_assoc, hstep, List.append_assoc, deliveredAll]

/-- Whatever the runs of the client do between the parts of calls: when no call is going on the
lines that were delivered are those that were echoed, in their order. -/
theorem echoes_of_rest (service : CursorService σ) (endpoint : Endpoint) (config : StreamConfig)
    (limits : Timeline.Config) (cursors : σ) (turns : List Turn) :
    let start := new endpoint config limits cursors
    (start.after service turns).rest = [] →
      Entry.echoes (start.log service turns) = start.deliveredAll service turns := by
  intro start hrest
  have hv : start.view.Shows limits .blank := .new endpoint config limits cursors
  have hrun := echoes_run service hv .done turns
  rwa [owed, hrest, List.filterMap_nil, List.append_nil] at hrun

end Stage

end RemoteSession
