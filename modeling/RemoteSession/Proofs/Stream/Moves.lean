import RemoteSession.Stream.Client

/-!
# Moves of a run

What calls and runs do to a client, each said once. A call leaves the connections
as many as they were and otherwise sets the fields that its equation names
(`attach_eq`, `stop_eq`, `supersede_eq`, `send_eq`, `setViewport_eq`).

While a run of the current generation waits, the client shows what the run waits
for (`Client.Fits`). Such a run has nine moves (`Client.Move`), and a wake makes it
take the one that belongs to what it waits for (`Client.move_wake`). A run of another
generation at most closes a connection that it has just opened
(`Client.wake_of_not_isCurrent`).
-/

namespace RemoteSession

namespace Run

/-- Whether a run waits for what wakes it. -/
def awaits (r : Run) (w : Wake) : Bool :=
  match r.wait, w with
  | .start, .start => true
  | .ticket, .ticket _ => true
  | .opening, .opened _ => true
  | .frames _, .incoming _ => true
  | .delay _, .elapsed => true
  | _, _ => false

/-- The reason of a failure, when what wakes a run is one: no ticket, no connection,
or the end of its connection. -/
def failure? (r : Run) (w : Wake) : Option String :=
  match r.wait, w with
  | .ticket, .ticket (.error detail) => some (Client.ticketFailure detail)
  | .opening, .opened (.error e) => some e.message
  | .frames _, .incoming (some (.closed reason)) => some reason
  | .frames _, .incoming none => some Client.droppedReason
  | _, _ => none

/-- The failures before this one, none for a run that had a connection. -/
def failures (r : Run) : Nat :=
  match r.wait with
  | .frames _ => 0
  | _ => r.attempt

theorem awaits_of_failure? {r : Run} {w : Wake} {reason : String}
    (h : r.failure? w = some reason) : r.awaits w = true := by
  unfold failure? at h
  unfold awaits
  split at h <;> simp_all

end Run

/-- A connection that was offered some frames when it opened. -/
def Link.offered (accepts : Bool) (frames : List Outgoing) : Link :=
  ⟨if accepts then frames else [], accepts⟩

namespace Client

/-! ## Parts of calls -/

variable (c : Client)

theorem fst_setState (state : ConnectionState) :
    (c.setState state).1 = { c with state := state } := by
  unfold setState
  split
  · next h => rw [← h]
  · rfl

theorem snd_setState (state : ConnectionState) :
    (c.setState state).2 = if c.state = state then [] else [.state state] := by
  unfold setState
  split <;> rfl

/-- A frame handed over changes no connection's number. -/
theorem handOver_eq (link : Nat) (frame : Outgoing) : ∃ links : List Link,
    links.length = c.links.length ∧ c.handOver link frame = { c with links := links } := by
  unfold handOver
  split
  · exact ⟨_, List.length_modify .., rfl⟩
  · exact ⟨c.links, rfl, rfl⟩

/-- A connection that has just opened takes what it is handed, unless it takes no frames. -/
theorem handOver_opened (accepts : Bool) {links : List Link}
    (h : c.links = links ++ [Link.opened accepts]) (frame : Outgoing) :
    c.handOver links.length frame =
      { c with links := links ++ [Link.offered accepts [frame]] } := by
  unfold handOver Client.accepts
  cases accepts with
  | true =>
    have hlt : links.length < (links ++ [Link.opened true]).length := by simp
    rw [h, List.modify_eq_take_cons_drop hlt]
    simp [Link.opened, Link.offered]
  | false =>
    have hsame : links ++ [Link.offered false [frame]] = c.links := h.symm
    rw [hsame]
    exact if_neg (by simp [h, Link.opened])

theorem shutdown_eq (reason : String) : ∃ links : List Link,
    links.length = c.links.length ∧
      c.shutdown reason = { c with outbound := none, links := links } := by
  unfold shutdown
  split
  · next h => exact ⟨c.links, rfl, by rw [← h]⟩
  · next link _ =>
    obtain ⟨links, hlen, heq⟩ := c.handOver_eq link (.normalClose reason)
    exact ⟨links, hlen, by rw [heq]⟩

/-! ## Calls -/

theorem attach_eq (session : String) (cursor : UInt64) : ∃ links : List Link,
    links.length = c.links.length ∧
      (c.attach session cursor).1 =
        { c with
          generation := c.generation + 1, session := some session, gate := ⟨cursor⟩
          state := .connecting, outbound := none, lastError := none, links := links } ∧
      (c.attach session cursor).2 = if c.state = .connecting then [] else [.state .connecting] := by
  obtain ⟨links, hlen, heq⟩ :=
    shutdown_eq { c with generation := c.generation + 1 } reattachReason
  refine ⟨links, hlen, ?_, ?_⟩ <;> unfold attach
  · simp only [heq, fst_setState]
  · simp only [heq, snd_setState]

theorem stop_eq : ∃ links : List Link,
    links.length = c.links.length ∧
      c.stop.1 =
        { c with
          generation := c.generation + 1, outbound := none, links := links
          state := if c.state.isClosed then c.state else .closed stoppedReason } ∧
      c.stop.2 = if c.state.isClosed then [] else [.state (.closed stoppedReason)] := by
  obtain ⟨links, hlen, heq⟩ := shutdown_eq { c with generation := c.generation + 1 } stopReason
  refine ⟨links, hlen, ?_⟩
  unfold stop
  simp only [heq]
  by_cases hc : c.state.isClosed
  · simp [hc]
  · have hne : c.state ≠ .closed stoppedReason := fun h => hc (by rw [h]; rfl)
    simp [hc, fst_setState, snd_setState, hne]

theorem supersede_eq : ∃ links : List Link,
    links.length = c.links.length ∧
      c.supersede =
        { c with generation := c.generation + 1, outbound := none, links := links } := by
  obtain ⟨links, hlen, heq⟩ :=
    shutdown_eq { c with generation := c.generation + 1 } reattachReason
  exact ⟨links, hlen, by unfold supersede; rw [heq]⟩

theorem send_eq (m : Message) : ∃ links : List Link,
    links.length = c.links.length ∧ (c.send m).1 = { c with links := links } := by
  unfold send
  split
  · exact c.handOver_eq _ _
  · exact ⟨c.links, rfl, rfl⟩

theorem setViewport_eq (cols rows : UInt16) : ∃ links : List Link,
    links.length = c.links.length ∧
      (c.setViewport cols rows).1 = { c with viewport := some (cols, rows), links := links } := by
  unfold setViewport
  exact send_eq { c with viewport := some (cols, rows) } (.resize cols rows)

/-! ## Moves of the current run -/

/-- The client shows what a run of its generation waits for. -/
def Fits (r : Run) : Prop :=
  c.session = some r.session ∧
    match r.wait with
    | .start => c.outbound = none ∧ c.state = .connecting ∧ r.attempt = 0
    | .ticket => c.outbound = none ∧ c.state = attemptState r.attempt
    | .opening => c.outbound = none ∧ c.state = attemptState r.attempt
    | .frames link => c.outbound = some link ∧ c.state = .connected ∧ link < c.links.length
    | .delay ms =>
      c.outbound = none ∧ c.state = .reconnecting (nextAttempt r.attempt) ∧
        ms = c.config.backoff.delay r.attempt

/-- What a new connection is offered first: the size of the terminal, if it is known. -/
def greeting : List Outgoing :=
  match c.viewport with
  | some (cols, rows) => [.ofMessage (.resize cols rows)]
  | none => []

/-- The client with a new connection. -/
def connected (accepts : Bool) : Client :=
  { c with
    links := c.links ++ [Link.offered accepts c.greeting], outbound := some c.links.length
    lastError := none, state := .connected }

/-- The client after a failure, before the attempt of this number. -/
def failed (reason : String) (next : Nat) : Client :=
  { c with outbound := none, lastError := some reason, state := .reconnecting next }

/-- The client after the last event of a session. -/
def exited (link : Nat) (e : Event) : Client :=
  { c with gate := ⟨e.seq⟩, outbound := none, state := .closed exitedReason }.handOver link
    (.normalClose exitedReason)

theorem exited_eq (link : Nat) (e : Event) : ∃ links : List Link,
    links.length = c.links.length ∧
      c.exited link e =
        { c with
          gate := ⟨e.seq⟩, outbound := none, state := .closed exitedReason, links := links } :=
  handOver_eq { c with gate := ⟨e.seq⟩, outbound := none, state := .closed exitedReason } link
    (.normalClose exitedReason)

/-- The moves of a run of the current generation, by what wakes it. -/
inductive Move (r : Run) : Wake → Step → Prop where
  /-- It goes on waiting for something else. -/
  | rest (w : Wake) : r.awaits w = false → Move r w ⟨c, some r, []⟩
  | start : r.wait = .start → Move r .start ⟨c, some { r with wait := .ticket }, [.ticketRequest]⟩
  | retry (ms : Nat) : r.wait = .delay ms →
    Move r .elapsed
      ⟨c, some { r with attempt := nextAttempt r.attempt, wait := .ticket }, [.ticketRequest]⟩
  | open (ticket : String) : r.wait = .ticket →
    Move r (.ticket (.ok ticket))
      ⟨c, some { r with wait := .opening },
        [.opening (c.endpoint.streamUrl r.session ticket
          (Resume.ofCursor c.gate.cursor c.config.tailLen))]⟩
  | connect (accepts : Bool) : r.wait = .opening →
    Move r (.opened (.ok accepts))
      ⟨c.connected accepts, some { r with wait := .frames c.links.length }, [.state .connected]⟩
  | lose (w : Wake) (reason : String) : r.failure? w = some reason →
    Move r w
      ⟨c.failed reason (nextAttempt r.failures),
        some { r with
          attempt := r.failures, wait := .delay (c.config.backoff.delay r.failures) },
        (c.setState (.reconnecting (nextAttempt r.failures))).2⟩
  | pass (link : Nat) (content : String) : r.wait = .frames link →
    (∀ e, Event.decode? content = some e → e.seq ≤ c.gate.cursor) →
    Move r (.incoming (some (.text content))) ⟨c, some r, []⟩
  | tell (link : Nat) (content : String) (e : Event) : r.wait = .frames link →
    Event.decode? content = some e → c.gate.cursor < e.seq → e.body.isTerminal = false →
    Move r (.incoming (some (.text content)))
      ⟨{ c with gate := ⟨e.seq⟩ }, some r, [.persist r.session e.seq, .event e]⟩
  | exit (link : Nat) (content : String) (e : Event) : r.wait = .frames link →
    Event.decode? content = some e → c.gate.cursor < e.seq → e.body.isTerminal = true →
    Move r (.incoming (some (.text content)))
      ⟨c.exited link e, none,
        [.persist r.session e.seq, .event e, .state (.closed exitedReason)]⟩

variable {c} {r : Run}

/-- What becomes of connections, while there are no fewer, is nothing that a run waits for. -/
theorem Fits.of_links (hf : c.Fits r) {links : List Link}
    (hlen : c.links.length ≤ links.length) (viewport : Option (UInt16 × UInt16)) :
    Fits { c with links := links, viewport := viewport } r := by
  obtain ⟨hsession, hf⟩ := hf
  refine ⟨hsession, ?_⟩
  cases hw : r.wait with
  | frames link =>
    rw [hw] at hf
    exact ⟨hf.1, hf.2.1, Nat.lt_of_lt_of_le hf.2.2 hlen⟩
  | _ =>
    rw [hw] at hf
    exact hf

/-- A client that shows what a run waits for is at work. -/
theorem Fits.state_eq (hf : c.Fits r) :
    c.state = .connecting ∨ c.state = .connected ∨ ∃ k, c.state = .reconnecting k := by
  obtain ⟨-, hf⟩ := hf
  have hattempt : attemptState r.attempt = .connecting ∨
      ∃ k, attemptState r.attempt = .reconnecting k := by
    unfold attemptState
    split
    · exact .inl rfl
    · exact .inr ⟨_, rfl⟩
  cases hw : r.wait with
  | start =>
    rw [hw] at hf
    exact .inl hf.2.1
  | ticket =>
    rw [hw] at hf
    exact hf.2 ▸ hattempt.imp_right .inr
  | opening =>
    rw [hw] at hf
    exact hf.2 ▸ hattempt.imp_right .inr
  | frames link =>
    rw [hw] at hf
    exact .inr (.inl hf.2.1)
  | delay ms =>
    rw [hw] at hf
    exact .inr (.inr ⟨_, hf.2.1⟩)

/-- A client that shows what a run waits for is not closed. -/
theorem Fits.not_isClosed (hf : c.Fits r) : c.state.isClosed = false := by
  rcases hf.state_eq with h | h | ⟨k, h⟩ <;>
  · rw [h]
    rfl

theorem attemptState_nextAttempt (n : Nat) :
    attemptState (nextAttempt n) = .reconnecting (nextAttempt n) := by
  have hne : nextAttempt n ≠ 0 := by
    unfold nextAttempt greatestAttempt
    omega
  simp [attemptState, hne]

theorem beginAttempt_of_state (hr : c.isCurrent r = true) (hs : c.state = attemptState r.attempt) :
    c.beginAttempt r = ⟨c, some { r with wait := .ticket }, [.ticketRequest]⟩ := by
  simp [beginAttempt, hr, setState, hs]

theorem lose_of_isCurrent (hr : c.isCurrent r = true) (reason : String) :
    c.lose r reason =
      ⟨c.failed reason (nextAttempt r.attempt),
        some { r with wait := .delay (c.config.backoff.delay r.attempt) },
        (c.setState (.reconnecting (nextAttempt r.attempt))).2⟩ := by
  simp [lose, hr, failed, fst_setState, snd_setState]

theorem connect_of_isCurrent (hr : c.isCurrent r = true) (hs : c.state ≠ .connected)
    (accepts : Bool) :
    c.connect r accepts =
      ⟨c.connected accepts, some { r with wait := .frames c.links.length },
        [.state .connected]⟩ := by
  have hg : c.generation = r.generation := by simpa [isCurrent] using hr
  cases hv : c.viewport with
  | none =>
    simp [connect, isCurrent, hg, setState, hs, connected, greeting, hv, Link.opened, Link.offered]
  | some size =>
    simp [connect, isCurrent, hg, setState, hs, connected, greeting, hv, send,
      handOver_opened _ accepts, ConnectionState.isConnected]

theorem receive_of_isCurrent (hr : c.isCurrent r = true) {link : Nat} (hw : r.wait = .frames link)
    (hs : c.state = .connected) (content : String) :
    Move c r (.incoming (some (.text content))) (c.receive r link content) := by
  unfold receive Gate.offerFrame
  rw [if_pos hr]
  cases hd : Event.decode? content with
  | none => exact .pass link content hw (by simp [hd])
  | some e =>
    by_cases hle : e.seq ≤ c.gate.cursor
    · simp only [Gate.offer, hle, if_true]
      exact .pass link content hw fun e' he' => by
        rw [hd, Option.some.injEq] at he'
        exact he' ▸ hle
    · have hlt : c.gate.cursor < e.seq := UInt64.not_le.1 hle
      simp only [Gate.offer, hle, if_false, accept]
      cases ht : e.body.isTerminal with
      | false => exact .tell link content e hw hd hlt ht
      | true =>
        have hne : ConnectionState.connected ≠ .closed exitedReason := nofun
        simpa [setState, hs, hne, exited] using Move.exit link content e hw hd hlt ht

/-- A failure makes a run lose its connection, or what was to become one. -/
theorem wake_of_failure? {w : Wake} {reason : String} (h : r.failure? w = some reason) :
    c.wake r w = c.lose { r with attempt := r.failures } reason := by
  obtain ⟨generation, session, attempt, wait⟩ := r
  unfold Run.failure? at h
  split at h <;> simp_all [wake, Run.failures]

/-- A wake that a run does not wait for changes nothing. -/
theorem wake_of_not_awaits {w : Wake} (h : r.awaits w = false) : c.wake r w = ⟨c, some r, []⟩ := by
  unfold Run.awaits at h
  unfold wake
  split at h <;> simp_all

/-- A wake makes a run of the current generation take one of its moves. -/
theorem move_wake (hr : c.isCurrent r = true) (hf : c.Fits r) (w : Wake) :
    Move c r w (c.wake r w) := by
  cases ha : r.awaits w with
  | false =>
    rw [wake_of_not_awaits ha]
    exact .rest w ha
  | true =>
  cases hl : r.failure? w with
  | some reason =>
    rw [wake_of_failure? hl, lose_of_isCurrent (r := { r with attempt := r.failures }) hr]
    exact .lose w reason hl
  | none =>
  obtain ⟨-, hf⟩ := hf
  -- What is left are the wakes that a run waits for and that are no failures.
  unfold Run.awaits at ha
  split at ha
  · next hw =>
    rw [hw] at hf
    have hs : c.state = attemptState r.attempt := by rw [hf.2.1, hf.2.2]; rfl
    have heq : c.wake r .start = c.beginAttempt r := by simp [wake, hw]
    rw [heq, beginAttempt_of_state hr hs]
    exact .start hw
  · next result hw =>
    cases result with
    | error detail => simp [Run.failure?, hw] at hl
    | ok ticket => simpa [wake, hw, openStream, hr] using Move.open ticket hw
  · next result hw =>
    cases result with
    | error e => simp [Run.failure?, hw] at hl
    | ok accepts =>
      rw [hw] at hf
      have hs : c.state ≠ .connected := by
        rw [hf.2, attemptState]
        split <;> simp
      have heq : c.wake r (.opened (.ok accepts)) = c.connect r accepts := by simp [wake, hw]
      rw [heq, connect_of_isCurrent hr hs]
      exact .connect accepts hw
  · next link frame hw =>
    rw [hw] at hf
    rcases frame with _ | ⟨content | reason⟩
    · simp [Run.failure?, hw] at hl
    · have heq : c.wake r (.incoming (some (.text content))) = c.receive r link content := by
        simp [wake, hw]
      rw [heq]
      exact receive_of_isCurrent hr hw hf.2.1 content
    · simp [Run.failure?, hw] at hl
  · next ms hw =>
    rw [hw] at hf
    have hs : c.state = attemptState (nextAttempt r.attempt) := by
      rw [hf.2.1, attemptState_nextAttempt]
    have heq : c.wake r .elapsed = c.beginAttempt { r with attempt := nextAttempt r.attempt } := by
      simp [wake, hw]
    rw [heq, beginAttempt_of_state (r := { r with attempt := nextAttempt r.attempt }) hr hs]
    exact .retry ms hw
  · simp at ha

namespace Move

variable {w : Wake} {next : Step}

/-- No move changes how the client connects, its generation or its session. -/
theorem frame (h : Move c r w next) :
    next.client.endpoint = c.endpoint ∧ next.client.config = c.config ∧
      next.client.generation = c.generation ∧ next.client.session = c.session ∧
      next.client.viewport = c.viewport := by
  cases h with
  | exit link content e =>
    obtain ⟨links, -, heq⟩ := c.exited_eq link e
    simp [heq]
  | _ => exact ⟨rfl, rfl, rfl, rfl, rfl⟩

theorem run_eq (h : Move c r w next) {r' : Run} (hr' : next.run = some r') :
    r'.generation = r.generation ∧ r'.session = r.session := by
  cases h <;> cases hr' <;> exact ⟨rfl, rfl⟩

/-- After a move the client shows what the run waits for then. -/
theorem fits (h : Move c r w next) (hf : c.Fits r) {r' : Run} (hr' : next.run = some r') :
    next.client.Fits r' := by
  obtain ⟨hs, hf⟩ := hf
  cases h with
  | rest w ha =>
    cases hr'
    exact ⟨hs, hf⟩
  | start hw =>
    cases hr'
    rw [hw] at hf
    exact ⟨hs, hf.1, by simp [hf.2.1, hf.2.2, attemptState]⟩
  | retry ms hw =>
    cases hr'
    rw [hw] at hf
    exact ⟨hs, hf.1, by simp [hf.2.1, attemptState_nextAttempt]⟩
  | «open» ticket hw =>
    cases hr'
    rw [hw] at hf
    exact ⟨hs, hf⟩
  | connect accepts hw =>
    cases hr'
    exact ⟨hs, rfl, rfl, by simp [connected]⟩
  | lose w reason hl =>
    cases hr'
    exact ⟨hs, rfl, rfl, rfl⟩
  | pass link content hw _ =>
    cases hr'
    exact ⟨hs, hf⟩
  | tell link content e hw hd hlt ht =>
    cases hr'
    rw [hw] at hf
    refine ⟨hs, ?_⟩
    rw [hw]
    exact hf
  | exit => cases hr'

/-- A run that has come to its end leaves the session closed and no connection. -/
theorem ended (h : Move c r w next) (hr' : next.run = none) :
    next.client.outbound = none ∧ next.client.state = .closed exitedReason := by
  cases h with
  | exit link content e =>
    obtain ⟨links, -, heq⟩ := c.exited_eq link e
    simp [heq]
  | _ => cases hr'

end Move

/-! ## Runs of other generations -/

/-- A run of another generation tells nothing. It changes nothing and ends or goes on
waiting, but for one that has just opened a connection, which it closes. -/
theorem wake_of_not_isCurrent (h : c.isCurrent r = false) (w : Wake) :
    (∃ run, c.wake r w = ⟨c, run, []⟩ ∧ (run = none ∨ run = some r)) ∨
      ∃ accepts, r.wait = .opening ∧ w = .opened (.ok accepts) ∧
        c.wake r w =
          ⟨{ c with
              links := c.links ++ [Link.offered accepts [.normalClose supersededReason]] },
            none, []⟩ := by
  cases ha : r.awaits w with
  | false => exact .inl ⟨some r, wake_of_not_awaits ha, .inr rfl⟩
  | true =>
  cases hl : r.failure? w with
  | some reason =>
    refine .inl ⟨none, ?_, .inl rfl⟩
    have h' : c.isCurrent { r with attempt := r.failures } = false := h
    simp [wake_of_failure? hl, lose, h']
  | none =>
  unfold Run.awaits at ha
  split at ha
  · next hw => exact .inl ⟨none, by simp [wake, hw, beginAttempt, h], .inl rfl⟩
  · next result hw =>
    cases result with
    | error detail => simp [Run.failure?, hw] at hl
    | ok ticket => exact .inl ⟨none, by simp [wake, hw, openStream, h], .inl rfl⟩
  · next result hw =>
    cases result with
    | error e => simp [Run.failure?, hw] at hl
    | ok accepts =>
      have hg : (c.generation == r.generation) = false := h
      exact .inr ⟨accepts, hw, rfl, by simp [wake, hw, connect, isCurrent, hg,
        handOver_opened _ accepts]⟩
  · next link frame hw =>
    rcases frame with _ | ⟨content | reason⟩
    · simp [Run.failure?, hw] at hl
    · exact .inl ⟨none, by simp [wake, hw, receive, h], .inl rfl⟩
    · simp [Run.failure?, hw] at hl
  · next ms hw =>
    have h' : c.isCurrent { r with attempt := nextAttempt r.attempt } = false := h
    exact .inl ⟨none, by simpa [wake, hw, beginAttempt] using h', .inl rfl⟩
  · simp at ha

end Client

end RemoteSession
