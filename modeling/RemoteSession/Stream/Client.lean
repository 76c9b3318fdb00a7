import RemoteSession.Composer
import RemoteSession.Event.Body
import RemoteSession.Gate
import RemoteSession.Stream.Backoff
import RemoteSession.Stream.Frame
import RemoteSession.Stream.Resume

/-!
# The client of a stream

A client follows one session at a time. Each attachment starts a run, which
asks for a ticket, opens a connection, takes its frames and, when anything goes
wrong, waits and begins again. All runs share the client; a run carries the
generation in which it began, and once the client is in another generation the
run changes nothing any more (`wake_superseded`), but for a connection that it
has just opened, which it closes.

What the client lets others know is in the notices, in their order.
-/

namespace RemoteSession

/-- How a client connects. -/
structure StreamConfig where
  backoff : Backoff
  tailLen : UInt32
deriving DecidableEq, Repr

/-- The usual way to connect. -/
def StreamConfig.default : StreamConfig := ⟨Backoff.default, Resume.defaultTailLen⟩

/-- A connection as the client knows it: the frames handed to it and whether it
still takes any. -/
structure Link where
  sent : List Outgoing
  accepts : Bool
deriving DecidableEq, Repr

/-- A connection that has just opened. One that has ended meanwhile takes no frames. -/
def Link.opened (accepts : Bool) : Link := ⟨[], accepts⟩

/-- What a client lets others know or asks of them. -/
inductive Notice where
  | state (state : ConnectionState)
  | event (event : Event)
  | persist (session : String) (seq : UInt64)
  | ticketRequest
  | opening (url : Url)

/-- What all runs of a client share. -/
structure Client where
  endpoint : Endpoint
  config : StreamConfig
  generation : Nat
  session : Option String
  gate : Gate
  state : ConnectionState
  /-- The connection that takes what is sent. -/
  outbound : Option Nat
  viewport : Option (UInt16 × UInt16)
  lastError : Option String
  /-- All connections ever opened, by their numbers. -/
  links : List Link
deriving DecidableEq

/-- What a run waits for. -/
inductive Wait where
  | start
  | ticket
  | opening
  | frames (link : Nat)
  | delay (ms : Nat)
deriving DecidableEq, Repr

/-- One attachment at work. -/
structure Run where
  generation : Nat
  session : String
  /-- Failures since the last connection. -/
  attempt : Nat
  wait : Wait
deriving DecidableEq, Repr

/-- What wakes a run. -/
inductive Wake where
  | start
  | ticket (result : Except String String)
  /-- A connection and whether it takes frames, or why there is none. -/
  | opened (result : Except StreamError Bool)
  /-- A frame, or nothing when the connection ends without a word. -/
  | incoming (frame : Option Incoming)
  | elapsed

/-- What a client and one of its runs are after a step: no run when it has come
to its end. -/
structure Step where
  client : Client
  run : Option Run
  notices : List Notice

namespace Client

/-- A client that follows no session. -/
def new (endpoint : Endpoint) (config : StreamConfig) : Client where
  endpoint := endpoint
  config := config
  generation := 0
  session := none
  gate := ⟨0⟩
  state := .idle
  outbound := none
  viewport := none
  lastError := none
  links := []

/-! ## Parts of steps -/

/-- A new state, of which nothing is said when it is the old one. -/
def setState (c : Client) (state : ConnectionState) : Client × List Notice :=
  if c.state = state then (c, []) else ({ c with state := state }, [.state state])

/-- Whether a connection takes frames. -/
def accepts (c : Client) (link : Nat) : Bool :=
  match c.links[link]? with
  | some l => l.accepts
  | none => false

/-- A frame for a connection, lost when the connection takes none. -/
def handOver (c : Client) (link : Nat) (frame : Outgoing) : Client :=
  if c.accepts link then
    { c with links := c.links.modify link fun l => { l with sent := l.sent ++ [frame] } }
  else c

/-- The current connection ended, and with it the work of all runs before. -/
def shutdown (c : Client) (reason : String) : Client :=
  match c.outbound with
  | none => c
  | some link => { c.handOver link (.normalClose reason) with outbound := none }

/-- Why a connection ends when another takes its place. -/
def reattachReason : String := "reattach"

/-- Why a connection ends when its user leaves. -/
def stopReason : String := "stop"

/-- Why a connection ends that opened too late. -/
def supersededReason : String := "superseded"

/-- Why a connection ends when its session has. -/
def exitedReason : String := "session exited"

/-- How a stream came to its end when its user left. -/
def stoppedReason : String := "stopped"

/-- How a connection was lost that ended without a word. -/
def droppedReason : String := "connection dropped"

/-! ## Calls -/

/-- A session to follow from a cursor, in place of the one before. -/
def attach (c : Client) (session : String) (cursor : UInt64) : Client × List Notice :=
  let c := { c with generation := c.generation + 1 }.shutdown reattachReason
  { c with session := some session, gate := ⟨cursor⟩, lastError := none }.setState .connecting

/-- The end of the stream. A stream that has ended keeps the reason it has. -/
def stop (c : Client) : Client × List Notice :=
  let c := { c with generation := c.generation + 1 }.shutdown stopReason
  if c.state.isClosed then (c, []) else c.setState (.closed stoppedReason)

/-- The current run silenced, without a word about it. -/
def supersede (c : Client) : Client :=
  { c with generation := c.generation + 1 }.shutdown reattachReason

/-- A message for the session, and whether the connection took it. -/
def send (c : Client) (m : Message) : Client × Bool :=
  match c.state.isConnected, c.outbound with
  | true, some link => (c.handOver link (.ofMessage m), c.accepts link)
  | _, _ => (c, false)

/-- A text for the input of the session. -/
def sendInput (c : Client) (text : String) : Client × Bool :=
  c.send (.input text)

/-- Keys for the session. -/
def sendKeystrokes (c : Client) (octets : List UInt8) : Client × Bool :=
  match Composer.keystrokes? octets with
  | some m => c.send m
  | none => (c, false)

/-- A signal for the session. -/
def sendControl (c : Client) (signal : Composer.Control) : Client × Bool :=
  c.send signal.message

/-- The size of the terminal, sent now if possible and on every later
connection. -/
def setViewport (c : Client) (cols rows : UInt16) : Client × Bool :=
  { c with viewport := some (cols, rows) }.send (.resize cols rows)

/-! ## Runs -/

/-- The greatest number of attempts that is told apart. -/
def greatestAttempt : Nat := 4294967295

/-- The number of the next attempt. -/
def nextAttempt (attempt : Nat) : Nat :=
  min (attempt + 1) greatestAttempt

/-- Whether a run belongs to the current generation. -/
def isCurrent (c : Client) (r : Run) : Bool :=
  c.generation == r.generation

/-- The state of a client whose run is at this attempt. -/
def attemptState (attempt : Nat) : ConnectionState :=
  if attempt = 0 then .connecting else .reconnecting attempt

/-- A run at the start of an attempt: it asks for a ticket. The client is not held between
the check that the run is current and the request, which are one step here: a call that
comes in between them counts as one that comes after, so that the request is made. -/
def beginAttempt (c : Client) (r : Run) : Step :=
  if c.isCurrent r then
    let (c, notices) := c.setState (attemptState r.attempt)
    ⟨c, some { r with wait := .ticket }, notices ++ [.ticketRequest]⟩
  else ⟨c, none, []⟩

/-- A run that has failed: it waits before the next attempt. -/
def lose (c : Client) (r : Run) (reason : String) : Step :=
  if c.isCurrent r then
    let (c, notices) :=
      { c with outbound := none, lastError := some reason }.setState
        (.reconnecting (nextAttempt r.attempt))
    ⟨c, some { r with wait := .delay (c.config.backoff.delay r.attempt) }, notices⟩
  else ⟨c, none, []⟩

/-- A run with a ticket: it opens a connection. The address goes on from the cursor at the
check that the run is current, and that check and the opening are one step here, although
the client is not held between them. -/
def openStream (c : Client) (r : Run) (ticket : String) : Step :=
  if c.isCurrent r then
    let resume := Resume.ofCursor c.gate.cursor c.config.tailLen
    ⟨c, some { r with wait := .opening }, [.opening (c.endpoint.streamUrl r.session ticket resume)]⟩
  else ⟨c, none, []⟩

/-- A run with a new connection: it takes the frames of it. -/
def connect (c : Client) (r : Run) (accepts : Bool) : Step :=
  let link := c.links.length
  let c := { c with links := c.links ++ [Link.opened accepts] }
  if c.isCurrent r then
    let (c, notices) := { c with outbound := some link, lastError := none }.setState .connected
    let c := match c.viewport with
      | some (cols, rows) => (c.send (.resize cols rows)).1
      | none => c
    ⟨c, some { r with wait := .frames link }, notices⟩
  else ⟨c.handOver link (.normalClose supersededReason), none, []⟩

/-- An event of the session: it is persisted, then told, and may say that the
session has exited. -/
def accept (c : Client) (r : Run) (link : Nat) (e : Event) : Step :=
  let told : List Notice := [.persist r.session e.seq, .event e]
  if e.body.isTerminal then
    let (c, notices) := { c with outbound := none }.setState (.closed exitedReason)
    ⟨c.handOver link (.normalClose exitedReason), none, told ++ notices⟩
  else ⟨c, some r, told⟩

/-- A frame of text. What is no event, or an old one, is passed over. -/
def receive (c : Client) (r : Run) (link : Nat) (content : String) : Step :=
  if c.isCurrent r then
    match c.gate.offerFrame content with
    | (.accepted e, gate) => { c with gate := gate }.accept r link e
    | (.stale _ _, _) => ⟨c, some r, []⟩
    | (.malformed, _) => ⟨c, some r, []⟩
  else ⟨c, none, []⟩

/-- How a failure to get a ticket is told. -/
def ticketFailure (detail : String) : String :=
  "ticket request failed: " ++ detail

/-- The step of a run that is woken. What it does not wait for changes
nothing. -/
def wake (c : Client) (r : Run) (w : Wake) : Step :=
  match r.wait, w with
  | .start, .start => c.beginAttempt r
  | .delay _, .elapsed => c.beginAttempt { r with attempt := nextAttempt r.attempt }
  | .ticket, .ticket (.ok ticket) => c.openStream r ticket
  | .ticket, .ticket (.error detail) => c.lose r (ticketFailure detail)
  | .opening, .opened (.ok accepts) => c.connect r accepts
  | .opening, .opened (.error e) => c.lose r e.message
  | .frames link, .incoming (some (.text content)) => c.receive r link content
  | .frames _, .incoming (some (.closed reason)) => c.lose { r with attempt := 0 } reason
  | .frames _, .incoming none => c.lose { r with attempt := 0 } droppedReason
  | _, _ => ⟨c, some r, []⟩

/-- A run of another generation tells nothing, and leaves the client as it was
but for a connection that it adds. -/
theorem wake_superseded (c : Client) (r : Run) (w : Wake) (h : c.isCurrent r = false) :
    (c.wake r w).notices = [] ∧ { (c.wake r w).client with links := c.links } = c := by
  have attempt : ∀ n, c.isCurrent { r with attempt := n } = false := fun _ => h
  have opened : ∀ links, isCurrent { c with links := links } r = false := fun _ => h
  unfold wake
  split <;>
    simp [beginAttempt, openStream, lose, connect, receive, handOver, h, attempt, opened]
  split <;> rfl

end Client

end RemoteSession
