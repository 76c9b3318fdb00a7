import RemoteSession.Service.Error
import RemoteSession.Terminal.Display

/-!
# Rehearsals

A view whose server follows a script and whose time moves only when it is told
to. Calls and what the server does come one after another; then the current run
goes on until it waits for something that is not there yet. Of the cancelled
runs none takes a step: they are dropped first.
-/

namespace RemoteSession

/-- Cursors in memory, with operations that may be made to fail. -/
structure FragileCursors where
  store : MemoryCursorStore
  failsToLoad : Bool
  failsToStore : Bool
  failsToReset : Bool
deriving DecidableEq

/-- The operations on such cursors. -/
def CursorService.fragile : CursorService FragileCursors where
  load s id := if s.failsToLoad then none else some (s.store.load id)
  store s id seq := if s.failsToStore then s else { s with store := s.store.store id seq }
  reset s id := if s.failsToReset then s else { s with store := s.store.reset id }

namespace Rehearsal

/-! ## Scripts -/

/-- How a request for a ticket goes. The usual ticket has the number of the
usual tickets so far in its name. -/
inductive TicketPlan where
  | grant (ticket : String)
  | refuse (error : ServiceError)
  | usual (afterMs : Nat)

/-- How the opening of a connection goes. -/
inductive OpeningPlan where
  | succeed (afterMs : Nat)
  | fail (error : StreamError)

/-- What will wake the current run. -/
inductive Answer where
  | cause (cause : Wake)
  | usualTicket

/-- What the server has put on a connection. -/
structure Inbox where
  frames : List Incoming
  ended : Bool

/-- How much of what the client put on a connection was shown, and whether
there is nothing more to show. -/
structure Outbox where
  shown : Nat
  closed : Bool

/-- What the client put on a connection. -/
inductive Sent where
  | frame (frame : Outgoing)
  | dropped

/-- What was noticed. A request for a ticket carries its number. -/
inductive Entry where
  | ticketRequest (index : Nat)
  | notice (notice : ViewNotice)

end Rehearsal

/-- A view with its script, its clock and what was noticed so far. -/
structure Rehearsal where
  view : SessionView FragileCursors
  terminal : Terminal.Sink
  /-- Milliseconds since the beginning. -/
  now : Nat
  tickets : List Rehearsal.TicketPlan
  openings : List Rehearsal.OpeningPlan
  requests : Nat
  usualTickets : Nat
  pending : Option (Nat × Rehearsal.Answer)
  inboxes : List Rehearsal.Inbox
  outboxes : List Rehearsal.Outbox
  log : List (Nat × Rehearsal.Entry)
  written : String

namespace Rehearsal

/-- A rehearsal before its first step. -/
def new (view : SessionView FragileCursors) (terminal : Terminal.Sink)
    (tickets : List TicketPlan) (openings : List OpeningPlan) : Rehearsal where
  view := view
  terminal := terminal
  now := 0
  tickets := tickets
  openings := openings
  requests := 0
  usualTickets := 0
  pending := none
  inboxes := []
  outboxes := []
  log := []
  written := ""

/-! ## Notices -/

/-- One notice noted and shown. -/
def note (r : Rehearsal) (notice : ViewNotice) : Rehearsal :=
  let (terminal, written) := r.terminal.hear notice
  let r := { r with terminal := terminal, written := r.written ++ written }
  match notice with
  | .stream .ticketRequest =>
    { r with log := r.log ++ [(r.now, .ticketRequest r.requests)], requests := r.requests + 1 }
  | notice => { r with log := r.log ++ [(r.now, .notice notice)] }

/-- The view after something that it tells of. -/
def become (r : Rehearsal) (result : SessionView FragileCursors × List ViewNotice) : Rehearsal :=
  result.2.foldl note { r with view := result.1 }

/-- Something that happens to the client. -/
def act (r : Rehearsal) (action : Action) : Rehearsal :=
  r.become (r.view.act .fragile action)

/-! ## The current run -/

/-- The run that was not cancelled. -/
def currentRun? (r : Rehearsal) : Option Run :=
  (r.view.system.tasks.find? fun t => !t.cancelled).map Task.run

/-- A box for each connection. -/
def addBoxes (r : Rehearsal) : Rehearsal :=
  let missing := r.view.system.client.links.length - r.inboxes.length
  { r with
    inboxes := r.inboxes ++ List.replicate missing ⟨[], false⟩
    outboxes := r.outboxes ++ List.replicate missing ⟨0, false⟩ }

/-- The answer to a request for a ticket. -/
def planTicket (r : Rehearsal) : Rehearsal :=
  let answer := match r.tickets with
    | .grant ticket :: _ => (r.now, Answer.cause (.ticket (.ok ticket)))
    | .refuse e :: _ => (r.now, .cause (.ticket (.error e.message)))
    | .usual afterMs :: _ => (r.now + afterMs, .usualTicket)
    | [] => (r.now, .usualTicket)
  { r with tickets := r.tickets.tail, pending := some answer }

/-- The answer to an opening. -/
def planOpening (r : Rehearsal) : Rehearsal :=
  let answer : Nat × Wake := match r.openings with
    | .succeed afterMs :: _ => (r.now + afterMs, .opened (.ok true))
    | .fail e :: _ => (r.now, .opened (.error e))
    | [] => (r.now, .opened (.ok true))
  { r with openings := r.openings.tail, pending := some (answer.1, .cause answer.2) }

/-- What will wake the current run, once it has taken a step. -/
def plan (r : Rehearsal) : Rehearsal :=
  match r.currentRun?.map Run.wait with
  | some .start => { r with pending := some (r.now, .cause .start) }
  | some .ticket => r.planTicket
  | some .opening => r.planOpening
  | some (.delay ms) => { r with pending := some (r.now + ms, .cause .elapsed) }
  | some (.frames _) => { r with pending := none }
  | none => { r with pending := none }

/-- What a connection has for the client. -/
def takeFrame (r : Rehearsal) (link : Nat) : Option (Wake × Rehearsal) :=
  match r.inboxes[link]? with
  | some ⟨frame :: rest, ended⟩ =>
    some (.incoming (some frame), { r with inboxes := r.inboxes.set link ⟨rest, ended⟩ })
  | some ⟨[], true⟩ => some (.incoming none, r)
  | _ => none

/-- What wakes the current run now, if anything does. -/
def ready? (r : Rehearsal) (run : Run) : Option (Wake × Rehearsal) :=
  match run.wait, r.pending with
  | .frames link, _ => r.takeFrame link
  | _, some (due, answer) =>
    if due ≤ r.now then
      match answer with
      | .cause cause => some (cause, r)
      | .usualTicket =>
        let number := r.usualTickets + 1
        some (.ticket (.ok ("ticket-" ++ toString number)), { r with usualTickets := number })
    else none
  | _, none => none

/-- Whether a notice is a change that the terminal cannot show. -/
def isUnshowable (r : Rehearsal) : ViewNotice → Bool
  | .change change =>
    match r.terminal.render change with
    | .ok _ => false
    | .error _ => true
  | _ => false

/-- A run that tells of a change which the terminal cannot show breaks off
there: the event is in the timeline, but nothing that would have followed
happens, and the run is gone while its connection stays. -/
def breakOff (r : Rehearsal) (generation : Nat) (view : SessionView FragileCursors)
    (notices : List ViewNotice) : Rehearsal :=
  let before := r.view.system
  let client := { before.client with gate := view.system.client.gate }
  let tasks := before.tasks.filter fun t => t.run.generation != generation
  let told := notices.take (notices.findIdx r.isUnshowable + 1)
  r.become ({ view with system := ⟨client, tasks⟩ }, told)

/-- A step of a run. -/
def wake (r : Rehearsal) (generation : Nat) (cause : Wake) : Rehearsal :=
  let result := r.view.act .fragile (.wake generation cause)
  if result.2.any r.isUnshowable then r.breakOff generation result.1 result.2 else r.become result

/-- The steps of the current run until it waits. -/
def proceed : Nat → Rehearsal → Rehearsal
  | 0, r => r
  | fuel + 1, r =>
    match r.currentRun? with
    | none => r
    | some run =>
      match r.ready? run with
      | none => r
      | some (cause, r) => proceed fuel (r.wake run.generation cause).addBoxes.plan

/-- How many steps the script and the frames allow: each round of an attempt
uses up one of them. -/
def bound (r : Rehearsal) : Nat :=
  let frames := r.inboxes.foldl (fun n b => n + b.frames.length + 1) 0
  4 * (r.tickets.length + r.openings.length + frames + 2)

/-- Cancelled runs dropped, then the current one until it waits. -/
def settle (r : Rehearsal) : Rehearsal :=
  let cancelled := (r.view.system.tasks.filter Task.cancelled).map (·.run.generation)
  let r := cancelled.foldl (fun r generation => r.act (.drop generation)) r
  proceed r.bound r

/-- The time moved on to an instant, by way of all that falls due before. -/
def advanceTo : Nat → Nat → Rehearsal → Rehearsal
  | 0, instant, r => { r with now := instant }
  | fuel + 1, instant, r =>
    match r.pending with
    | some (due, _) =>
      if r.currentRun?.isSome && due ≤ instant then
        advanceTo fuel instant { r with now := max r.now due }.settle
      else { r with now := instant }
    | none => { r with now := instant }

/-! ## Cues -/

/-- What happens next. A connection that is not named is the newest. -/
inductive Cue where
  | text (link : Option Nat) (content : String)
  | closed (link : Option Nat) (reason : String)
  | hangup (link : Option Nat)
  | refuse (link : Option Nat)
  | follow (session : String) (cursor : UInt64)
  | supersede
  | attach (session : SessionMeta)
  | attachFresh (session : SessionMeta)
  | stop
  | detach
  | rawMode (on : Bool)
  | line (text : String)
  | keys (octets : List UInt8)
  | control (name : String)
  | send (message : Message)
  | viewport (cols rows : UInt16)
  | advance (ms : Nat)

/-- What a cue answers. -/
inductive Reply where
  | none
  | flag (value : Bool)
  | noConnection
deriving DecidableEq, Repr

/-- A connection by its number, or the newest. -/
def link? (r : Rehearsal) (link : Option Nat) : Option Nat :=
  let index := link.getD (r.inboxes.length - 1)
  if index < r.inboxes.length then some index else none

/-- Something for the client on a connection, and whether the client listens. -/
def deliver (r : Rehearsal) (link : Option Nat) (frame : Incoming) : Rehearsal × Reply :=
  match r.link? link with
  | none => (r, .noConnection)
  | some index =>
    match r.inboxes[index]? with
    | some ⟨frames, false⟩ =>
      if r.view.system.listens index then
        ({ r with inboxes := r.inboxes.set index ⟨frames ++ [frame], false⟩ }, .flag true)
      else (r, .flag false)
    | _ => (r, .flag false)

/-- Something that the client took or not. -/
def offer (r : Rehearsal) (result : SessionView FragileCursors × Bool) : Rehearsal × Reply :=
  ({ r with view := result.1 }, .flag result.2)

/-- The rehearsal after a cue, before any run takes a step. -/
def perform (r : Rehearsal) : Cue → Rehearsal × Reply
  | .text link content => r.deliver link (.text content)
  | .closed link reason => r.deliver link (.closed reason)
  | .hangup link =>
    match r.link? link with
    | none => (r, .noConnection)
    | some index =>
      ({ r with inboxes := r.inboxes.modify index fun b => { b with ended := true } }, .none)
  | .refuse link =>
    match r.link? link with
    | none => (r, .noConnection)
    | some index =>
      ({ r.act (.refuse index) with
        outboxes := r.outboxes.modify index fun b => { b with closed := true } }, .none)
  | .follow session cursor => ((r.act (.attach session cursor)).plan, .none)
  | .supersede => (r.act .supersede, .none)
  | .attach session => ((r.become (r.view.attach .fragile session)).plan, .none)
  | .attachFresh session => ((r.become (r.view.attachFresh .fragile session)).plan, .none)
  | .stop => (r.become (r.view.stop .fragile), .none)
  | .detach => (r.become (r.view.detach .fragile), .none)
  | .rawMode on => ({ r with view := { r.view with rawMode := on } }, .flag on)
  | .line text =>
    let (view, taken, notices) := r.view.sendLine text 0
    (r.become (view, notices), .flag taken)
  | .keys octets => r.offer (r.view.sendKeystrokes octets)
  | .control name =>
    match Composer.Control.ofName name with
    | .ok c => r.offer (r.view.send c.message)
    | .error _ => (r, .none)
  | .send message => r.offer (r.view.send message)
  | .viewport cols rows => r.offer (r.view.resize cols rows)
  | .advance ms => (advanceTo r.bound (r.now + ms) r, .none)

/-- Cues in their order with no step between them. -/
def performAll : List Cue → Rehearsal → Rehearsal × List Reply
  | [], r => (r, [])
  | cue :: rest, r =>
    let (r, reply) := r.perform cue
    let (r, replies) := performAll rest r
    (r, reply :: replies)

/-- Cues, then the steps that they lead to. -/
def step (r : Rehearsal) (cues : List Cue) : Rehearsal × List Reply :=
  let (r, replies) := performAll cues r
  (r.settle, replies)

/-! ## What came of it -/

/-- What the client put on a connection since the last time. -/
def sentOn (r : Rehearsal) (link : Nat) (box : Outbox) : List (Nat × Sent) :=
  if box.closed then []
  else
    let frames := ((r.view.system.client.links[link]?.map Link.sent).getD []).drop box.shown
    let last := if r.view.system.holds link then [] else [Sent.dropped]
    (frames.map Sent.frame ++ last).map fun sent => (link, sent)

/-- What the client put on all connections since the last time. -/
def sent (r : Rehearsal) : List (Nat × Sent) :=
  (r.outboxes.zipIdx.map fun (box, link) => r.sentOn link box).flatten

/-- The rehearsal with all shown that there is to show. -/
def shown (r : Rehearsal) : Rehearsal :=
  { r with
    log := []
    written := ""
    outboxes := r.outboxes.zipIdx.map fun (box, link) =>
      { shown := ((r.view.system.client.links[link]?.map Link.sent).getD []).length
        closed := box.closed || !r.view.system.holds link } }

end Rehearsal

end RemoteSession
