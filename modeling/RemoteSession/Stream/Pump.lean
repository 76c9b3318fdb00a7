import RemoteSession.Http.Exchange
import RemoteSession.Stream.Frame

/-!
# The pump of a connection

Between the client and a socket stands a pump. The client queues frames at it,
lets go of it, or no longer listens; the pump takes the queued frames to the
socket and the texts of the socket to the client, in whichever order they are
ready. It ends with the first end that it sees or makes, and does nothing after
that.
-/

namespace RemoteSession

/-- What a socket hands over. -/
inductive SocketMessage where
  | text (content : String)
  /-- The other side closes, with a code and a reason or without. -/
  | close (frame : Option (UInt16 × String))
  /-- Octets, or a sign of life. -/
  | other
  | failed (detail : String)
  | ended
deriving DecidableEq, Repr

/-- What a socket takes. -/
inductive SocketFrame where
  | text (content : String)
  | close (frame : Option (UInt16 × String))
deriving DecidableEq, Repr

/-- The frame of a socket for one of the client. -/
def SocketFrame.ofOutgoing : Outgoing → SocketFrame
  | .text content => .text content
  | .close code reason => .close (some (code, reason))

/-- The reason of an end that a message is. -/
def SocketMessage.ending? : SocketMessage → Option String
  | .text _ => none
  | .other => none
  | .close none => some "closed by server"
  | .close (some (code, reason)) =>
    let start := "closed by server (" ++ toString code.toNat ++ ")"
    some (if reason = "" then start else start ++ ": " ++ reason)
  | .failed detail => some detail
  | .ended => some "connection ended"

/-- A pump with what went through it. -/
structure Pump where
  /-- Frames of the client that wait. -/
  queue : List Outgoing
  /-- Whether the client has let go, so that no more frames come. -/
  released : Bool
  /-- Whether the client no longer listens. -/
  deaf : Bool
  written : List SocketFrame
  delivered : List Incoming
  finished : Bool
deriving DecidableEq, Repr

namespace Pump

/-- A pump of a connection that has just opened. -/
def start : Pump := ⟨[], false, false, [], [], false⟩

/-- What happens to a pump. -/
inductive Happening where
  /-- The client queues a frame. -/
  | offer (frame : Outgoing)
  | release
  | deafen
  /-- The pump turns to the queue; the socket takes the frame or fails. -/
  | take (fault : Option String)
  /-- The pump turns to the socket. -/
  | read (message : SocketMessage)
deriving DecidableEq, Repr

/-- The end of a pump, which the client hears of if it still listens. -/
def finish (p : Pump) (reason : String) : Pump :=
  { p with
    delivered := if p.deaf then p.delivered else p.delivered ++ [.closed reason]
    finished := true }

/-- A frame written, or not when the socket fails. -/
def write (p : Pump) (frame : SocketFrame) (fault : Option String) : Pump :=
  if fault.isSome then p else { p with written := p.written ++ [frame] }

/-- The next frame of the queue taken to the socket. A close ends the pump, and
so does an empty queue that the client has let go of. -/
def takeNext (p : Pump) (fault : Option String) : Pump :=
  match p.queue with
  | frame :: rest =>
    let p := { p with queue := rest }
    if frame.isClose then { p.write (.ofOutgoing frame) fault with finished := true }
    else
      match fault with
      | none => p.write (.ofOutgoing frame) none
      | some detail => p.finish ("send failed: " ++ detail)
  | [] => if p.released then { (p.write (.close none) fault) with finished := true } else p

/-- A message of the socket taken to the client. One that no one hears ends the
pump. -/
def readMessage (p : Pump) (message : SocketMessage) : Pump :=
  match message with
  | .text content =>
    if p.deaf then { p with finished := true }
    else { p with delivered := p.delivered ++ [.text content] }
  | .other => p
  | message => p.finish (message.ending?.getD "")

/-- The pump after something happened. -/
def step (p : Pump) : Happening → Pump
  | .offer frame => if p.finished || p.released then p else { p with queue := p.queue ++ [frame] }
  | .release => { p with released := true }
  | .deafen => { p with deaf := true }
  | .take fault => if p.finished then p else p.takeNext fault
  | .read message => if p.finished then p else p.readMessage message

/-- The pump after some things happened. -/
def run (p : Pump) (happenings : List Happening) : Pump :=
  happenings.foldl step p

/-- A finished pump neither writes nor delivers. -/
theorem step_of_finished {p : Pump} (h : p.finished = true) (e : Happening) :
    (p.step e).written = p.written ∧ (p.step e).delivered = p.delivered ∧
      (p.step e).finished = true := by
  cases e <;> simp [step, h]

end Pump

/-- A way to open connections. -/
abbrev Connector := Url → Except StreamError Pump

/-- A network on which no connection opens. -/
def Connector.unreachable : Connector := fun _ =>
  .error (.connect ("IO error: " ++ Http.unreachableDetail))

end RemoteSession
