import RemoteSession.Message

/-!
# Frames of a stream

What goes over a connection in either direction, why a connection did not open
or came to its end, and the state that the client shows of it.
-/

namespace RemoteSession

/-- What the client hands to a connection. -/
inductive Outgoing where
  | text (content : String)
  | close (code : UInt16) (reason : String)
deriving DecidableEq, Repr

namespace Outgoing

/-- The code of a connection that ends because its work is done. -/
def normalClosure : UInt16 := 1000

/-- The end of a connection whose work is done. -/
def normalClose (reason : String) : Outgoing :=
  .close normalClosure reason

/-- The frame of a message. -/
def ofMessage (m : Message) : Outgoing :=
  .text m.encode

/-- Whether the frame ends the connection. -/
def isClose : Outgoing → Bool
  | .close _ _ => true
  | .text _ => false

end Outgoing

/-- What a connection hands to the client. Nothing follows an end. -/
inductive Incoming where
  | text (content : String)
  | closed (reason : String)
deriving DecidableEq, Repr

/-- Why a stream did not open or is no longer open. -/
inductive StreamError where
  | invalidEndpoint (detail : String)
  | connect (detail : String)
  | closed (reason : String)
deriving DecidableEq, Repr

/-- The message of an error. -/
def StreamError.message : StreamError → String
  | .invalidEndpoint detail => "invalid stream endpoint: " ++ detail
  | .connect detail => "connect failed: " ++ detail
  | .closed reason => "connection closed: " ++ reason

/-- The state of a client's connection. -/
inductive ConnectionState where
  | idle
  | connecting
  | connected
  | reconnecting (attempt : Nat)
  | closed (reason : String)
deriving DecidableEq, Repr

namespace ConnectionState

/-- The text of a state. -/
def text : ConnectionState → String
  | .idle => "idle"
  | .connecting => "connecting"
  | .connected => "connected"
  | .reconnecting attempt => "reconnecting (attempt " ++ toString attempt ++ ")"
  | .closed reason => "closed: " ++ reason

/-- Whether frames can be sent. -/
def isConnected : ConnectionState → Bool
  | .connected => true
  | _ => false

/-- Whether the connection came to its end for good. -/
def isClosed : ConnectionState → Bool
  | .closed _ => true
  | _ => false

end ConnectionState

end RemoteSession
