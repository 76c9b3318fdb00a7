import RemoteSession.Endpoint

/-!
# Resuming

Where a server begins when a stream opens: after the last event seen, or with
the last events when none was seen. The address of a stream carries this and
the ticket in its query.
-/

namespace RemoteSession

/-- Where the server begins. -/
inductive Resume where
  | fromSeq (seq : UInt64)
  | lastN (count : UInt32)
deriving DecidableEq, Repr

namespace Resume

/-- How many events the tail has unless said otherwise. -/
def defaultTailLen : UInt32 := 256

/-- The number after another one, which the greatest number does not have. -/
def successor (n : UInt64) : UInt64 :=
  if n = 18446744073709551615 then n else n + 1

/-- Where to begin with this cursor. -/
def ofCursor (cursor : UInt64) (tailLen : UInt32) : Resume :=
  if cursor > 0 then .fromSeq (successor cursor) else .lastN tailLen

/-- The pair of the query. -/
def pair : Resume → String × String
  | .fromSeq seq => ("from_seq", toString seq.toNat)
  | .lastN count => ("last_n", toString count.toNat)

end Resume

/-- The scheme of streams that goes with a scheme of requests. -/
def Url.Scheme.forStream : Url.Scheme → Url.Scheme
  | .http => .ws
  | .ws => .ws
  | .https => .wss
  | .wss => .wss

/-- The address of the stream of a session. -/
def Endpoint.streamUrl (e : Endpoint) (session ticket : String) (resume : Resume) : Url :=
  let base := Url.dropEmptyEnd e.baseUrl.path
  { e.baseUrl with
    scheme := e.baseUrl.scheme.forStream
    path := ["ws", "events", session].foldl Url.addSegment base
    query := some (Url.formPair resume.pair.1 resume.pair.2 ++ "&" ++ Url.formPair "ticket" ticket)
    fragment := none }

end RemoteSession
