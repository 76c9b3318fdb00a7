import RemoteSession.Json.Record
import RemoteSession.Text.Blank

/-!
# The session directory

The records that the directory of sessions answers and accepts: what it knows
of a session, what a new session needs, the ticket that opens a stream, and
what it says about a failed request.
-/

namespace RemoteSession

open Json

/-! ## Sessions -/

/-- What the directory knows of a session. -/
structure SessionInfo where
  id : String
  name : String
  engine : String
  state : String
  exitCode : Option Int32
  lastSeq : Option UInt64
  created : String
deriving DecidableEq

namespace SessionInfo

/-- The names of the fields in their order. -/
def fieldNames : List String :=
  ["id", "name", "engine", "state", "exit_code", "last_seq", "created"]

/-- The session of a document. -/
def ofDocument? (d : Document) : Option SessionInfo := do
  let r ← Record.ofDocument? fieldNames d
  let id ← r.required? "id" Document.text?
  let name ← r.defaulted? "name" "" Document.text?
  let engine ← r.defaulted? "engine" "" Document.text?
  let state ← r.defaulted? "state" "" Document.text?
  let exitCode ← r.defaulted? "exit_code" none (Document.nullable? Document.int32?)
  let lastSeq ← r.defaulted? "last_seq" none (Document.nullable? Document.uint64?)
  let created ← r.defaulted? "created" "" Document.text?
  some ⟨id, name, engine, state, exitCode, lastSeq, created⟩

/-- The session of a text. -/
def decode? (text : String) : Option SessionInfo :=
  (Document.parse? text).bind ofDocument?

/-- A list of sessions. -/
def decodeAll? (text : String) : Option (List SessionInfo) :=
  match Document.parse? text with
  | some (.array items) => items.mapM ofDocument?
  | _ => none

/-- The session as a value: what is unknown is left out. -/
def toValue (s : SessionInfo) : Value :=
  .object (
    [("id", .string s.id), ("name", .string s.name), ("engine", .string s.engine),
      ("state", .string s.state)] ++
    (s.exitCode.map fun code => ("exit_code", Value.ofInt32 code)).toList ++
    (s.lastSeq.map fun seq => ("last_seq", Value.ofUInt64 seq)).toList ++
    [("created", .string s.created)])

/-- The text of a session. -/
def encode (s : SessionInfo) : String :=
  s.toValue.text

/-- Whether the session has ended. -/
def isExited (s : SessionInfo) : Bool :=
  s.state == "exited"

end SessionInfo

/-- What a client keeps of the session that it shows. -/
structure SessionMeta where
  id : String
  name : String
  engine : String
  state : String
  exitCode : Option Int64
deriving DecidableEq, Repr

namespace SessionMeta

/-- A session of which only the id and the engine are known. -/
def new (id engine : String) : SessionMeta :=
  ⟨id, "", engine, "", none⟩

/-- What to keep of a session of the directory. -/
def ofInfo (s : SessionInfo) : SessionMeta :=
  ⟨s.id, s.name, s.engine, s.state, s.exitCode.map Int32.toInt64⟩

/-- The name, or the id of a session without one. -/
def title (m : SessionMeta) : String :=
  if Text.isBlank m.name then m.id else m.name

end SessionMeta

/-! ## Requests -/

/-- What a new session needs. The arguments are in the order of their keys. -/
structure CreateSession where
  engine : String
  name : String
  workspacePath : String
  prompt : String
  mode : String
  args : Members

namespace CreateSession

/-- The names of the fields in their order. -/
def fieldNames : List String :=
  ["engine", "name", "workspacePath", "prompt", "mode", "args"]

/-- The request of a document. -/
def ofDocument? (d : Document) : Option CreateSession := do
  let r ← Record.ofDocument? fieldNames d
  let engine ← r.required? "engine" Document.text?
  let name ← r.defaulted? "name" "" Document.text?
  let workspacePath ← r.defaulted? "workspacePath" "" Document.text?
  let prompt ← r.defaulted? "prompt" "" Document.text?
  let mode ← r.defaulted? "mode" "" Document.text?
  let args ← r.defaulted? "args" [] (Document.members? (Value.depthLimit - 2))
  some ⟨engine, name, workspacePath, prompt, mode, args⟩

/-- The request of a text. -/
def decode? (text : String) : Option CreateSession :=
  (Document.parse? text).bind ofDocument?

/-- The request as a value, its keys in order. -/
def toValue (c : CreateSession) : Value :=
  .object [("args", .object c.args), ("engine", .string c.engine), ("mode", .string c.mode),
    ("name", .string c.name), ("prompt", .string c.prompt),
    ("workspacePath", .string c.workspacePath)]

/-- The text of a request, its keys in order. -/
def encode (c : CreateSession) : String :=
  c.toValue.text

/-- The members of a request in the order of the fields, with the arguments in some order. -/
def members (c : CreateSession) (args : List (String × Value)) : List (String × Value) :=
  [("engine", .string c.engine), ("name", .string c.name),
    ("workspacePath", .string c.workspacePath), ("prompt", .string c.prompt),
    ("mode", .string c.mode), ("args", .object args)]

/-- The text of a request as it is sent. -/
def body (c : CreateSession) : String :=
  (Value.object (c.members c.args)).text

end CreateSession

/-! ## Tickets -/

/-- The answer to a request for a ticket. -/
structure TicketGrant where
  ticket : Option String
  expiresMs : Option Int64
deriving DecidableEq

namespace TicketGrant

/-- The names of the fields in their order. -/
def fieldNames : List String :=
  ["ticket", "expires_ms"]

/-- The grant of a document. -/
def ofDocument? (d : Document) : Option TicketGrant := do
  let r ← Record.ofDocument? fieldNames d
  let ticket ← r.defaulted? "ticket" none (Document.nullable? Document.text?)
  let expiresMs ← r.defaulted? "expires_ms" none (Document.nullable? Document.int64?)
  some ⟨ticket, expiresMs⟩

/-- The grant of a text. -/
def decode? (text : String) : Option TicketGrant :=
  (Document.parse? text).bind ofDocument?

/-- The grant as a value, its keys in order. -/
def toValue (t : TicketGrant) : Value :=
  .object [("expires_ms", (t.expiresMs.map Value.ofInt64).getD .null),
    ("ticket", Value.ofText? t.ticket)]

/-- The text of a grant. -/
def encode (t : TicketGrant) : String :=
  t.toValue.text

end TicketGrant

/-! ## Faults -/

/-- What the directory says about a request that failed. -/
structure Fault where
  code : Option String
  message : Option String
  hint : Option String
  requestId : Option String
deriving DecidableEq

namespace Fault

/-- The names of the fields in their order. -/
def fieldNames : List String :=
  ["code", "message", "hint", "request_id"]

/-- The fault of a document. -/
def ofDocument? (d : Document) : Option Fault := do
  let r ← Record.ofDocument? fieldNames d
  let code ← r.defaulted? "code" none (Document.nullable? Document.text?)
  let message ← r.defaulted? "message" none (Document.nullable? Document.text?)
  let hint ← r.defaulted? "hint" none (Document.nullable? Document.text?)
  let requestId ← r.defaulted? "request_id" none (Document.nullable? Document.text?)
  some ⟨code, message, hint, requestId⟩

/-- The fault as a value, its keys in order. -/
def toValue (f : Fault) : Value :=
  .object [("code", .ofText? f.code), ("hint", .ofText? f.hint),
    ("message", .ofText? f.message), ("request_id", .ofText? f.requestId)]

/-- A part of the summary: nothing for a blank text. -/
def part (label : String) (text : Option String) : List String :=
  match text with
  | some s => if Text.isBlank s then [] else [label ++ s]
  | none => []

/-- The parts that are not blank, in one line. -/
def summary (f : Fault) : String :=
  " · ".intercalate (part "" f.message ++ part "Hint: " f.hint ++ part "request_id=" f.requestId)

end Fault

/-- The envelope around a fault. -/
structure FaultReport where
  fault : Option Fault
deriving DecidableEq

namespace FaultReport

/-- The report of a document. -/
def ofDocument? (d : Document) : Option FaultReport := do
  let r ← Record.ofDocument? ["error"] d
  let fault ← r.defaulted? "error" none (Document.nullable? Fault.ofDocument?)
  some ⟨fault⟩

/-- The report of a text. -/
def decode? (text : String) : Option FaultReport :=
  (Document.parse? text).bind ofDocument?

/-- The report as a value. -/
def toValue (e : FaultReport) : Value :=
  .object [("error", (e.fault.map Fault.toValue).getD .null)]

/-- The text of a report. -/
def encode (e : FaultReport) : String :=
  e.toValue.text

end FaultReport

end RemoteSession
