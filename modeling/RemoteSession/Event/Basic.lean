import RemoteSession.Json.Record

/-!
# Events

One event of a session as it arrives in a frame. A frame is an event exactly
when it is a record with a `seq` and a `kind`; the fields that describe it are
lenient, that is empty when they are missing, `null` or of another type.
`Event.encode` writes all fields in their order.
-/

namespace RemoteSession

/-- An event of a session. -/
structure Event where
  sessionId : String
  engine : String
  /-- Milliseconds since the epoch. -/
  tsMs : Int64
  seq : UInt64
  kind : String
  payload : Option Json.Value

namespace Event

open Json

/-- The names of the fields in their order. -/
def fieldNames : List String :=
  ["session_id", "engine", "ts_ms", "seq", "kind", "payload"]

/-- How deep the value of a field may nest. -/
def fieldRoom : Nat := Value.depthLimit - 1

/-- A text, empty for a value of another type. -/
def lenientText : Value → String
  | .string s => s
  | _ => ""

/-- An integer of 64 bits with sign, zero for any other value. -/
def lenientTime : Value → Int64
  | .number (.integer i) =>
    if i.value ≤ 9223372036854775807 then Int64.ofInt i.value else 0
  | _ => 0

/-- A field that must be a value but may be of any type. -/
def lenient? {α : Type} (r : Record) (name : String) (default : α) (read : Value → α) :
    Option α :=
  r.defaulted? name default fun d => (Value.ofDocument? fieldRoom d).map read

/-- The payload: nothing when it is missing or `null`. -/
def payload? (r : Record) : Option (Option Value) :=
  r.defaulted? "payload" none (Document.nullable? (Value.ofDocument? fieldRoom))

/-- The event of a document. -/
def ofDocument? (d : Document) : Option Event := do
  let r ← Record.ofDocument? fieldNames d
  let sessionId ← lenient? r "session_id" "" lenientText
  let engine ← lenient? r "engine" "" lenientText
  let tsMs ← lenient? r "ts_ms" 0 lenientTime
  let seq ← r.required? "seq" Document.uint64?
  let kind ← r.required? "kind" Document.text?
  let payload ← payload? r
  some ⟨sessionId, engine, tsMs, seq, kind, payload⟩

/-- The event of a frame. -/
def decode? (frame : String) : Option Event :=
  (Document.parse? frame).bind ofDocument?

/-- The event as a value, its fields in their order. -/
def toValue (e : Event) : Value :=
  .object [("session_id", .string e.sessionId), ("engine", .string e.engine),
    ("ts_ms", .ofInt64 e.tsMs), ("seq", .ofUInt64 e.seq), ("kind", .string e.kind),
    ("payload", e.payload.getD .null)]

/-- The frame of an event. -/
def encode (e : Event) : String :=
  e.toValue.text

end Event

end RemoteSession
