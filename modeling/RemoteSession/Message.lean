import RemoteSession.Json.Record

/-!
# Messages

What the client writes to a session: input text or the size of its terminal.
The member `type` tells which; as an array it comes first. All members of a
message are decoded, known or not.
-/

namespace RemoteSession

open Json

/-- A message to a session. -/
inductive Message where
  | input (data : String)
  | resize (cols rows : UInt16)
deriving DecidableEq, Repr

namespace Message

/-- The tag of a message. -/
inductive Tag where
  | input
  | resize
deriving DecidableEq

/-- The tag that a word names. -/
def Tag.ofWord? (word : String) : Option Tag :=
  if word = "input" then some .input else if word = "resize" then some .resize else none

/-- The members of a message besides its tag. -/
def Tag.fieldNames : Tag → List String
  | .input => ["data"]
  | .resize => ["cols", "rows"]

/-- The tag of an object and its other members. The tag comes once only. -/
def splitTag? : Option Document → List (Option String × Document) →
    Option (Document × List (Option String × Document))
  | found, [] => found.map fun tag => (tag, [])
  | found, (key, d) :: rest => do
    let name ← key
    if name = "type" then
      if found.isSome then none else splitTag? (some d) rest
    else
      let (tag, others) ← splitTag? found rest
      some (tag, (key, d) :: others)

/-- The message of a tag and the record of its members. -/
def ofRecord? (r : Record) : Tag → Option Message
  | .input => (r.required? "data" Document.text?).map .input
  | .resize => do
    let cols ← r.required? "cols" Document.uint16?
    let rows ← r.required? "rows" Document.uint16?
    some (.resize cols rows)

/-- The message of a document. -/
def ofDocument? (d : Document) : Option Message := do
  let _ ← Value.ofDocument? Value.depthLimit d
  let (tagged, content) : Document × Document ← match d with
    | .object members => (splitTag? none members).map fun p => (p.1, .object p.2)
    | .array (tag :: items) => some (tag, .array items)
    | _ => none
  let tag ← tagged.text?.bind Tag.ofWord?
  let r ← Record.ofDocument? tag.fieldNames content
  ofRecord? r tag

/-- The message of a text. -/
def decode? (text : String) : Option Message :=
  (Document.parse? text).bind ofDocument?

/-- The message as a value, its tag first. -/
def toValue : Message → Value
  | .input data => .object [("type", .string "input"), ("data", .string data)]
  | .resize cols rows =>
    .object [("type", .string "resize"), ("cols", .ofUInt16 cols), ("rows", .ofUInt16 rows)]

/-- The text of a message. -/
def encode (m : Message) : String :=
  m.toValue.text

end Message

end RemoteSession
