import RemoteSession.Json.Token

/-!
# Documents

The tree of a text in JSON before any of it is read as a value: numbers as
written, members in order and with repetitions, to any depth.
`Document.parse?` reads the tokens with a stack of the arrays and objects that
are still open; a text is a document exactly when the stack ends empty over
one value.
-/

namespace RemoteSession.Json

/-- A document, its numbers not yet valued and its keys not yet compared. -/
inductive Document where
  | null
  | bool (value : Bool)
  | number (numeral : Numeral)
  | string (text : Option String)
  | array (items : List Document)
  | object (members : List (Option String × Document))

namespace Document

/-- A member read so far: its key and its value. -/
abbrev Member := Option String × Document

/-- An array or object that waits for a value, what it holds newest first. -/
inductive Frame where
  | array (items : List Document)
  | object (members : List Member) (key : Option String)

/-- What the text so far calls for, inside the open frames. -/
inductive Reader where
  | value (outer : List Frame)
  | firstItem (outer : List Frame)
  | firstKey (outer : List Frame)
  | nextKey (members : List Member) (outer : List Frame)
  | colon (members : List Member) (key : Option String) (outer : List Frame)
  | afterItem (items : List Document) (outer : List Frame)
  | afterMember (members : List Member) (outer : List Frame)
  | finished (document : Document)

namespace Reader

/-- A value is complete: it goes into the innermost frame. -/
def place (outer : List Frame) (d : Document) : Reader :=
  match outer with
  | [] => .finished d
  | .array items :: rest => .afterItem (d :: items) rest
  | .object members key :: rest => .afterMember ((key, d) :: members) rest

/-- A token where a value must begin. -/
def beginValue? (outer : List Frame) : Token → Option Reader
  | .null => some (place outer .null)
  | .bool b => some (place outer (.bool b))
  | .number n => some (place outer (.number n))
  | .string t => some (place outer (.string t))
  | .openArray => some (.firstItem outer)
  | .openObject => some (.firstKey outer)
  | _ => none

/-- One token more. -/
def step? : Reader → Token → Option Reader
  | .value outer, t => beginValue? outer t
  | .firstItem outer, .closeArray => some (place outer (.array []))
  | .firstItem outer, t => beginValue? (.array [] :: outer) t
  | .firstKey outer, .closeObject => some (place outer (.object []))
  | .firstKey outer, .string key => some (.colon [] key outer)
  | .nextKey members outer, .string key => some (.colon members key outer)
  | .colon members key outer, .colon => some (.value (.object members key :: outer))
  | .afterItem items outer, .comma => some (.value (.array items :: outer))
  | .afterItem items outer, .closeArray => some (place outer (.array items.reverse))
  | .afterMember members outer, .comma => some (.nextKey members outer)
  | .afterMember members outer, .closeObject => some (place outer (.object members.reverse))
  | _, _ => none

/-- The document, once nothing more is called for. -/
def result? : Reader → Option Document
  | .finished d => some d
  | _ => none

end Reader

/-- The document that tokens spell. -/
def ofTokens? (tokens : List Token) : Option Document :=
  (tokens.foldlM Reader.step? (.value [])).bind Reader.result?

/-- The document that a text spells. -/
def parse? (text : String) : Option Document :=
  (Token.ofChars? text.toList).bind ofTokens?

end Document

end RemoteSession.Json
