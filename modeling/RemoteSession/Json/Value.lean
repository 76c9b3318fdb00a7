import RemoteSession.Json.Document
import RemoteSession.Json.Shortest
import RemoteSession.Keyed

/-!
# Values

What a document means: numbers are valued, strings have a text, and an object
keeps for each key the last of its values, in the order of the keys.
`Document.value?` reads a document as a value, which fails past a depth;
`Value.chars` is the compact text of a value.
-/

namespace RemoteSession.Json

/-- A value. The members of an object are in the order of their keys and no
key repeats (`Value.IsCanonical`). -/
inductive Value where
  | null
  | bool (value : Bool)
  | number (number : Number)
  | string (text : String)
  | array (items : List Value)
  | object (members : List (String × Value))

/-- The members of an object. -/
abbrev Members := Keyed Value

namespace Value

/-! ## Reading -/

mutual

/-- The value of a document in which arrays and objects nest no deeper than
`room`. -/
def ofDocument? (room : Nat) : Document → Option Value
  | .null => some .null
  | .bool b => some (.bool b)
  | .number n => n.value?.map .number
  | .string t => t.map .string
  | .array items =>
    match room with
    | 0 => none
    | room + 1 => (ofItems? room items).map .array
  | .object members =>
    match room with
    | 0 => none
    | room + 1 => (ofMembers? room [] members).map .object
termination_by structural d => d

/-- The values of the items. -/
def ofItems? (room : Nat) : List Document → Option (List Value)
  | [] => some []
  | d :: rest => do
    let value ← ofDocument? room d
    let values ← ofItems? room rest
    some (value :: values)
termination_by structural ds => ds

/-- The members put one after the other into those already there. -/
def ofMembers? (room : Nat) (found : Members) :
    List (Option String × Document) → Option Members
  | [] => some found
  | (key, d) :: rest => do
    let key ← key
    let value ← ofDocument? room d
    ofMembers? room (Keyed.insert found key value) rest
termination_by structural ms => ms

end

/-- How deep arrays and objects may nest. -/
def depthLimit : Nat := 127

/-- The value that a text spells. -/
def parse? (text : String) : Option Value :=
  (Document.parse? text).bind (ofDocument? depthLimit)

/-! ## Writing -/

/-- A character inside a string: quote, backslash and the characters below the
blank are escaped, all others stand for themselves. -/
def escapedChar (c : Char) : List Char :=
  if c = '"' then ['\\', '"']
  else if c = '\\' then ['\\', '\\']
  else if c = '\x08' then ['\\', 'b']
  else if c = '\t' then ['\\', 't']
  else if c = '\n' then ['\\', 'n']
  else if c = '\x0c' then ['\\', 'f']
  else if c = '\r' then ['\\', 'r']
  else if c.toNat < 0x20 then
    ['\\', 'u', '0', '0', Text.lowerHex (c.toNat / 16), Text.lowerHex (c.toNat % 16)]
  else [c]

/-- A text between quotes. -/
def quoted (s : String) : List Char :=
  '"' :: s.toList.flatMap escapedChar ++ ['"']

/-- An integer in full. -/
def integerChars (i : Int) : List Char :=
  if i < 0 then '-' :: Nat.toDigits 10 i.natAbs else Nat.toDigits 10 i.natAbs

/-- A number: an integer in full, a double in its shortest form. -/
def numberChars : Number → List Char
  | .integer i => integerChars i.value
  | .double d => d.chars

mutual

/-- The compact text of a value: no blank outside strings. -/
def chars : Value → List Char
  | .null => ['n', 'u', 'l', 'l']
  | .bool true => ['t', 'r', 'u', 'e']
  | .bool false => ['f', 'a', 'l', 's', 'e']
  | .number n => numberChars n
  | .string s => quoted s
  | .array items => '[' :: itemsChars items ++ [']']
  | .object members => '\x7b' :: membersChars members ++ ['\x7d']
termination_by structural v => v

/-- The items with commas between them. -/
def itemsChars : List Value → List Char
  | [] => []
  | v :: rest =>
    chars v ++ match rest with
      | [] => []
      | _ :: _ => ',' :: itemsChars rest
termination_by structural vs => vs

/-- The members with commas between them. -/
def membersChars : List (String × Value) → List Char
  | [] => []
  | (key, v) :: rest =>
    quoted key ++ ':' :: chars v ++ match rest with
      | [] => []
      | _ :: _ => ',' :: membersChars rest
termination_by structural ms => ms

end

/-- The compact text of a value. -/
def text (v : Value) : String :=
  String.ofList v.chars

/-- The value of an integer that a type of at most 64 bits holds. -/
def ofInteger (i : Integer) : Value :=
  .number (.integer i)

end Value

end RemoteSession.Json
