import RemoteSession.Json.Value

/-!
# Records

A record is an object of which only some members are known. `Record.ofDocument?`
finds the known members of a document: of an object by their keys, where a
known key may come once only and the other members are passed over undecoded;
of an array by their places, where the last ones may be missing. The readers
of single members follow.
-/

namespace RemoteSession.Json

/-- The members found, each under its name. -/
abbrev Record := List (String × Document)

namespace Record

/-- The member of this name. -/
def find? (r : Record) (name : String) : Option Document :=
  (List.find? (fun m => m.1 == name) r).map Prod.snd

/-- One member of an object: a key must have a text, a known one must be new. -/
def addMember? (names : List String) (found : Record)
    (member : Option String × Document) : Option Record := do
  let key ← member.1
  if names.contains key then
    if (found.find? key).isSome then none else some (found ++ [(key, member.2)])
  else some found

/-- The known members of a document that is an object or an array. -/
def ofDocument? (names : List String) : Document → Option Record
  | .object members => members.foldlM (addMember? names) []
  | .array items => if items.length ≤ names.length then some (names.zip items) else none
  | _ => none

/-- A member that must be there. -/
def required? {α : Type} (r : Record) (name : String) (read : Document → Option α) : Option α :=
  (r.find? name).bind read

/-- A member that has a default when it is not there. -/
def defaulted? {α : Type} (r : Record) (name : String) (default : α)
    (read : Document → Option α) : Option α :=
  match r.find? name with
  | none => some default
  | some d => read d

end Record

namespace Document

/-- A string with a text. -/
def text? : Document → Option String
  | .string t => t
  | _ => none

/-- An integer between two bounds, both included. -/
def integer? (least most : Int) : Document → Option Int
  | .number n =>
    match n.value? with
    | some (.integer i) => if least ≤ i.value ∧ i.value ≤ most then some i.value else none
    | _ => none
  | _ => none

/-- An integer of 64 bits without sign. -/
def uint64? (d : Document) : Option UInt64 :=
  (d.integer? 0 18446744073709551615).map fun i => UInt64.ofNat i.toNat

/-- An integer of 64 bits with sign. -/
def int64? (d : Document) : Option Int64 :=
  (d.integer? (-9223372036854775808) 9223372036854775807).map Int64.ofInt

/-- An integer of 32 bits with sign. -/
def int32? (d : Document) : Option Int32 :=
  (d.integer? (-2147483648) 2147483647).map Int32.ofInt

/-- An integer of 16 bits without sign. -/
def uint16? (d : Document) : Option UInt16 :=
  (d.integer? 0 65535).map fun i => UInt16.ofNat i.toNat

/-- Nothing for `null`, else what the reader finds. -/
def nullable? {α : Type} (read : Document → Option α) : Document → Option (Option α)
  | .null => some none
  | d => (read d).map some

/-- The members of an object as values, with `room` for what they nest. -/
def members? (room : Nat) : Document → Option Members
  | .object members => Value.ofMembers? room [] members
  | _ => none

end Document

namespace Value

/-- A text, or `null` without one. -/
def ofText? : Option String → Value
  | none => .null
  | some s => .string s

/-- An integer of 64 bits without sign. -/
def ofUInt64 (n : UInt64) : Value :=
  .number (.integer ⟨n.toNat, by omega, by have := n.toNat_lt; omega⟩)

/-- An integer of 64 bits with sign. -/
def ofInt64 (n : Int64) : Value :=
  .number (.integer ⟨n.toInt, n.le_toInt, by have := n.toInt_lt; omega⟩)

/-- An integer of 32 bits with sign. -/
def ofInt32 (n : Int32) : Value :=
  .number (.integer ⟨n.toInt, by have := n.le_toInt; omega, by have := n.toInt_lt; omega⟩)

/-- An integer of 16 bits without sign. -/
def ofUInt16 (n : UInt16) : Value :=
  .number (.integer ⟨n.toNat, by omega, by have := n.toNat_lt; omega⟩)

end Value

end RemoteSession.Json
