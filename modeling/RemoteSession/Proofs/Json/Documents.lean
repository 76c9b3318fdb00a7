import RemoteSession.Proofs.Json.Grammar

/-!
# Documents of compact texts

The compact text of a value is one of the texts that the grammar has for a document
(`Document.written_chars`) : the members of an object in the order in which they are written,
each key as it was, and every integer with its numeral (`Value.document`). So it is read as
this document (`Document.parse?_text`).

Only values without doubles are treated here (`Value.IsIntegral`). A double is written in
its shortest form and read by floating point arithmetic, of which nothing is said.
-/

namespace RemoteSession.Json

namespace Value

/-- A value without doubles : all numbers in it are integers of 64 bits. -/
inductive IsIntegral : Value → Prop where
  | null : IsIntegral .null
  | bool (b : Bool) : IsIntegral (.bool b)
  | integer (i : Integer) : IsIntegral (.number (.integer i))
  | string (s : String) : IsIntegral (.string s)
  | array {items : List Value} : (∀ v ∈ items, IsIntegral v) → IsIntegral (.array items)
  | object {members : List (String × Value)} : (∀ m ∈ members, IsIntegral m.2) →
    IsIntegral (.object members)

mutual

/-- The document that the compact text of a value is. -/
def document : Value → Document
  | .null => .null
  | .bool b => .bool b
  | .number (.integer i) => .number (.ofInteger i.value)
  | .number (.double d) => .number ((Numeral.ofChars? d.chars).getD (.ofInteger 0))
  | .string s => .string (some s)
  | .array items => .array (itemDocuments items)
  | .object members => .object (memberDocuments members)
termination_by structural v => v

/-- The documents of the items. -/
def itemDocuments : List Value → List Document
  | [] => []
  | v :: rest => document v :: itemDocuments rest
termination_by structural vs => vs

/-- The keys and documents of the members. -/
def memberDocuments : List (String × Value) → List Document.Member
  | [] => []
  | (key, v) :: rest => (some key, document v) :: memberDocuments rest
termination_by structural ms => ms

end

theorem itemDocuments_eq_map (items : List Value) : itemDocuments items = items.map document := by
  induction items with
  | nil => rfl
  | cons v rest ih => rw [itemDocuments, ih, List.map_cons]

theorem memberDocuments_eq_map (members : List (String × Value)) :
    memberDocuments members = members.map fun m => (some m.1, m.2.document) := by
  induction members with
  | nil => rfl
  | cons m rest ih => rw [memberDocuments, ih, List.map_cons]

theorem itemsChars_eq (items : List Value) :
    itemsChars items = Document.separated (items.map chars) := by
  induction items with
  | nil => rfl
  | cons v rest ih =>
    cases rest with
    | nil =>
      rw [itemsChars, List.append_nil]
      exact List.intercalate_singleton.symm
    | cons w rest =>
      rw [itemsChars, ih]
      rfl

theorem membersChars_eq (members : List (String × Value)) :
    membersChars members =
      Document.separated (members.map fun m => quoted m.1 ++ ':' :: m.2.chars) := by
  induction members with
  | nil => rfl
  | cons m rest ih =>
    cases rest with
    | nil =>
      rw [membersChars, List.append_nil]
      exact List.intercalate_singleton.symm
    | cons n rest =>
      rw [membersChars, ih]
      rfl

end Value

namespace Document

theorem written_string (s : String) : Written (Value.quoted s) (.string (some s)) :=
  .string (Token.spelledChars_escapedChars s.toList)

theorem writtenKey_quoted (key : String) : WrittenKey (Value.quoted key) key := by
  rw [← List.append_nil (Value.quoted key), ← List.nil_append (Value.quoted key)]
  exact .quoted nofun (Token.spelledChars_escapedChars key.toList) nofun

/-- A member in its compact text. -/
def compactMember (m : String × Value) : MemberText :=
  ⟨m.1, m.2.document, Value.quoted m.1, m.2.chars⟩

theorem written_chars {v : Value} (h : v.IsIntegral) : Written v.chars v.document := by
  induction h with
  | null => exact .null
  | bool b =>
    cases b with
    | false => exact .false
    | true => exact .true
  | integer i => exact .number (Numeral.spelled_integerChars i.value)
  | string s => exact written_string s
  | @array items _ ih =>
    have hitems : ∀ i ∈ items.map fun v => (v.chars, v.document), Written i.1 i.2 :=
      List.forall_mem_map.2 ih
    have hwritten := @Written.array [] _ nofun hitems
    rw [Value.chars, Value.document, Value.itemsChars_eq, Value.itemDocuments_eq_map]
    simpa [Function.comp_def] using hwritten
  | @object members _ ih =>
    have hkeys : ∀ m ∈ members.map compactMember, WrittenKey m.keyChars m.key :=
      List.forall_mem_map.2 fun m _ => writtenKey_quoted m.1
    have hvalues : ∀ m ∈ members.map compactMember, Written m.chars m.document :=
      List.forall_mem_map.2 ih
    have hwritten := @Written.object [] _ nofun hkeys hvalues
    rw [Value.chars, Value.document, Value.membersChars_eq, Value.memberDocuments_eq_map]
    simpa [Function.comp_def, compactMember, MemberText.text, MemberText.member] using hwritten

/-- The compact text of a value without doubles is the document of this value. -/
theorem parse?_text {v : Value} (h : v.IsIntegral) : parse? v.text = some v.document := by
  refine parse?_of_written ?_
  rw [Value.text, String.toList_ofList]
  exact written_chars h

end Document

end RemoteSession.Json
