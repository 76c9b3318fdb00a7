import RemoteSession.Proofs.Json.Documents
import RemoteSession.Proofs.Keyed

/-!
# Values as they are written and read

What a document means and what a value is written as are inverse to each other on the
values that documents can mean (`Value.Fits`) : in these the keys of every object are in
order, each key once, and arrays and objects nest no deeper than there is room. Such a
value, written and read, is the same value (`Value.ofDocument?_document`), and every value
without doubles that was read is such a value (`Value.fits_of_ofDocument?`), as the members
of an object come to stand in order whatever order they were written in.
-/

namespace RemoteSession.Json.Value

/-- A value without doubles in which keys are in order, each key once, and arrays and
objects nest no deeper than `room`. -/
inductive Fits : Nat → Value → Prop where
  | null (room : Nat) : Fits room .null
  | bool (room : Nat) (b : Bool) : Fits room (.bool b)
  | integer (room : Nat) (i : Integer) : Fits room (.number (.integer i))
  | string (room : Nat) (s : String) : Fits room (.string s)
  | array {room : Nat} {items : List Value} : (∀ v ∈ items, Fits room v) →
    Fits (room + 1) (.array items)
  | object {room : Nat} {members : Members} : members.Sorted → (∀ m ∈ members, Fits room m.2) →
    Fits (room + 1) (.object members)

variable {room : Nat} {v : Value} {d : Document}

theorem Fits.isIntegral (h : v.Fits room) : v.IsIntegral := by
  induction h with
  | null => exact .null
  | bool room b => exact .bool b
  | integer room i => exact .integer i
  | string room s => exact .string s
  | array _ ih => exact .array ih
  | object _ _ ih => exact .object ih

theorem fits_object_iff {members : Members} :
    (Value.object members).Fits (room + 1) ↔ members.Sorted ∧ ∀ m ∈ members, m.2.Fits room := by
  constructor
  · rintro ⟨⟩
    next hsorted hfits => exact ⟨hsorted, hfits⟩
  · rintro ⟨hsorted, hfits⟩
    exact .object hsorted hfits

/-! ## What is written is read -/

theorem ofItems?_documents {items : List Value}
    (h : ∀ v ∈ items, ofDocument? room v.document = some v) :
    ofItems? room (itemDocuments items) = some items := by
  induction items with
  | nil => rfl
  | cons v rest ih =>
    rw [itemDocuments, ofItems?, h v List.mem_cons_self,
      ih fun w hw => h w (List.mem_cons_of_mem v hw)]
    rfl

/-- Members are put one after another into those that are there. -/
theorem ofMembers?_documents {members : List (String × Value)}
    (h : ∀ m ∈ members, ofDocument? room m.2.document = some m.2) (found : Members) :
    ofMembers? room found (memberDocuments members) = some (found.insertAll members) := by
  induction members generalizing found with
  | nil => rfl
  | cons m rest ih =>
    rw [memberDocuments, ofMembers?, h m List.mem_cons_self]
    exact ih (fun n hn => h n (List.mem_cons_of_mem m hn)) (found.insert m.1 m.2)

/-- A value that fits is read from its document. -/
theorem ofDocument?_document (h : v.Fits room) : ofDocument? room v.document = some v := by
  induction h with
  | null room => rfl
  | bool room b => rfl
  | integer room i => rw [document, ofDocument?, Numeral.value?_ofInteger, Option.map_some]
  | string room s => rfl
  | array _ ih => rw [document, ofDocument?, ofItems?_documents ih, Option.map_some]
  | object hsorted _ ih =>
    rw [document, ofDocument?, ofMembers?_documents ih, hsorted.insertAll_eq (.refl _),
      Option.map_some]

/-- A value that fits is read from its compact text. -/
theorem parse?_text (h : v.Fits depthLimit) : parse? v.text = some v := by
  rw [parse?, Document.parse?_text h.isIntegral, Option.bind_some, ofDocument?_document h]

/-! ## What is read fits -/

theorem ofDocument?_eq_string_iff {s : String} :
    ofDocument? room d = some (.string s) ↔ d = .string (some s) := by
  cases d with
  | string t => simp [ofDocument?]
  | array items => cases room <;> simp [ofDocument?]
  | object members => cases room <;> simp [ofDocument?]
  | _ => simp [ofDocument?]

/-- Members whose values fit as soon as they have no doubles. -/
def Kept (room : Nat) (members : Members) : Prop :=
  members.Sorted ∧ ∀ m ∈ members, m.2.IsIntegral → m.2.Fits room

theorem Kept.insert {found : Members} (h : Kept room found) (key : String)
    (hv : v.IsIntegral → v.Fits room) : Kept room (found.insert key v) := by
  refine ⟨h.1.insert key v, fun m hm => ?_⟩
  rcases Keyed.mem_insert hm with rfl | hm
  · exact hv
  · exact h.2 m hm

mutual

/-- A value without doubles that was read from a document fits. -/
theorem fits_of_ofDocument? : ∀ {d : Document} {room : Nat} {v : Value},
    ofDocument? room d = some v → v.IsIntegral → v.Fits room
  | .null, room, v, h, _ => by
    cases h
    exact .null room
  | .bool b, room, v, h, _ => by
    cases h
    exact .bool room b
  | .number n, room, v, h, hv => by
    rw [ofDocument?, Option.map_eq_some_iff] at h
    obtain ⟨value, -, rfl⟩ := h
    cases hv with
    | integer i => exact .integer room i
  | .string t, room, v, h, _ => by
    rw [ofDocument?, Option.map_eq_some_iff] at h
    obtain ⟨s, -, rfl⟩ := h
    exact .string room s
  | .array items, 0, v, h, _ => by cases h
  | .array items, room + 1, v, h, hv => by
    rw [ofDocument?, Option.map_eq_some_iff] at h
    obtain ⟨values, hread, rfl⟩ := h
    cases hv with
    | array hvalues => exact .array fun w hw => fits_of_ofItems? hread w hw (hvalues w hw)
  | .object members, 0, v, h, _ => by cases h
  | .object members, room + 1, v, h, hv => by
    rw [ofDocument?, Option.map_eq_some_iff] at h
    obtain ⟨found, hread, rfl⟩ := h
    obtain ⟨hsorted, hfits⟩ := kept_of_ofMembers? hread ⟨.nil, nofun⟩
    cases hv with
    | object hvalues => exact .object hsorted fun m hm => hfits m hm (hvalues m hm)

theorem fits_of_ofItems? : ∀ {ds : List Document} {room : Nat} {values : List Value},
    ofItems? room ds = some values → ∀ w ∈ values, w.IsIntegral → w.Fits room
  | [], room, values, h, w, hw, _ => by
    cases h
    cases hw
  | d :: rest, room, values, h, w, hw, hintegral => by
    rw [ofItems?] at h
    obtain ⟨value, hvalue, h⟩ := Option.bind_eq_some_iff.1 h
    obtain ⟨others, hothers, h⟩ := Option.bind_eq_some_iff.1 h
    cases h
    rcases List.mem_cons.1 hw with rfl | hw
    · exact fits_of_ofDocument? hvalue hintegral
    · exact fits_of_ofItems? hothers w hw hintegral

theorem kept_of_ofMembers? : ∀ {ms : List (Option String × Document)} {room : Nat}
    {found members : Members}, ofMembers? room found ms = some members → Kept room found →
      Kept room members
  | [], room, found, members, h, hfound => by
    cases h
    exact hfound
  | (key, d) :: rest, room, found, members, h, hfound => by
    rw [ofMembers?] at h
    obtain ⟨name, hname, h⟩ := Option.bind_eq_some_iff.1 h
    obtain ⟨value, hvalue, h⟩ := Option.bind_eq_some_iff.1 h
    exact kept_of_ofMembers? h (hfound.insert name (fits_of_ofDocument? hvalue))

end

end RemoteSession.Json.Value
