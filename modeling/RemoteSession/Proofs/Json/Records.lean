import RemoteSession.Json.Record
import RemoteSession.Proofs.Json.Values

/-!
# Records as they are written and read

An object is a record of its members with known keys, unless one of these keys comes twice
(`Record.ofDocument?_object`); where the known ones stand, and what stands between them, does
not matter to what is found in it (`Record.find?_of_perm`, `Record.find?_knownOf`).

A text tells some members (`Record.Told`) if it is the compact text of an object of these
members, whichever comes first : what is written in the order of a declaration, in the order
of keys or in no order at all tells the same. A record read from it holds these members and
no others (`Record.Holds`, `Record.exists_of_told`), provided that their keys are known and
differ. The readers of single members then find what the writers of single members wrote.
-/

namespace RemoteSession.Json

namespace Record

/-- A text that tells these members, in any order. -/
def Told (members : List (String × Value)) (text : String) : Prop :=
  ∃ told : List (String × Value), told.Perm members ∧ text = (Value.object told).text

/-- A record holds the documents of these members and nothing else. -/
structure Holds (r : Record) (members : List (String × Value)) : Prop where
  found : ∀ m ∈ members, r.find? m.1 = some m.2.document
  missing : ∀ name, (∀ m ∈ members, m.1 ≠ name) → r.find? name = none

/-- Members that a record of these names can have : their keys are known and differ, and
their values have no doubles. -/
structure Known (names : List String) (members : List (String × Value)) : Prop where
  known : ∀ m ∈ members, m.1 ∈ names
  differ : members.Pairwise fun a b => a.1 ≠ b.1
  integral : ∀ m ∈ members, m.2.IsIntegral

/-- The members with known keys. -/
def knownOf (names : List String) (members : Record) : Record :=
  members.filter fun m => m.1 ∈ names

/-- A member as it stands in an object. -/
def entry (m : String × Document) : Document.Member :=
  (some m.1, m.2)

/-! ## Values of members -/

end Record

namespace Value

@[simp] theorem isIntegral_null : Value.null.IsIntegral := .null

@[simp] theorem isIntegral_string (s : String) : (Value.string s).IsIntegral := .string s

@[simp] theorem isIntegral_ofUInt64 (n : UInt64) : (ofUInt64 n).IsIntegral := .integer _

@[simp] theorem isIntegral_ofInt64 (n : Int64) : (ofInt64 n).IsIntegral := .integer _

@[simp] theorem isIntegral_ofInt32 (n : Int32) : (ofInt32 n).IsIntegral := .integer _

@[simp] theorem isIntegral_ofText? (s : Option String) : (ofText? s).IsIntegral := by
  cases s with
  | none => exact .null
  | some s => exact .string s

end Value

namespace Record

variable {r : Record} {names : List String} {members told : List (String × Value)}
  {name : String} {d : Document}

/-! ## Finding members -/

theorem find?_eq_none (h : ∀ m ∈ r, m.1 ≠ name) : find? r name = none := by
  rw [find?, Option.map_eq_none_iff, List.find?_eq_none]
  exact fun m hm heq => h m hm (beq_iff_eq.1 heq)

theorem find?_of_mem (h : r.Pairwise fun a b => a.1 ≠ b.1) (hmem : (name, d) ∈ r) :
    find? r name = some d := by
  induction r with
  | nil => cases hmem
  | cons m rest ih =>
    obtain ⟨hfirst, hrest⟩ := List.pairwise_cons.1 h
    rcases List.mem_cons.1 hmem with rfl | hmem
    · simp [find?]
    · have hne : m.1 ≠ name := hfirst (name, d) hmem
      have hlater := ih hrest hmem
      rw [find?] at hlater ⊢
      rwa [List.find?_cons_of_neg (by simpa using hne)]

theorem find?_eq_some_iff {r : Record} (h : r.Pairwise fun a b => a.1 ≠ b.1) :
    r.find? name = some d ↔ (name, d) ∈ r := by
  refine ⟨fun hfound => ?_, find?_of_mem h⟩
  obtain ⟨m, hm, rfl⟩ := Option.map_eq_some_iff.1 hfound
  have hkey := List.find?_some hm
  obtain rfl : m.1 = name := beq_iff_eq.1 hkey
  exact List.mem_of_find?_eq_some hm

/-- Where keys differ, the order of the members does not matter. -/
theorem find?_of_perm {r r' : Record} (h : r.Pairwise fun a b => a.1 ≠ b.1) (hperm : r'.Perm r)
    (name : String) : r'.find? name = r.find? name := by
  have h' : r'.Pairwise fun a b => a.1 ≠ b.1 := h.perm hperm.symm Ne.symm
  ext d
  rw [find?_eq_some_iff h, find?_eq_some_iff h', hperm.mem_iff]

theorem find?_knownOf (hname : name ∈ names) (members : Record) :
    find? (knownOf names members) name = find? members name := by
  have hsame : ∀ m : String × Document,
      decide (decide (m.1 ∈ names) = true ∧ (m.1 == name) = true) = (m.1 == name) := by
    intro m
    by_cases hm : m.1 = name
    · simp [hm, hname]
    · simp [hm]
  rw [find?, find?, knownOf, List.find?_filter]
  simp only [hsame]

theorem isSome_find?_iff (r : Record) : (r.find? name).isSome = true ↔ name ∈ r.map Prod.fst := by
  simp [find?]

theorem knownOf_cons_of_mem {members : Record} {key : String} (h : key ∈ names) :
    knownOf names ((key, d) :: members) = (key, d) :: knownOf names members :=
  List.filter_cons_of_pos (decide_eq_true h)

theorem knownOf_cons_of_not_mem {members : Record} {key : String} (h : key ∉ names) :
    knownOf names ((key, d) :: members) = knownOf names members :=
  List.filter_cons_of_neg (by simpa using h)

/-- The members with known keys are found, each in its turn, unless one has been found before. -/
theorem foldlM_addMember? (members : Record) (hr : (r.map Prod.fst).Nodup) :
    (members.map entry).foldlM (addMember? names) r =
      if ((r ++ knownOf names members).map Prod.fst).Nodup then some (r ++ knownOf names members)
      else none := by
  induction members generalizing r with
  | nil =>
    have hnil : r ++ knownOf names [] = r := List.append_nil r
    rw [hnil, if_pos hr]
    rfl
  | cons m rest ih =>
    obtain ⟨key, d⟩ := m
    rw [List.map_cons, List.foldlM_cons]
    by_cases hknown : key ∈ names
    · rw [knownOf_cons_of_mem hknown]
      by_cases hfound : (find? r key).isSome = true
      · have hadd : addMember? names r (entry (key, d)) = none := by
          simp [addMember?, entry, hknown, hfound]
        have hdouble : ¬((r ++ (key, d) :: knownOf names rest).map Prod.fst).Nodup := by
          intro hnodup
          rw [List.map_append, List.nodup_append] at hnodup
          exact hnodup.2.2 key ((isSome_find?_iff r).1 hfound) key (by simp) rfl
        rw [hadd, if_neg hdouble]
        rfl
      · have hadd : addMember? names r (entry (key, d)) = some (r ++ [(key, d)]) := by
          simp [addMember?, entry, hknown, hfound]
        have hfresh : key ∉ r.map Prod.fst := fun hmem => hfound ((isSome_find?_iff r).2 hmem)
        have hnew : ((r ++ [(key, d)]).map Prod.fst).Nodup := by
          rw [List.map_append, List.nodup_append]
          refine ⟨hr, by simp, fun a ha b hb hab => hfresh ?_⟩
          obtain rfl : b = key := List.mem_singleton.1 hb
          exact hab ▸ ha
        rw [hadd, Option.bind_eq_bind, Option.bind_some, ih hnew, List.append_assoc,
          List.singleton_append]
    · have hadd : addMember? names r (entry (key, d)) = some r := by
        simp [addMember?, entry, hknown]
      rw [knownOf_cons_of_not_mem hknown, hadd, Option.bind_eq_bind, Option.bind_some, ih hr]

/-- An object is a record of its known members, provided that no two of them have one key. -/
theorem ofDocument?_object (names : List String) (members : Record) :
    ofDocument? names (.object (members.map entry)) =
      if ((knownOf names members).map Prod.fst).Nodup then some (knownOf names members)
      else none :=
  foldlM_addMember? (r := []) members List.nodup_nil

/-- An object of these members in any order is read as a record that holds them. -/
theorem exists_holds (h : Known names members) (hperm : told.Perm members) :
    ∃ r, ofDocument? names (Value.object told).document = some r ∧ r.Holds members := by
  let r : Record := told.map fun m => (m.1, m.2.document)
  have hne : told.Pairwise fun a b => a.1 ≠ b.1 := h.differ.perm hperm.symm Ne.symm
  have hknown : knownOf names r = r := List.filter_eq_self.2 <| List.forall_mem_map.2 fun m hm =>
    decide_eq_true (h.known m (hperm.mem_iff.1 hm))
  have hnodup : (r.map Prod.fst).Nodup := List.pairwise_map.2 (List.pairwise_map.2 hne)
  have hdocument : (Value.object told).document = .object (r.map entry) := by
    rw [Value.document, Value.memberDocuments_eq_map, List.map_map]
    rfl
  refine ⟨r, ?_, fun m hm => ?_, fun name hname => ?_⟩
  · rw [hdocument, ofDocument?_object, hknown, if_pos hnodup]
  · refine find?_of_mem (List.pairwise_map.2 hne) ?_
    exact List.mem_map.2 ⟨m, hperm.mem_iff.2 hm, rfl⟩
  · refine find?_eq_none fun f hf => ?_
    obtain ⟨m, hm, rfl⟩ := List.mem_map.1 hf
    exact hname m (hperm.mem_iff.1 hm)

theorem isIntegral_of_perm (h : Known names members) (hperm : told.Perm members) :
    (Value.object told).IsIntegral :=
  .object fun m hm => h.integral m (hperm.mem_iff.1 hm)

/-- A text that tells these members is a document whose record holds them. -/
theorem exists_of_told {text : String} (h : Known names members) (htold : Told members text) :
    ∃ d r, Document.parse? text = some d ∧ ofDocument? names d = some r ∧ r.Holds members := by
  obtain ⟨told, hperm, rfl⟩ := htold
  obtain ⟨r, hread, hholds⟩ := exists_holds h hperm
  exact ⟨_, r, Document.parse?_text (isIntegral_of_perm h hperm), hread, hholds⟩

/-! ## Reading members -/

variable {α : Type} {v : Value} {a default : α} {read : Document → Option α}

theorem Holds.required? (h : r.Holds members) (hmem : (name, v) ∈ members)
    (hread : read v.document = some a) : r.required? name read = some a := by
  rw [Record.required?, h.found _ hmem, Option.bind_some, hread]

theorem Holds.defaulted? (h : r.Holds members) (hmem : (name, v) ∈ members)
    (hread : read v.document = some a) : r.defaulted? name default read = some a := by
  rw [Record.defaulted?, h.found _ hmem]
  exact hread

theorem Holds.defaulted?_missing (h : r.Holds members) (hname : ∀ m ∈ members, m.1 ≠ name) :
    r.defaulted? name default read = some default := by
  rw [Record.defaulted?, h.missing name hname]

/-- A member that is left out when there is nothing to tell. -/
theorem Holds.optional? (h : r.Holds members) {a : Option α} (write : α → Value)
    (hmem : ∀ b ∈ a, (name, write b) ∈ members) (hname : a = none → ∀ m ∈ members, m.1 ≠ name)
    (hread : ∀ b, read (write b).document = some b) (hnull : ∀ b, (write b).document ≠ .null) :
    r.defaulted? name none (Document.nullable? read) = some a := by
  cases a with
  | none => exact h.defaulted?_missing (hname rfl)
  | some b =>
    refine h.defaulted? (hmem b rfl) ?_
    rw [Document.nullable?, hread, Option.map_some]
    exact hnull b

end Record

namespace Document

variable {d : Document}

/-! ## Readers of single members -/

theorem integer?_eq_some_iff {least most value : Int} :
    d.integer? least most = some value ↔
      ∃ n i, d = .number n ∧ n.value? = some (.integer i) ∧ i.value = value ∧
        least ≤ value ∧ value ≤ most := by
  constructor
  · intro h
    unfold integer? at h
    split at h
    · next n =>
      split at h
      · next i hi =>
        obtain ⟨⟨hleast, hmost⟩, heq⟩ := Option.ite_none_right_eq_some.1 h
        cases heq
        exact ⟨n, i, rfl, hi, rfl, hleast, hmost⟩
      · cases h
    · cases h
  · rintro ⟨n, i, rfl, hi, rfl, hleast, hmost⟩
    simp only [integer?, hi, hleast, hmost, and_self, if_true]

/-- A count of 64 bits is spelled in digits alone. -/
theorem uint64?_eq_some_iff {count : UInt64} :
    d.uint64? = some count ↔ ∃ n, d = .number n ∧ n.Counts count.toNat := by
  rw [uint64?, Option.map_eq_some_iff]
  constructor
  · rintro ⟨value, hvalue, rfl⟩
    obtain ⟨n, i, rfl, hi, rfl, hle, hmost⟩ := integer?_eq_some_iff.1 hvalue
    have hsize : i.value.toNat < UInt64.size := by
      rw [UInt64.size]
      omega
    rw [UInt64.toNat_ofNat_of_lt' hsize]
    exact ⟨n, rfl, Numeral.counts_of_value? hi hle⟩
  · rintro ⟨n, rfl, hcounts⟩
    have hlt := count.toNat_lt
    obtain ⟨i, hi, hvalue⟩ := hcounts.value?_eq hlt
    refine ⟨i.value, integer?_eq_some_iff.2 ⟨n, i, rfl, hi, rfl, by omega, by omega⟩, ?_⟩
    rw [hvalue, Int.toNat_natCast, UInt64.ofNat_toNat]

theorem integer?_document {least most : Int} (i : Integer) (hleast : least ≤ i.value)
    (hmost : i.value ≤ most) :
    integer? least most (Value.ofInteger i).document = some i.value :=
  integer?_eq_some_iff.2 ⟨_, i, rfl, Numeral.value?_ofInteger i, rfl, hleast, hmost⟩

theorem uint64?_document (n : UInt64) : uint64? (Value.ofUInt64 n).document = some n := by
  have hlt := n.toNat_lt
  have hread : integer? 0 18446744073709551615 (Value.ofUInt64 n).document = some (n.toNat : Int) :=
    integer?_document ⟨n.toNat, _, _⟩ (Int.natCast_nonneg _) (by change (n.toNat : Int) ≤ _; omega)
  rw [uint64?, hread, Option.map_some, Int.toNat_natCast, UInt64.ofNat_toNat]

theorem uint16?_document (n : UInt16) : uint16? (Value.ofUInt16 n).document = some n := by
  have hlt := n.toNat_lt
  have hread : integer? 0 65535 (Value.ofUInt16 n).document = some (n.toNat : Int) :=
    integer?_document ⟨n.toNat, _, _⟩ (Int.natCast_nonneg _) (by change (n.toNat : Int) ≤ _; omega)
  rw [uint16?, hread, Option.map_some, Int.toNat_natCast, UInt16.ofNat_toNat]

theorem int64?_document (n : Int64) : int64? (Value.ofInt64 n).document = some n := by
  have hlt := n.toInt_lt
  have hread : integer? (-9223372036854775808) 9223372036854775807 (Value.ofInt64 n).document =
      some n.toInt :=
    integer?_document ⟨n.toInt, _, _⟩ n.le_toInt (by change n.toInt ≤ _; omega)
  rw [int64?, hread, Option.map_some, Int64.ofInt_toInt]

theorem int32?_document (n : Int32) : int32? (Value.ofInt32 n).document = some n := by
  have hlt := n.toInt_lt
  have hread : integer? (-2147483648) 2147483647 (Value.ofInt32 n).document = some n.toInt :=
    integer?_document ⟨n.toInt, _, _⟩ n.le_toInt (by change n.toInt ≤ _; omega)
  rw [int32?, hread, Option.map_some, Int32.ofInt_toInt]

theorem nullable?_ofText? (s : Option String) :
    nullable? text? (Value.ofText? s).document = some s := by
  cases s <;> rfl

end Document

end RemoteSession.Json
