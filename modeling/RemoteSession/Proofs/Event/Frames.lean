import RemoteSession.Event.Basic
import RemoteSession.Proofs.Json.Records

/-!
# Frames of events

The frame of an event is read as this event, provided that its payload is one that can be
read (`Event.decode?_encode`) : not `null`, which is read as no payload, without doubles, and
not too deep for a member of a record. The payload of an event that was read from a frame is
such a payload as soon as it has no doubles (`Event.readable_of_decode?`). So whatever frame
an event came in, its own frame says the same, and says it again and again
(`Event.encode_stable`).
-/

namespace RemoteSession.Event

open Json

/-- The members of an event in their order. -/
def members (e : Event) : List (String × Value) :=
  [("session_id", .string e.sessionId), ("engine", .string e.engine), ("ts_ms", .ofInt64 e.tsMs),
    ("seq", .ofUInt64 e.seq), ("kind", .string e.kind), ("payload", e.payload.getD .null)]

/-- A payload that is read as it was written. -/
def Readable (v : Value) : Prop :=
  v ≠ .null ∧ v.Fits fieldRoom

variable {e : Event} {v : Value}

/-! ## What is written is read -/

theorem known_members (h : ∀ v ∈ e.payload, Readable v) : Record.Known fieldNames e.members where
  known := by simp [members, fieldNames]
  differ := by simp [members]
  integral := by
    have hpayload : (e.payload.getD .null).IsIntegral := by
      cases hp : e.payload with
      | none => exact .null
      | some v => exact (h v hp).2.isIntegral
    simp [members, hpayload]

theorem lenientTime_ofInt64 (n : Int64) : lenientTime (.ofInt64 n) = n := by
  have hlt := n.toInt_lt
  have hle : n.toInt ≤ 9223372036854775807 := by omega
  rw [Value.ofInt64, lenientTime, if_pos hle, Int64.ofInt_toInt]

theorem document_ne_null (h : v ≠ .null) : v.document ≠ .null := by
  cases v with
  | null => exact absurd rfl h
  | number n => cases n <;> exact nofun
  | _ => exact nofun

theorem nullable?_payload (h : ∀ v ∈ e.payload, Readable v) :
    Document.nullable? (Value.ofDocument? fieldRoom) (e.payload.getD .null).document =
      some e.payload := by
  cases hp : e.payload with
  | none => rfl
  | some v =>
    obtain ⟨hnull, hfits⟩ := h v hp
    rw [Option.getD_some, Document.nullable?, Value.ofDocument?_document hfits, Option.map_some]
    exact document_ne_null hnull

/-- The frame of an event with a readable payload is read as the event. -/
theorem decode?_encode (h : ∀ v ∈ e.payload, Readable v) : decode? e.encode = some e := by
  obtain ⟨d, r, hparse, hrecord, hholds⟩ :=
    Record.exists_of_told (known_members h) ⟨e.members, .refl _, rfl⟩
  have htime : (Value.ofDocument? fieldRoom (Value.ofInt64 e.tsMs).document).map lenientTime =
      some e.tsMs := by
    rw [Value.ofDocument?_document (v := .ofInt64 e.tsMs) (.integer ..), Option.map_some,
      lenientTime_ofInt64]
  have hsession : lenient? r "session_id" "" lenientText = some e.sessionId :=
    hholds.defaulted? (v := .string e.sessionId) (by simp [members]) rfl
  have hengine : lenient? r "engine" "" lenientText = some e.engine :=
    hholds.defaulted? (v := .string e.engine) (by simp [members]) rfl
  have hts : lenient? r "ts_ms" 0 lenientTime = some e.tsMs :=
    hholds.defaulted? (v := .ofInt64 e.tsMs) (by simp [members]) htime
  have hseq : r.required? "seq" Document.uint64? = some e.seq :=
    hholds.required? (by simp [members]) (Document.uint64?_document e.seq)
  have hkind : r.required? "kind" Document.text? = some e.kind :=
    hholds.required? (v := .string e.kind) (by simp [members]) rfl
  have hpayload : payload? r = some e.payload :=
    hholds.defaulted? (by simp [members]) (nullable?_payload h)
  rw [decode?, show e.encode = (Value.object e.members).text from rfl, hparse, Option.bind_some,
    ofDocument?, hrecord]
  simp only [Option.bind_eq_bind, Option.bind_some, hsession, hengine, hts, hseq, hkind, hpayload]

/-! ## What is read is written -/

/-- Only `null` means `null`. -/
theorem eq_null_of_ofDocument? {d : Document} {room : Nat}
    (h : Value.ofDocument? room d = some .null) : d = .null := by
  cases d with
  | null => rfl
  | _ => cases room <;> simp [Value.ofDocument?] at h

/-- A payload is one that the document of the member means, and not `null`. -/
theorem exists_of_payload? {r : Record} (h : payload? r = some (some v)) :
    v ≠ .null ∧ ∃ d, Value.ofDocument? fieldRoom d = some v := by
  unfold payload? Record.defaulted? at h
  split at h
  · cases h
  · next d _ =>
    unfold Document.nullable? at h
    split at h
    · cases h
    · next hd =>
      obtain ⟨w, hw, heq⟩ := Option.map_eq_some_iff.1 h
      cases heq
      refine ⟨?_, d, hw⟩
      rintro rfl
      exact hd (eq_null_of_ofDocument? hw)

/-- The payload of an event that was read, if it has no doubles, is readable. -/
theorem readable_of_decode? {frame : String} (h : decode? frame = some e)
    (hv : v ∈ e.payload) (hintegral : v.IsIntegral) : Readable v := by
  obtain ⟨d, -, h⟩ := Option.bind_eq_some_iff.1 h
  obtain ⟨r, -, h⟩ := Option.bind_eq_some_iff.1 h
  obtain ⟨_, -, h⟩ := Option.bind_eq_some_iff.1 h
  obtain ⟨_, -, h⟩ := Option.bind_eq_some_iff.1 h
  obtain ⟨_, -, h⟩ := Option.bind_eq_some_iff.1 h
  obtain ⟨_, -, h⟩ := Option.bind_eq_some_iff.1 h
  obtain ⟨_, -, h⟩ := Option.bind_eq_some_iff.1 h
  obtain ⟨payload, hpayload, h⟩ := Option.bind_eq_some_iff.1 h
  cases h
  cases hv
  obtain ⟨hnull, d, hd⟩ := exists_of_payload? hpayload
  exact ⟨hnull, Value.fits_of_ofDocument? hd hintegral⟩

/-- An event that was read from any frame, and whose payload holds no number but integers, is
what is read from its own frame, and the frame of that is the same text. -/
theorem encode_stable {frame : String} {e : Event} (h : decode? frame = some e)
    (hpayload : ∀ v ∈ e.payload, v.IsIntegral) :
    ∃ again, decode? e.encode = some again ∧ again = e ∧ again.encode = e.encode :=
  ⟨e, decode?_encode fun v hv => readable_of_decode? h hv (hpayload v hv), rfl, rfl⟩

/-- An array of fields : one is of another type, one is `null`, and the payload has its keys
out of order and one of them twice. -/
theorem encode_stable_array :
    let frame := "[\"s\",7,null,5,\"\",\x7b\"b\":[-1],\"a\":0,\"a\":\"\\u0007\"\x7d]"
    let payload := Value.object [("a", .string "\x07"), ("b", .array [.ofInt64 (-1)])]
    let e : Event := ⟨"s", "", 0, 5, "", some payload⟩
    decode? frame = some e ∧ (∀ v ∈ e.payload, v.IsIntegral) ∧
      ∃ again, decode? e.encode = some again ∧ again = e ∧ again.encode = e.encode := by
  intro frame payload e
  let told := Value.array [.string "s", .ofUInt64 7, .null, .ofUInt64 5, .string "",
    .object [("b", .array [.ofInt64 (-1)]), ("a", .ofUInt64 0), ("a", .string "\x07")]]
  have htold : told.IsIntegral := by
    refine .array ?_
    simp [Value.IsIntegral.object, Value.IsIntegral.array]
  have hread : decode? frame = some e := by
    have htext : frame = told.text := by decide +kernel
    rw [decode?, htext, Document.parse?_text htold]
    rfl
  have hpayload : ∀ v ∈ e.payload, v.IsIntegral := by
    simp [e, payload, Value.IsIntegral.object, Value.IsIntegral.array]
  exact ⟨hread, hpayload, encode_stable hread hpayload⟩

end RemoteSession.Event
