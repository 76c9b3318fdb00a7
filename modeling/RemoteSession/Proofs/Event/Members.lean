import RemoteSession.Proofs.Event.Frames

/-!
# Members of an event

What a frame has to say to be an event. A frame is written as an object with some members
(`Event.WrittenAs`), in any of the ways that the grammar has. It is an event if and only if
its `kind` is a text and its `seq` counts with digits alone up to 64 bits; whatever else the
members hold only describes the event (`Event.Describes`). Where the members stand, and
which others stand among them, does not matter. A field that comes twice is an error
(`Event.decode?_of_object`).
-/

namespace RemoteSession

open Json

namespace Event

/-- A text is an object with these members, written in any of its ways. -/
def WrittenAs (text : String) (members : Record) : Prop :=
  Document.Written text.toList (.object (members.map Record.entry))

/-- The value that members have for a field. -/
def given? (members : Record) (name : String) : Option Value :=
  (members.find? name).bind (Value.ofDocument? fieldRoom)

/-- All fields among the members have values. -/
def Valued (members : Record) : Prop :=
  ∀ m ∈ members, m.1 ∈ fieldNames → ∃ v, Value.ofDocument? fieldRoom m.2 = some v

/-- A text that is given, or the empty one if none is. -/
def GivesText (members : Record) (name text : String) : Prop :=
  given? members name = some (.string text) ∨
    text = "" ∧ ∀ s, given? members name ≠ some (.string s)

/-- A time that is given as an integer of 64 bits, or zero if none is. -/
def GivesTime (members : Record) (tsMs : Int64) : Prop :=
  given? members "ts_ms" = some (.ofInt64 tsMs) ∨
    tsMs = 0 ∧ ∀ t, given? members "ts_ms" ≠ some (.ofInt64 t)

/-- An event as its members describe it. -/
structure Describes (members : Record) (e : Event) : Prop where
  kind : given? members "kind" = some (.string e.kind)
  seq : given? members "seq" = some (.ofUInt64 e.seq)
  sessionId : GivesText members "session_id" e.sessionId
  engine : GivesText members "engine" e.engine
  tsMs : GivesTime members e.tsMs
  payload : ∀ v, e.payload = some v ↔ given? members "payload" = some v ∧ v ≠ .null

variable {members r r' : Record} {name : String} {d : Document} {e : Event}

/-! ## Fields -/

theorem exists_of_find? (h : Valued r) (hname : name ∈ fieldNames) (hfind : r.find? name = some d) :
    ∃ v, Value.ofDocument? fieldRoom d = some v ∧ given? r name = some v := by
  obtain ⟨m, hm, rfl⟩ := Option.map_eq_some_iff.1 hfind
  have hkey := List.find?_some hm
  obtain rfl : m.1 = name := beq_iff_eq.1 hkey
  obtain ⟨v, hv⟩ := h m (List.mem_of_find?_eq_some hm) hname
  exact ⟨v, hv, by rw [given?, hfind, Option.bind_some, hv]⟩

theorem lenient?_of_valued {α : Type} (h : Valued r) (hname : name ∈ fieldNames) (default : α)
    (read : Value → α) :
    lenient? r name default read = some (((given? r name).map read).getD default) := by
  rw [lenient?, Record.defaulted?]
  cases hfind : r.find? name with
  | none => simp [given?, hfind]
  | some d =>
    obtain ⟨v, hv, hgiven⟩ := exists_of_find? h hname hfind
    simp [hv, hgiven]

theorem givesText_of_lenient (r : Record) (name : String) :
    GivesText r name (((given? r name).map lenientText).getD "") := by
  unfold GivesText
  cases given? r name with
  | none => simp
  | some v => cases v <;> simp [lenientText]

theorem lenientTime_cases (v : Value) :
    v = .ofInt64 (lenientTime v) ∨ lenientTime v = 0 ∧ ∀ t, v ≠ .ofInt64 t := by
  have hother : (∀ i, v ≠ .number (.integer i)) → ∀ t, v ≠ .ofInt64 t := fun h t heq => by
    rw [Value.ofInt64] at heq
    exact h _ heq
  cases v with
  | number number =>
    cases number with
    | double d => exact .inr ⟨rfl, hother fun i => by simp⟩
    | integer i =>
      obtain ⟨value, hlower, hupper⟩ := i
      by_cases hle : value ≤ 9223372036854775807
      · refine .inl ?_
        have hsame : (Int64.ofInt value).toInt = value :=
          Int64.toInt_ofInt_of_le hlower (by omega)
        simp only [lenientTime, if_pos hle, Value.ofInt64, hsame]
      · refine .inr ⟨if_neg hle, fun t heq => hle ?_⟩
        cases heq
        have hlt := t.toInt_lt
        omega
  | _ => exact .inr ⟨rfl, hother fun i => by simp⟩

theorem givesTime_of_lenient (r : Record) :
    GivesTime r (((given? r "ts_ms").map lenientTime).getD 0) := by
  unfold GivesTime
  cases given? r "ts_ms" with
  | none => simp
  | some v => simpa using lenientTime_cases v

theorem payload_of_valued (h : Valued r) :
    ∃ payload, payload? r = some payload ∧
      ∀ v, payload = some v ↔ given? r "payload" = some v ∧ v ≠ .null := by
  rw [payload?, Record.defaulted?]
  cases hfind : r.find? "payload" with
  | none => exact ⟨none, rfl, by simp [given?, hfind]⟩
  | some d =>
    obtain ⟨v, hv, hgiven⟩ := exists_of_find? h (by decide) hfind
    by_cases hnull : d = .null
    · subst hnull
      cases hv
      exact ⟨none, rfl, by simp [hgiven]⟩
    · have hread : Document.nullable? (Value.ofDocument? fieldRoom) d = some (some v) := by
        rw [Document.nullable?, hv, Option.map_some]
        exact hnull
      have hne : v ≠ .null := by
        rintro rfl
        exact hnull (eq_null_of_ofDocument? hv)
      refine ⟨some v, hread, fun w => ?_⟩
      rw [hgiven]
      constructor
      · rintro ⟨⟩
        exact ⟨rfl, hne⟩
      · exact And.left

theorem required?_seq_iff {seq : UInt64} :
    r.required? "seq" Document.uint64? = some seq ↔
      ∃ n, r.find? "seq" = some (.number n) ∧ n.Counts seq.toNat := by
  rw [Record.required?, Option.bind_eq_some_iff]
  constructor
  · rintro ⟨d, hfind, hd⟩
    obtain ⟨n, rfl, hcounts⟩ := Document.uint64?_eq_some_iff.1 hd
    exact ⟨n, hfind, hcounts⟩
  · rintro ⟨n, hfind, hcounts⟩
    exact ⟨_, hfind, Document.uint64?_eq_some_iff.2 ⟨n, rfl, hcounts⟩⟩

theorem given?_seq {n : Numeral} {seq : UInt64} (hfind : r.find? "seq" = some (.number n))
    (hcounts : n.Counts seq.toNat) : given? r "seq" = some (.ofUInt64 seq) := by
  obtain ⟨⟨value, hlower, hupper⟩, hi, rfl⟩ := hcounts.value?_eq seq.toNat_lt
  rw [given?, hfind, Option.bind_some, Value.ofDocument?, hi]
  rfl

theorem required?_kind_iff {kind : String} :
    r.required? "kind" Document.text? = some kind ↔ given? r "kind" = some (.string kind) := by
  have htext : ∀ d, Document.text? d = some kind ↔ d = .string (some kind) := fun d => by
    cases d <;> simp [Document.text?]
  simp only [Record.required?, given?, Option.bind_eq_some_iff, htext,
    Value.ofDocument?_eq_string_iff]

/-! ## Records -/

/-- An event is read from what is found in its record. -/
theorem ofDocument?_congr {d d' : Document} (h : Record.ofDocument? fieldNames d = some r)
    (h' : Record.ofDocument? fieldNames d' = some r')
    (hfind : ∀ name, r'.find? name = r.find? name) : ofDocument? d' = ofDocument? d := by
  simp only [ofDocument?, h, h', Option.bind_eq_bind, Option.bind_some, lenient?, payload?,
    Record.required?, Record.defaulted?, hfind]

/-- With a value for each field, the kind and the number make the event. -/
theorem ofDocument?_eq_some_iff (h : Record.ofDocument? fieldNames d = some r)
    (hvalued : Valued r) :
    ofDocument? d = some e ↔
      r.required? "seq" Document.uint64? = some e.seq ∧
        r.required? "kind" Document.text? = some e.kind ∧
          e.sessionId = ((given? r "session_id").map lenientText).getD "" ∧
            e.engine = ((given? r "engine").map lenientText).getD "" ∧
              e.tsMs = ((given? r "ts_ms").map lenientTime).getD 0 ∧
                payload? r = some e.payload := by
  obtain ⟨payload, hpayload, -⟩ := payload_of_valued hvalued
  have hsession : lenient? r "session_id" "" lenientText = _ :=
    lenient?_of_valued hvalued (by decide) "" lenientText
  have hengine : lenient? r "engine" "" lenientText = _ :=
    lenient?_of_valued hvalued (by decide) "" lenientText
  have htime : lenient? r "ts_ms" 0 lenientTime = _ :=
    lenient?_of_valued hvalued (by decide) 0 lenientTime
  simp only [ofDocument?, h, hsession, hengine, htime, hpayload, Option.bind_eq_bind,
    Option.bind_some, Option.bind_eq_some_iff, Option.some.injEq]
  constructor
  · rintro ⟨seq, hseq, kind, hkind, rfl⟩
    exact ⟨hseq, hkind, rfl, rfl, rfl, rfl⟩
  · rintro ⟨hseq, hkind, hsessionId, hengine, htsMs, rfl⟩
    refine ⟨_, hseq, _, hkind, ?_⟩
    rw [← hsessionId, ← hengine, ← htsMs]

theorem isSome_ofDocument?_iff (h : Record.ofDocument? fieldNames d = some r)
    (hvalued : Valued r) :
    (ofDocument? d).isSome = true ↔
      (∃ kind, given? r "kind" = some (.string kind)) ∧
        ∃ n seq, r.find? "seq" = some (.number n) ∧ n.Counts seq ∧ seq < 18446744073709551616 := by
  rw [Option.isSome_iff_exists]
  constructor
  · rintro ⟨e, he⟩
    obtain ⟨hseq, hkind, -⟩ := (ofDocument?_eq_some_iff h hvalued).1 he
    obtain ⟨n, hn, hcounts⟩ := required?_seq_iff.1 hseq
    exact ⟨⟨e.kind, required?_kind_iff.1 hkind⟩, n, e.seq.toNat, hn, hcounts, e.seq.toNat_lt⟩
  · rintro ⟨⟨kind, hkind⟩, n, seq, hn, hcounts, hlt⟩
    obtain ⟨payload, hpayload, -⟩ := payload_of_valued hvalued
    have hseq : (UInt64.ofNat seq).toNat = seq := UInt64.toNat_ofNat_of_lt' hlt
    refine ⟨⟨_, _, _, .ofNat seq, kind, payload⟩, (ofDocument?_eq_some_iff h hvalued).2
      ⟨required?_seq_iff.2 ⟨n, hn, ?_⟩, required?_kind_iff.2 hkind, rfl, rfl, rfl, hpayload⟩⟩
    rwa [hseq]

theorem describes_of_ofDocument? (h : Record.ofDocument? fieldNames d = some r)
    (hvalued : Valued r) (he : ofDocument? d = some e) : Describes r e := by
  obtain ⟨hseq, hkind, hsession, hengine, htime, hread⟩ := (ofDocument?_eq_some_iff h hvalued).1 he
  obtain ⟨n, hn, hcounts⟩ := required?_seq_iff.1 hseq
  obtain ⟨payload, hpayload, hgiven⟩ := payload_of_valued hvalued
  rw [hread] at hpayload
  cases hpayload
  exact ⟨required?_kind_iff.1 hkind, given?_seq hn hcounts, hsession ▸ givesText_of_lenient r _,
    hengine ▸ givesText_of_lenient r _, htime ▸ givesTime_of_lenient r, hgiven⟩

/-! ## Members -/

theorem valued_knownOf (h : Valued members) : Valued (Record.knownOf fieldNames members) :=
  fun m hm => h m (List.mem_filter.1 hm).1

theorem given?_knownOf (hname : name ∈ fieldNames) :
    given? (Record.knownOf fieldNames members) name = given? members name := by
  rw [given?, Record.find?_knownOf hname, given?]

theorem Describes.of_knownOf (h : Describes (Record.knownOf fieldNames members) e) :
    Describes members e := by
  have hgiven : ∀ name ∈ fieldNames,
      given? (Record.knownOf fieldNames members) name = given? members name :=
    fun _ => given?_knownOf
  obtain ⟨hkind, hseq, hsession, hengine, htime, hpayload⟩ := h
  unfold GivesText at hsession hengine
  unfold GivesTime at htime
  rw [hgiven _ (by decide)] at hkind hseq
  simp only [hgiven "session_id" (by decide)] at hsession
  simp only [hgiven "engine" (by decide)] at hengine
  simp only [hgiven "ts_ms" (by decide)] at htime
  simp only [hgiven "payload" (by decide)] at hpayload
  exact ⟨hkind, hseq, hsession, hengine, htime, hpayload⟩

/-- A frame that is an object of these members, its fields with values. If no field comes
twice, the frame is an event exactly if its kind is a text and its number one of 64 bits in
digits alone; the event is as its members describe it, and any frame with the same fields, in
whatever order and among whatever other members, is the same. If a field comes twice, the
frame is no event. -/
theorem decode?_of_object {text : String} (hwritten : WrittenAs text members)
    (hvalued : Valued members) :
    let fields := Record.knownOf fieldNames members
    ((fields.map Prod.fst).Nodup →
      ((decode? text).isSome = true ↔ (∃ kind, given? members "kind" = some (.string kind)) ∧
        ∃ n seq, members.find? "seq" = some (.number n) ∧ n.Counts seq ∧
          seq < 18446744073709551616) ∧
      (∀ e, decode? text = some e → Describes members e) ∧
      ∀ other others, WrittenAs other others → (Record.knownOf fieldNames others).Perm fields →
        decode? other = decode? text) ∧
    (¬(fields.map Prod.fst).Nodup → decode? text = none) := by
  intro fields
  have hparse : ∀ {text members}, WrittenAs text members →
      decode? text = ofDocument? (.object (members.map Record.entry)) := fun hwritten => by
    rw [decode?, Document.parse?_of_written hwritten, Option.bind_some]
  have hrecord := Record.ofDocument?_object fieldNames members
  refine ⟨fun hnodup => ?_, fun hdouble => ?_⟩
  · rw [if_pos hnodup] at hrecord
    have hfields : Valued fields := valued_knownOf hvalued
    rw [hparse hwritten]
    refine ⟨?_, fun e he => ?_, fun other others hother hperm => ?_⟩
    · rw [isSome_ofDocument?_iff hrecord hfields, given?_knownOf (by decide),
        Record.find?_knownOf (by decide)]
    · exact (describes_of_ofDocument? hrecord hfields he).of_knownOf
    · have hnodup' := (hperm.map Prod.fst).nodup_iff.2 hnodup
      have hrecord' := Record.ofDocument?_object fieldNames others
      rw [if_pos hnodup'] at hrecord'
      rw [hparse hother]
      exact ofDocument?_congr hrecord hrecord'
        (Record.find?_of_perm (List.pairwise_map.1 hnodup) hperm)
  · rw [if_neg hdouble] at hrecord
    rw [hparse hwritten, ofDocument?, hrecord]
    rfl

/-- The number is the last one of 64 bits, the kind is spelled with an escape, the engine is
of another type, and there is a member that is no field and has no value. -/
theorem exists_decode?_of_object :
    let text := "\x7b \"seq\" :18446744073709551615,\"x\":1e999,\n" ++
      "\"kind\":\"\\u0061\",\"engine\": null\x7d"
    let numeral : Numeral := ⟨false, "18446744073709551615".toList, [], none⟩
    let members : Record := [("seq", .number numeral),
      ("x", .number ⟨false, ['1'], [], some ⟨false, ['9', '9', '9']⟩⟩),
      ("kind", .string (some "a")), ("engine", .null)]
    WrittenAs text members ∧ Valued members ∧ ∃ e, decode? text = some e ∧ Describes members e := by
  intro text numeral members
  have hnone : Token.AreBlank [] := by decide
  have hspace : Token.AreBlank [' '] := by decide
  have hfeed : Token.AreBlank ['\n'] := by decide
  have hdigits : Numeral.AreDigits numeral.whole := by decide +kernel
  let key := fun before (name : String) after => before ++ ('"' :: name.toList ++ ['"']) ++ after
  let texts : List Document.MemberText := [
    ⟨"seq", .number numeral, key [' '] "seq" [' '],
      Numeral.signChars false ++ (numeral.whole ++ ([] ++ []))⟩,
    ⟨"x", .number ⟨false, ['1'], [], some ⟨false, ['9', '9', '9']⟩⟩, key [] "x" [],
      Numeral.signChars false ++ (['1'] ++ ([] ++ 'e' :: ([] ++ ['9', '9', '9'])))⟩,
    ⟨"kind", .string (some "a"), key ['\n'] "kind" [],
      '"' :: ('\\' :: 'u' :: ['0', '0', '6', '1'] ++ []) ++ ['"']⟩,
    ⟨"engine", .null, key [] "engine" [], [' '] ++ ['n', 'u', 'l', 'l'] ++ []⟩]
  have hkeys : ∀ m ∈ texts, Document.WrittenKey m.keyChars m.key := by
    simp only [texts, List.forall_mem_cons]
    exact ⟨.quoted hspace (Token.spelledChars_itself (by decide)) hspace,
      .quoted hnone (Token.spelledChars_itself (by decide)) hnone,
      .quoted hfeed (Token.spelledChars_itself (by decide)) hnone,
      .quoted hnone (Token.spelledChars_itself (by decide)) hnone, nofun⟩
  have hletter : Token.SpelledChar ('\\' :: 'u' :: ['0', '0', '6', '1']) 'a' :=
    @Token.SpelledChar.unit _ 97 ⟨rfl, rfl⟩ (.inl (by decide))
  have hvalues : ∀ m ∈ texts, Document.Written m.chars m.document := by
    simp only [texts, List.forall_mem_cons]
    exact ⟨.number (.parts hdigits rfl .absent .absent),
      .number (.parts (by decide) rfl .absent (.digits (.inl rfl) .absent (by decide) nofun)),
      .string (.cons hletter .nil), .blanks hspace .null hnone, nofun⟩
  have hwritten : WrittenAs text members := by
    have htext : text.toList =
        '\x7b' :: ([] ++ Document.separated (texts.map Document.MemberText.text)) ++ ['\x7d'] := by
      decide +kernel
    rw [WrittenAs, htext]
    exact .object hnone hkeys hvalues
  have hcounts : numeral.Counts 18446744073709551615 := ⟨rfl, rfl, rfl, by decide +kernel⟩
  obtain ⟨i, hi, -⟩ := hcounts.value?_eq (by decide)
  have hseq : Value.ofDocument? fieldRoom (.number numeral) = some (.number (.integer i)) := by
    rw [Value.ofDocument?, hi, Option.map_some]
  have hvalued : Valued members := by
    simp only [Valued, members, List.forall_mem_cons]
    exact ⟨fun _ => ⟨_, hseq⟩, fun hfield => absurd hfield (by decide), fun _ => ⟨_, rfl⟩,
      fun _ => ⟨_, rfl⟩, nofun⟩
  obtain ⟨hiff, hdescribes, -⟩ := (decode?_of_object hwritten hvalued).1 (by decide)
  have hsome := hiff.2 ⟨⟨"a", rfl⟩, numeral, _, rfl, hcounts, by decide⟩
  obtain ⟨e, he⟩ := Option.isSome_iff_exists.1 hsome
  exact ⟨hwritten, hvalued, e, he, hdescribes e he⟩

end Event

end RemoteSession
