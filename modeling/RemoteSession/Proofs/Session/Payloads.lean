import RemoteSession.Message
import RemoteSession.Proofs.Json.Records
import RemoteSession.Session.Directory

/-!
# Messages and payloads as they are written and read

Whatever is sent to a session or told by the directory is read as what was written : a
message, a session, a request for a new session, the grant of a ticket and the report of a
fault (`payloads_read`). Any texts may stand in them, and what may be absent may be so.

The members of a payload may come in any order, and so may the arguments of a request, which
are kept without one. A text is said to be written for a payload (`SessionInfo.Written` and
its like) if it tells the members of the payload in some order; the texts of `encode` are
among them, and so is the one that is sent to ask for a session.
-/

namespace RemoteSession

open Json

/-! ## Messages -/

namespace Message

/-- The tag of a message. -/
def tag : Message → Tag
  | .input _ => .input
  | .resize .. => .resize

/-- The word that names a tag. -/
def Tag.word : Tag → String
  | .input => "input"
  | .resize => "resize"

/-- The members of a message besides its tag. -/
def members : Message → List (String × Value)
  | .input data => [("data", .string data)]
  | .resize cols rows => [("cols", .ofUInt16 cols), ("rows", .ofUInt16 rows)]

theorem toValue_eq (m : Message) :
    m.toValue = .object (("type", .string m.tag.word) :: m.members) := by
  cases m <;> rfl

theorem ofWord?_word (t : Tag) : Tag.ofWord? t.word = some t := by
  cases t <;> rfl

theorem fits_members (m : Message) : ∀ n ∈ m.members, n.2.Fits (Value.depthLimit - 1) := by
  cases m with
  | input data =>
    simp only [members, List.forall_mem_cons]
    exact ⟨.string .., nofun⟩
  | resize cols rows =>
    simp only [members, List.forall_mem_cons]
    exact ⟨.integer .., .integer .., nofun⟩

theorem known_members (m : Message) : Record.Known m.tag.fieldNames m.members where
  known := by cases m <;> simp [members, tag, Tag.fieldNames]
  differ := by cases m <;> simp [members]
  integral n hn := (m.fits_members n hn).isIntegral

theorem splitTag?_memberDocuments {members : List (String × Value)}
    (h : ∀ m ∈ members, m.1 ≠ "type") (d : Document) :
    splitTag? (some d) (Value.memberDocuments members) =
      some (d, Value.memberDocuments members) := by
  induction members with
  | nil => rfl
  | cons m rest ih =>
    simp only [Value.memberDocuments, splitTag?, Option.bind_eq_bind, Option.bind_some,
      if_neg (h m List.mem_cons_self), ih fun n hn => h n (List.mem_cons_of_mem m hn)]

/-- An object whose tag comes first is a message if its other members are one's. -/
theorem ofDocument?_tagged {t : Tag} {members : List (String × Value)}
    (hfits : ∀ m ∈ members, m.2.Fits (Value.depthLimit - 1)) (hne : ∀ m ∈ members, m.1 ≠ "type") :
    ofDocument? (Value.object (("type", .string t.word) :: members)).document =
      (Record.ofDocument? t.fieldNames (Value.object members).document).bind (ofRecord? · t) := by
  have hfits' : ∀ m ∈ ("type", Value.string t.word) :: members,
      Value.ofDocument? (Value.depthLimit - 1) m.2.document = some m.2 := by
    intro m hm
    rcases List.mem_cons.1 hm with rfl | hm
    · rfl
    · exact Value.ofDocument?_document (hfits m hm)
  have hread : Value.ofDocument? Value.depthLimit
      (Value.object (("type", .string t.word) :: members)).document =
        some (.object (Keyed.insertAll [] (("type", .string t.word) :: members))) :=
    congrArg (Option.map Value.object) (Value.ofMembers?_documents hfits' [])
  have hsplit := splitTag?_memberDocuments hne (.string (some t.word))
  rw [ofDocument?, hread]
  simp only [Value.document, Value.memberDocuments, splitTag?, Option.bind_eq_bind,
    Option.bind_some, if_true, Option.isSome_none, Bool.false_eq_true, if_false, hsplit,
    Option.map_some, Document.text?, ofWord?_word]

theorem decode?_encode (m : Message) : decode? m.encode = some m := by
  have hne : ∀ n ∈ m.members, n.1 ≠ "type" := by cases m <;> simp [members]
  have hintegral : m.toValue.IsIntegral := by
    rw [toValue_eq]
    exact .object (List.forall_mem_cons.2 ⟨.string _, m.known_members.integral⟩)
  obtain ⟨r, hrecord, hholds⟩ := Record.exists_holds m.known_members (.refl _)
  rw [decode?, encode, Document.parse?_text hintegral, Option.bind_some, toValue_eq,
    ofDocument?_tagged m.fits_members hne, hrecord, Option.bind_some]
  cases m with
  | input data =>
    have hdata : r.required? "data" Document.text? = some data :=
      hholds.required? (v := .string data) List.mem_cons_self rfl
    rw [tag, ofRecord?, hdata, Option.map_some]
  | resize cols rows =>
    have hcols : r.required? "cols" Document.uint16? = some cols :=
      hholds.required? (by simp [members]) (Document.uint16?_document cols)
    have hrows : r.required? "rows" Document.uint16? = some rows :=
      hholds.required? (by simp [members]) (Document.uint16?_document rows)
    rw [tag, ofRecord?, hcols, hrows]
    rfl

end Message

/-! ## Sessions -/

namespace SessionInfo

/-- The members of a session. -/
def members (s : SessionInfo) : List (String × Value) :=
  [("id", .string s.id), ("name", .string s.name), ("engine", .string s.engine),
    ("state", .string s.state)] ++
  (s.exitCode.map fun code => ("exit_code", Value.ofInt32 code)).toList ++
  (s.lastSeq.map fun seq => ("last_seq", Value.ofUInt64 seq)).toList ++
  [("created", .string s.created)]

/-- A text that tells the members of a session. -/
def Written (s : SessionInfo) (text : String) : Prop :=
  Record.Told s.members text

theorem written_encode (s : SessionInfo) : s.Written s.encode :=
  ⟨s.members, .refl _, rfl⟩

theorem known_members (s : SessionInfo) : Record.Known fieldNames s.members := by
  obtain ⟨id, name, engine, state, exitCode, lastSeq, created⟩ := s
  cases exitCode <;> cases lastSeq <;> refine ⟨?_, ?_, ?_⟩ <;>
    simp [members, fieldNames]

theorem decode?_of_written {s : SessionInfo} {text : String} (h : s.Written text) :
    decode? text = some s := by
  obtain ⟨d, r, hparse, hrecord, hholds⟩ := Record.exists_of_told s.known_members h
  have hid : r.required? "id" Document.text? = some s.id :=
    hholds.required? (v := .string s.id) (by simp [members]) rfl
  have hname : r.defaulted? "name" "" Document.text? = some s.name :=
    hholds.defaulted? (v := .string s.name) (by simp [members]) rfl
  have hengine : r.defaulted? "engine" "" Document.text? = some s.engine :=
    hholds.defaulted? (v := .string s.engine) (by simp [members]) rfl
  have hstate : r.defaulted? "state" "" Document.text? = some s.state :=
    hholds.defaulted? (v := .string s.state) (by simp [members]) rfl
  have hcode : r.defaulted? "exit_code" none (Document.nullable? Document.int32?) =
      some s.exitCode := by
    refine hholds.optional? Value.ofInt32 ?_ ?_ Document.int32?_document nofun
    · intro code hcode
      simp [members, Option.mem_def.1 hcode]
    · intro hnone
      cases hseq : s.lastSeq <;> simp [members, hnone, hseq]
  have hseq : r.defaulted? "last_seq" none (Document.nullable? Document.uint64?) =
      some s.lastSeq := by
    refine hholds.optional? Value.ofUInt64 ?_ ?_ Document.uint64?_document nofun
    · intro seq hseq
      simp [members, Option.mem_def.1 hseq]
    · intro hnone
      cases hcode : s.exitCode <;> simp [members, hnone, hcode]
  have hcreated : r.defaulted? "created" "" Document.text? = some s.created :=
    hholds.defaulted? (v := .string s.created) (by simp [members]) rfl
  rw [decode?, hparse, Option.bind_some, ofDocument?, hrecord]
  simp only [Option.bind_eq_bind, Option.bind_some, hid, hname, hengine, hstate, hcode, hseq,
    hcreated]

end SessionInfo

/-! ## Requests -/

namespace CreateSession

/-- A text that tells the members of a request and its arguments. -/
def Written (c : CreateSession) (text : String) : Prop :=
  ∃ args : List (String × Value), args.Perm c.args ∧ Record.Told (c.members args) text

/-- The arguments are in order and free of doubles, and nest no deeper than can be read. -/
def Readable (c : CreateSession) : Prop :=
  (Value.object c.args).Fits (Value.depthLimit - 1)

theorem written_encode (c : CreateSession) : c.Written c.encode := by
  have hinner : [("name", Value.string c.name), ("prompt", .string c.prompt),
      ("workspacePath", .string c.workspacePath)].Perm [("name", .string c.name),
        ("workspacePath", .string c.workspacePath), ("prompt", .string c.prompt)] :=
    .cons _ (.swap ..)
  have hmode := (List.perm_append_singleton ("mode", Value.string c.mode) _).symm.trans
    (hinner.append_right _)
  have hargs := (List.perm_append_singleton ("args", Value.object c.args) _).symm.trans
    ((hmode.cons ("engine", .string c.engine)).append_right _)
  exact ⟨c.args, .refl _, _, hargs, rfl⟩

theorem known_members (c : CreateSession) {args : List (String × Value)}
    (h : ∀ m ∈ args, m.2.IsIntegral) : Record.Known fieldNames (c.members args) where
  known := by simp [members, fieldNames]
  differ := by simp [members]
  integral := by simp [members, Value.IsIntegral.object h]

theorem decode?_of_written {c : CreateSession} {text : String} (hargs : c.Readable)
    (h : c.Written text) : decode? text = some c := by
  obtain ⟨args, hperm, htold⟩ := h
  obtain ⟨hsorted, hfits⟩ := Value.fits_object_iff.1 hargs
  have hfits' : ∀ m ∈ args, m.2.Fits (Value.depthLimit - 2) := fun m hm =>
    hfits m (hperm.mem_iff.1 hm)
  obtain ⟨d, r, hparse, hrecord, hholds⟩ :=
    Record.exists_of_told (c.known_members fun m hm => (hfits' m hm).isIntegral) htold
  have hread : Document.members? (Value.depthLimit - 2) (Value.object args).document =
      some c.args := by
    rw [Value.document, Document.members?,
      Value.ofMembers?_documents fun m hm => Value.ofDocument?_document (hfits' m hm),
      hsorted.insertAll_eq hperm]
  have hengine : r.required? "engine" Document.text? = some c.engine :=
    hholds.required? (v := .string c.engine) (by simp [members]) rfl
  have hname : r.defaulted? "name" "" Document.text? = some c.name :=
    hholds.defaulted? (v := .string c.name) (by simp [members]) rfl
  have hpath : r.defaulted? "workspacePath" "" Document.text? = some c.workspacePath :=
    hholds.defaulted? (v := .string c.workspacePath) (by simp [members]) rfl
  have hprompt : r.defaulted? "prompt" "" Document.text? = some c.prompt :=
    hholds.defaulted? (v := .string c.prompt) (by simp [members]) rfl
  have hmode : r.defaulted? "mode" "" Document.text? = some c.mode :=
    hholds.defaulted? (v := .string c.mode) (by simp [members]) rfl
  have hargs : r.defaulted? "args" [] (Document.members? (Value.depthLimit - 2)) = some c.args :=
    hholds.defaulted? (by simp [members]) hread
  rw [decode?, hparse, Option.bind_some, ofDocument?, hrecord]
  simp only [Option.bind_eq_bind, Option.bind_some, hengine, hname, hpath, hprompt, hmode, hargs]

theorem written_body (c : CreateSession) : c.Written c.body :=
  ⟨c.args, .refl _, c.members c.args, .refl _, rfl⟩

/-- What is sent to ask for a session is read as the request. -/
theorem decode?_body {c : CreateSession} (hargs : c.Readable) : decode? c.body = some c :=
  decode?_of_written hargs c.written_body

end CreateSession

/-! ## Tickets -/

namespace TicketGrant

/-- The members of a grant. -/
def members (t : TicketGrant) : List (String × Value) :=
  [("ticket", .ofText? t.ticket), ("expires_ms", (t.expiresMs.map Value.ofInt64).getD .null)]

/-- A text that tells the members of a grant. -/
def Written (t : TicketGrant) (text : String) : Prop :=
  Record.Told t.members text

theorem written_encode (t : TicketGrant) : t.Written t.encode :=
  ⟨_, .swap .., rfl⟩

theorem known_members (t : TicketGrant) : Record.Known fieldNames t.members := by
  obtain ⟨ticket, expiresMs⟩ := t
  cases expiresMs <;> refine ⟨?_, ?_, ?_⟩ <;>
    simp [members, fieldNames]

theorem decode?_of_written {t : TicketGrant} {text : String} (h : t.Written text) :
    decode? text = some t := by
  obtain ⟨d, r, hparse, hrecord, hholds⟩ := Record.exists_of_told t.known_members h
  have hread : Document.nullable? Document.int64?
      ((t.expiresMs.map Value.ofInt64).getD .null).document = some t.expiresMs := by
    cases t.expiresMs with
    | none => rfl
    | some n =>
      rw [Option.map_some, Option.getD_some, Document.nullable?, Document.int64?_document,
        Option.map_some]
      simp [Value.ofInt64, Value.document]
  have hticket : r.defaulted? "ticket" none (Document.nullable? Document.text?) = some t.ticket :=
    hholds.defaulted? (by simp [members]) (Document.nullable?_ofText? t.ticket)
  have hexpires : r.defaulted? "expires_ms" none (Document.nullable? Document.int64?) =
      some t.expiresMs :=
    hholds.defaulted? (by simp [members]) hread
  rw [decode?, hparse, Option.bind_some, ofDocument?, hrecord]
  simp only [Option.bind_eq_bind, Option.bind_some, hticket, hexpires]

end TicketGrant

/-! ## Faults -/

namespace Fault

/-- The members of a fault. -/
def members (f : Fault) : List (String × Value) :=
  [("code", .ofText? f.code), ("message", .ofText? f.message), ("hint", .ofText? f.hint),
    ("request_id", .ofText? f.requestId)]

theorem known_members (f : Fault) : Record.Known fieldNames f.members where
  known := by simp [members, fieldNames]
  differ := by simp [members]
  integral := by simp [members]

theorem ofDocument?_of_perm {f : Fault} {told : List (String × Value)} (h : told.Perm f.members) :
    ofDocument? (Value.object told).document = some f := by
  obtain ⟨r, hrecord, hholds⟩ := Record.exists_holds f.known_members h
  have hcode : r.defaulted? "code" none (Document.nullable? Document.text?) = some f.code :=
    hholds.defaulted? (by simp [members]) (Document.nullable?_ofText? f.code)
  have hmessage : r.defaulted? "message" none (Document.nullable? Document.text?) =
      some f.message :=
    hholds.defaulted? (by simp [members]) (Document.nullable?_ofText? f.message)
  have hhint : r.defaulted? "hint" none (Document.nullable? Document.text?) = some f.hint :=
    hholds.defaulted? (by simp [members]) (Document.nullable?_ofText? f.hint)
  have hrequest : r.defaulted? "request_id" none (Document.nullable? Document.text?) =
      some f.requestId :=
    hholds.defaulted? (by simp [members]) (Document.nullable?_ofText? f.requestId)
  rw [ofDocument?, hrecord]
  simp only [Option.bind_eq_bind, Option.bind_some, hcode, hmessage, hhint, hrequest]

end Fault

namespace FaultReport

/-- A text that tells the member of a report, and in it those of the fault if there is one. -/
def Written (e : FaultReport) (text : String) : Prop :=
  match e.fault with
  | none => Record.Told [("error", .null)] text
  | some f => ∃ told : List (String × Value), told.Perm f.members ∧
    Record.Told [("error", .object told)] text

theorem written_encode (e : FaultReport) : e.Written e.encode := by
  obtain ⟨fault⟩ := e
  cases fault with
  | none => exact ⟨_, .refl _, rfl⟩
  | some f => exact ⟨_, .cons _ (.swap ..), _, .refl _, rfl⟩

theorem decode?_of_told {v : Value} {fault : Option Fault} {text : String} (hv : v.IsIntegral)
    (hread : Document.nullable? Fault.ofDocument? v.document = some fault)
    (h : Record.Told [("error", v)] text) : decode? text = some ⟨fault⟩ := by
  have hknown : Record.Known ["error"] [("error", v)] := ⟨by simp, by simp, by simpa using hv⟩
  obtain ⟨d, r, hparse, hrecord, hholds⟩ := Record.exists_of_told hknown h
  have herror : r.defaulted? "error" none (Document.nullable? Fault.ofDocument?) = some fault :=
    hholds.defaulted? List.mem_cons_self hread
  rw [decode?, hparse, Option.bind_some, ofDocument?, hrecord]
  simp only [Option.bind_eq_bind, Option.bind_some, herror]

theorem decode?_of_written {e : FaultReport} {text : String} (h : e.Written text) :
    decode? text = some e := by
  obtain ⟨fault⟩ := e
  cases fault with
  | none => exact decode?_of_told .null rfl h
  | some f =>
    obtain ⟨told, hperm, htold⟩ := h
    refine decode?_of_told (Record.isIntegral_of_perm f.known_members hperm) ?_ htold
    have hread := Fault.ofDocument?_of_perm hperm
    rw [Document.nullable?, hread, Option.map_some]
    simp [Value.document]

end FaultReport

/-! ## All of them -/

/-- A message is read from its text, and a payload from every text that is written for it, its
own text being one : whatever texts stand in it, whatever is absent from it, and, in a
request, whatever arguments it has that can be read. -/
theorem payloads_read :
    (∀ m : Message, Message.decode? m.encode = some m) ∧
      (∀ s : SessionInfo, s.Written s.encode ∧
        ∀ text, s.Written text → SessionInfo.decode? text = some s) ∧
      (∀ c : CreateSession, c.Readable → c.Written c.encode ∧
        ∀ text, c.Written text → CreateSession.decode? text = some c) ∧
      (∀ t : TicketGrant, t.Written t.encode ∧
        ∀ text, t.Written text → TicketGrant.decode? text = some t) ∧
      ∀ e : FaultReport, e.Written e.encode ∧
        ∀ text, e.Written text → FaultReport.decode? text = some e :=
  ⟨Message.decode?_encode,
    fun s => ⟨s.written_encode, fun _ => SessionInfo.decode?_of_written⟩,
    fun c hc => ⟨c.written_encode, fun _ => CreateSession.decode?_of_written hc⟩,
    fun t => ⟨t.written_encode, fun _ => TicketGrant.decode?_of_written⟩,
    fun e => ⟨e.written_encode, fun _ => FaultReport.decode?_of_written⟩⟩

/-- A request whose arguments are told last key first, after all other members. -/
theorem payloads_read_swapped :
    let c : CreateSession := ⟨"shell", "", "/tmp", "say \"hi\"\n", "",
      [("a", .null), ("b", .array [.ofInt64 (-1)])]⟩
    let text := "\x7b\"engine\":\"shell\",\"name\":\"\",\"workspacePath\":\"/tmp\"," ++
      "\"prompt\":\"say \\\"hi\\\"\\n\",\"mode\":\"\",\"args\":\x7b\"b\":[-1],\"a\":null\x7d\x7d"
    c.Readable ∧ c.Written text ∧ CreateSession.decode? text = some c := by
  intro c text
  have hitems : ∀ v ∈ [Value.ofInt64 (-1)], v.Fits 124 := by
    simp only [List.forall_mem_cons]
    exact ⟨.integer .., nofun⟩
  have hargs : ∀ m ∈ c.args, m.2.Fits 125 := by
    simp only [c, List.forall_mem_cons]
    exact ⟨.null _, .array hitems, nofun⟩
  have hsorted : Keyed.Sorted c.args := List.pairwise_pair.2 (by decide)
  have hreadable : c.Readable := .object hsorted hargs
  have hwritten : c.Written text := ⟨_, .swap .., _, .refl _, by decide +kernel⟩
  exact ⟨hreadable, hwritten, (payloads_read.2.2.1 c hreadable).2 text hwritten⟩

end RemoteSession
