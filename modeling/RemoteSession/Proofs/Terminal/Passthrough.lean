import Mathlib.Data.List.Basic
import Mathlib.Data.List.TakeWhile
import RemoteSession.Main
import RemoteSession.Proofs.Stream.Framing
import RemoteSession.Proofs.Text.Cuts

/-!
# Keys that are passed on

In a raw attachment the input comes in reads that end anywhere, and each read is made into a
message of its own. While the connection stands, whatever else happens meanwhile, the
attachment is left at the first read that holds the octet of the key for it, or at the end
of the input (`Attachment.exists_leave`), and what is read till then is handed over, read by
read (`Attachment.typedOn_eq`).

So the data of the messages make up what was typed if and only if no read ends within a
character (`Attachment.typedOn_says_iff`). A character of two reads is lost
(`Attachment.typedOn_of_cut`).
-/

namespace RemoteSession.Terminal

/-- What the reads of the input make happen while keys are passed on. -/
def inputOf (reads : List (List UInt8)) : List Attachment.Happening :=
  reads.flatMap fun chunk => (happenings true .start chunk).2

/-- The octets that are passed on, read by read : those before the one that leaves. -/
def forwarded : List (List UInt8) → List (List UInt8)
  | [] => []
  | chunk :: rest =>
    if chunk.contains Attachment.detachOctet then [chunk.takeWhile (· != Attachment.detachOctet)]
    else chunk :: forwarded rest

/-- The data of the messages that reads are made into. -/
def typedData (reads : List (List UInt8)) : List String :=
  ((forwarded reads).filter (· ≠ [])).map Text.Utf8.decodeLossy

/-! ## Reads -/

theorem inputOf_append_end {reads : List (List UInt8)} (h : ∀ chunk ∈ reads, chunk ≠ []) :
    inputOf (reads ++ [[]]) = reads.map .keys ++ [.endOfInput] := by
  induction reads with
  | nil => rfl
  | cons chunk rest ih =>
    obtain ⟨hchunk, hrest⟩ := List.forall_mem_cons.1 h
    have hkeys : (happenings true .start chunk).2 = [.keys chunk] := by
      simp [happenings, hchunk]
    rw [List.cons_append, inputOf, List.flatMap_cons, hkeys, ← inputOf, ih hrest]
    rfl

theorem takeWhile_of_not_contains {chunk : List UInt8}
    (h : ¬chunk.contains Attachment.detachOctet = true) :
    chunk.takeWhile (· != Attachment.detachOctet) = chunk := by
  refine List.takeWhile_eq_self_iff.2 fun b hb => bne_iff_ne.2 ?_
  rintro rfl
  exact h (List.contains_iff_mem.2 hb)

theorem forwarded_singleton (chunk : List UInt8) :
    forwarded [chunk] = [chunk.takeWhile (· != Attachment.detachOctet)] := by
  rw [forwarded]
  split
  · rfl
  · next h => rw [takeWhile_of_not_contains h]; rfl

theorem forwarded_cons (chunk : List UInt8) (rest : List (List UInt8)) :
    forwarded (chunk :: rest) = forwarded [chunk] ++
      if chunk.contains Attachment.detachOctet then [] else forwarded rest := by
  rw [forwarded_singleton, forwarded]
  split
  · rfl
  · next h => rw [takeWhile_of_not_contains h]; rfl

theorem typedData_cons (chunk : List UInt8) (rest : List (List UInt8)) :
    typedData (chunk :: rest) = typedData [chunk] ++
      if chunk.contains Attachment.detachOctet then [] else typedData rest := by
  rw [typedData, forwarded_cons, List.filter_append, List.map_append]
  split <;> rfl

/-- Nothing is passed over before the octet that leaves. -/
theorem flatten_forwarded (reads : List (List UInt8)) :
    (forwarded reads).flatten = reads.flatten.takeWhile (· != Attachment.detachOctet) := by
  induction reads with
  | nil => rfl
  | cons chunk rest ih =>
    rw [forwarded_cons, forwarded_singleton, List.flatten_append, List.flatten_singleton,
      List.flatten_cons, List.takeWhile_append]
    split
    · next h =>
      have hcut : ¬(chunk.takeWhile (· != Attachment.detachOctet)).length = chunk.length :=
        fun hlength => by
          have hall := List.takeWhile_eq_self_iff.1
            ((List.takeWhile_prefix _).eq_of_length hlength) _ (List.contains_iff_mem.1 h)
          exact absurd hall (by decide)
      rw [if_neg hcut, List.flatten_nil, List.append_nil]
    · next h => rw [takeWhile_of_not_contains h, if_pos rfl, ih]

/-- The octet that leaves is a character of its own. -/
theorem takeWhile_encode (text : String) :
    (Text.Utf8.encode text).takeWhile (· != Attachment.detachOctet) =
      Text.Utf8.encode (String.ofList (text.toList.takeWhile (· != '\x1D'))) := by
  have hall : ∀ cs : List Char,
      (cs.flatMap String.utf8EncodeChar).takeWhile (· != Attachment.detachOctet) =
        (cs.takeWhile (· != '\x1D')).flatMap String.utf8EncodeChar := by
    intro cs
    induction cs with
    | nil => rfl
    | cons c rest ih =>
      rw [List.flatMap_cons]
      by_cases hc : c = '\x1D'
      · subst hc
        rfl
      · have hother : ∀ b ∈ String.utf8EncodeChar c, (b != Attachment.detachOctet) = true := by
          intro b hb
          rw [bne_iff_ne]
          rintro rfl
          exact hc (Char.toNat_inj.1 (Text.Utf8.toNat_of_mem_utf8EncodeChar hb (by decide)))
        rw [List.takeWhile_append_of_pos hother, ih,
          List.takeWhile_cons_of_pos (p := (· != '\x1D')) (bne_iff_ne.2 hc), List.flatMap_cons]
  rw [Text.Utf8.encode, hall, Text.Utf8.encode, String.toList_ofList]

/-- The data make up what was typed if and only if each read that is passed on is a text. -/
theorem join_typedData_iff {reads : List (List UInt8)} {text : String}
    (h : reads.flatten = Text.Utf8.encode text) :
    String.join (typedData reads) = String.ofList (text.toList.takeWhile (· != '\x1D')) ↔
      ∀ chunk ∈ forwarded reads, ∃ s, chunk = Text.Utf8.encode s := by
  have hflatten : ((forwarded reads).filter (· ≠ [])).flatten =
      Text.Utf8.encode (String.ofList (text.toList.takeWhile (· != '\x1D'))) := by
    rw [List.flatten_filter_ne_nil, flatten_forwarded, h, takeWhile_encode]
  rw [typedData, Text.Utf8.join_decodeLossy_iff hflatten]
  constructor
  · intro htexts chunk hchunk
    by_cases hnil : chunk = []
    · exact ⟨"", hnil⟩
    · exact htexts chunk (List.mem_filter.2 ⟨hchunk, decide_eq_true hnil⟩)
  · exact fun htexts chunk hchunk => htexts chunk (List.mem_filter.1 hchunk).1

namespace Attachment

/-- Whether something that happens comes from the input. -/
def Happening.isInput : Happening → Bool
  | .line _ _ => true
  | .keys _ => true
  | .endOfInput => true
  | _ => false

/-- Whether the user leaves by something that happens. -/
def Happening.leaves : Happening → Bool
  | .keys octets => octets.contains detachOctet
  | .endOfInput => true
  | _ => false

/-- The client of an attachment. -/
abbrev client (a : Attachment) : Client :=
  a.view.system.client

/-- An attachment whose connection stands, as far as it was told. -/
structure IsOpen (a : Attachment) (link : Nat) : Prop where
  connected : a.client.state = .connected
  outbound : a.client.outbound = some link
  accepts : a.client.accepts link = true
  told : a.exitOf = none

/-- The connection of an attachment stands at each turn, to its end. -/
def StaysOpen (link : Nat) (a : Attachment) : List Happening → Prop
  | [] => True
  | happening :: rest =>
    a.IsOpen link ∧
      ((a.step happening).exit = none → StaysOpen link (a.step happening).attachment rest)

/-- The frames that a connection is handed in the turn of something that happens, if these
are keys. -/
def typedAt (link : Nat) (a : Attachment) : Happening → List Outgoing
  | .keys octets =>
    ((a.step (.keys octets)).attachment.client.sentOn link).drop (a.client.sentOn link).length
  | _ => []

/-- The frames that a connection is handed in the turns of keys, from here to the end. -/
def typedOn (link : Nat) (a : Attachment) : List Happening → List Outgoing
  | [] => []
  | happening :: rest =>
    a.typedAt link happening ++
      if (a.step happening).exit.isSome then [] else typedOn link (a.step happening).attachment rest

/-- The attachment after some turns. -/
def after (a : Attachment) (course : List Happening) : Attachment :=
  course.foldl (fun a happening => (a.step happening).attachment) a

variable {a : Attachment} {link : Nat}

/-! ## Turns -/

/-- While the connection stands, only the user ends the attachment. -/
theorem IsOpen.exit_step (h : a.IsOpen link) (happening : Happening) :
    (a.step happening).exit = if happening.leaves then some .detach else none := by
  cases happening with
  | glance => exact h.told
  | _ => rfl

/-- Keys are handed over as one message, unless there are none before the one that leaves. -/
theorem IsOpen.sentOn_typeKeys (h : a.IsOpen link) (octets : List UInt8) :
    (a.typeKeys octets).attachment.client.sentOn link = a.client.sentOn link ++
      (typedData [octets]).map fun data => Outgoing.ofMessage (.input data) := by
  rw [typedData, forwarded_singleton]
  simp only [typeKeys, SessionView.sendKeystrokes]
  generalize octets.takeWhile (· != detachOctet) = typed
  cases typed with
  | nil => simp [Composer.keystrokes?]
  | cons b more =>
    have hsend : (a.client.send (.input (Text.Utf8.decodeLossy (b :: more)))).1 =
        a.client.handOver link (.ofMessage (.input (Text.Utf8.decodeLossy (b :: more)))) := by
      simp only [Client.send, h.connected, h.outbound, ConnectionState.isConnected]
    have hhands := (a.client.hands_handOver link
      (.ofMessage (.input (Text.Utf8.decodeLossy (b :: more))))).self
    rw [if_pos h.accepts, ← hsend] at hhands
    exact hhands

theorem IsOpen.typedAt_keys (h : a.IsOpen link) (octets : List UInt8) :
    a.typedAt link (.keys octets) =
      (typedData [octets]).map fun data => Outgoing.ofMessage (.input data) := by
  rw [typedAt, step, h.sentOn_typeKeys, List.drop_left]

theorem typedAt_of_not_isInput (link : Nat) (a : Attachment) {happening : Happening}
    (h : happening.isInput = false) : a.typedAt link happening = [] := by
  cases happening <;> first | rfl | cases h

theorem leaves_of_not_isInput {happening : Happening} (h : happening.isInput = false) :
    happening.leaves = false := by
  cases happening <;> first | rfl | cases h

/-! ## Runs -/

/-- What happens to the end of the input, and the reads of it. -/
inductive Brings : List Happening → List (List UInt8) → Prop where
  | finish (rest : List Happening) : Brings (.endOfInput :: rest) []
  | read {rest : List Happening} {reads : List (List UInt8)} (chunk : List UInt8) :
    Brings rest reads → Brings (.keys chunk :: rest) (chunk :: reads)
  | other {rest : List Happening} {reads : List (List UInt8)} (happening : Happening) :
    happening.isInput = false → Brings rest reads → Brings (happening :: rest) reads

variable {course : List Happening} {reads : List (List UInt8)}

theorem brings_of_filter
    (h : course.filter Happening.isInput = reads.map .keys ++ [.endOfInput]) :
    Brings course reads := by
  induction course generalizing reads with
  | nil => simp at h
  | cons happening rest ih =>
    rw [List.filter_cons] at h
    split at h
    · cases reads with
      | nil =>
        obtain ⟨rfl, -⟩ := List.cons.inj h
        exact .finish rest
      | cons chunk more =>
        obtain ⟨rfl, hrest⟩ := List.cons.inj h
        exact .read chunk (ih hrest)
    · next hother => exact .other happening (Bool.eq_false_iff.2 hother) (ih h)

theorem IsOpen.typedOn_cons (h : a.IsOpen link) (happening : Happening)
    (rest : List Happening) :
    a.typedOn link (happening :: rest) = a.typedAt link happening ++
      if happening.leaves then [] else (a.step happening).attachment.typedOn link rest := by
  rw [typedOn, h.exit_step]
  cases happening.leaves <;> rfl

theorem StaysOpen.tail {happening : Happening} {rest : List Happening}
    (h : a.StaysOpen link (happening :: rest)) (hleaves : happening.leaves = false) :
    (a.step happening).attachment.StaysOpen link rest :=
  h.2 (by rw [h.1.exit_step, hleaves]; rfl)

/-- What is read while the connection stands is handed over, read by read. -/
theorem typedOn_eq (h : Brings course reads) (hopen : a.StaysOpen link course) :
    a.typedOn link course =
      (typedData reads).map fun data => Outgoing.ofMessage (.input data) := by
  induction h generalizing a with
  | finish rest => exact (hopen.1.typedOn_cons .endOfInput rest).trans rfl
  | @read rest reads chunk _ ih =>
    rw [hopen.1.typedOn_cons, hopen.1.typedAt_keys, typedData_cons chunk reads, List.map_append]
    change _ ++ (if chunk.contains detachOctet then [] else _) = _
    split
    · rfl
    · next hkept => rw [ih (hopen.tail (Bool.eq_false_iff.2 hkept))]
  | other happening hother _ ih =>
    have hleaves := leaves_of_not_isInput hother
    rw [hopen.1.typedOn_cons, typedAt_of_not_isInput link a hother, hleaves]
    exact ih (hopen.tail hleaves)

/-- The attachment is left by what the user does first to leave it. -/
def IsLeft (a : Attachment) (course : List Happening) : Prop :=
  ∃ before happening rest, course = before ++ happening :: rest ∧
    (∀ other ∈ before, other.leaves = false) ∧ happening.leaves = true ∧
    (a.run course).1 = (((a.after before).step happening).attachment.leave .detach).1

theorem IsOpen.isLeft (h : a.IsOpen link) {happening : Happening} (rest : List Happening)
    (hleaves : happening.leaves = true) : a.IsLeft (happening :: rest) := by
  have hexit := h.exit_step happening
  rw [hleaves] at hexit
  exact ⟨[], happening, rest, rfl, by simp, hleaves, by rw [run, hexit]; rfl⟩

/-- A turn by which the user does not leave is one more before the one by which he does. -/
theorem IsLeft.cons {happening : Happening} {rest : List Happening} (h : a.IsOpen link)
    (hleaves : happening.leaves = false) (hleft : (a.step happening).attachment.IsLeft rest) :
    a.IsLeft (happening :: rest) := by
  obtain ⟨before, last, later, rfl, hbefore, hlast, hrun⟩ := hleft
  have hexit := h.exit_step happening
  rw [hleaves] at hexit
  exact ⟨happening :: before, last, later, rfl, List.forall_mem_cons.2 ⟨hleaves, hbefore⟩, hlast,
    by rw [run, hexit]; exact hrun⟩

/-- While the connection stands, the user leaves, and nothing else ends the attachment. -/
theorem isLeft_of_brings (h : Brings course reads) (hopen : a.StaysOpen link course) :
    a.IsLeft course := by
  induction h generalizing a with
  | finish rest => exact hopen.1.isLeft rest rfl
  | @read rest reads chunk _ ih =>
    cases hleaves : (Happening.keys chunk).leaves with
    | true => exact hopen.1.isLeft rest hleaves
    | false => exact (ih (hopen.tail hleaves)).cons hopen.1 hleaves
  | other happening hother _ ih =>
    have hleaves := leaves_of_not_isInput hother
    exact (ih (hopen.tail hleaves)).cons hopen.1 hleaves

/-- However the octets of a text are split into reads, and whatever else happens while the
connection stands : each read is handed over as one message, up to the octet of the key that
leaves, and at this octet or at the end of the input the attachment is left. The data of the
messages make up the text before that octet if and only if each of these reads is a text of
its own. -/
theorem typedOn_says_iff {text : String} (hreads : ∀ chunk ∈ reads, chunk ≠ [])
    (htext : reads.flatten = Text.Utf8.encode text)
    (hinput : course.filter Happening.isInput = inputOf (reads ++ [[]]))
    (hopen : a.StaysOpen link course) :
    (a.typedOn link course = (typedData reads).map fun data => Outgoing.ofMessage (.input data)) ∧
    (String.join (typedData reads) = String.ofList (text.toList.takeWhile (· != '\x1D')) ↔
      ∀ chunk ∈ forwarded reads, ∃ s, chunk = Text.Utf8.encode s) ∧
    a.IsLeft course := by
  have hbrings := brings_of_filter (hinput.trans (inputOf_append_end hreads))
  exact ⟨typedOn_eq hbrings hopen, join_typedData_iff htext, isLeft_of_brings hbrings hopen⟩

/-- A raw attachment whose first connection has opened. -/
def opened : Attachment :=
  (start ⟨⟨.http, "", none, .ipv4 0x7F000001, some 8787, [""], none, none⟩, none⟩
    ⟨⟨FileCursorStore.defaultPath, []⟩, .empty⟩ (.new "s1" "claude") ⟨true, false, false⟩ 0
    none).1.after
      [.stream (.wake 2 .start), .stream (.wake 2 (.ticket (.ok "t"))),
        .stream (.wake 2 (.opened (.ok true)))]

theorem isOpen_opened : opened.IsOpen 0 :=
  ⟨rfl, rfl, rfl, rfl⟩

/-- A text of two reads, a look at the state between them, and the key that leaves. -/
theorem typedOn_says_iff_detach :
    let course : List Happening :=
      [.keys [0x68, 0xC3, 0xA9], .glance, .keys [0x21, 0x1D, 0x78], .endOfInput]
    (∀ chunk ∈ [[0x68, 0xC3, 0xA9], [0x21, 0x1D, 0x78]], chunk ≠ ([] : List UInt8)) ∧
    [[0x68, 0xC3, 0xA9], [0x21, 0x1D, 0x78]].flatten = Text.Utf8.encode "hé!\x1Dx" ∧
    course.filter Happening.isInput =
      inputOf ([[0x68, 0xC3, 0xA9], [0x21, 0x1D, 0x78]] ++ [[]]) ∧
    opened.StaysOpen 0 course ∧
    opened.typedOn 0 course =
      ["hé", "!"].map (fun data => Outgoing.ofMessage (.input data)) ∧
    opened.IsLeft course := by
  have hreads : ∀ chunk ∈ [[0x68, 0xC3, 0xA9], [0x21, 0x1D, 0x78]], chunk ≠ ([] : List UInt8) := by
    decide
  have htext : [[0x68, 0xC3, 0xA9], [0x21, 0x1D, 0x78]].flatten =
      Text.Utf8.encode "hé!\x1Dx" := by decide
  have hopen : opened.StaysOpen 0
      [.keys [0x68, 0xC3, 0xA9], .glance, .keys [0x21, 0x1D, 0x78], .endOfInput] :=
    ⟨isOpen_opened, fun _ => ⟨⟨rfl, rfl, rfl, rfl⟩, fun _ => ⟨⟨rfl, rfl, rfl, rfl⟩, fun h =>
      nomatch h⟩⟩⟩
  have hdata : typedData [[0x68, 0xC3, 0xA9], [0x21, 0x1D, 0x78]] = ["hé", "!"] := by decide
  obtain ⟨htyped, -, hleft⟩ := typedOn_says_iff hreads htext rfl hopen
  rw [hdata] at htyped
  exact ⟨hreads, htext, rfl, hopen, htyped, hleft⟩

/-- Of a character in two reads each part is replaced. -/
theorem typedOn_of_cut :
    [[0xC3], [0xA9]].flatten = Text.Utf8.encode "é" ∧
    opened.StaysOpen 0 (inputOf [[0xC3], [0xA9], []]) ∧
    ¬∃ data : List String,
      opened.typedOn 0 (inputOf [[0xC3], [0xA9], []]) =
        data.map (fun text => Outgoing.ofMessage (.input text)) ∧
      String.join data = "é" := by
  refine ⟨by decide, ⟨isOpen_opened, fun _ => ⟨⟨rfl, rfl, rfl, rfl⟩, fun _ =>
    ⟨⟨rfl, rfl, rfl, rfl⟩, fun h => nomatch h⟩⟩⟩, ?_⟩
  rintro ⟨data, htyped, hjoin⟩
  have hframes : opened.typedOn 0 (inputOf [[0xC3], [0xA9], []]) =
      [.ofMessage (.input "\uFFFD"), .ofMessage (.input "\uFFFD")] := rfl
  rw [hframes] at htyped
  have hlength := congrArg List.length htyped
  rw [List.length_map] at hlength
  obtain ⟨first, second, rfl⟩ := List.length_eq_two.1 hlength.symm
  obtain ⟨hfirst, hsecond⟩ := List.cons.inj htyped
  have hsecond := (List.cons.inj hsecond).1
  have hchars : first.toList ++ second.toList = ['é'] := by
    rw [← String.toList_append]
    simpa using congrArg String.toList hjoin
  -- One of the two messages had to be empty.
  have hempty : Outgoing.ofMessage (.input "\uFFFD") ≠ .ofMessage (.input "") := by decide
  rcases List.append_eq_singleton_iff.1 hchars with ⟨hnil, -⟩ | ⟨-, hnil⟩
  · rw [String.toList_eq_nil_iff.1 hnil] at hfirst
    exact hempty hfirst
  · rw [String.toList_eq_nil_iff.1 hnil] at hsecond
    exact hempty hsecond

end Attachment

end RemoteSession.Terminal
