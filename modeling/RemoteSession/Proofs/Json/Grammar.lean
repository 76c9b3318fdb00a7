import RemoteSession.Proofs.Json.Numerals
import RemoteSession.Proofs.Json.Strings

/-!
# The grammar of documents

Which texts are documents, and of which (`Document.Written`), said without the machine that
reads them : literals, numerals and strings however they are spelled, arrays and objects to
any depth, and blanks around every value and every key. Every text of the grammar is read as
its document (`Document.parse?_of_written`).

A document is told (`Document.Told`) by a text whose tokens lead the reader, whatever is open
around it, past the whole document. The grammar is followed by this, one constructor after
the other.
-/

namespace RemoteSession.Json

open Token (AreBlank)

namespace Document

/-- The ways to write a key, blanks around it included. -/
inductive WrittenKey : List Char → String → Prop where
  | quoted {before chars after : List Char} {key : String} : AreBlank before →
    Token.SpelledChars chars key.toList → AreBlank after →
    WrittenKey (before ++ ('"' :: chars ++ ['"']) ++ after) key

/-- A member of an object together with the text of its key and of its value. -/
structure MemberText where
  key : String
  document : Document
  keyChars : List Char
  chars : List Char

namespace MemberText

/-- The text of the member. -/
def text (m : MemberText) : List Char :=
  m.keyChars ++ ':' :: m.chars

/-- The member. -/
def member (m : MemberText) : Member :=
  (some m.key, m.document)

end MemberText

/-- Texts with commas between them. -/
def separated (texts : List (List Char)) : List Char :=
  [','].intercalate texts

/-- The ways to write a document. -/
inductive Written : List Char → Document → Prop where
  | null : Written ['n', 'u', 'l', 'l'] .null
  | true : Written ['t', 'r', 'u', 'e'] (.bool true)
  | false : Written ['f', 'a', 'l', 's', 'e'] (.bool false)
  | number {chars : List Char} {n : Numeral} : Numeral.Spelled chars n → Written chars (.number n)
  | string {chars : List Char} {s : String} : Token.SpelledChars chars s.toList →
    Written ('"' :: chars ++ ['"']) (.string (some s))
  | array {before : List Char} {items : List (List Char × Document)} : AreBlank before →
    (∀ i ∈ items, Written i.1 i.2) →
    Written ('[' :: (before ++ separated (items.map Prod.fst)) ++ [']'])
      (.array (items.map Prod.snd))
  | object {before : List Char} {members : List MemberText} : AreBlank before →
    (∀ m ∈ members, WrittenKey m.keyChars m.key) → (∀ m ∈ members, Written m.chars m.document) →
    Written ('\x7b' :: (before ++ separated (members.map MemberText.text)) ++ ['\x7d'])
      (.object (members.map MemberText.member))
  | blanks {before chars after : List Char} {d : Document} : AreBlank before → Written chars d →
    AreBlank after → Written (before ++ chars ++ after) d

/-! ## The reader on the tokens of a document -/

/-- Where a value is called for, these tokens are a whole document, whatever is open. -/
def Reads (tokens : List Token) (d : Document) : Prop :=
  ∀ outer, tokens.foldlM Reader.step? (.value outer) = some (.place outer d)

/-- A text whose tokens are a whole document. -/
def Told (cs : List Char) (d : Document) : Prop :=
  ∃ tokens, Token.Spells cs tokens ∧ Reads tokens d

variable {cs : List Char} {tokens : List Token} {d : Document} {r : Reader}

theorem told_of_spells {t : Token} (h : Token.Spells cs [t])
    (hstep : ∀ outer, Reader.beginValue? outer t = some (.place outer d)) : Told cs d :=
  ⟨[t], h, fun outer => by
    rw [List.foldlM_cons, Reader.step?, hstep]
    rfl⟩

/-- A literal is a word. -/
theorem told_word {t : Token} (hword : Token.ofWord? cs = some t)
    (hcs : ∀ c ∈ cs, Token.isWordChar c = true) (hne : cs ≠ [])
    (hstep : ∀ outer, Reader.beginValue? outer t = some (.place outer d)) : Told cs d :=
  told_of_spells (Token.spells_word hcs hword hne) hstep

/-! ## Arrays -/

/-- Items with marks between them, after those of an open array. -/
def ToldItems (cs : List Char) (items : List Document) : Prop :=
  ∃ tokens, Token.Spells cs tokens ∧ ∀ done outer,
    tokens.foldlM Reader.step? (.value (.array done :: outer)) =
      some (.afterItem (items.reverse ++ done) outer)

theorem Told.item (h : Told cs d) : ToldItems cs [d] := by
  obtain ⟨tokens, hspells, hreads⟩ := h
  exact ⟨tokens, hspells, fun done outer => hreads (.array done :: outer)⟩

theorem Told.items {more : List Char} {items : List Document} (h : Told cs d)
    (hmore : ToldItems more items) : ToldItems (cs ++ ',' :: more) (d :: items) := by
  obtain ⟨tokens, hspells, hreads⟩ := h
  obtain ⟨tokens', hspells', hreads'⟩ := hmore
  refine ⟨tokens ++ .comma :: tokens', hspells.append rfl hspells', fun done outer => ?_⟩
  have hcomma : Reader.step? (.place (.array done :: outer) d) .comma =
      some (.value (.array (d :: done) :: outer)) := rfl
  rw [List.foldlM_append, hreads, Option.bind_eq_bind, Option.bind_some, List.foldlM_cons, hcomma,
    Option.bind_eq_bind, Option.bind_some, hreads', List.reverse_cons, List.append_assoc,
    List.singleton_append]

/-- Where a first item may stand, one that is there is read as any other. -/
theorem foldlM_firstItem {outer : List Frame} {done : List Document}
    (h : tokens.foldlM Reader.step? (.value (.array [] :: outer)) = some (.afterItem done outer)) :
    tokens.foldlM Reader.step? (.firstItem outer) = some (.afterItem done outer) := by
  cases tokens with
  | nil => cases h
  | cons t rest =>
    have hsame : Reader.step? (.firstItem outer) t =
        Reader.step? (.value (.array [] :: outer)) t := by
      cases t with
      | closeArray => cases h
      | _ => rfl
    rw [List.foldlM_cons, hsame]
    exact h

theorem told_array_nil {before : List Char} (hbefore : AreBlank before) :
    Told ('[' :: (before ++ []) ++ [']']) (.array []) :=
  ⟨_, (Token.spells_nil.blanks_before hbefore).enclosed rfl rfl, fun _ => rfl⟩

theorem ToldItems.array {items : List Document} (h : ToldItems cs items) {before : List Char}
    (hbefore : AreBlank before) : Told ('[' :: (before ++ cs) ++ [']']) (.array items) := by
  obtain ⟨tokens, hspells, hreads⟩ := h
  refine ⟨_, (hspells.blanks_before hbefore).enclosed rfl rfl, fun outer => ?_⟩
  have hopen : Reader.step? (.value outer) .openArray = some (.firstItem outer) := rfl
  have hclose : ∀ done, Reader.step? (.afterItem done outer) .closeArray =
      some (.place outer (.array done.reverse)) := fun _ => rfl
  have hitems := foldlM_firstItem (hreads [] outer)
  rw [List.cons_append, List.foldlM_cons, hopen, Option.bind_eq_bind, Option.bind_some,
    List.foldlM_append, hitems, Option.bind_eq_bind, Option.bind_some, List.foldlM_cons, hclose,
    List.append_nil, List.reverse_reverse]
  rfl

theorem toldItems_separated {item : List Char × Document} {rest : List (List Char × Document)}
    (h : ∀ i ∈ item :: rest, Told i.1 i.2) :
    ToldItems (separated ((item :: rest).map Prod.fst)) ((item :: rest).map Prod.snd) := by
  induction rest generalizing item with
  | nil =>
    rw [List.map_singleton, separated, List.intercalate_singleton]
    exact (h item List.mem_cons_self).item
  | cons next rest ih =>
    have hmore := ih fun i hi => h i (List.mem_cons_of_mem item hi)
    rw [List.map_cons, List.map_cons, separated, List.intercalate_cons_cons,
      List.append_assoc, List.singleton_append]
    exact (h item List.mem_cons_self).items hmore

/-! ## Objects -/

/-- Members with marks between them, after those of an open object. -/
def ToldMembers (cs : List Char) (members : List Member) : Prop :=
  ∃ tokens, Token.Spells cs tokens ∧ ∀ done outer,
    tokens.foldlM Reader.step? (.nextKey done outer) =
      some (.afterMember (members.reverse ++ done) outer)

theorem Told.member (h : Told cs d) {keyChars : List Char} {key : String}
    (hkey : Token.Spells keyChars [.string (some key)]) :
    ToldMembers (keyChars ++ ':' :: cs) [(some key, d)] := by
  obtain ⟨tokens, hspells, hreads⟩ := h
  refine ⟨_, hkey.append rfl hspells, fun done outer => ?_⟩
  exact hreads (.object done (some key) :: outer)

theorem ToldMembers.members {more : List Char} {m : Member} {members : List Member}
    (h : ToldMembers cs [m]) (hmore : ToldMembers more members) :
    ToldMembers (cs ++ ',' :: more) (m :: members) := by
  obtain ⟨tokens, hspells, hreads⟩ := h
  obtain ⟨tokens', hspells', hreads'⟩ := hmore
  refine ⟨tokens ++ .comma :: tokens', hspells.append rfl hspells', fun done outer => ?_⟩
  have hcomma : Reader.step? (.afterMember (m :: done) outer) .comma =
      some (.nextKey (m :: done) outer) := rfl
  rw [List.foldlM_append, hreads, Option.bind_eq_bind, Option.bind_some, List.foldlM_cons,
    List.reverse_singleton, List.singleton_append, hcomma, Option.bind_eq_bind, Option.bind_some,
    hreads', List.reverse_cons, List.append_assoc, List.singleton_append]

/-- Where a first key may stand, one that is there is read as any other. -/
theorem foldlM_firstKey {outer : List Frame} {done : List Member}
    (h : tokens.foldlM Reader.step? (.nextKey [] outer) = some (.afterMember done outer)) :
    tokens.foldlM Reader.step? (.firstKey outer) = some (.afterMember done outer) := by
  cases tokens with
  | nil => cases h
  | cons t rest =>
    have hsame : Reader.step? (.firstKey outer) t = Reader.step? (.nextKey [] outer) t := by
      cases t with
      | closeObject => cases h
      | _ => rfl
    rw [List.foldlM_cons, hsame]
    exact h

theorem told_object_nil {before : List Char} (hbefore : AreBlank before) :
    Told ('\x7b' :: (before ++ []) ++ ['\x7d']) (.object []) :=
  ⟨_, (Token.spells_nil.blanks_before hbefore).enclosed rfl rfl, fun _ => rfl⟩

theorem ToldMembers.object {members : List Member} (h : ToldMembers cs members)
    {before : List Char} (hbefore : AreBlank before) :
    Told ('\x7b' :: (before ++ cs) ++ ['\x7d']) (.object members) := by
  obtain ⟨tokens, hspells, hreads⟩ := h
  refine ⟨_, (hspells.blanks_before hbefore).enclosed rfl rfl, fun outer => ?_⟩
  have hopen : Reader.step? (.value outer) .openObject = some (.firstKey outer) := rfl
  have hclose : ∀ done, Reader.step? (.afterMember done outer) .closeObject =
      some (.place outer (.object done.reverse)) := fun _ => rfl
  have hmembers := foldlM_firstKey (hreads [] outer)
  rw [List.cons_append, List.foldlM_cons, hopen, Option.bind_eq_bind, Option.bind_some,
    List.foldlM_append, hmembers, Option.bind_eq_bind, Option.bind_some, List.foldlM_cons, hclose,
    List.append_nil, List.reverse_reverse]
  rfl

theorem spells_key {chars : List Char} {key : String} (h : WrittenKey chars key) :
    Token.Spells chars [.string (some key)] := by
  obtain ⟨hbefore, hchars, hafter⟩ := h
  exact (Token.spells_string hchars).blanks hbefore hafter

theorem toldMembers_separated {m : MemberText} {rest : List MemberText}
    (hkeys : ∀ n ∈ m :: rest, WrittenKey n.keyChars n.key)
    (h : ∀ n ∈ m :: rest, Told n.chars n.document) :
    ToldMembers (separated ((m :: rest).map MemberText.text))
      ((m :: rest).map MemberText.member) := by
  have hone : ∀ n ∈ m :: rest, ToldMembers n.text [n.member] := fun n hn =>
    (h n hn).member (spells_key (hkeys n hn))
  clear hkeys h
  induction rest generalizing m with
  | nil =>
    rw [List.map_singleton, separated, List.intercalate_singleton]
    exact hone m List.mem_cons_self
  | cons next rest ih =>
    have hmore := ih fun n hn => hone n (List.mem_cons_of_mem m hn)
    rw [List.map_cons, List.map_cons, separated, List.intercalate_cons_cons,
      List.append_assoc, List.singleton_append]
    exact (hone m List.mem_cons_self).members hmore

/-! ## Texts of the grammar -/

theorem told_of_written (h : Written cs d) : Told cs d := by
  induction h with
  | null => exact told_word rfl (by decide) (by decide) fun _ => rfl
  | true => exact told_word rfl (by decide) (by decide) fun _ => rfl
  | false => exact told_word rfl (by decide) (by decide) fun _ => rfl
  | number hn => exact told_of_spells (Token.spells_numeral hn) fun _ => rfl
  | string hs => exact told_of_spells (Token.spells_string hs) fun _ => rfl
  | @array before items hbefore _ ih =>
    cases items with
    | nil => exact told_array_nil hbefore
    | cons item rest => exact (toldItems_separated ih).array hbefore
  | @object before members hbefore hkeys _ ih =>
    cases members with
    | nil => exact told_object_nil hbefore
    | cons m rest => exact (toldMembers_separated hkeys ih).object hbefore
  | blanks hbefore _ hafter ih =>
    obtain ⟨tokens, hspells, hreads⟩ := ih
    exact ⟨tokens, hspells.blanks hbefore hafter, hreads⟩

/-- A text of the grammar is read as its document. -/
theorem parse?_of_written {text : String} (h : Written text.toList d) : parse? text = some d := by
  obtain ⟨tokens, hspells, hreads⟩ := told_of_written h
  rw [parse?, Token.ofChars?_of_spells hspells, Option.bind_some, ofTokens?, hreads []]
  rfl

end Document

end RemoteSession.Json
