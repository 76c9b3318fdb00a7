import Mathlib.Data.List.Chain
import RemoteSession.Proofs.Event.Frames
import RemoteSession.Proofs.Timeline.Noise
import RemoteSession.Proofs.Timeline.Sayings

/-!
# The order of a timeline

A timeline behind a gate is in order, whatever frames are offered and whichever lines of
the user are echoed in between (`Reading.inOrder_moveAll`) : the limits are kept, the
numbers of the items never go back and those of the side logs climb, none is past the
cursor, no text is empty, and two items of an assistant that stand next to each other are
too far apart to be one.

The gate lets an event pass only if its number exceeds the cursor, so that it exceeds all
numbers that are shown. An item keeps its number when a chunk joins it, and a chunk that
joins nothing is more than the window past the last item.
-/

namespace RemoteSession

namespace Timeline

/-- Two items are not both an assistant's, or the window lies between them. -/
def Apart (a b : Item) : Prop :=
  a.kind = .assistant → b.kind = .assistant → a.seq.toNat + 2 < b.seq.toNat

/-- Items in order, with a limit and a cursor. -/
structure ItemsInOrder (limit : Nat) (cursor : UInt64) (items : List Item) : Prop where
  length_le : items.length ≤ limit
  ordered : items.Pairwise (·.seq ≤ ·.seq)
  le_cursor : ∀ item ∈ items, item.seq ≤ cursor
  apart : items.IsChain Apart
  text_ne : ∀ item ∈ items, item.text ≠ ""

/-- A side log in order, with a limit and a cursor. -/
structure LogInOrder {α : Type} (seq : α → UInt64) (limit : Option Nat) (cursor : UInt64)
    (log : List α) : Prop where
  length_le : ∀ n, limit = some n → log.length ≤ n
  climbs : log.Pairwise (seq · < seq ·)
  le_cursor : ∀ entry ∈ log, seq entry ≤ cursor

/-- A timeline in order, with its limits and the cursor of its gate. -/
structure InOrder (limits : Config) (cursor : UInt64) (t : Timeline) : Prop where
  config : t.config = limits
  items : ItemsInOrder limits.maxItems cursor t.items
  thoughts : LogInOrder Thought.seq limits.sideLogLimit cursor t.thinkingHistory
  thoughts_text_ne : ∀ thought ∈ t.thinkingHistory, thought.text ≠ ""
  calls : LogInOrder ToolRecord.seq limits.sideLogLimit cursor t.toolCalls
  outputs : LogInOrder ToolRecord.seq limits.sideLogLimit cursor t.toolOutputs

/-! ## One entry more -/

section

variable {α : Type} {limit : Option Nat} {entries log : List α} {entry : α}
  {seq : α → UInt64} {cursor : UInt64}

/-- What is kept is the end of what there was with the entry. -/
theorem pushCapped_suffix (limit : Option Nat) (entries : List α) (entry : α) :
    pushCapped limit entries entry <:+ entries ++ [entry] := by
  cases limit with
  | none => exact List.suffix_rfl
  | some n => exact List.drop_suffix ..

theorem length_pushCapped_le {n : Nat} (h : limit = some n) :
    (pushCapped limit entries entry).length ≤ n := by
  rw [h, pushCapped, keepLast, List.length_drop]
  omega

theorem eq_or_mem_of_mem_pushCapped {x : α} (h : x ∈ pushCapped limit entries entry) :
    x ∈ entries ∨ x = entry := by
  simpa using (pushCapped_suffix limit entries entry).mem h

theorem LogInOrder.nil : LogInOrder seq limit cursor [] :=
  ⟨fun _ _ => Nat.zero_le _, .nil, nofun⟩

theorem LogInOrder.mono {cursor' : UInt64} (h : LogInOrder seq limit cursor log)
    (hle : cursor ≤ cursor') : LogInOrder seq limit cursor' log :=
  { h with le_cursor := fun entry hentry => UInt64.le_trans (h.le_cursor entry hentry) hle }

/-- An entry past the cursor leaves a log in order. -/
theorem LogInOrder.push (h : LogInOrder seq limit cursor log) (entry : α)
    (hlt : cursor < seq entry) :
    LogInOrder seq limit (seq entry) (pushCapped limit log entry) := by
  have hbelow : ∀ x ∈ log, seq x < seq entry := fun x hx =>
    UInt64.lt_of_le_of_lt (h.le_cursor x hx) hlt
  have hall : (log ++ [entry]).Pairwise (seq · < seq ·) :=
    List.pairwise_append.2 ⟨h.climbs, List.pairwise_singleton .., by simpa using hbelow⟩
  refine ⟨fun n hn => length_pushCapped_le hn,
    hall.sublist (pushCapped_suffix ..).sublist, fun x hx => ?_⟩
  rcases eq_or_mem_of_mem_pushCapped hx with hx | rfl
  · exact UInt64.le_of_lt (hbelow x hx)
  · exact UInt64.le_refl _

end

section

variable {limit : Nat} {cursor : UInt64} {items : List Item}

theorem ItemsInOrder.nil : ItemsInOrder limit cursor [] :=
  ⟨Nat.zero_le _, .nil, nofun, .nil, nofun⟩

theorem ItemsInOrder.mono {cursor' : UInt64} (h : ItemsInOrder limit cursor items)
    (hle : cursor ≤ cursor') : ItemsInOrder limit cursor' items :=
  { h with le_cursor := fun item hitem => UInt64.le_trans (h.le_cursor item hitem) hle }

/-- An item from the cursor on, which the last one does not take, leaves items in order. -/
theorem ItemsInOrder.push (h : ItemsInOrder limit cursor items) (item : Item)
    (hle : cursor ≤ item.seq) (htext : item.text ≠ "")
    (hlast : item.kind = .assistant → ∀ last ∈ items.getLast?, last.takes item.seq = false) :
    ItemsInOrder limit item.seq (pushCapped (some limit) items item) := by
  have hbelow : ∀ x ∈ items, x.seq ≤ item.seq := fun x hx =>
    UInt64.le_trans (h.le_cursor x hx) hle
  have hordered : (items ++ [item]).Pairwise (·.seq ≤ ·.seq) :=
    List.pairwise_append.2 ⟨h.ordered, List.pairwise_singleton .., by simpa using hbelow⟩
  have happart : (items ++ [item]).IsChain Apart := by
    refine h.apart.append (.singleton item) fun last hmem next hnext hkind hassistant => ?_
    cases hnext
    have hrefuses := hlast hassistant last hmem
    rw [Bool.eq_false_iff, ne_eq, Item.takes_iff] at hrefuses
    exact Nat.lt_of_not_le fun hle => hrefuses ⟨hkind, hle⟩
  have hkept := pushCapped_suffix (some limit) items item
  refine ⟨length_pushCapped_le rfl, hordered.sublist hkept.sublist, fun x hx => ?_,
    happart.suffix hkept, fun x hx => ?_⟩
  · rcases eq_or_mem_of_mem_pushCapped hx with hx | rfl
    · exact hbelow x hx
    · exact UInt64.le_refl _
  · rcases eq_or_mem_of_mem_pushCapped hx with hx | rfl
    · exact h.text_ne x hx
    · exact htext

/-- A text more for the last item leaves items in order. -/
theorem ItemsInOrder.join {last : Item} {text : String}
    (h : ItemsInOrder limit cursor (items ++ [last])) :
    ItemsInOrder limit cursor (items ++ [last.extend text]) := by
  obtain ⟨hlength, hordered, hcursor, hapart, htext⟩ := h
  rw [List.forall_mem_append, List.forall_mem_singleton] at hcursor htext
  refine ⟨?_, ?_, ?_, ?_, ?_⟩
  · simpa using hlength
  · simpa [List.pairwise_append, Item.extend] using hordered
  · simpa [or_imp, forall_and, Item.extend] using hcursor
  · simpa [List.isChain_append, Apart, Item.extend] using hapart
  · simpa [or_imp, forall_and, Item.extend] using ⟨htext.1, fun hnil => absurd hnil htext.2⟩

end

/-! ## One input -/

variable {limits : Config} {cursor : UInt64} {t : Timeline}

theorem InOrder.empty (limits : Config) (cursor : UInt64) : (empty limits).InOrder limits cursor :=
  ⟨rfl, .nil, .nil, nofun, .nil, .nil⟩

theorem InOrder.mono {cursor' : UInt64} (h : t.InOrder limits cursor) (hle : cursor ≤ cursor') :
    t.InOrder limits cursor' :=
  ⟨h.config, h.items.mono hle, h.thoughts.mono hle, h.thoughts_text_ne, h.calls.mono hle,
    h.outputs.mono hle⟩

theorem InOrder.pushItem (h : t.InOrder limits cursor) (item : Item) (hle : cursor ≤ item.seq)
    (htext : item.text ≠ "")
    (hlast : item.kind = .assistant → ∀ last ∈ t.items.getLast?, last.takes item.seq = false) :
    (t.pushItem item).InOrder limits item.seq := by
  refine { h.mono hle with config := h.config, items := ?_ }
  rw [Timeline.pushItem, h.config]
  exact h.items.push item hle htext hlast

/-- The echo of a line at the cursor leaves a timeline in order. -/
theorem InOrder.echo {text : String} (h : t.InOrder limits cursor) (htext : text ≠ "")
    (tsMs : Int64) : (t.recordLocalInput text cursor tsMs).1.InOrder limits cursor :=
  h.pushItem ⟨.user, tsMs, cursor, text⟩ (UInt64.le_refl _) htext nofun

/-- An event past the cursor leaves a timeline in order. -/
theorem InOrder.reduce {e : Event} (h : t.InOrder limits cursor) (hlt : cursor < e.seq) :
    (t.reduce e).InOrder limits e.seq := by
  obtain rfl := h.config
  have hkept := h.mono (UInt64.le_of_lt hlt)
  have hreduces := t.reduces e
  generalize t.reduce e = t' at hreduces ⊢
  cases hreduces with
  | quiet => exact hkept
  | shown kind text _ htext hlast =>
    exact h.pushItem (e.item kind text) (UInt64.le_of_lt hlt) htext hlast
  | joined items last text _ _ hitems _ =>
    exact { hkept with config := rfl, items := (hitems ▸ hkept.items).join }
  | thought => exact { hkept with config := rfl }
  | concluded _ hlive =>
    have hthoughts := h.thoughts.push ⟨e.tsMs, e.seq, t.thinkingLive⟩ hlt
    refine { hkept with config := rfl, thoughts := hthoughts, thoughts_text_ne := ?_ }
    intro thought hthought
    rcases eq_or_mem_of_mem_pushCapped hthought with hthought | rfl
    · exact h.thoughts_text_ne thought hthought
    · exact hlive
  | called payload =>
    exact { hkept with config := rfl, calls := h.calls.push (e.record payload) hlt }
  | answered payload =>
    exact { hkept with config := rfl, outputs := h.outputs.push (e.record payload) hlt }

end Timeline

/-! ## All moves -/

namespace Reading

open Timeline

/-- What is done with a timeline behind a gate : a frame is offered, or a line echoed. -/
inductive Move where
  | frame (frame : String)
  | echo (text : String) (tsMs : Int64)

/-- The echo of a line, with the number of the last event. -/
def echo (r : Reading) (text : String) (tsMs : Int64) : Reading :=
  let (timeline, change) := r.timeline.recordLocalInput text r.gate.cursor tsMs
  { r with timeline := timeline, changes := r.changes ++ [change] }

/-- The timeline and its gate after a move. -/
def move (r : Reading) : Move → Reading
  | .frame frame => r.offer frame
  | .echo text tsMs => r.echo text tsMs

/-- The timeline and its gate after some moves. -/
def moveAll (r : Reading) (moves : List Move) : Reading :=
  moves.foldl move r

/-- Whether a timeline is in order behind its gate. -/
def InOrder (r : Reading) (limits : Config) : Prop :=
  r.timeline.InOrder limits r.gate.cursor

/-- Whether a move is no echo of an empty line. -/
def Move.Says : Move → Prop
  | .frame _ => True
  | .echo text _ => text ≠ ""

variable {r : Reading} {limits : Config}

theorem InOrder.offer (h : r.InOrder limits) (frame : String) : (r.offer frame).InOrder limits := by
  cases hd : Event.decode? frame with
  | none => rwa [offer_of_malformed hd]
  | some e =>
    rw [offer_of_event hd]
    split
    · next hlt => exact Timeline.InOrder.reduce h hlt
    · exact h

theorem InOrder.move (h : r.InOrder limits) {m : Move} (hsaid : m.Says) :
    (r.move m).InOrder limits := by
  cases m with
  | frame frame => exact h.offer frame
  | echo text tsMs => exact Timeline.InOrder.echo h hsaid tsMs

theorem InOrder.moveAll {moves : List Move} (h : r.InOrder limits) (hsaid : ∀ m ∈ moves, m.Says) :
    (r.moveAll moves).InOrder limits := by
  induction moves generalizing r with
  | nil => exact h
  | cons m rest ih =>
    rw [List.forall_mem_cons] at hsaid
    exact ih (h.move hsaid.1) hsaid.2

/-- An empty timeline behind a gate with any cursor and limits is in order after any frames,
with echoes of lines among them that are not empty. -/
theorem inOrder_moveAll (cursor : UInt64) (limits : Config) (moves : List Move)
    (hsaid : ∀ m ∈ moves, m.Says) :
    let r := (start cursor (empty limits)).moveAll moves
    r.timeline.InOrder limits r.gate.cursor :=
  have hstart : (start cursor (empty limits)).InOrder limits := InOrder.empty limits cursor
  hstart.moveAll hsaid

/-- A line is echoed after a chunk of an assistant, with the number of the chunk. -/
theorem inOrder_moveAll_echoed :
    let e : Event := ⟨"", "", 0, 5, "assistant", some (.object [("data", .string "a")])⟩
    let moves : List Move := [.frame e.encode, .echo "ls" 7]
    let r := (start 4 (empty ⟨2, none⟩)).moveAll moves
    (∀ m ∈ moves, m.Says) ∧
      r.timeline.items = [⟨.assistant, 0, 5, "a"⟩, ⟨.user, 7, 5, "ls"⟩] ∧
      r.timeline.InOrder ⟨2, none⟩ r.gate.cursor := by
  intro e moves r
  have hsaid : ∀ m ∈ moves, m.Says := by simp [moves, Move.Says]
  have hread : ∀ v ∈ e.payload, Event.Readable v := by
    rintro v ⟨⟩
    exact ⟨by simp, .object (List.pairwise_singleton ..) (by simpa using .string _ "a")⟩
  have hoffer : (start 4 (empty ⟨2, none⟩)).offer e.encode =
      (start 4 (empty ⟨2, none⟩)).follow e := by
    rw [offer_of_event (Event.decode?_encode hread), if_pos (by decide)]
  have hitems : r.timeline.items = [⟨.assistant, 0, 5, "a"⟩, ⟨.user, 7, 5, "ls"⟩] := by
    simp only [r, moves, moveAll, List.foldl_cons, List.foldl_nil, move, hoffer]
    rfl
  exact ⟨hsaid, hitems, inOrder_moveAll 4 ⟨2, none⟩ moves hsaid⟩

end Reading

end RemoteSession
