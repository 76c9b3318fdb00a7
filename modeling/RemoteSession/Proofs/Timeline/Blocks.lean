import Mathlib.Data.List.Forall2
import Mathlib.Data.List.Induction
import RemoteSession.Gate
import RemoteSession.Proofs.Timeline.Sayings

/-!
# Nothing said is lost

A timeline with room for everything shows all that the events say, once and in order
(`Timeline.ofInputs_shows_all`). What was said falls into pieces, one for each item
(`Timeline.Shows`) : an item that is no assistant's is a piece by itself, and an item of
an assistant is the texts of successive chunks, none of them empty, from the one that gives
the item its number up to two numbers later. The thoughts that were concluded and the one
that is going on are all texts of thoughts, and the tool logs are all records.

Each input adds what it says by itself (`Timeline.Adds`). That the events passed a gate is
what keeps a chunk from joining an item that began later than the chunk.
-/

namespace RemoteSession

/-- Inputs whose events pass a gate one after the other, and the gate after them. -/
inductive Gate.Passes (g : Gate) : List Timeline.Input → Gate → Prop where
  | nil : Passes g [] g
  | echo {inputs : List Timeline.Input} {g' : Gate} (text : String) (seq : UInt64)
      (tsMs : Int64) : Passes g inputs g' → Passes g (inputs ++ [.echo text seq tsMs]) g'
  | event {inputs : List Timeline.Input} {g' g'' : Gate} (e : Event) : Passes g inputs g' →
      g'.offer e = (.accepted e, g'') → Passes g (inputs ++ [.event e]) g''

theorem Gate.offer_eq_accepted {g g' : Gate} {e : Event} (h : g.offer e = (.accepted e, g')) :
    g.cursor < e.seq ∧ g' = ⟨e.seq⟩ := by
  unfold offer at h
  split at h
  · cases h
  · next hle =>
    cases h
    exact ⟨UInt64.not_le.1 hle, rfl⟩

namespace Timeline

/-- What an input says by itself. -/
def Input.saying : Input → Saying
  | .event e => e.saying
  | .echo text seq tsMs => { item := some ⟨.user, tsMs, seq, text⟩ }

/-- The data of an event of an assistant. -/
def Input.data : Input → String
  | .event e =>
    match e.body with
    | .assistant data => data
    | _ => ""
  | .echo _ _ _ => ""

/-- The texts of items, one after the other. -/
def texts (items : List Item) : String :=
  String.join (items.map Item.text)

/-- The texts of an assistant's items, one after the other. -/
def spoken (items : List Item) : String :=
  texts (items.filter (·.kind = .assistant))

/-- The texts of all thoughts, the one that is going on at the end. -/
def thoughts (t : Timeline) : String :=
  String.join (t.thinkingHistory.map Thought.text) ++ t.thinkingLive

/-- A chunk of an assistant from the number of an item on, up to two numbers later. -/
structure Item.Covers (first chunk : Item) : Prop where
  kind : chunk.kind = .assistant
  text_ne : chunk.text ≠ ""
  le : first.seq ≤ chunk.seq
  window : chunk.seq.toNat ≤ first.seq.toNat + 2

/-- An item shows a piece of what was said : an item by itself, or chunks of an assistant
with the number of the first. -/
inductive Shows : Item → List Item → Prop where
  | single (item : Item) : item.kind ≠ .assistant → Shows item [item]
  | block (first : Item) (rest : List Item) : (∀ chunk ∈ first :: rest, first.Covers chunk) →
      Shows { first with text := texts (first :: rest) } (first :: rest)

/-- Items show all that was said, and an assistant's numbers are not past the cursor. -/
structure ShowsAll (cursor : UInt64) (said items : List Item) : Prop where
  pieces : ∃ pieces, pieces.flatten = said ∧ List.Forall₂ Shows items pieces
  le_cursor : ∀ item ∈ items, item.kind = .assistant → item.seq ≤ cursor

/-- A timeline with a saying more, and the cursor after it. -/
structure Adds (cursor : UInt64) (t : Timeline) (s : Saying) (cursor' : UInt64)
    (t' : Timeline) : Prop where
  items : ∀ said, ShowsAll cursor said t.items → ShowsAll cursor' (said ++ s.item.toList) t'.items
  thoughts : t'.thoughts = t.thoughts ++ s.delta
  calls : t'.toolCalls = t.toolCalls ++ s.call.toList
  outputs : t'.toolOutputs = t.toolOutputs ++ s.output.toList

/-! ## Items and pieces -/

section

variable {cursor : UInt64} {said items : List Item} {pieces : List (List Item)}

theorem forall₂_concat_left_iff {α β : Type} {R : α → β → Prop} {xs : List α} {x : α}
    {ys : List β} : List.Forall₂ R (xs ++ [x]) ys ↔
      ∃ ys' y, List.Forall₂ R xs ys' ∧ R x y ∧ ys = ys' ++ [y] := by
  rw [← List.forall₂_reverse_iff, List.reverse_append, List.reverse_singleton,
    List.singleton_append, List.forall₂_cons_left_iff]
  constructor
  · rintro ⟨y, u, hxy, hrest, hys⟩
    refine ⟨u.reverse, y, ?_, hxy, ?_⟩
    · rwa [← List.forall₂_reverse_iff, List.reverse_reverse]
    · rw [← List.reverse_cons, ← hys, List.reverse_reverse]
  · rintro ⟨ys', y, hrest, hxy, rfl⟩
    exact ⟨y, ys'.reverse, hxy, List.forall₂_reverse_iff.2 hrest, List.reverse_concat ..⟩

theorem texts_concat (items : List Item) (item : Item) :
    texts (items ++ [item]) = texts items ++ item.text := by
  simp [texts]

theorem spoken_append (xs ys : List Item) : spoken (xs ++ ys) = spoken xs ++ spoken ys := by
  simp [spoken, texts]

theorem Shows.spoken_eq {item : Item} {piece : List Item} (h : Shows item piece) :
    spoken [item] = spoken piece := by
  cases h with
  | single => rfl
  | block first rest hcovers =>
    have hkind : first.kind = .assistant := (hcovers first (List.mem_cons_self ..)).kind
    have hall : (first :: rest).filter (·.kind = .assistant) = first :: rest :=
      List.filter_eq_self.2 fun chunk hchunk => decide_eq_true (hcovers chunk hchunk).kind
    rw [spoken, spoken, hall]
    simp [texts, hkind]

/-- Nothing of what an assistant says is lost. -/
theorem spoken_flatten (h : List.Forall₂ Shows items pieces) :
    spoken items = spoken pieces.flatten := by
  induction h with
  | nil => rfl
  | @cons item piece items pieces hshows _ ih =>
    rw [List.flatten_cons, spoken_append, ← hshows.spoken_eq, ← ih, ← spoken_append]
    rfl

theorem ShowsAll.nil : ShowsAll cursor [] [] :=
  ⟨⟨[], rfl, .nil⟩, nofun⟩

theorem ShowsAll.mono {cursor' : UInt64} (h : ShowsAll cursor said items)
    (hle : cursor ≤ cursor') : ShowsAll cursor' said items :=
  ⟨h.pieces, fun item hitem hkind => UInt64.le_trans (h.le_cursor item hitem hkind) hle⟩

/-- An item by itself makes a piece more. -/
theorem ShowsAll.push (h : ShowsAll cursor said items) {item : Item} (hshows : Shows item [item])
    (hle : item.kind = .assistant → item.seq ≤ cursor) :
    ShowsAll cursor (said ++ [item]) (items ++ [item]) := by
  obtain ⟨⟨pieces, hflat, hpieces⟩, hcursor⟩ := h
  refine ⟨⟨pieces ++ [[item]], ?_, forall₂_concat_left_iff.2 ⟨_, _, hpieces, hshows, rfl⟩⟩, ?_⟩
  · rw [List.flatten_concat, hflat]
  · simpa [or_imp, forall_and] using ⟨hcursor, hle⟩

/-- A chunk past the cursor that the last item takes makes the last piece longer. -/
theorem ShowsAll.join {last : Item} (h : ShowsAll cursor said (items ++ [last])) (chunk : Item)
    (hkind : chunk.kind = .assistant) (htext : chunk.text ≠ "") (hlt : cursor < chunk.seq)
    (htakes : last.takes chunk.seq = true) :
    ShowsAll chunk.seq (said ++ [chunk]) (items ++ [last.extend chunk.text]) := by
  obtain ⟨hassistant, hwindow⟩ := Item.takes_iff.1 htakes
  have hle := UInt64.le_of_lt hlt
  obtain ⟨⟨pieces, hflat, hpieces⟩, hcursor⟩ := h.mono hle
  obtain ⟨before, piece, hbefore, hlast, rfl⟩ := forall₂_concat_left_iff.1 hpieces
  have hseq : last.seq ≤ chunk.seq := hcursor last (by simp) hassistant
  have hlonger : Shows (last.extend chunk.text) (piece ++ [chunk]) := by
    cases hlast with
    | single => contradiction
    | block first rest hcovers =>
      have htexts : texts (first :: rest) ++ chunk.text = texts (first :: (rest ++ [chunk])) :=
        (texts_concat (first :: rest) chunk).symm
      rw [Item.extend, htexts]
      refine .block first (rest ++ [chunk]) fun c hc => ?_
      rcases List.mem_append.1 (show c ∈ (first :: rest) ++ [chunk] from hc) with hc | hc
      · exact hcovers c hc
      · rw [List.mem_singleton.1 hc]
        exact ⟨hkind, htext, hseq, hwindow⟩
  refine ⟨⟨before ++ [piece ++ [chunk]], ?_, ?_⟩, ?_⟩
  · rw [← hflat, List.flatten_concat, List.flatten_concat, List.append_assoc]
  · exact forall₂_concat_left_iff.2 ⟨_, _, hbefore, hlonger, rfl⟩
  · simpa [or_imp, forall_and, Item.extend] using hcursor

end

/-! ## One input -/

variable {cursor : UInt64} {t : Timeline}

/-- A timeline that stays the same shows no more than before. -/
theorem Adds.quiet {cursor' : UInt64} (hle : cursor ≤ cursor') : Adds cursor t {} cursor' t where
  items said h := (List.append_nil said).symm ▸ h.mono hle
  thoughts := String.append_empty.symm
  calls := (List.append_nil _).symm
  outputs := (List.append_nil _).symm

/-- An item more adds itself, if it is no assistant's or a chunk that has passed the gate. -/
theorem Adds.pushItem {cursor' : UInt64} {item : Item} (hle : cursor ≤ cursor')
    (hchunk : item.kind = .assistant → item.text ≠ "" ∧ item.seq ≤ cursor') :
    Adds cursor t { item := some item } cursor' (t.roomy.pushItem item) where
  items said h := by
    rw [items_pushItem_roomy]
    refine (h.mono hle).push ?_ fun hkind => (hchunk hkind).2
    by_cases hkind : item.kind = .assistant
    · have hself : Shows { item with text := texts [item] } [item] := by
        refine .block item [] fun chunk hmem => ?_
        rw [List.mem_singleton.1 hmem]
        exact ⟨hkind, (hchunk hkind).1, UInt64.le_refl _, Nat.le_add_right ..⟩
      simpa [texts] using hself
    · exact .single item hkind
  thoughts := String.append_empty.symm
  calls := (List.append_nil _).symm
  outputs := (List.append_nil _).symm

/-- The echo of a line adds an item of the user's. -/
theorem adds_echo (t : Timeline) (text : String) (seq : UInt64) (tsMs : Int64) :
    let input := Input.echo text seq tsMs
    Adds cursor t input.saying cursor (t.roomy.take input) :=
  Adds.pushItem (UInt64.le_refl _) nofun

/-- An event past the cursor adds what it says by itself. -/
theorem adds_event {e : Event} (t : Timeline) (hlt : cursor < e.seq) :
    Adds cursor t e.saying e.seq (t.roomy.reduce e) := by
  have hle := UInt64.le_of_lt hlt
  have hquiet : Adds cursor t {} e.seq t := .quiet hle
  have hreduces := t.roomy.reduces e
  generalize t.roomy.reduce e = t' at hreduces ⊢
  cases hreduces with
  | quiet hsaid =>
    rw [hsaid]
    exact ⟨hquiet.items, hquiet.thoughts, hquiet.calls, hquiet.outputs⟩
  | shown kind text hsaid htext _ =>
    rw [hsaid]
    exact .pushItem hle fun _ => ⟨htext, UInt64.le_refl _⟩
  | joined items last text hsaid htext hitems htakes =>
    rw [hsaid]
    refine ⟨fun said h => ?_, hquiet.thoughts, hquiet.calls, hquiet.outputs⟩
    have hitems : t.items = items ++ [last] := hitems
    rw [hitems] at h
    exact h.join (e.item .assistant text) rfl htext hlt htakes
  | thought text hsaid =>
    rw [hsaid]
    exact ⟨hquiet.items, String.append_assoc.symm, hquiet.calls, hquiet.outputs⟩
  | concluded hsaid _ =>
    rw [hsaid]
    refine ⟨hquiet.items, ?_, hquiet.calls, hquiet.outputs⟩
    simp [thoughts, roomy, pushCapped]
  | called payload hsaid =>
    rw [hsaid]
    exact ⟨hquiet.items, hquiet.thoughts, rfl, hquiet.outputs⟩
  | answered payload hsaid =>
    rw [hsaid]
    exact ⟨hquiet.items, hquiet.thoughts, hquiet.calls, rfl⟩

/-! ## All inputs -/

/-- A timeline shows all that some inputs say. -/
structure ShowsInputs (cursor : UInt64) (inputs : List Input) (t : Timeline) : Prop where
  items : ShowsAll cursor (inputs.filterMap (·.saying.item)) t.items
  thoughts : t.thoughts = String.join (inputs.map (·.saying.delta))
  calls : t.toolCalls = inputs.filterMap (·.saying.call)
  outputs : t.toolOutputs = inputs.filterMap (·.saying.output)

theorem filterMap_concat {α β : Type} (f : α → Option β) (xs : List α) (x : α) :
    (xs ++ [x]).filterMap f = xs.filterMap f ++ (f x).toList := by
  rw [List.filterMap_append]
  cases h : f x <;> simp [h]

theorem ShowsInputs.concat {cursor' : UInt64} {inputs : List Input} {input : Input} {t' : Timeline}
    (h : ShowsInputs cursor inputs t) (hadds : Adds cursor t input.saying cursor' t') :
    ShowsInputs cursor' (inputs ++ [input]) t' where
  items := filterMap_concat (·.saying.item) inputs input ▸ hadds.items _ h.items
  thoughts := by
    rw [hadds.thoughts, h.thoughts]
    simp
  calls := by rw [hadds.calls, h.calls, filterMap_concat]
  outputs := by rw [hadds.outputs, h.outputs, filterMap_concat]

/-- A timeline that gives nothing up shows all that the inputs say. -/
theorem showsInputs_unlimited {g g' : Gate} {inputs : List Input} (h : g.Passes inputs g') :
    ShowsInputs g'.cursor inputs (unlimited inputs) := by
  induction h with
  | nil => exact ⟨.nil, rfl, rfl, rfl⟩
  | @echo inputs g' text seq tsMs _ ih =>
    rw [unlimited, List.foldl_append]
    exact ih.concat (adds_echo _ text seq tsMs)
  | @event inputs g' g'' e _ hoffer ih =>
    obtain ⟨hlt, rfl⟩ := Gate.offer_eq_accepted hoffer
    rw [unlimited, List.foldl_append]
    exact ih.concat (adds_event _ hlt)

theorem spoken_item? (e : Event) (kind : ItemKind) (text : String) :
    spoken (e.item? kind text).toList = if kind = .assistant then text else "" := by
  by_cases htext : text = ""
  · simp [Event.item?, htext, spoken, texts]
  · cases kind <;> simp [Event.item?, htext, spoken, texts, Event.item]

/-- The items of an assistant's events by themselves have their data as texts. -/
theorem spoken_saying (input : Input) : spoken input.saying.item.toList = input.data := by
  cases input with
  | echo text seq tsMs => rfl
  | event e =>
    rw [Input.saying, Input.data, Event.saying]
    cases e.body with
    | status state exitCode => exact spoken_item? ..
    | error message => exact spoken_item? ..
    | assistant data => exact spoken_item? ..
    | _ => rfl

theorem spoken_said (inputs : List Input) :
    spoken (inputs.filterMap (·.saying.item)) = String.join (inputs.map Input.data) := by
  induction inputs using List.reverseRecOn with
  | nil => rfl
  | append_singleton inputs input ih =>
    rw [filterMap_concat, spoken_append, ih, spoken_saying]
    simp

/-- A timeline whose limits are not reached shows all that is said by events that pass a
gate, with lines echoed anywhere among them : what an assistant says, cut into the pieces
that its items show, the thoughts, and the records of the tools. -/
theorem ofInputs_shows_all {g g' : Gate} {limits : Config} {inputs : List Input}
    (hpasses : g.Passes inputs g') (hroom : inputs.length ≤ limits.maxItems)
    (hside : limits.sideLogLimit = none) :
    let t := ofInputs limits inputs
    spoken t.items = String.join (inputs.map Input.data) ∧
      (∃ pieces, pieces.flatten = inputs.filterMap (·.saying.item) ∧
        List.Forall₂ Shows t.items pieces) ∧
      t.thoughts = String.join (inputs.map (·.saying.delta)) ∧
      t.toolCalls = inputs.filterMap (·.saying.call) ∧
      t.toolOutputs = inputs.filterMap (·.saying.output) := by
  intro t
  have hlength : (unlimited inputs).items.length ≤ inputs.length :=
    Nat.le_trans (length_takeAll_le _ inputs) (Nat.le_of_eq (Nat.zero_add _))
  have hall : t = { unlimited inputs with config := limits } :=
    ((IsEnd.empty limits).takeAll inputs).eq (Nat.le_trans hlength hroom) hside
  obtain ⟨⟨⟨pieces, hflat, hshows⟩, -⟩, hthoughts, hcalls, houtputs⟩ :=
    showsInputs_unlimited hpasses
  have hspoken : spoken (unlimited inputs).items = String.join (inputs.map Input.data) := by
    rw [spoken_flatten hshows, hflat, spoken_said]
  rw [hall]
  exact ⟨hspoken, ⟨pieces, hflat, hshows⟩, hthoughts, hcalls, houtputs⟩

/-- A chunk joins another, and a third comes after the echo of a line. -/
theorem ofInputs_shows_all_echoed :
    let chunk (seq : UInt64) (data : String) : Input :=
      .event ⟨"", "", 0, seq, "assistant", some (.object [("data", .string data)])⟩
    let inputs := [chunk 5 "a", chunk 7 "b", .echo "ls" 7 0, chunk 8 "c"]
    let limits : Config := ⟨4, none⟩
    let t := ofInputs limits inputs
    Gate.Passes ⟨4⟩ inputs ⟨8⟩ ∧ inputs.length ≤ limits.maxItems ∧ limits.sideLogLimit = none ∧
      t.items = [⟨.assistant, 0, 5, "ab"⟩, ⟨.user, 0, 7, "ls"⟩, ⟨.assistant, 0, 8, "c"⟩] ∧
      ∃ pieces, pieces.flatten = inputs.filterMap (·.saying.item) ∧
        List.Forall₂ Shows t.items pieces := by
  intro chunk inputs limits t
  have hpasses : Gate.Passes ⟨4⟩ inputs ⟨8⟩ :=
    .event _ (.echo "ls" 7 0 (.event _ (.event _ .nil rfl) rfl)) rfl
  have hroom : inputs.length ≤ limits.maxItems := Nat.le_refl _
  exact ⟨hpasses, hroom, rfl, rfl, (ofInputs_shows_all hpasses hroom rfl).2.1⟩

end Timeline

end RemoteSession
