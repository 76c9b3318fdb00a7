import RemoteSession.Timeline.Basic

/-!
# Timelines that give entries up

A timeline with limits shows the end of what the same timeline without limits shows
(`Timeline.IsEnd`) : each of its lists is the last entries of the other, and the thought
that is still going on is the same (`Timeline.ofInputs_eq_keepLast`).

Whether a chunk of an assistant joins an item depends on the last item alone, and an item
that is given up is the last one only where none are kept. So what joins and what does not
is the same with limits and without, wherever it can be seen.
-/

namespace RemoteSession

namespace Timeline

/-- What a timeline takes : an event, or the echo of a line. -/
inductive Input where
  | event (e : Event)
  | echo (text : String) (seq : UInt64) (tsMs : Int64)

/-- The timeline after an input. -/
def take (t : Timeline) : Input → Timeline
  | .event e => t.reduce e
  | .echo text seq tsMs => (t.recordLocalInput text seq tsMs).1

/-- The timeline of some inputs. -/
def ofInputs (limits : Config) (inputs : List Input) : Timeline :=
  inputs.foldl take (empty limits)

/-- The timeline with room for one item more and no limit on the side logs. -/
def roomy (t : Timeline) : Timeline :=
  { t with config := ⟨t.items.length + 1, none⟩ }

/-- The timeline of some inputs that gives nothing up, as there is always room. -/
def unlimited (inputs : List Input) : Timeline :=
  inputs.foldl (fun t input => t.roomy.take input) (empty ⟨0, none⟩)

/-- The entries that are kept under a limit. -/
def kept {α : Type} (limit : Option Nat) (entries : List α) : List α :=
  match limit with
  | none => entries
  | some n => keepLast n entries

/-! ## Last entries -/

section

variable {α : Type} {n : Nat} {entries : List α}

theorem keepLast_zero (entries : List α) : keepLast 0 entries = [] := by
  simp [keepLast]

theorem keepLast_of_length_le (h : entries.length ≤ n) : keepLast n entries = entries := by
  rw [keepLast, Nat.sub_eq_zero_of_le h, List.drop_zero]

theorem keepLast_succ_concat (n : Nat) (entries : List α) (entry : α) :
    keepLast (n + 1) (entries ++ [entry]) = keepLast n entries ++ [entry] := by
  have hle : entries.length - n ≤ entries.length := Nat.sub_le ..
  rw [keepLast, keepLast, List.length_append, List.length_singleton, Nat.add_sub_add_right,
    List.drop_append_of_le_length hle]

/-- Entries that were given up make no difference to what is kept later. -/
theorem keepLast_keepLast_concat (n : Nat) (entries : List α) (entry : α) :
    keepLast n (keepLast n entries ++ [entry]) = keepLast n (entries ++ [entry]) := by
  cases n with
  | zero => rw [keepLast_zero, keepLast_zero]
  | succ n =>
    rw [keepLast_succ_concat, keepLast_succ_concat, keepLast, keepLast, keepLast, List.drop_drop,
      List.length_drop]
    congr 2
    omega

theorem length_keepLast_le (n : Nat) (entries : List α) :
    (keepLast n entries).length ≤ entries.length := by
  rw [keepLast, List.length_drop]
  exact Nat.sub_le ..

theorem pushCapped_kept (limit : Option Nat) (entries : List α) (entry : α) :
    pushCapped limit (kept limit entries) entry = kept limit (entries ++ [entry]) := by
  cases limit with
  | none => rfl
  | some n => exact keepLast_keepLast_concat n entries entry

end

/-! ## One input -/

/-- A timeline with limits shows the end of another. -/
structure IsEnd (limits : Config) (t whole : Timeline) : Prop where
  config : t.config = limits
  items : t.items = keepLast limits.maxItems whole.items
  live : t.thinkingLive = whole.thinkingLive
  history : t.thinkingHistory = kept limits.sideLogLimit whole.thinkingHistory
  calls : t.toolCalls = kept limits.sideLogLimit whole.toolCalls
  outputs : t.toolOutputs = kept limits.sideLogLimit whole.toolOutputs

variable {limits : Config} {t whole : Timeline}

theorem items_pushItem_roomy (whole : Timeline) (item : Item) :
    (whole.roomy.pushItem item).items = whole.items ++ [item] := by
  refine keepLast_of_length_le ?_
  rw [List.length_append]
  exact Nat.le_refl _

theorem IsEnd.empty (limits : Config) : IsEnd limits (.empty limits) (.empty ⟨0, none⟩) := by
  have hnil : ∀ {α : Type}, kept limits.sideLogLimit ([] : List α) = [] := by
    intro α
    cases limits.sideLogLimit with
    | none => rfl
    | some n => exact List.drop_nil
  exact ⟨rfl, List.drop_nil.symm, rfl, hnil.symm, hnil.symm, hnil.symm⟩

/-- Room makes no difference to what is shown. -/
theorem IsEnd.roomy (h : IsEnd limits t whole) : IsEnd limits t whole.roomy :=
  ⟨h.config, h.items, h.live, h.history, h.calls, h.outputs⟩

theorem IsEnd.pushItem (h : IsEnd limits t whole) (item : Item) :
    IsEnd limits (t.pushItem item) (whole.roomy.pushItem item) := by
  refine ⟨h.config, ?_, h.live, h.history, h.calls, h.outputs⟩
  rw [items_pushItem_roomy, Timeline.pushItem, h.config, h.items]
  exact keepLast_keepLast_concat ..

theorem IsEnd.append (h : IsEnd limits t whole) (kind : ItemKind) (e : Event) (text : String) :
    IsEnd limits (t.append kind e text).1 (whole.roomy.append kind e text).1 := by
  unfold Timeline.append
  split
  · exact h.roomy
  · exact h.pushItem _

/-- A chunk that the last item takes joins it. -/
theorem applyAssistant_of_takes {items : List Item} {last : Item} (e : Event) {data : String}
    (hdata : data ≠ "") (hitems : t.items = items ++ [last]) (htakes : last.takes e.seq = true) :
    (t.applyAssistant e data).1 =
      { t with items := items ++ [{ last with text := last.text ++ data }] } := by
  simp only [applyAssistant, if_neg hdata, hitems, List.getLast?_concat, htakes, if_true,
    List.dropLast_concat]

/-- A chunk that no last item takes is an item of its own. -/
theorem applyAssistant_of_not_takes (e : Event) {data : String} (hdata : data ≠ "")
    (h : ∀ last ∈ t.items.getLast?, last.takes e.seq = false) :
    t.applyAssistant e data = t.append .assistant e data := by
  rw [applyAssistant, if_neg hdata]
  split
  · next last hlast => rw [h last hlast, if_neg Bool.false_ne_true]
  · rfl

/-- An item more changes no more than the items. -/
theorem append_eq (t : Timeline) (kind : ItemKind) (e : Event) (text : String) :
    ∃ items, (t.append kind e text).1 = { t with items := items } := by
  unfold append
  split
  · exact ⟨t.items, rfl⟩
  · exact ⟨_, rfl⟩

/-- A chunk changes no more than the items. -/
theorem applyAssistant_eq (t : Timeline) (e : Event) (data : String) :
    ∃ items, (t.applyAssistant e data).1 = { t with items := items } := by
  by_cases hdata : data = ""
  · exact ⟨t.items, by rw [applyAssistant, if_pos hdata]⟩
  rw [applyAssistant, if_neg hdata]
  split
  · split
    · exact ⟨_, rfl⟩
    · exact t.append_eq .assistant e data
  · exact t.append_eq .assistant e data

theorem IsEnd.applyAssistant (h : IsEnd limits t whole) (e : Event) (data : String) :
    IsEnd limits (t.applyAssistant e data).1 (whole.roomy.applyAssistant e data).1 := by
  by_cases hdata : data = ""
  · rw [Timeline.applyAssistant, Timeline.applyAssistant, if_pos hdata, if_pos hdata]
    exact h.roomy
  have happend := h.append .assistant e data
  cases hcap : limits.maxItems with
  | zero =>
    -- what the chunk joins is not kept, and neither is what comes of it
    have hnone : t.items = [] := by rw [h.items, hcap, keepLast_zero]
    have hsame := applyAssistant_of_not_takes (t := t) e hdata (by rw [hnone]; exact nofun)
    have hgone : (t.applyAssistant e data).1.items = [] := by
      rw [hsame, happend.items, hcap, keepLast_zero]
    obtain ⟨items, heq⟩ := t.applyAssistant_eq e data
    obtain ⟨others, hwhole⟩ := whole.roomy.applyAssistant_eq e data
    rw [heq] at hgone
    rw [heq, hwhole]
    refine { h.roomy with items := ?_ }
    rw [hcap, keepLast_zero]
    exact hgone
  | succ n =>
  rcases List.eq_nil_or_concat whole.items with hitems | ⟨items, last, hitems⟩
  · have hnone : t.items = [] := by rw [h.items, hitems]; exact List.drop_nil
    rw [applyAssistant_of_not_takes e hdata (by rw [hnone]; exact nofun),
      applyAssistant_of_not_takes e hdata (by rw [Timeline.roomy, hitems]; exact nofun)]
    exact happend
  · have hshown : t.items = keepLast n items ++ [last] := by
      rw [h.items, hcap, hitems, List.concat_eq_append, keepLast_succ_concat]
    rw [List.concat_eq_append] at hitems
    cases htakes : last.takes e.seq with
    | false =>
      have hrefuses : ∀ xs : List Item, ∀ other ∈ (xs ++ [last]).getLast?,
          other.takes e.seq = false := by
        intro xs other hother
        rw [List.getLast?_concat] at hother
        cases hother
        exact htakes
      rw [applyAssistant_of_not_takes e hdata (hshown ▸ hrefuses _),
        applyAssistant_of_not_takes e hdata (hitems ▸ hrefuses items)]
      exact happend
    | true =>
      rw [applyAssistant_of_takes e hdata hshown htakes,
        applyAssistant_of_takes (t := whole.roomy) e hdata hitems htakes]
      refine { h.roomy with items := ?_ }
      rw [hcap, keepLast_succ_concat]

theorem IsEnd.apply (h : IsEnd limits t whole) (e : Event) :
    IsEnd limits (t.apply e).1 (whole.roomy.apply e).1 := by
  unfold Timeline.apply
  cases e.body with
  | status state exitCode => exact h.append .status e _
  | error message => exact h.append .error e message
  | assistant data => exact h.applyAssistant e data
  | thinkingDelta delta =>
    dsimp only
    split
    · exact h.roomy
    · refine { h.roomy with live := ?_ }
      exact congrArg (· ++ delta) h.live
  | thinkingDone =>
    dsimp only
    have hlive : whole.roomy.thinkingLive = t.thinkingLive := h.live.symm
    rw [hlive]
    split
    · exact h.roomy
    · refine { h.roomy with live := rfl, history := ?_ }
      rw [h.config, h.history]
      exact pushCapped_kept ..
  | toolCall payload =>
    refine { h.roomy with calls := ?_ }
    rw [h.config, h.calls]
    exact pushCapped_kept ..
  | toolOutput payload =>
    refine { h.roomy with outputs := ?_ }
    rw [h.config, h.outputs]
    exact pushCapped_kept ..
  | user => exact h.roomy
  | unknown kind => exact h.roomy

theorem IsEnd.take (h : IsEnd limits t whole) (input : Input) :
    IsEnd limits (t.take input) (whole.roomy.take input) := by
  cases input with
  | event e => exact h.apply e
  | echo text seq tsMs => exact h.pushItem _

/-! ## All inputs -/

theorem IsEnd.takeAll (h : IsEnd limits t whole) (inputs : List Input) :
    IsEnd limits (inputs.foldl Timeline.take t)
      (inputs.foldl (fun whole input => whole.roomy.take input) whole) := by
  induction inputs generalizing t whole with
  | nil => exact h
  | cons input rest ih => exact ih (h.take input)

/-- A timeline whose limits are not reached shows all. -/
theorem IsEnd.eq (h : IsEnd limits t whole) (hroom : whole.items.length ≤ limits.maxItems)
    (hside : limits.sideLogLimit = none) : t = { whole with config := limits } := by
  obtain ⟨hconfig, hitems, hlive, hhistory, hcalls, houtputs⟩ := h
  rw [keepLast_of_length_le hroom] at hitems
  rw [hside] at hhistory hcalls houtputs
  cases t
  cases hconfig
  cases hitems
  cases hlive
  cases hhistory
  cases hcalls
  cases houtputs
  rfl

theorem length_append_le (t : Timeline) (kind : ItemKind) (e : Event) (text : String) :
    (t.append kind e text).1.items.length ≤ t.items.length + 1 := by
  unfold append
  split
  · exact Nat.le_succ _
  · exact Nat.le_trans (length_keepLast_le ..) (Nat.le_of_eq List.length_append)

theorem length_applyAssistant_le (t : Timeline) (e : Event) (data : String) :
    (t.applyAssistant e data).1.items.length ≤ t.items.length + 1 := by
  unfold applyAssistant
  split
  · exact Nat.le_succ _
  split
  · next last hlast =>
    split
    · rw [List.length_append, List.length_dropLast, List.length_singleton]
      omega
    · exact length_append_le ..
  · exact length_append_le ..

/-- An input makes at most one item. -/
theorem length_take_le (t : Timeline) (input : Input) :
    (t.take input).items.length ≤ t.items.length + 1 := by
  cases input with
  | echo text seq tsMs =>
    exact Nat.le_trans (length_keepLast_le ..) (Nat.le_of_eq List.length_append)
  | event e =>
    rw [take, reduce, apply]
    cases e.body with
    | status state exitCode => exact length_append_le ..
    | error message => exact length_append_le ..
    | assistant data => exact length_applyAssistant_le ..
    | thinkingDelta delta =>
      dsimp only
      split <;> exact Nat.le_succ _
    | thinkingDone =>
      dsimp only
      split <;> exact Nat.le_succ _
    | _ => exact Nat.le_succ _

theorem length_takeAll_le (whole : Timeline) (inputs : List Input) :
    (inputs.foldl (fun whole input => whole.roomy.take input) whole).items.length ≤
      whole.items.length + inputs.length := by
  induction inputs generalizing whole with
  | nil => exact Nat.le_refl _
  | cons input rest ih =>
    have hone : (whole.roomy.take input).items.length ≤ whole.items.length + 1 :=
      length_take_le whole.roomy input
    have hrest := ih (whole.roomy.take input)
    rw [List.foldl_cons, List.length_cons]
    omega

/-- A timeline with any limits has the last items and the last entries of the one that gives
nothing up, and the same thought going on; and that one is what every timeline shows whose
limits are not reached. -/
theorem ofInputs_eq_keepLast (limits : Config) (inputs : List Input) :
    let t := ofInputs limits inputs
    let whole := unlimited inputs
    t.items = keepLast limits.maxItems whole.items ∧
      t.thinkingLive = whole.thinkingLive ∧
      t.thinkingHistory = kept limits.sideLogLimit whole.thinkingHistory ∧
      t.toolCalls = kept limits.sideLogLimit whole.toolCalls ∧
      t.toolOutputs = kept limits.sideLogLimit whole.toolOutputs ∧
      ∀ spare, ofInputs ⟨inputs.length + spare, none⟩ inputs =
        { whole with config := ⟨inputs.length + spare, none⟩ } := by
  intro t whole
  obtain ⟨-, hitems, hlive, hhistory, hcalls, houtputs⟩ := (IsEnd.empty limits).takeAll inputs
  refine ⟨hitems, hlive, hhistory, hcalls, houtputs, fun spare => ?_⟩
  have hroom : whole.items.length ≤ inputs.length + spare := by
    have hle : whole.items.length ≤ 0 + inputs.length := length_takeAll_le _ inputs
    omega
  exact ((IsEnd.empty ⟨inputs.length + spare, none⟩).takeAll inputs).eq hroom rfl

end Timeline

end RemoteSession
