import Mathlib.Data.UInt
import RemoteSession.Proofs.Timeline.Changes

/-!
# What an event does to a timeline

An event says something by itself, before it meets a timeline (`Event.saying`) : an item
with a text, a text more for the thought that is going on, or a record for one of the tool
logs. What it does to a timeline is one of few things (`Timeline.Reduces`) : its item is
shown or joins the last one, its text goes to the thought, the thought is concluded, or its
record is logged. Everything about all events is proved by these cases.

A chunk joins an assistant's item up to two numbers past the item's own
(`Timeline.Item.takes_iff`).
-/

namespace RemoteSession

namespace Timeline

/-- What an event or an echo says by itself. -/
structure Saying where
  item : Option Item := none
  delta : String := ""
  call : Option ToolRecord := none
  output : Option ToolRecord := none

end Timeline

namespace Event

open Timeline

/-- An item of an event. -/
def item (e : Event) (kind : ItemKind) (text : String) : Item :=
  ⟨kind, e.tsMs, e.seq, text⟩

/-- The item of an event, if there is a text. -/
def item? (e : Event) (kind : ItemKind) (text : String) : Option Item :=
  if text = "" then none else some (e.item kind text)

/-- A record of an event. -/
def record (e : Event) (payload : Json.Value) : ToolRecord :=
  ⟨e.tsMs, e.seq, payload⟩

/-- What an event says by itself. -/
def saying (e : Event) : Saying :=
  match e.body with
  | .status state exitCode => { item := e.item? .status (statusText state exitCode) }
  | .error message => { item := e.item? .error message }
  | .assistant data => { item := e.item? .assistant data }
  | .thinkingDelta delta => { delta := delta }
  | .toolCall payload => { call := some (e.record payload) }
  | .toolOutput payload => { output := some (e.record payload) }
  | .thinkingDone => {}
  | .user => {}
  | .unknown _ => {}

end Event

namespace Timeline

/-- What an event can do to a timeline. -/
inductive Reduces (t : Timeline) (e : Event) : Timeline → Prop where
  | quiet : e.saying = {} → Reduces t e t
  | shown (kind : ItemKind) (text : String) : e.saying = { item := some (e.item kind text) } →
      text ≠ "" → (kind = .assistant → ∀ last ∈ t.items.getLast?, last.takes e.seq = false) →
      Reduces t e (t.pushItem (e.item kind text))
  | joined (items : List Item) (last : Item) (text : String) :
      e.saying = { item := some (e.item .assistant text) } → text ≠ "" →
      t.items = items ++ [last] → last.takes e.seq = true →
      Reduces t e { t with items := items ++ [last.extend text] }
  | thought (text : String) : e.saying = { delta := text } →
      Reduces t e { t with thinkingLive := t.thinkingLive ++ text }
  | concluded : e.saying = {} → t.thinkingLive ≠ "" →
      Reduces t e { t with
        thinkingLive := ""
        thinkingHistory := pushCapped t.config.sideLogLimit t.thinkingHistory
          ⟨e.tsMs, e.seq, t.thinkingLive⟩ }
  | called (payload : Json.Value) : e.saying = { call := some (e.record payload) } →
      Reduces t e { t with
        toolCalls := pushCapped t.config.sideLogLimit t.toolCalls (e.record payload) }
  | answered (payload : Json.Value) : e.saying = { output := some (e.record payload) } →
      Reduces t e { t with
        toolOutputs := pushCapped t.config.sideLogLimit t.toolOutputs (e.record payload) }

variable {t : Timeline} {e : Event}

/-- A chunk joins an assistant's item up to two numbers past the item's own. -/
theorem Item.takes_iff {item : Item} {seq : UInt64} :
    item.takes seq = true ↔ item.kind = .assistant ∧ seq.toNat ≤ item.seq.toNat + 2 := by
  have hwindow : mergeWindow.toNat = 2 := rfl
  rw [takes, Bool.and_eq_true, beq_iff_eq, Bool.or_eq_true, decide_eq_true_iff,
    decide_eq_true_iff, UInt64.le_iff_toNat_le, UInt64.le_iff_toNat_le, hwindow]
  refine and_congr_right fun _ => ?_
  rcases Nat.le_total seq.toNat item.seq.toNat with hle | hle
  · exact ⟨fun _ => Nat.le_add_right_of_le hle, fun _ => .inl hle⟩
  · rw [UInt64.toNat_sub_of_le _ _ (UInt64.le_iff_toNat_le.2 hle)]
    omega

/-- An item that is not joined to another is shown if there is a text. -/
theorem reduces_append {kind : ItemKind} {text : String}
    (hsaid : e.saying = { item := e.item? kind text })
    (hlast : kind = .assistant → ∀ last ∈ t.items.getLast?, last.takes e.seq = false) :
    t.Reduces e (t.append kind e text).1 := by
  unfold append
  rw [Event.item?] at hsaid
  split
  · next hempty => exact .quiet (by rw [hsaid, if_pos hempty])
  · next hempty => exact .shown kind text (by rw [hsaid, if_neg hempty]) hempty hlast

theorem reduces_applyAssistant {data : String}
    (hsaid : e.saying = { item := e.item? .assistant data }) :
    t.Reduces e (t.applyAssistant e data).1 := by
  by_cases hdata : data = ""
  · rw [applyAssistant, if_pos hdata]
    exact .quiet (by rw [hsaid, Event.item?, if_pos hdata])
  by_cases hjoins : ∃ last ∈ t.items.getLast?, last.takes e.seq = true
  · obtain ⟨last, hlast, htakes⟩ := hjoins
    obtain ⟨items, hitems⟩ := List.getLast?_eq_some_iff.1 hlast
    rw [applyAssistant_of_takes e hdata hitems htakes]
    exact .joined items last data (by rw [hsaid, Event.item?, if_neg hdata]) hdata hitems htakes
  · have hrefuses : ∀ last ∈ t.items.getLast?, last.takes e.seq = false :=
      fun last hlast => Bool.eq_false_iff.2 fun htakes => hjoins ⟨last, hlast, htakes⟩
    rw [applyAssistant_of_not_takes e hdata hrefuses]
    exact reduces_append hsaid fun _ => hrefuses

/-- An event does nothing else to a timeline. -/
theorem reduces (t : Timeline) (e : Event) : t.Reduces e (t.reduce e) := by
  have hsaid := Event.saying.eq_def e
  rw [reduce, apply]
  generalize e.body = body at hsaid ⊢
  cases body with
  | status state exitCode => exact reduces_append hsaid (by simp)
  | error message => exact reduces_append hsaid (by simp)
  | assistant data => exact reduces_applyAssistant hsaid
  | thinkingDelta delta =>
    dsimp only
    split
    · next hempty => exact .quiet (by rw [hsaid, hempty])
    · exact .thought delta hsaid
  | thinkingDone =>
    dsimp only
    split
    · exact .quiet hsaid
    · next hlive => exact .concluded hsaid hlive
  | toolCall payload => exact .called payload hsaid
  | toolOutput payload => exact .answered payload hsaid
  | user => exact .quiet hsaid
  | unknown kind => exact .quiet hsaid

end Timeline

end RemoteSession
