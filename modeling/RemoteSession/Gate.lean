import RemoteSession.Event.Basic

/-!
# The gate

The gate lets an event pass when its `seq` exceeds that of every event before
it. Its cursor is the `seq` of the last event that passed, and what does not
pass leaves it alone (`cursor_le_offer`).
-/

namespace RemoteSession

/-- What became of a frame offered to the gate. -/
inductive Admission where
  | accepted (event : Event)
  | stale (seq cursor : UInt64)
  | malformed

/-- The watermark of the events that have passed. -/
structure Gate where
  cursor : UInt64
deriving DecidableEq, Repr

namespace Gate

/-- Offers an event. -/
def offer (g : Gate) (e : Event) : Admission × Gate :=
  if e.seq ≤ g.cursor then (.stale e.seq g.cursor, g) else (.accepted e, ⟨e.seq⟩)

/-- Offers a frame, which may be no event. -/
def offerFrame (g : Gate) (frame : String) : Admission × Gate :=
  match Event.decode? frame with
  | some e => g.offer e
  | none => (.malformed, g)

/-- The cursor never goes back. -/
theorem cursor_le_offer (g : Gate) (e : Event) : g.cursor ≤ (g.offer e).2.cursor := by
  unfold offer
  split
  · exact UInt64.le_refl _
  · next h => exact UInt64.le_of_lt (UInt64.not_le.1 h)

end Gate

end RemoteSession
