/-!
# Backoff

How long to wait before each attempt to connect again: the steps in order, then
the last of them for ever; at once without any steps.
-/

namespace RemoteSession

/-- The delays in milliseconds. -/
structure Backoff where
  steps : List Nat
deriving DecidableEq, Repr

namespace Backoff

/-- The delays unless said otherwise. -/
def default : Backoff := ⟨[500, 1000, 2000, 5000]⟩

/-- The delay before an attempt, counted from zero. -/
def delay (b : Backoff) (attempt : Nat) : Nat :=
  (b.steps[min attempt (b.steps.length - 1)]?).getD 0

theorem delay_eq_getD (b : Backoff) (attempt : Nat) :
    b.delay attempt = b.steps.getD (min attempt (b.steps.length - 1)) 0 :=
  (List.getD_eq_getElem?_getD ..).symm

end Backoff

end RemoteSession
