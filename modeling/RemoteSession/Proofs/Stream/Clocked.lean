import RemoteSession.Stream.System

/-!
# A client in time

A client and its runs with a clock. The timer of a run that waits a delay goes off
once the delay has passed since the wait began, and time does not pass a timer that
is about to go off, unless its run was cancelled. All else may happen at any time.
What the client lets others know carries the instant at which it does.
-/

namespace RemoteSession

/-- What the run of a generation waits for. -/
def System.wait? (s : System) (generation : Nat) : Option Wait :=
  (s.task? generation).map fun t => t.run.wait

/-- A system with a clock. -/
structure Clocked where
  system : System
  /-- Milliseconds since the beginning. -/
  now : Nat
  /-- When the run of each generation began to wait for what it waits for. -/
  since : Nat → Nat

/-- What happens to a client in time. -/
inductive Tick where
  | act (action : Action)
  | pass (ms : Nat)

namespace Clocked

/-- A client that follows no session, at the beginning of time. -/
def new (endpoint : Endpoint) (config : StreamConfig) : Clocked :=
  ⟨.new endpoint config, 0, fun _ => 0⟩

/-- When the timer of a run goes off, if it has one. -/
def due? (c : Clocked) (generation : Nat) : Option Nat :=
  match c.system.wait? generation with
  | some (.delay ms) => some (c.since generation + ms)
  | _ => none

/-- Whether an action can happen now: a timer goes off no sooner than it is due. -/
def allows (c : Clocked) : Action → Bool
  | .wake generation .elapsed =>
    match c.due? generation with
    | some due => due ≤ c.now
    | none => true
  | _ => true

/-- Whether time can pass without a timer going off. -/
def canPass (c : Clocked) (ms : Nat) : Bool :=
  c.system.tasks.all fun t =>
    t.cancelled ||
      match c.due? t.run.generation with
      | some due => c.now + ms ≤ due
      | none => true

/-- The client after an action, and what it let others know at which instant. What
cannot happen now changes nothing. -/
def step (c : Clocked) : Tick → Clocked × List (Nat × Notice)
  | .act action =>
    if c.allows action then
      let (system, notices) := c.system.step action
      ({ c with
          system := system
          since := fun g => if system.wait? g = c.system.wait? g then c.since g else c.now },
        notices.map fun notice => (c.now, notice))
    else (c, [])
  | .pass ms => (if c.canPass ms then { c with now := c.now + ms } else c, [])

/-- The client after some time, and what it let others know at which instants. -/
def run (c : Clocked) : List Tick → Clocked × List (Nat × Notice)
  | [] => (c, [])
  | tick :: rest =>
    let (c, now) := c.step tick
    let (c, later) := run c rest
    (c, now ++ later)

end Clocked

end RemoteSession
