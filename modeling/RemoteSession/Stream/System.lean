import RemoteSession.Stream.Client

/-!
# A client and its runs

The client together with the runs that are still alive. A call cancels the runs
before it, but a cancelled run is there until it is dropped, and may take steps
till then. An action is anything that happens to the client: a call, a step of
a run, the drop of a cancelled run, or a connection that takes no more frames.
-/

namespace RemoteSession

/-- A run and whether it was cancelled. -/
structure Task where
  run : Run
  cancelled : Bool
deriving DecidableEq, Repr

/-- A client with the runs that are alive. -/
structure System where
  client : Client
  tasks : List Task
deriving DecidableEq

/-- What happens to a client. -/
inductive Action where
  | attach (session : String) (cursor : UInt64)
  | stop
  | supersede
  | send (message : Message)
  | setViewport (cols rows : UInt16)
  | wake (generation : Nat) (cause : Wake)
  | drop (generation : Nat)
  | refuse (link : Nat)

namespace System

/-- A client that follows no session. -/
def new (endpoint : Endpoint) (config : StreamConfig) : System :=
  ⟨.new endpoint config, []⟩

/-- All runs cancelled. -/
def cancelAll (tasks : List Task) : List Task :=
  tasks.map fun t => { t with cancelled := true }

/-- The run of a generation. -/
def task? (s : System) (generation : Nat) : Option Task :=
  s.tasks.find? fun t => t.run.generation == generation

/-- The run of a generation in another form, or gone. -/
def replace (tasks : List Task) (generation : Nat) (run : Option Run) : List Task :=
  tasks.filterMap fun t =>
    if t.run.generation = generation then run.map fun r => { t with run := r } else some t

/-- The system after an action, and what it let others know. -/
def step (s : System) : Action → System × List Notice
  | .attach session cursor =>
    let (c, notices) := s.client.attach session cursor
    (⟨c, cancelAll s.tasks ++ [⟨⟨c.generation, session, 0, .start⟩, false⟩]⟩, notices)
  | .stop =>
    let (c, notices) := s.client.stop
    (⟨c, cancelAll s.tasks⟩, notices)
  | .supersede => (⟨s.client.supersede, cancelAll s.tasks⟩, [])
  | .send m => ({ s with client := (s.client.send m).1 }, [])
  | .setViewport cols rows => ({ s with client := (s.client.setViewport cols rows).1 }, [])
  | .wake generation cause =>
    match s.task? generation with
    | none => (s, [])
    | some t =>
      let next := s.client.wake t.run cause
      (⟨next.client, replace s.tasks generation next.run⟩, next.notices)
  | .drop generation =>
    ({ s with tasks := s.tasks.filter fun t => t.run.generation ≠ generation || !t.cancelled }, [])
  | .refuse link =>
    ({ s with client :=
        { s.client with
          links := s.client.links.modify link fun l => { l with accepts := false } } },
      [])

/-- The system after some actions, and what it let others know. -/
def run (s : System) : List Action → System × List Notice
  | [] => (s, [])
  | action :: rest =>
    let (s, now) := s.step action
    let (s, later) := run s rest
    (s, now ++ later)

/-- Whether anything still holds a connection. -/
def holds (s : System) (link : Nat) : Bool :=
  s.client.outbound == some link || s.tasks.any fun t => t.run.wait == .frames link

/-- Whether any run still takes the frames of a connection. -/
def listens (s : System) (link : Nat) : Bool :=
  s.tasks.any fun t => t.run.wait == .frames link

end System

end RemoteSession
