import RemoteSession.Session.View

/-!
# Calls in parts

The client, the timeline and the cursors of a view are locked apart, so that a call is
several steps (`Part`), between which the runs of the client go on. What a run does with a
frame is one step, as it holds the client throughout. Calls come one after another: a view
in the midst of a call is a `Stage`, and a turn of it takes the next part of the call, lets
the client do something of its own, or begins another call.

The order of the parts is that of the calls of the view, which do them with nothing in
between: to attach a session is to read its cursor, to silence the run before, to empty the
view and to begin a run, in this order, and a session is forgotten before all that when it
is attached afresh.
-/

namespace RemoteSession

/-- What happens to a view. -/
inductive ViewAction where
  | attach (session : SessionMeta)
  | attachFresh (session : SessionMeta)
  | stop
  | detach
  | rawMode (on : Bool)
  | line (text : String) (tsMs : Int64)
  | keys (octets : List UInt8)
  | send (message : Message)
  | resize (cols rows : UInt16)
  | wake (generation : Nat) (cause : Wake)
  | drop (generation : Nat)
  | refuse (link : Nat)

namespace ViewAction

/-- What the client does on its own, unless the action is a call. -/
def own? : ViewAction → Option Action
  | .wake generation cause => some (.wake generation cause)
  | .drop generation => some (.drop generation)
  | .refuse link => some (.refuse link)
  | _ => none

/-- Whether a cursor is forgotten. -/
def forgets : ViewAction → Bool
  | .attachFresh _ => true
  | .detach => true
  | _ => false

/-- Whether a session is attached. -/
def attaches : ViewAction → Bool
  | .attach _ => true
  | .attachFresh _ => true
  | _ => false

end ViewAction

/-- A part of a call, which is one step. -/
inductive Part where
  | silence
  | present (session : SessionMeta)
  | follow (session : String) (cursor : UInt64)
  | halt
  | blank
  | forget (session : String)
  | say (line : Composer.Line) (tsMs : Int64)
  | mark (echo : String) (tsMs : Int64)
  | record (echo : String) (seq : UInt64) (tsMs : Int64)
  | rawMode (on : Bool)
  | send (message : Message)
  | resize (cols rows : UInt16)

namespace SessionView

variable {σ : Type} (service : CursorService σ) (v : SessionView σ)

/-- The session that is attached. -/
def attached : Option String :=
  v.session.map SessionMeta.id

/-- The parts of a call. The cursor, the engine and the mode are read as it begins. -/
def parts : ViewAction → List Part
  | .attach m => [.silence, .present m, .follow m.id ((service.load v.cursors m.id).getD 0)]
  | .attachFresh m => [.forget m.id, .silence, .present m, .follow m.id 0]
  | .stop => [.halt]
  | .detach => [.halt, .blank]
  | .rawMode on => [.rawMode on]
  | .line text tsMs =>
    let engine := (v.session.map SessionMeta.engine).getD ""
    ((Composer.line? text engine v.rawMode).map fun line => Part.say line tsMs).toList
  | .keys octets => ((Composer.keystrokes? octets).map Part.send).toList
  | .send m => [.send m]
  | .resize cols rows => [.resize cols rows]
  | .wake _ _ => []
  | .drop _ => []
  | .refuse _ => []

/-- The view after a part of a call, and the parts that it calls for. -/
def perform : Part → SessionView σ × List Part
  | .silence => ((v.act service .supersede).1, [])
  | .present m => ({ v with session := some m, timeline := v.timeline.clear }, [])
  | .follow session cursor => ((v.act service (.attach session cursor)).1, [])
  | .halt => ((v.act service .stop).1, [])
  | .blank =>
    ({ v with session := none, timeline := v.timeline.clear },
      (v.session.map fun m => Part.forget m.id).toList)
  | .forget session => ((v.forget service session).1, [])
  | .say line tsMs =>
    let (v, taken) := v.send line.message
    (v, if taken then [.mark line.echo tsMs] else [])
  | .mark echo tsMs => (v, [.record echo v.system.client.gate.cursor tsMs])
  | .record echo seq tsMs =>
    ({ v with timeline := (v.timeline.recordLocalInput echo seq tsMs).1 }, [])
  | .rawMode on => ({ v with rawMode := on }, [])
  | .send m => ((v.send m).1, [])
  | .resize cols rows => ((v.resize cols rows).1, [])

/-- What a part of a call lets others know. -/
def tell : Part → List ViewNotice
  | .silence => (v.act service .supersede).2
  | .follow session cursor => (v.act service (.attach session cursor)).2
  | .halt => (v.act service .stop).2
  | .forget session => (v.forget service session).2
  | .record echo seq tsMs => [.change (v.timeline.recordLocalInput echo seq tsMs).2]
  | _ => []

end SessionView

/-- A view with the parts that are left of a call. -/
structure Stage (σ : Type) where
  view : SessionView σ
  rest : List Part

/-- What may happen to a stage. -/
inductive Turn where
  /-- The next part of the call is done. -/
  | go
  /-- The client does something of its own, or a call begins. -/
  | act (action : ViewAction)

namespace Stage

variable {σ : Type} (service : CursorService σ)

/-- A view of no session, in the midst of no call. -/
def new (endpoint : Endpoint) (config : StreamConfig) (limits : Timeline.Config) (cursors : σ) :
    Stage σ :=
  ⟨.new endpoint config limits cursors, []⟩

/-- The stage after a turn. A call cannot begin before the one before it is done. -/
def step (p : Stage σ) : Turn → Stage σ
  | .go =>
    match p.rest with
    | [] => p
    | part :: rest =>
      let (v, more) := p.view.perform service part
      ⟨v, more ++ rest⟩
  | .act a =>
    match a.own?, p.rest with
    | some own, rest => ⟨(p.view.act service own).1, rest⟩
    | none, [] => ⟨p.view, p.view.parts service a⟩
    | none, _ :: _ => p

/-- The stage after some turns. -/
def after (p : Stage σ) (turns : List Turn) : Stage σ :=
  turns.foldl (step service) p

/-- What a turn lets others know. -/
def tell (p : Stage σ) : Turn → List ViewNotice
  | .go =>
    match p.rest with
    | [] => []
    | part :: _ => p.view.tell service part
  | .act a =>
    match a.own? with
    | some own => (p.view.act service own).2
    | none => []

/-- What some turns let others know, each with the session that was attached then. -/
def report (p : Stage σ) : List Turn → List (Option String × ViewNotice)
  | [] => []
  | turn :: rest =>
    (p.tell service turn).map (Prod.mk p.view.attached) ++ (p.step service turn).report rest

end Stage

end RemoteSession
