import RemoteSession.Composer
import RemoteSession.Session.Directory
import RemoteSession.Storage.CursorStore
import RemoteSession.Stream.System
import RemoteSession.Timeline.Basic

/-!
# The view of a session

What a user sees of the session that the client follows: the timeline, what is
known of the session, and the lines just sent. Every attachment starts from an
empty timeline; the run before is silenced first, so that nothing of it shows.
How far a session was read is kept by a cursor service, whose operations may
fail: a cursor that cannot be loaded is zero, all other failures are passed over.

The calls are given here as they are when nothing happens between their parts. A
view holds its cursors, its client and what it shows apart, one after the other,
and the runs of its client go on in between: see `Stage`.
-/

namespace RemoteSession

/-- A way to keep cursors in a state. Loading gives nothing when it fails, and
the other operations leave what they could not change. -/
structure CursorService (σ : Type) where
  load : σ → String → Option UInt64
  store : σ → String → UInt64 → σ
  reset : σ → String → σ

/-- Cursors in memory. -/
def CursorService.memory : CursorService MemoryCursorStore where
  load s id := some (s.load id)
  store s id seq := s.store id seq
  reset s id := s.reset id

/-- Cursors in a file, with the tree that holds the file. -/
structure StoredCursors where
  store : FileCursorStore
  files : FileTree
deriving DecidableEq

/-- The cursors after an operation, whether it succeeded or not. -/
def StoredCursors.ofOutcome (o : FileCursorStore.Outcome) : StoredCursors :=
  ⟨o.store, o.tree⟩

/-- Cursors in a file. -/
def CursorService.file (disk : Disk) : CursorService StoredCursors where
  load s id := some (s.store.load id)
  store s id seq := .ofOutcome (s.store.store disk s.files id seq)
  reset s id := .ofOutcome (s.store.reset disk s.files id)

/-- What a user sees of a session. -/
structure SessionView (σ : Type) where
  system : System
  cursors : σ
  session : Option SessionMeta
  timeline : Timeline
  /-- Whether keys are sent as they are typed. -/
  rawMode : Bool

/-- What a view lets others know. -/
inductive ViewNotice where
  | stream (notice : Notice)
  | change (change : Timeline.Change)
  | forget (session : String)

namespace SessionMeta

/-- What is known of a session after an event: a status that is not empty and
an exit code take the place of the ones before. -/
def after (m : SessionMeta) (e : Event) : SessionMeta :=
  match e.body with
  | .status state exitCode =>
    { m with
      state := if state = "" then m.state else state
      exitCode := exitCode.or m.exitCode }
  | _ => m

end SessionMeta

namespace SessionView

variable {σ : Type}

/-- A view of no session. -/
def new (endpoint : Endpoint) (config : StreamConfig) (limits : Timeline.Config) (cursors : σ) :
    SessionView σ where
  system := .new endpoint config
  cursors := cursors
  session := none
  timeline := .empty limits
  rawMode := false

/-! ## What the client tells -/

/-- An event shown. -/
def showEvent (v : SessionView σ) (e : Event) : SessionView σ × Option Timeline.Change :=
  let (timeline, change) := v.timeline.apply e
  ({ v with session := v.session.map (·.after e), timeline := timeline }, change)

/-- One notice of the client. -/
def hear (service : CursorService σ) (v : SessionView σ) :
    Notice → SessionView σ × List ViewNotice
  | .persist id seq =>
    ({ v with cursors := service.store v.cursors id seq }, [.stream (.persist id seq)])
  | .event e =>
    let (v, change) := v.showEvent e
    (v, .stream (.event e) :: change.toList.map .change)
  | notice => (v, [.stream notice])

/-- The notices of the client in their order. -/
def hearAll (service : CursorService σ) (v : SessionView σ) :
    List Notice → SessionView σ × List ViewNotice
  | [] => (v, [])
  | notice :: rest =>
    let (v, now) := v.hear service notice
    let (v, later) := v.hearAll service rest
    (v, now ++ later)

/-- Something that happens to the client. -/
def act (service : CursorService σ) (v : SessionView σ) (action : Action) :
    SessionView σ × List ViewNotice :=
  let (system, notices) := v.system.step action
  { v with system := system }.hearAll service notices

/-! ## Calls -/

/-- A session shown from a cursor, in place of the one before. Three parts: the
run before is silenced, the view is emptied, a run begins. -/
def start (service : CursorService σ) (v : SessionView σ) (m : SessionMeta) (cursor : UInt64) :
    SessionView σ × List ViewNotice :=
  let (v, silence) := v.act service .supersede
  let v := { v with session := some m, timeline := v.timeline.clear }
  let (v, notices) := v.act service (.attach m.id cursor)
  (v, silence ++ notices)

/-- A session shown from where it was read to. The cursor is read before the run
before is silenced. -/
def attach (service : CursorService σ) (v : SessionView σ) (m : SessionMeta) :
    SessionView σ × List ViewNotice :=
  v.start service m ((service.load v.cursors m.id).getD 0)

/-- A cursor forgotten. -/
def forget (service : CursorService σ) (v : SessionView σ) (id : String) :
    SessionView σ × List ViewNotice :=
  ({ v with cursors := service.reset v.cursors id }, [.forget id])

/-- A session shown from its tail; how far it was read is forgotten, before the
run before is silenced. -/
def attachFresh (service : CursorService σ) (v : SessionView σ) (m : SessionMeta) :
    SessionView σ × List ViewNotice :=
  let (v, forgotten) := v.forget service m.id
  let (v, notices) := v.start service m 0
  (v, forgotten ++ notices)

/-- The stream ended; the view stays. -/
def stop (service : CursorService σ) (v : SessionView σ) : SessionView σ × List ViewNotice :=
  v.act service .stop

/-- The stream ended, the view emptied, and forgotten how far the session was
read. -/
def detach (service : CursorService σ) (v : SessionView σ) : SessionView σ × List ViewNotice :=
  let (v, notices) := v.act service .stop
  let session := v.session
  let v := { v with session := none, timeline := v.timeline.clear }
  match session with
  | none => (v, notices)
  | some m =>
    let (v, forgotten) := v.forget service m.id
    (v, notices ++ forgotten)

/-- A message for the session, and whether the connection took it. -/
def send (v : SessionView σ) (m : Message) : SessionView σ × Bool :=
  let (client, taken) := v.system.client.send m
  ({ v with system := { v.system with client := client } }, taken)

/-- Keys for the session. -/
def sendKeystrokes (v : SessionView σ) (octets : List UInt8) : SessionView σ × Bool :=
  match Composer.keystrokes? octets with
  | some m => v.send m
  | none => (v, false)

/-- A line for the session at an instant. It shows in the timeline once the
connection has taken it. -/
def sendLine (v : SessionView σ) (text : String) (tsMs : Int64) :
    SessionView σ × Bool × List ViewNotice :=
  let engine := (v.session.map SessionMeta.engine).getD ""
  match Composer.line? text engine v.rawMode with
  | none => (v, false, [])
  | some line =>
    let (v, taken) := v.send line.message
    if taken then
      let (timeline, change) :=
        v.timeline.recordLocalInput line.echo v.system.client.gate.cursor tsMs
      ({ v with timeline := timeline }, true, [.change change])
    else (v, false, [])

/-- The size of the terminal. -/
def resize (v : SessionView σ) (cols rows : UInt16) : SessionView σ × Bool :=
  let (client, taken) := v.system.client.setViewport cols rows
  ({ v with system := { v.system with client := client } }, taken)

end SessionView

end RemoteSession
