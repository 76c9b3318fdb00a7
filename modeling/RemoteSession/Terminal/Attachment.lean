import RemoteSession.Terminal.Display

/-!
# Attachments

A terminal attached to a session. Lines or keys go to the session, what the
session tells goes to the terminal, and changes of the terminal's size are
passed on. The attachment ends when the user leaves or when the connection has
come to its end. Whoever leaves forgets how far the session was read; after an
end of the connection that is kept.
-/

namespace RemoteSession.Terminal

/-- The columns and rows of a terminal. -/
abbrev Size := UInt16 × UInt16

/-- A terminal attached to a session. -/
structure Attachment where
  view : SessionView StoredCursors
  sink : Sink
  /-- The size that the session was told last, if the terminal has one. -/
  size : Option Size

/-- Why an attachment ends. -/
inductive Exit where
  | detach
  | closed (reason : String)
deriving DecidableEq, Repr

namespace Attachment

/-- How a terminal is attached. -/
structure Manner where
  /-- Keys are passed on as they are typed. -/
  raw : Bool
  /-- The session is shown from its tail. -/
  fresh : Bool
  /-- Thoughts and tools are shown. -/
  activity : Bool
deriving DecidableEq, Repr

/-- What happens to an attachment. -/
inductive Happening where
  /-- A line was typed at an instant. -/
  | line (text : String) (tsMs : Int64)
  | keys (octets : List UInt8)
  | endOfInput
  | interrupt
  | measure (size : Option Size)
  | stream (action : Action)
  /-- The state that was reported last is looked at. -/
  | glance

/-- What an attachment becomes, what it writes, and whether it ends. -/
structure Turn where
  attachment : Attachment
  written : String
  exit : Option Exit

/-- The octet of the key that leaves a session whose keys are passed on. -/
def detachOctet : UInt8 := 0x1D

/-- Cursors in a file on a disk without faults. -/
def cursors : CursorService StoredCursors := .file .sound

/-- A view after something that it tells of. -/
def present (a : Attachment) (result : SessionView StoredCursors × List ViewNotice) :
    Attachment × String :=
  let (sink, written) := a.sink.hearAll result.2
  ({ a with view := result.1, sink := sink }, written)

/-- A line about the program itself. -/
def remark (a : Attachment) (text : String) : Attachment × String :=
  let (sink, written) := a.sink.notice text
  ({ a with sink := sink }, written)

/-! ## The beginning -/

/-- How the user can leave. -/
def hint (raw : Bool) : String :=
  if raw then "Ctrl-] detaches" else "Ctrl-C interrupts, Ctrl-D detaches"

/-- What is said at the beginning. -/
def greeting (m : SessionMeta) (raw : Bool) : String :=
  let state := if m.state = "" then "unknown" else m.state
  "attaching to " ++ m.title ++ " (" ++ m.engine ++ ", " ++ state ++ "); " ++ hint raw

/-- The size of the terminal, as far as it is another one than before. -/
def resize (a : Attachment) (size : Option Size) : Attachment :=
  match size with
  | none => a
  | some (cols, rows) =>
    if a.size = some (cols, rows) then a
    else { a with view := (a.view.resize cols rows).1, size := some (cols, rows) }

/-- The attachment of a terminal to a session. -/
def start (endpoint : Endpoint) (stored : StoredCursors) (m : SessionMeta)
    (manner : Manner) (offset : Int) (size : Option Size) : Attachment × String :=
  let view : SessionView StoredCursors :=
    { SessionView.new endpoint .default .default stored with rawMode := manner.raw }
  let a : Attachment := ⟨view, .new manner.raw manner.activity offset, none⟩
  let a := a.resize size
  let (a, greeted) := a.remark (greeting m manner.raw)
  let (a, written) :=
    a.present (if manner.fresh then a.view.attachFresh cursors m else a.view.attach cursors m)
  (a, greeted ++ written)

/-! ## Turns -/

/-- A turn after which the attachment goes on. -/
def Turn.goOn (result : Attachment × String) : Turn :=
  ⟨result.1, result.2, none⟩

/-- A line typed by the user. One that is not blank is not lost in silence. -/
def typeLine (a : Attachment) (text : String) (tsMs : Int64) : Attachment × String :=
  let (view, taken, notices) := a.view.sendLine text tsMs
  let (a, written) := a.present (view, notices)
  if taken || Text.isBlank text then (a, written)
  else
    let state := a.view.system.client.state.text
    a.remark ("not connected (" ++ state ++ "); input dropped")

/-- Keys typed by the user, up to the one that leaves. -/
def typeKeys (a : Attachment) (octets : List UInt8) : Turn :=
  let (view, _) := a.view.sendKeystrokes (octets.takeWhile (· != detachOctet))
  let exit := if octets.contains detachOctet then some .detach else none
  ⟨{ a with view := view }, "", exit⟩

/-- The end that the state reported last stands for. -/
def exitOf (a : Attachment) : Option Exit :=
  match a.sink.published with
  | .closed reason => some (.closed reason)
  | _ => none

/-- The attachment after something happened. -/
def step (a : Attachment) : Happening → Turn
  | .line text tsMs => .goOn (a.typeLine text tsMs)
  | .keys octets => a.typeKeys octets
  | .endOfInput => ⟨a, "", some .detach⟩
  | .interrupt =>
    .goOn ({ a with view := (a.view.send Composer.Control.interrupt.message).1 }, "")
  | .measure size => .goOn (a.resize size, "")
  | .stream action => .goOn (a.present (a.view.act cursors action))
  | .glance => ⟨a, "", a.exitOf⟩

/-- The attachment after its end. -/
def leave (a : Attachment) : Exit → Attachment × String
  | .detach =>
    let (a, written) := a.present (a.view.detach cursors)
    let (a, farewell) := a.remark "detached"
    (a, written ++ farewell)
  | .closed _ => a.present (a.view.stop cursors)

/-- The attachment from here to its end, or as long as anything happens. -/
def run (a : Attachment) : List Happening → Attachment × String
  | [] => (a, "")
  | happening :: rest =>
    let turn := a.step happening
    match turn.exit with
    | some exit =>
      let (a, written) := turn.attachment.leave exit
      (a, turn.written ++ written)
    | none =>
      let (a, written) := turn.attachment.run rest
      (a, turn.written ++ written)

end Attachment

end RemoteSession.Terminal
