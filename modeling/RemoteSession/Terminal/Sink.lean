import RemoteSession.Stream.Frame
import RemoteSession.Terminal.Clock
import RemoteSession.Text.Blank
import RemoteSession.Timeline.Basic

/-!
# The terminal

How changes of a timeline and of the connection look on a terminal. The text of
an assistant is written as it comes; all else stands on lines of its own that
begin with a label. In raw mode each line feed becomes a carriage return and a
line feed. A text that cannot be written is lost, but the next one begins where
it would have ended.
-/

namespace RemoteSession.Terminal

open Timeline

/-- Each line feed with a carriage return before it, exactly one. -/
def rawNewlines : List Char → List Char
  | '\r' :: '\n' :: rest => '\r' :: '\n' :: rawNewlines rest
  | '\n' :: rest => '\r' :: '\n' :: rawNewlines rest
  | c :: rest => c :: rawNewlines rest
  | [] => []

/-- A terminal: how it shows, and where its next text begins. -/
structure Sink where
  raw : Bool
  /-- Whether thoughts and tools are shown. -/
  activity : Bool
  /-- Seconds east of universal time. -/
  offset : Int
  atLineStart : Bool
  /-- The last state of the connection that was reported. -/
  published : ConnectionState
deriving DecidableEq, Repr

namespace Sink

/-- A terminal at the start of a line. -/
def new (raw activity : Bool) (offset : Int) : Sink :=
  ⟨raw, activity, offset, true, .idle⟩

/-- A text as it is written, and the terminal after it. -/
def write (s : Sink) (text : String) : Sink × String :=
  if text = "" then (s, "")
  else
    let shown := if s.raw then String.ofList (rawNewlines text.toList) else text
    ({ s with atLineStart := text.endsWith "\n" }, shown)

/-- A line with a label. -/
def line (s : Sink) (label text : String) : Sink × String :=
  let lead := if s.atLineStart then "" else "\n"
  s.write (lead ++ "[" ++ label ++ "] " ++ text ++ "\n")

/-- A line with a label and a time. -/
def stampedLine (s : Sink) (label : String) (tsMs : Int64) (text : String) :
    Except Clock.Overflow (Sink × String) :=
  match Clock.read tsMs s.offset with
  | .ok time => .ok (s.line (label ++ " " ++ time) text)
  | .error e => .error e

/-- The label of lines about the program itself. -/
def ownLabel : String := "rc"

/-- A line about the program itself. -/
def notice (s : Sink) (text : String) : Sink × String :=
  s.line ownLabel text

/-- A change of the timeline. What the user typed is on the terminal already. -/
def render (s : Sink) : Change → Except Clock.Overflow (Sink × String)
  | .appended item =>
    match item.kind with
    | .status => s.stampedLine item.kind.label item.tsMs item.text
    | .error => s.stampedLine item.kind.label item.tsMs item.text
    | .assistant => .ok (s.write item.text)
    | .user => .ok (s, "")
  | .extended _ text => .ok (s.write text)
  | .thinkingProgress _ => .ok (s, "")
  | .thinkingCommitted thought =>
    if s.activity then s.stampedLine "thinking" thought.tsMs (Text.trimEnd thought.text)
    else .ok (s, "")
  | .toolCall record =>
    if s.activity then s.stampedLine "tool" record.tsMs record.payload.text else .ok (s, "")
  | .toolOutput record =>
    if s.activity then s.stampedLine "tool output" record.tsMs record.payload.text
    else .ok (s, "")

/-- A change of the connection. The states on the way to the first connection
are not shown. -/
def connectionChanged (s : Sink) (state : ConnectionState) : Sink × String :=
  let shown := match state with
    | .idle => (s, "")
    | .connecting => (s, "")
    | state => s.notice state.text
  ({ shown.1 with published := state }, shown.2)

end Sink

end RemoteSession.Terminal
