import RemoteSession.Message
import RemoteSession.Text.Blank
import RemoteSession.Text.Utf8

/-!
# Composing input

How a line, a run of keystrokes or a control signal becomes a message. A line
has plain line feeds only, ends in one unless the engine takes prompts as they
are, and is echoed without the blanks at its end. Keystrokes go out unchanged,
octets that are no text replaced.
-/

namespace RemoteSession

namespace Composer

/-! ## Lines -/

/-- How a line ends before it is sent. -/
inductive LineEnd where
  | newline
  | asIs
deriving DecidableEq, Repr

/-- Engines that take one prompt at a time keep the text as typed. -/
def LineEnd.ofEngine (engine : String) : LineEnd :=
  if Text.eqIgnoreCase (Text.trim engine) "codex" then .asIs else .newline

/-- Each carriage return before a line feed left out. -/
def joinLineEnds : List Char → List Char
  | '\r' :: '\n' :: rest => '\n' :: joinLineEnds rest
  | c :: rest => c :: joinLineEnds rest
  | [] => []

/-- A line ready to send: the text of the message and its echo. -/
structure Line where
  data : String
  echo : String
deriving DecidableEq, Repr

/-- The message of a line. -/
def Line.message (l : Line) : Message :=
  .input l.data

/-- The line of a text, unless the text is blank. -/
def line? (raw engine : String) (rawMode : Bool) : Option Line :=
  let text := String.ofList (joinLineEnds raw.toList)
  if Text.isBlank text then none
  else
    let terminated := !rawMode && LineEnd.ofEngine engine == .newline
    let data := if terminated && !text.endsWith "\n" then text ++ "\n" else text
    some ⟨data, Text.trimEnd text⟩

/-! ## Keystrokes -/

/-- The message of octets, unless there are none. -/
def keystrokes? (octets : List UInt8) : Option Message :=
  if octets.isEmpty then none else some (.input (Text.Utf8.decodeLossy octets))

/-! ## Control signals -/

/-- A signal that a terminal sends by a key. -/
inductive Control where
  | interrupt
  | endOfFile
  | suspend
  | escape
deriving DecidableEq, Repr

namespace Control

/-- The octets of a signal. -/
def octets : Control → List UInt8
  | .interrupt => [0x03]
  | .endOfFile => [0x04]
  | .suspend => [0x1A]
  | .escape => [0x1B]

/-- The name of a signal. -/
def name : Control → String
  | .interrupt => "interrupt"
  | .endOfFile => "eof"
  | .suspend => "suspend"
  | .escape => "escape"

/-- A name in the form in which names are compared. -/
def normalise (word : String) : String :=
  Text.lowerAscii (Text.trim word)

/-- The signal of a name, or the name in its normal form. -/
def ofName (word : String) : Except String Control :=
  let name := normalise word
  if ["interrupt", "int", "ctrl-c"].contains name then .ok .interrupt
  else if ["eof", "ctrl-d"].contains name then .ok .endOfFile
  else if ["suspend", "ctrl-z"].contains name then .ok .suspend
  else if ["escape", "esc"].contains name then .ok .escape
  else .error name

/-- The message about a name that is no signal. -/
def unknownMessage (name : String) : String :=
  "unknown control signal '" ++ name ++ "'"

/-- The message of a signal. -/
def message (c : Control) : Message :=
  .input (Text.Utf8.decodeLossy c.octets)

end Control

end Composer

end RemoteSession
