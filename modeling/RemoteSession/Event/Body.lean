import RemoteSession.Event.Basic

/-!
# Kinds and bodies of events

The kinds form a fixed vocabulary; any other word is carried along. The body of
an event is what its kind reads from the payload. Reading never fails: a
missing or mistyped field is empty.
-/

namespace RemoteSession

open Json

/-! ## Payload fields -/

namespace Payload

/-- The value of a key of a payload that is an object. -/
def field? (payload : Option Value) (key : String) : Option Value :=
  match payload with
  | some (.object members) => Keyed.get? members key
  | _ => none

/-- A text, empty when the field is missing or no text. -/
def text (payload : Option Value) (key : String) : String :=
  match field? payload key with
  | some (.string s) => s
  | _ => ""

/-- An integer of 64 bits with sign, when the field is one. -/
def integer? (payload : Option Value) (key : String) : Option Int64 :=
  match field? payload key with
  | some (.number (.integer i)) =>
    if i.value ≤ 9223372036854775807 then some (Int64.ofInt i.value) else none
  | _ => none

/-- The whole payload, `null` when there is none. -/
def raw (payload : Option Value) : Value :=
  payload.getD .null

end Payload

namespace Event

/-! ## Kinds -/

/-- The vocabulary of kinds. -/
inductive Kind where
  | status
  | error
  | assistant
  | user
  | thinkingDelta
  | thinkingDone
  | toolCall
  | toolOutput
  | other (word : String)
deriving DecidableEq, Repr

namespace Kind

/-- The kind of a word. -/
def ofWord (word : String) : Kind :=
  if word = "status" then .status
  else if word = "error" then .error
  else if word = "assistant" then .assistant
  else if word = "user" then .user
  else if word = "thinking_delta" then .thinkingDelta
  else if word = "thinking_done" then .thinkingDone
  else if word = "tool_call" then .toolCall
  else if word = "tool_output" then .toolOutput
  else .other word

/-- The word of a kind. -/
def word : Kind → String
  | .status => "status"
  | .error => "error"
  | .assistant => "assistant"
  | .user => "user"
  | .thinkingDelta => "thinking_delta"
  | .thinkingDone => "thinking_done"
  | .toolCall => "tool_call"
  | .toolOutput => "tool_output"
  | .other word => word

/-- Whether the kind belongs to the vocabulary. -/
def isKnown : Kind → Bool
  | .other _ => false
  | _ => true

/-- A word and its kind determine each other. -/
theorem word_ofWord (w : String) : (ofWord w).word = w := by
  unfold ofWord
  repeat' split
  all_goals simp_all [word]

end Kind

/-! ## Bodies -/

/-- What an event says. -/
inductive Body where
  | status (state : String) (exitCode : Option Int64)
  | error (message : String)
  | assistant (data : String)
  | user
  | thinkingDelta (delta : String)
  | thinkingDone
  | toolCall (payload : Value)
  | toolOutput (payload : Value)
  | unknown (kind : String)

/-- The message of an error: `message`, or `data` when that is empty. -/
def errorMessage (payload : Option Value) : String :=
  if Payload.text payload "message" = "" then Payload.text payload "data"
  else Payload.text payload "message"

/-- The body of an event. -/
def body (e : Event) : Body :=
  match Kind.ofWord e.kind with
  | .status => .status (Payload.text e.payload "state") (Payload.integer? e.payload "exit_code")
  | .error => .error (errorMessage e.payload)
  | .assistant => .assistant (Payload.text e.payload "data")
  | .user => .user
  | .thinkingDelta => .thinkingDelta (Payload.text e.payload "delta")
  | .thinkingDone => .thinkingDone
  | .toolCall => .toolCall (Payload.raw e.payload)
  | .toolOutput => .toolOutput (Payload.raw e.payload)
  | .other word => .unknown word

/-- Whether the body says that the session has exited. -/
def Body.isTerminal : Body → Bool
  | .status state _ => state == "exited"
  | _ => false

/-- An integer in decimal. -/
def integerText (n : Int64) : String :=
  String.ofList (Value.integerChars n.toInt)

/-- The state, and the exit code in brackets when there is one. -/
def statusText (state : String) : Option Int64 → String
  | none => state
  | some code =>
    let exit := "(exit " ++ integerText code ++ ")"
    if state = "" then exit else state ++ " " ++ exit

end Event

end RemoteSession
