import RemoteSession.Event.Body

/-!
# The timeline

The fold of events into a transcript. The items hold status, error, user and
assistant texts; the thinking history and the two tool logs stand beside them.
Each event reports the change that it makes, so that a sink can follow without
reading the timeline again.

A chunk of an assistant joins the item before it when that is an assistant's
and began at most `mergeWindow` earlier.
-/

namespace RemoteSession

open Json

namespace Timeline

/-- What an item shows. -/
inductive ItemKind where
  | status
  | error
  | user
  | assistant
deriving DecidableEq, Repr

/-- The label of an item. -/
def ItemKind.label : ItemKind → String
  | .status => "status"
  | .error => "error"
  | .user => "user"
  | .assistant => "assistant"

/-- An item of the transcript. -/
structure Item where
  kind : ItemKind
  tsMs : Int64
  seq : UInt64
  text : String
deriving DecidableEq, Repr

/-- A finished thought. -/
structure Thought where
  tsMs : Int64
  seq : UInt64
  text : String
deriving DecidableEq, Repr

/-- A call of a tool or what the tool answered. -/
structure ToolRecord where
  tsMs : Int64
  seq : UInt64
  payload : Value

/-- What an event or a local echo changes. -/
inductive Change where
  | appended (item : Item)
  | extended (seq : UInt64) (text : String)
  | thinkingProgress (text : String)
  | thinkingCommitted (thought : Thought)
  | toolCall (record : ToolRecord)
  | toolOutput (record : ToolRecord)

/-- How many entries to keep. Without a limit the side logs keep all. -/
structure Config where
  maxItems : Nat
  sideLogLimit : Option Nat
deriving DecidableEq, Repr

/-- The number of items kept unless said otherwise. -/
def defaultMaxItems : Nat := 2000

/-- The limits unless said otherwise. -/
def Config.default : Config := ⟨defaultMaxItems, none⟩

/-- How far past the start of an assistant's item a chunk still joins it. -/
def mergeWindow : UInt64 := 2

end Timeline

/-- A transcript and what stands beside it, oldest entries first. -/
structure Timeline where
  config : Timeline.Config
  items : List Timeline.Item
  thinkingLive : String
  thinkingHistory : List Timeline.Thought
  toolCalls : List Timeline.ToolRecord
  toolOutputs : List Timeline.ToolRecord

namespace Timeline

/-- A timeline with nothing in it. -/
def empty (config : Config) : Timeline :=
  ⟨config, [], "", [], [], []⟩

/-- The last entries of a list, at most `limit` of them. -/
def keepLast {α : Type} (limit : Nat) (entries : List α) : List α :=
  entries.drop (entries.length - limit)

/-- One entry more at the end, the oldest ones given up past the limit. -/
def pushCapped {α : Type} (limit : Option Nat) (entries : List α) (entry : α) : List α :=
  match limit with
  | none => entries ++ [entry]
  | some n => keepLast n (entries ++ [entry])

/-- One item more. -/
def pushItem (t : Timeline) (item : Item) : Timeline :=
  { t with items := pushCapped (some t.config.maxItems) t.items item }

/-- An item of an event, unless its text is empty. -/
def append (t : Timeline) (kind : ItemKind) (e : Event) (text : String) :
    Timeline × Option Change :=
  if text = "" then (t, none)
  else
    let item := ⟨kind, e.tsMs, e.seq, text⟩
    (t.pushItem item, some (.appended item))

/-- Whether a chunk of this `seq` joins the item. -/
def Item.takes (item : Item) (seq : UInt64) : Bool :=
  item.kind == .assistant && (seq ≤ item.seq || seq - item.seq ≤ mergeWindow)

/-- A chunk of an assistant. -/
def applyAssistant (t : Timeline) (e : Event) (data : String) : Timeline × Option Change :=
  if data = "" then (t, none)
  else
    match t.items.getLast? with
    | some last =>
      if last.takes e.seq then
        ({ t with items := t.items.dropLast ++ [{ last with text := last.text ++ data }] },
          some (.extended e.seq data))
      else t.append .assistant e data
    | none => t.append .assistant e data

/-- The timeline after an event, and what the event changed. -/
def apply (t : Timeline) (e : Event) : Timeline × Option Change :=
  match e.body with
  | .status state exitCode => t.append .status e (Event.statusText state exitCode)
  | .error message => t.append .error e message
  | .assistant data => t.applyAssistant e data
  | .thinkingDelta delta =>
    if delta = "" then (t, none)
    else ({ t with thinkingLive := t.thinkingLive ++ delta }, some (.thinkingProgress delta))
  | .thinkingDone =>
    if t.thinkingLive = "" then (t, none)
    else
      let thought := ⟨e.tsMs, e.seq, t.thinkingLive⟩
      ({ t with
          thinkingLive := ""
          thinkingHistory := pushCapped t.config.sideLogLimit t.thinkingHistory thought },
        some (.thinkingCommitted thought))
  | .toolCall payload =>
    let record := ⟨e.tsMs, e.seq, payload⟩
    ({ t with toolCalls := pushCapped t.config.sideLogLimit t.toolCalls record },
      some (.toolCall record))
  | .toolOutput payload =>
    let record := ⟨e.tsMs, e.seq, payload⟩
    ({ t with toolOutputs := pushCapped t.config.sideLogLimit t.toolOutputs record },
      some (.toolOutput record))
  | .user => (t, none)
  | .unknown _ => (t, none)

/-- The timeline after an event. -/
def reduce (t : Timeline) (e : Event) : Timeline :=
  (t.apply e).1

/-- The echo of a line that the user has just sent. -/
def recordLocalInput (t : Timeline) (text : String) (seq : UInt64) (tsMs : Int64) :
    Timeline × Change :=
  let item := ⟨.user, tsMs, seq, text⟩
  (t.pushItem item, .appended item)

/-- The same limits and nothing else. -/
def clear (t : Timeline) : Timeline :=
  empty t.config

end Timeline

end RemoteSession
