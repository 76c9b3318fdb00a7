import RemoteSession.Terminal.Sink

/-!
# What a terminal writes

What a terminal is told, one thing after another, and what of it its writer takes. A
change that cannot be shown is passed over. A text that the writer refuses is lost, and
the terminal goes on as if it had been written.
-/

namespace RemoteSession.Terminal

/-- What a terminal is told. -/
inductive Telling where
  | change (change : Timeline.Change)
  | notice (text : String)
  | connection (state : ConnectionState)

/-- Something told, and whether the writer takes the text that it makes. -/
structure Occasion where
  telling : Telling
  taken : Bool

/-- Something told: the terminal after it and its text. -/
def Sink.tell (s : Sink) : Telling → Except Clock.Overflow (Sink × String)
  | .change change => s.render change
  | .notice text => .ok (s.notice text)
  | .connection state => .ok (s.connectionChanged state)

/-- A terminal and all that its writer has taken. -/
structure Screen where
  sink : Sink
  written : String
deriving DecidableEq, Repr

namespace Screen

/-- A terminal of which nothing is written. -/
def new (raw activity : Bool) (offset : Int) : Screen :=
  ⟨.new raw activity offset, ""⟩

/-- The screen after something told. -/
def follow (s : Screen) (o : Occasion) : Screen :=
  match s.sink.tell o.telling with
  | .ok (sink, text) => ⟨sink, if o.taken then s.written ++ text else s.written⟩
  | .error _ => s

/-- The screen after all that was told, in its order. -/
def followAll (s : Screen) (course : List Occasion) : Screen :=
  course.foldl follow s

end Screen

end RemoteSession.Terminal
