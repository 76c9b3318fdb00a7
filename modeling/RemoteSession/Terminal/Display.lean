import RemoteSession.Session.View
import RemoteSession.Terminal.Sink

/-!
# A view on a terminal

What a terminal shows of what a view tells: the states of the connection and
the changes of the timeline. A change that the terminal cannot show is passed
over.
-/

namespace RemoteSession.Terminal.Sink

/-- A notice of a view. -/
def hear (s : Sink) : ViewNotice → Sink × String
  | .stream (.state state) => s.connectionChanged state
  | .change change =>
    match s.render change with
    | .ok shown => shown
    | .error _ => (s, "")
  | _ => (s, "")

/-- Some notices in their order, and all that they write. -/
def hearAll (s : Sink) : List ViewNotice → Sink × String
  | [] => (s, "")
  | notice :: rest =>
    let (s, now) := s.hear notice
    let (s, later) := s.hearAll rest
    (s, now ++ later)

end RemoteSession.Terminal.Sink
