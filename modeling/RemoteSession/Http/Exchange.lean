import RemoteSession.Http.Status
import RemoteSession.Text.Utf8
import RemoteSession.Url.Basic

/-!
# Requests and responses

What is asked of a server and what it answers. A network takes a request to a
response, or says why there is none.
-/

namespace RemoteSession.Http

/-- What a request does. -/
inductive Method where
  | get
  | post
deriving DecidableEq, Repr

/-- The word of a method. -/
def Method.word : Method → String
  | .get => "GET"
  | .post => "POST"

/-- A request. Its body is a document of JSON. -/
structure Request where
  method : Method
  url : Url
  bearer : Option String
  body : Option String
deriving DecidableEq, Repr

/-- The header that carries a credential. -/
def Request.authorization (r : Request) : Option String :=
  r.bearer.map ("Bearer " ++ ·)

/-- The header that names the type of the body. -/
def Request.contentType (r : Request) : Option String :=
  r.body.map fun _ => "application/json"

/-- Whether a header may hold a text: it has no controls but tabs. -/
def isHeaderText (text : String) : Bool :=
  text.toList.all fun c => c == '\t' || (c.toNat ≥ 0x20 && c.toNat ≠ 0x7F)

/-- A response. -/
structure Response where
  status : Status
  body : List UInt8
deriving DecidableEq, Repr

/-- The text of a body, without the mark of its order of octets. -/
def Response.text (r : Response) : String :=
  match r.body with
  | 0xEF :: 0xBB :: 0xBF :: rest => Text.Utf8.decodeLossy rest
  | octets => Text.Utf8.decodeLossy octets

/-- A way to the servers. -/
abbrev Network := Request → Except String Response

/-- What is said of a request that finds no way. -/
def unreachableDetail : String := "Network is unreachable (os error 101)"

/-- A network on which no server can be reached. -/
def Network.unreachable : Network := fun _ => .error unreachableDetail

end RemoteSession.Http
