import RemoteSession.Url.Host

/-!
# Addresses

An address of the web in its parts, each in its written form. The path is a
list of segments; `text` puts a slash before each. `pushSegments` resolves
segments that name the same or the upper level against a path.
-/

namespace RemoteSession

/-- The schemes of the web, plain and secure, for requests and for streams. -/
inductive Url.Scheme where
  | http
  | https
  | ws
  | wss
deriving DecidableEq, Repr

/-- An address of the web. User name, password, path, query and fragment are
escaped; the port is absent when it is the scheme's own. -/
structure Url where
  scheme : Url.Scheme
  username : String
  password : Option String
  host : Url.Host
  port : Option Nat
  path : List String
  query : Option String
  fragment : Option String
deriving DecidableEq, Repr

namespace Url

/-- The word of a scheme. -/
def Scheme.word : Scheme → String
  | .http => "http"
  | .https => "https"
  | .ws => "ws"
  | .wss => "wss"

/-- The port that a scheme has of its own. -/
def Scheme.defaultPort : Scheme → Nat
  | .http => 80
  | .ws => 80
  | .https => 443
  | .wss => 443

/-! ## Paths -/

/-- Whether a segment names its own level, escaped or not. -/
def isSingleDot (segment : String) : Bool :=
  [".", "%2e", "%2E"].contains segment

/-- Whether a segment names the upper level, escaped or not. -/
def isDoubleDot (segment : String) : Bool :=
  ["..", "%2e%2e", "%2e%2E", "%2E%2e", "%2E%2E", "%2e.", "%2E.", ".%2e", ".%2E"].contains segment

/-- The path with more segments. A dot segment at the end leaves an empty
segment in its place. -/
def pushSegments : List String → List String → List String
  | path, [] => path
  | path, [last] =>
    if isDoubleDot last then path.dropLast ++ [""]
    else if isSingleDot last then path ++ [""]
    else path ++ [last]
  | path, segment :: rest =>
    if isDoubleDot segment then pushSegments path.dropLast rest
    else if isSingleDot segment then pushSegments path rest
    else pushSegments (path ++ [segment]) rest

/-- Tabs and line ends, which an address ignores wherever they stand. -/
def isIgnored (c : Char) : Bool :=
  c == '\t' || c == '\n' || c == '\r'

/-- A slash of either kind. -/
def isSlash (c : Char) : Bool :=
  c == '/' || c == '\\'

/-- The path of a text in which the ignored characters no longer stand. One
slash at its start is the one that every path begins with. -/
def pathOf (text : List Char) : List String :=
  let rest := match text with
    | c :: rest => if isSlash c then rest else text
    | [] => []
  pushSegments [] ((splitAt isSlash rest).map fun s =>
    String.ofList (Percent.encode Percent.inPath s))

/-- The written form of a path. -/
def pathText (path : List String) : String :=
  String.join (path.map ("/" ++ ·))

/-- The address with the path of a text, which may hold no query. -/
def withPath (u : Url) (text : String) : Url :=
  { u with path := pathOf (text.toList.filter (!isIgnored ·)) }

/-- The path without an empty segment at its end, unless that is all of it. -/
def dropEmptyEnd (path : List String) : List String :=
  if path.length > 1 && path.getLast? == some "" then path.dropLast else path

/-- A path with one segment more, given as a text. The segments `.` and `..`
are left out. -/
def addSegment (path : List String) (segment : String) : List String :=
  if segment = "." || segment = ".." then path
  else
    let kept := if path = [""] then [] else path
    pushSegments kept
      [String.ofList (Percent.encode Percent.inSegment (segment.toList.filter (!isIgnored ·)))]

/-! ## Written form -/

/-- User name and password before the host. -/
def userInfoText (u : Url) : String :=
  match u.password with
  | some password => u.username ++ ":" ++ password ++ "@"
  | none => if u.username = "" then "" else u.username ++ "@"

/-- The port after the host. -/
def portText (u : Url) : String :=
  match u.port with
  | some port => ":" ++ toString port
  | none => ""

/-- The path and what follows it, without the fragment. -/
def target (u : Url) : String :=
  pathText u.path ++ (u.query.map ("?" ++ ·)).getD ""

/-- The written form of an address. -/
def text (u : Url) : String :=
  u.scheme.word ++ "://" ++ u.userInfoText ++ u.host.text ++ u.portText ++ u.target ++
    (u.fragment.map ("#" ++ ·)).getD ""

/-- A pair of a query, form-encoded. -/
def formPair (name value : String) : String :=
  String.ofList (Percent.formEncode name ++ '=' :: Percent.formEncode value)

/-- The port that the address reaches. -/
def effectivePort (u : Url) : Nat :=
  u.port.getD u.scheme.defaultPort

end Url

end RemoteSession
