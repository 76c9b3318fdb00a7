import RemoteSession.Text.Blank
import RemoteSession.Url.Parser

/-!
# Endpoints

Where the server is and the credential for it. A base address without a scheme
gets one by its host: plain for the hosts of the own machine and of private
networks, secure for all others. Paths of requests follow the path of the base.
-/

namespace RemoteSession

/-- Why there is no endpoint. -/
inductive EndpointError where
  | notConfigured (what : String)
  | invalidBaseUrl (url reason : String)
deriving DecidableEq, Repr

/-- The message of an error. -/
def EndpointError.message : EndpointError → String
  | .notConfigured what => "not configured: " ++ what
  | .invalidBaseUrl url reason => "invalid base url '" ++ url ++ "': " ++ reason

/-- A server and the credential for it. -/
structure Endpoint where
  baseUrl : Url
  token : Option String
deriving DecidableEq, Repr

namespace Endpoint

/-- What remains of a text after a first part, if it begins with it. -/
def afterStart? : List Char → List Char → Option (List Char)
  | [], cs => some cs
  | a :: start, b :: cs => if a = b then afterStart? start cs else none
  | _ :: _, [] => none

/-- Whether a text begins with another. -/
def startsWith (cs : List Char) (start : String) : Bool :=
  (afterStart? start.toList cs).isSome

/-- Whether a text holds a mark somewhere. -/
def holds (mark : String) : List Char → Bool
  | [] => startsWith [] mark
  | c :: rest => startsWith (c :: rest) mark || holds mark rest

/-- The text without slashes at its end. -/
def dropSlashes (cs : List Char) : List Char :=
  (cs.reverse.dropWhile (· == '/')).reverse

/-- The mark after the name of a scheme. -/
def schemeMark : String := "://"

/-- The start of a base that stands for its host when no scheme is given:
what comes before the first slash, without brackets. -/
def hostPart (base : List Char) : List Char :=
  (((base.takeWhile (· != '/')).dropWhile (· == '[')).takeWhile (· != ']')).map Char.toLower

/-- The value of a decimal of one octet, which may carry a plus sign. -/
def octet? (cs : List Char) : Option Nat :=
  let digits := match cs with
    | '+' :: rest => rest
    | cs => cs
  let value := Nat.ofDigitChars 10 digits 0
  if digits.isEmpty || !digits.all Char.isDigit || value > 255 then none else some value

/-- Whether a host begins like one of the second private network. -/
def isPrivate172 (host : List Char) : Bool :=
  match (afterStart? "172.".toList host).bind fun rest => octet? (rest.takeWhile (· != '.')) with
  | some octet => 16 ≤ octet && octet < 32
  | none => false

/-- Whether a host looks like one of the own machine or of a private network. -/
def looksLocal (host : List Char) : Bool :=
  startsWith host "localhost" || startsWith host "127." || startsWith host "0.0.0.0" ||
    host == "::1".toList || startsWith host "10." || startsWith host "192.168." ||
    isPrivate172 host

/-- The scheme for a base that has none, with its mark. -/
def inferScheme (base : List Char) : List Char :=
  if looksLocal (hostPart base) then "http://".toList else "https://".toList

/-- The base with a scheme. -/
def withScheme (base : List Char) : List Char :=
  if holds schemeMark base then base else inferScheme base ++ base

/-- The text without the word before a credential, however often it stands
there. -/
def dropBearer : List Char → List Char
  | 'B' :: 'e' :: 'a' :: 'r' :: 'e' :: 'r' :: ' ' :: rest => dropBearer rest
  | cs => cs

/-- The credential of a text: the blanks around it and the words before it
left out, and nothing when nothing is left. -/
def normaliseToken (token : String) : Option String :=
  let bare := Text.trim (String.ofList (dropBearer (Text.trim token).toList))
  if bare = "" then none else some bare

/-- The base as it is read: without blanks around it and slashes at its end. -/
def trimBase (base : String) : List Char :=
  dropSlashes (Text.trim base).toList

/-- The address of a base text. -/
def readBase (base : List Char) : Except EndpointError Url :=
  let url := String.ofList base
  match Url.parse (String.ofList (withScheme base)) with
  | .error fault => .error (.invalidBaseUrl url fault.message)
  | .ok (.foreign scheme) => .error (.invalidBaseUrl url ("unsupported scheme '" ++ scheme ++ "'"))
  | .ok (.web address) =>
    match address.scheme with
    | .http => .ok address
    | .https => .ok address
    | scheme => .error (.invalidBaseUrl url ("unsupported scheme '" ++ scheme.word ++ "'"))

/-- The endpoint of a base text and a credential. -/
def new (base : String) (token : Option String) : Except EndpointError Endpoint :=
  let trimmed := trimBase base
  if trimmed.isEmpty then .error (.notConfigured "base url cannot be empty")
  else (readBase trimmed).map fun address => ⟨address, token.bind normaliseToken⟩

/-- The address of a path under the base. A fragment of the base stays. -/
def urlFor (e : Endpoint) (path : String) : Url :=
  let start := String.ofList (dropSlashes (Url.pathText e.baseUrl.path).toList)
  { e.baseUrl.withPath (start ++ path) with query := none }

end Endpoint

end RemoteSession
