import RemoteSession.Url.Basic

/-!
# Reading addresses

`Url.parse` reads a text as an address. An address of the web comes out in its
parts; one of another scheme only as the word of the scheme, after the checks
that its host must pass. Control characters and blanks around the text and
tabs and line ends inside it do not count.
-/

namespace RemoteSession.Url

/-- What a text is: an address of the web, or an address of another scheme. -/
inductive Parsed where
  | web (url : Url)
  | foreign (scheme : String)
deriving DecidableEq, Repr

/-- The text that counts. -/
def significant (text : String) : List Char :=
  let isEdge := fun (c : Char) => c.toNat ≤ 0x20
  let trimmed := ((text.toList.dropWhile isEdge).reverse.dropWhile isEdge).reverse
  trimmed.filter (!isIgnored ·)

/-- Characters of a scheme after its first. -/
def isSchemeChar (c : Char) : Bool :=
  c.isAlphanum || c == '+' || c == '-' || c == '.'

/-- The scheme in lower case and what follows its colon. -/
def scheme? (cs : List Char) : Option (String × List Char) :=
  match cs with
  | [] => none
  | first :: _ =>
    if first.isAlpha then
      match cs.dropWhile isSchemeChar with
      | ':' :: rest =>
        some (String.ofList ((cs.takeWhile isSchemeChar).map Char.toLower), rest)
      | _ => none
    else none

/-- How a scheme reads its address. -/
inductive Family where
  | web
  | file
  | other
deriving DecidableEq, Repr

/-- The family of a scheme. -/
def Family.ofScheme (scheme : String) : Family :=
  if ["http", "https", "ws", "wss", "ftp"].contains scheme then .web
  else if scheme = "file" then .file
  else .other

/-- Whether a character ends the authority. -/
def endsAuthority (family : Family) (c : Char) : Bool :=
  c == '/' || c == '?' || c == '#' || (c == '\\' && family != .other)

/-- The authority and what follows it. -/
def splitAuthority (family : Family) (cs : List Char) : List Char × List Char :=
  (cs.takeWhile (!endsAuthority family ·), cs.dropWhile (!endsAuthority family ·))

/-- What stands before the last `@` of an authority, if there is one, and what
stands after it. -/
def splitUserInfo (authority : List Char) : Option (List Char) × List Char :=
  if authority.contains '@' then
    (some ((authority.reverse.dropWhile (· != '@')).drop 1).reverse,
      (authority.reverse.takeWhile (· != '@')).reverse)
  else (none, authority)

/-- User name and password of their text: the first colon divides them, and an
empty password is none. -/
def userInfoOf (text : List Char) : String × Option String :=
  let escape := fun cs => String.ofList (Percent.encode Percent.inUserInfo cs)
  let name := text.takeWhile (· != ':')
  match text.drop name.length with
  | [] => (escape name, none)
  | [_] => (escape name, none)
  | _ :: password => (escape name, some (escape password))

/-- The text of a host and what follows it. A colon inside brackets does not
end a host. -/
def splitHost : Bool → List Char → List Char × List Char
  | _, [] => ([], [])
  | inside, c :: rest =>
    if c = ':' && !inside then ([], c :: rest)
    else
      let inside := if c = '[' then true else if c = ']' then false else inside
      let (host, after) := splitHost inside rest
      (c :: host, after)

/-- The port of its text after the colon: no digits are no port. -/
def portOf (digits : List Char) : Except Fault (Option Nat) :=
  let value := Nat.ofDigitChars 10 digits 0
  if !digits.all Char.isDigit || value > 65535 then .error .invalidPort
  else .ok (if digits.isEmpty then none else some value)

/-- The host and the port of the rest of an authority. -/
def hostAndPort (family : Family) (cs : List Char) : Except Fault (Host × Option Nat) := do
  let (hostText, after) := splitHost false cs
  if family == .web && hostText.isEmpty then throw .emptyHost
  let host ← if family == .other then Host.parseOpaque hostText else Host.parse hostText
  match after with
  | [] => pure (host, none)
  | _ :: digits =>
    if hostText.isEmpty then throw .emptyHost
    let port ← portOf (digits.takeWhile (· != '\\'))
    pure (host, port)

/-- Path, query and fragment of the text after an authority. -/
def splitTail (cs : List Char) : List Char × Option (List Char) × Option (List Char) :=
  let beforeFragment := cs.takeWhile (· != '#')
  let fragment := (cs.dropWhile (· != '#')).tail?
  let path := beforeFragment.takeWhile (· != '?')
  let query := (beforeFragment.dropWhile (· != '?')).tail?
  (path, query, fragment)

/-- User, host and port of an authority. One that names a user names a host,
also where a host may be empty. -/
def readAuthority (family : Family) (cs tail : List Char) :
    Except Fault ((String × Option String) × Host × Option Nat) := do
  let (userText, rest) := splitUserInfo cs
  let user := userInfoOf (userText.getD [])
  if rest.isEmpty && (user != ("", none) || (userText == some [] && !tail.isEmpty)) then
    throw .emptyHost
  let (host, port) ← hostAndPort family rest
  pure (user, host, port)

/-- The scheme of the web that a word names. -/
def Scheme.ofWord? (word : String) : Option Scheme :=
  if word = "http" then some .http
  else if word = "https" then some .https
  else if word = "ws" then some .ws
  else if word = "wss" then some .wss
  else none

/-- An address of the web after its scheme. -/
def parseWeb (word : String) (rest : List Char) : Except Fault Parsed := do
  let (authorityText, tail) := splitAuthority .web (rest.dropWhile isSlash)
  let ((username, password), host, port) ← readAuthority .web authorityText tail
  match Scheme.ofWord? word with
  | none => pure (.foreign word)
  | some scheme =>
    let (path, query, fragment) := splitTail tail
    pure (.web {
      scheme, username, password, host
      port := if port = some scheme.defaultPort then none else port
      path := pathOf path
      query := query.map fun cs => String.ofList (Percent.encode Percent.inQuery cs)
      fragment := fragment.map fun cs => String.ofList (Percent.encode Percent.inFragment cs) })

/-- The letter of a drive in place of a host. -/
def isDriveLetter : List Char → Bool
  | [letter, mark] => letter.isAlpha && (mark == ':' || mark == '|')
  | _ => false

/-- An address of a file after its scheme: only its host can be at fault. -/
def parseFile (rest : List Char) : Except Fault Parsed := do
  match rest with
  | a :: b :: rest =>
    if isSlash a && isSlash b then
      let (host, _) := splitAuthority .file rest
      if !host.isEmpty && !isDriveLetter host then
        let _ ← Host.parse host
  | _ => pure ()
  pure (.foreign "file")

/-- An address of any other scheme after its scheme. -/
def parseOther (word : String) (rest : List Char) : Except Fault Parsed := do
  match rest with
  | '/' :: '/' :: rest =>
    let (authorityText, tail) := splitAuthority .other rest
    let _ ← readAuthority .other authorityText tail
  | _ => pure ()
  pure (.foreign word)

/-- What a text is. -/
def parse (text : String) : Except Fault Parsed :=
  match scheme? (significant text) with
  | none => .error .missingScheme
  | some (word, rest) =>
    match Family.ofScheme word with
    | .web => parseWeb word rest
    | .file => parseFile rest
    | .other => parseOther word rest

end RemoteSession.Url
