import RemoteSession.Endpoint
import RemoteSession.Storage.FileTree
import RemoteSession.Toml.Parser

/-!
# Configuration

The base address and the credential that a user has set, either of which may
be missing. The written form is a file of TOML; what is not known in it is
passed over.
-/

namespace RemoteSession

/-- Why there is no configuration or no endpoint. -/
inductive ConfigError where
  | endpoint (error : EndpointError)
  | noHome
  | io (error : IoError)
  | toml (detail : String)
deriving DecidableEq, Repr

/-- The message of an error. -/
def ConfigError.message : ConfigError → String
  | .endpoint e => e.message
  | .noHome => "unable to determine home directory"
  | .io e => "io error: " ++ e.message
  | .toml detail => "serialization error: " ++ detail

/-- What a user has set. -/
structure Config where
  baseUrl : Option String
  token : Option String
deriving DecidableEq, Repr

namespace Config

/-- Nothing set. -/
def empty : Config := ⟨none, none⟩

/-- The directory of a user's state below the home directory. -/
def stateDirectory : String := ".rc"

/-- Where the configuration stands below the home directory. -/
def path : FilePath := [stateDirectory, "config.toml"]

/-- A text without blanks around it, unless nothing is left. -/
def nonBlank? (value : Option String) : Option String :=
  (value.map Text.trim).bind fun s => if s = "" then none else some s

/-- The base address set or, for a blank one, taken away. -/
def setBaseUrl (c : Config) (value : Option String) : Config :=
  { c with baseUrl := nonBlank? value }

/-- The credential set or, for a blank one, taken away. -/
def setToken (c : Config) (value : Option String) : Config :=
  { c with token := nonBlank? value }

/-- Other values in place of the stored ones, unless they are blank. -/
def withOverrides (c : Config) (baseUrl token : Option String) : Config :=
  ⟨(nonBlank? baseUrl).or c.baseUrl, (nonBlank? token).or c.token⟩

/-- What is said when no base address is set. -/
def unsetMessage : String :=
  "no base url; run \x60rc config set --base-url <url>\x60"

/-- The endpoint that is configured. -/
def endpoint (c : Config) : Except ConfigError Endpoint :=
  match c.baseUrl with
  | none => .error (.endpoint (.notConfigured unsetMessage))
  | some base =>
    match Endpoint.new base c.token with
    | .ok e => .ok e
    | .error e => .error (.endpoint e)

/-! ## Written form -/

/-- A line with a key and a text. -/
def line (key : String) : Option String → List Char
  | none => []
  | some value => Toml.writeKey key ++ [' ', '=', ' '] ++ Toml.writeString value ++ ['\n']

/-- The text of a configuration. -/
def render (c : Config) : String :=
  String.ofList (line "base_url" c.baseUrl ++ line "token" c.token)

/-- A text under a key, if the key is there. -/
def textField? (entries : Toml.Entries) (key : String) : Option (Option String) :=
  match Toml.Entries.get? entries key with
  | none => some none
  | some (.text s) => some (some s)
  | some _ => none

/-- The configuration of a text. -/
def parse? (text : String) : Option Config := do
  let entries ← Toml.parse? text
  let baseUrl ← textField? entries "base_url"
  let token ← textField? entries "token"
  some ⟨baseUrl, token⟩

/-- The configuration at a path; nothing is set when nothing is there. -/
def load (t : FileTree) (p : FilePath) : Except ConfigError Config :=
  if t.exists? p then
    match t.readText p with
    | .error e => .error (.io e)
    | .ok text =>
      match parse? text with
      | some c => .ok c
      | none => .error (.toml "")
  else .ok empty

/-- The tree with the configuration at a path. -/
def save (c : Config) (t : FileTree) (p : FilePath) : Except ConfigError FileTree :=
  match t.writePrivate p (Text.Utf8.encode c.render) with
  | .ok t => .ok t
  | .error e => .error (.io e)

end Config

end RemoteSession
