import RemoteSession.Logging.Level

/-!
# The command line

Which words the command line takes. The program has commands, one of which has
commands of its own; each takes options with a value, flags without one and
positional words. Four options are shared by all commands and may also be given
by variables of the environment.
-/

namespace RemoteSession.Command

/-- The program and its commands. -/
inductive Place where
  | program
  | config
  | configShow
  | configSet
  | configClear
  | health
  | engines
  | sessions
  | create
  | terminate
  | attach
deriving DecidableEq, Repr

/-- Which words a value may be. -/
inductive ValueKind where
  | text
  | path
  | level
  | key
deriving DecidableEq, Repr

/-- The entries of the configuration that a user sets. -/
inductive ConfigKey where
  | baseUrl
  | token
deriving DecidableEq, Repr

/-- The word of an entry. -/
def ConfigKey.word : ConfigKey → String
  | .baseUrl => "base-url"
  | .token => "token"

/-- The entry that a word names. -/
def ConfigKey.ofWord? (word : String) : Option ConfigKey :=
  [ConfigKey.baseUrl, .token].find? fun key => key.word == word

/-- Whether a value may be this word. -/
def ValueKind.accepts : ValueKind → String → Bool
  | .text, _ => true
  | .path, word => word != ""
  | .level, word => (LogLevel.ofWord? word).isSome
  | .key, word => (ConfigKey.ofWord? word).isSome

/-- An option: its name, its values, and the variable that may stand for it. -/
structure Setting where
  name : String
  kind : ValueKind
  variableName : Option String
deriving DecidableEq, Repr

/-- The name of the option for the base address. -/
def baseUrlName : String := "base-url"

/-- The name of the option for the credential. -/
def tokenName : String := "token"

/-- The name of the option for the level of the log. -/
def logLevelName : String := "log-level"

/-- The name of the option for the file of the log. -/
def logFileName : String := "log-file"

/-- The options that all commands share. -/
def sharedSettings : List Setting :=
  [⟨baseUrlName, .text, some "RC_BASE_URL"⟩, ⟨tokenName, .text, some "RC_TOKEN"⟩,
    ⟨logLevelName, .level, some "RC_LOG_LEVEL"⟩, ⟨logFileName, .path, some "RC_LOG_FILE"⟩]

/-- The name of the option for the engine of a new session. -/
def engineName : String := "engine"

/-- The name of the option for the name of a new session. -/
def sessionName : String := "name"

/-- The name of the option for the directory of a new session. -/
def workspaceName : String := "workspace"

/-- The name of the option for the first input of a new session. -/
def promptName : String := "prompt"

/-- The name of the option for the mode of a new session. -/
def modeName : String := "mode"

/-- The flag that sends each key as it is typed. -/
def rawName : String := "raw"

/-- The flag that forgets how far a session was read. -/
def freshName : String := "fresh"

/-- The flag that shows thoughts and tools. -/
def activityName : String := "activity"

/-- The name of a word by its place alone. -/
def positionalName (index : Nat) : String :=
  toString index

namespace Place

/-- The commands below a place with their words. -/
def children : Place → List (String × Place)
  | .program =>
    [("config", .config), ("health", .health), ("engines", .engines), ("sessions", .sessions),
      ("create", .create), ("terminate", .terminate), ("attach", .attach)]
  | .config => [("show", .configShow), ("set", .configSet), ("clear", .configClear)]
  | _ => []

/-- The word that asks for help about a command, where there are commands. -/
def helpWord : String := "help"

/-- The options of a place. -/
def settings : Place → List Setting
  | .create =>
    [⟨engineName, .text, none⟩, ⟨sessionName, .text, none⟩, ⟨workspaceName, .text, none⟩,
      ⟨promptName, .text, none⟩, ⟨modeName, .text, none⟩] ++ sharedSettings
  | _ => sharedSettings

/-- The option of a name. -/
def setting? (p : Place) (name : String) : Option Setting :=
  p.settings.find? fun s => s.name == name

/-- The flags of a place. -/
def flags : Place → List String
  | .attach => [rawName, freshName, activityName]
  | _ => []

/-- The values of the positional words of a place. -/
def positionals : Place → List ValueKind
  | .configSet => [.key, .text]
  | .terminate => [.text]
  | .attach => [.text]
  | _ => []

/-- The values of an option or a positional word of a place. -/
def kindOf (p : Place) (name : String) : ValueKind :=
  match p.setting? name with
  | some s => s.kind
  | none =>
    ((p.positionals.zipIdx.find? fun e => positionalName e.2 == name).map Prod.fst).getD .text

/-- What must be given at a place. -/
def required (p : Place) : List String :=
  (if p = .create then [engineName] else []) ++
    (List.range p.positionals.length).map positionalName

end Place

end RemoteSession.Command
