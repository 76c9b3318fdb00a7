import RemoteSession.Command.Grammar

/-!
# Invocations

What the words of a command line ask for. Words are read from left to right;
an option waits for its value, and what it got is checked once the next option
or positional word comes, or the line of its command ends. A shared option may
be given at any command: the innermost one counts, then the variable of the
environment, then the default.
-/

namespace RemoteSession.Command

/-- Why words are no invocation, or that they ask for a text about the
program. -/
inductive Refusal where
  | help
  | version
  | helpForMissing
  | missingCommand
  | unknownCommand
  | unknownArgument
  | repeatedArgument
  | unneededValue
  | invalidValue
  | missingArgument
deriving DecidableEq, Repr

/-- The code with which the program then ends. -/
def Refusal.exitCode : Refusal → Nat
  | .help => 0
  | .version => 0
  | _ => 2

/-! ## Reading one command's words -/

/-- A variable of the environment by its name. -/
abbrev Environment := String → Option String

/-- What was read at one place. -/
structure Level where
  /-- Checked values by the names of options and positional words. -/
  given : List (String × String)
  flags : List String
  /-- The option or positional word that is not checked yet. -/
  pending : Option (String × Option String)
  /-- How many positional words came. -/
  count : Nat
  /-- Whether only positional words follow. -/
  trailing : Bool
deriving DecidableEq, Repr

namespace Level

/-- Nothing read yet. -/
def start : Level := ⟨[], [], none, 0, false⟩

/-- The value of a name. -/
def get? (l : Level) (name : String) : Option String :=
  l.given.lookup name

/-- Whether an option still waits for its value. -/
def isWaiting (l : Level) : Bool :=
  match l.pending with
  | some (_, none) => true
  | _ => false

/-- The pending value checked. -/
def resolve (l : Level) (p : Place) : Except Refusal Level :=
  match l.pending with
  | none => .ok l
  | some (_, none) => .error .invalidValue
  | some (name, some value) =>
    if (l.get? name).isSome then .error .repeatedArgument
    else if (p.kindOf name).accepts value then
      .ok { l with given := l.given ++ [(name, value)], pending := none }
    else .error .invalidValue

/-- An option, with its value when that is attached. -/
def takeSetting (l : Level) (p : Place) (name : String) (value : Option String) :
    Except Refusal Level := do
  let l ← l.resolve p
  let l := { l with pending := some (name, value) }
  if value.isSome then l.resolve p else .ok l

/-- A flag. -/
def takeFlag (l : Level) (p : Place) (name : String) : Except Refusal Level := do
  let l ← l.resolve p
  if l.flags.contains name then .error .repeatedArgument
  else .ok { l with flags := l.flags ++ [name] }

/-- Why a word has no place here. -/
def misplaced (l : Level) (p : Place) (word : String) : Refusal :=
  let isCommand := word == Place.helpWord || (p.children.lookup word).isSome
  if p.children.isEmpty || (l.trailing && isCommand) then .unknownArgument else .unknownCommand

/-- A positional word. -/
def takePositional (l : Level) (p : Place) (word : String) : Except Refusal Level :=
  if l.count < p.positionals.length then do
    let l ← l.resolve p
    .ok { l with pending := some (positionalName l.count, some word), count := l.count + 1 }
  else .error (l.misplaced p word)

/-- A request for a text about the program. -/
def takeRequest (l : Level) (p : Place) (request : Refusal) : Except Refusal Level := do
  let _ ← l.resolve p
  .error request

/-- An option or flag by its long name. -/
def takeLong (l : Level) (p : Place) (name : String) (value : Option String) :
    Except Refusal Level :=
  let isRequest := name == "help" || (name == "version" && p == .program)
  if (p.setting? name).isSome then l.takeSetting p name value
  else if isRequest || p.flags.contains name then
    if value.isSome then .error .unneededValue
    else if isRequest then l.takeRequest p (if name == "help" then .help else .version)
    else l.takeFlag p name
  else .error .unknownArgument

/-- A flag of one letter. -/
def takeShort (l : Level) (p : Place) (letter : Char) : Except Refusal Level :=
  if letter == 'h' then l.takeRequest p .help
  else if letter == 'V' && p == .program then l.takeRequest p .version
  else .error .unknownArgument

/-- A word that is none of the commands below. -/
def take (l : Level) (p : Place) (word : String) : Except Refusal Level :=
  if l.trailing then l.takePositional p word
  else
    match word.toList with
    | ['-', '-'] => .ok { l with trailing := true }
    | '-' :: '-' :: rest =>
      let name := String.ofList (rest.takeWhile (· != '='))
      match rest.dropWhile (· != '=') with
      | _ :: value => l.takeLong p name (some (String.ofList value))
      | [] => l.takeLong p name none
    | '-' :: letter :: _ => l.takeShort p letter
    | _ =>
      match l.pending with
      | some (name, none) => .ok { l with pending := some (name, some word) }
      | _ => l.takePositional p word

/-- The values of the variables for the shared options that were not given,
each of which must be one that the option takes. -/
def environmentValues (l : Level) (env : Environment) (p : Place) : Except Refusal (List String) :=
  (p.settings.filter fun s => (l.get? s.name).isNone).foldlM (fun found s =>
    match s.variableName.bind env with
    | none => .ok found
    | some value =>
      if s.kind.accepts value then .ok (found ++ [value]) else .error .invalidValue) []

/-- The end of the words of a place. -/
def finish (l : Level) (env : Environment) (p : Place) (commandFollows : Bool) :
    Except Refusal Level := do
  let l ← l.resolve p
  let found ← l.environmentValues env p
  if !p.children.isEmpty && !commandFollows then
    .error (if l.given.isEmpty && found.isEmpty then .helpForMissing else .missingCommand)
  else if p.required.any fun name => (l.get? name).isNone then .error .missingArgument
  else .ok l

end Level

/-! ## Reading a line -/

/-- What a request for help about commands asks for. -/
def helpAbout : List String → Place → Refusal
  | [], _ => .help
  | word :: rest, p =>
    match p.children.lookup word with
    | some child => helpAbout rest child
    | none =>
      if word == Place.helpWord && !p.children.isEmpty && rest.isEmpty then .help
      else .unknownCommand

/-- The places that a line leads through with what was read at each. -/
def levels (env : Environment) : List String → Place → Level → Except Refusal (List (Place × Level))
  | [], p, l => do
    let l ← l.finish env p false
    .ok [(p, l)]
  | word :: rest, p, l =>
    let command := if l.trailing || l.isWaiting then none else p.children.lookup word
    match command with
    | some child => do
      let deeper ← levels env rest child .start
      let l ← l.finish env p true
      .ok ((p, l) :: deeper)
    | none =>
      if !l.trailing && !l.isWaiting && word == Place.helpWord && !p.children.isEmpty then
        .error (helpAbout rest p)
      else do
        let l ← l.take p word
        levels env rest p l

/-! ## What is asked for -/

/-- What a user wants to know of or to change in the configuration. -/
inductive ConfigCommand where
  | print
  | set (key : ConfigKey) (value : String)
  | clear
deriving DecidableEq, Repr

/-- What the attachment to a session is to be like. -/
structure AttachOptions where
  session : String
  raw : Bool
  fresh : Bool
  activity : Bool
deriving DecidableEq, Repr

/-- What a new session is to be. -/
structure CreateOptions where
  engine : String
  name : String
  workspace : String
  prompt : String
  mode : String
deriving DecidableEq, Repr

/-- The commands of the program. -/
inductive Request where
  | config (command : ConfigCommand)
  | health
  | engines
  | sessions
  | create (options : CreateOptions)
  | terminate (session : String)
  | attach (options : AttachOptions)
deriving DecidableEq, Repr

/-- A command and the options that all commands share. -/
structure Invocation where
  baseUrl : Option String
  token : Option String
  logLevel : LogLevel
  logFile : Option String
  request : Request
deriving DecidableEq, Repr

/-- The level of the log unless said otherwise. -/
def defaultLogLevel : LogLevel := .warn

/-- The request of the innermost place. -/
def requestOf (p : Place) (l : Level) : Request :=
  let value := fun name => (l.get? name).getD ""
  let word := fun index => value (positionalName index)
  match p with
  | .program => .health
  | .health => .health
  | .config => .config .print
  | .configShow => .config .print
  | .configSet => .config (.set ((ConfigKey.ofWord? (word 0)).getD .baseUrl) (word 1))
  | .configClear => .config .clear
  | .engines => .engines
  | .sessions => .sessions
  | .create =>
    .create ⟨value engineName, value sessionName, value workspaceName, value promptName,
      value modeName⟩
  | .terminate => .terminate (word 0)
  | .attach =>
    .attach ⟨word 0, l.flags.contains rawName, l.flags.contains freshName,
      l.flags.contains activityName⟩

/-- The value of a shared option: the innermost one given, or else that of the
variable. -/
def shared? (env : Environment) (path : List (Place × Level)) (name : String) : Option String :=
  (path.reverse.findSome? fun e => e.2.get? name).or
    ((sharedSettings.find? fun s => s.name == name).bind fun s => s.variableName.bind env)

/-- The invocation of a line. -/
def Invocation.parse (env : Environment) (words : List String) : Except Refusal Invocation := do
  let path ← levels env words .program .start
  let level := (shared? env path logLevelName).bind LogLevel.ofWord?
  match path.getLast? with
  | none => .error .helpForMissing
  | some (p, l) =>
    .ok
      { baseUrl := shared? env path baseUrlName
        token := shared? env path tokenName
        logLevel := level.getD defaultLogLevel
        logFile := shared? env path logFileName
        request := requestOf p l }

end RemoteSession.Command
