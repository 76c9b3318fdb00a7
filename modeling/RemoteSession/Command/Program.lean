import RemoteSession.Command.Error
import RemoteSession.Command.Invocation
import RemoteSession.Logging.File
import RemoteSession.Service.Client
import RemoteSession.Terminal.Attachment
import RemoteSession.Text.Quoted

/-!
# The program

What the program does for its words, where it runs. The words are read first,
then the file of the log is opened, then the command is run. Commands on the
configuration work on the stored one alone; all others reach the service that
the stored configuration and the shared options name.
-/

namespace RemoteSession.Command

/-- Where a program runs. -/
structure Host where
  /-- The home directory of the user, if there is one. -/
  home : Option FilePath
  /-- The directory in which the program was started. -/
  directory : FilePath
  files : FileTree
  network : Http.Network
  /-- Seconds of the local time east of universal time. -/
  offset : Int
  /-- The size of the terminal, if there is one. -/
  size : Option Terminal.Size

/-- How a program comes to its end, or that it goes on with a session. -/
inductive Verdict where
  | done
  | refused (refusal : Refusal)
  | failed (error : CommandError)
  | attached (attachment : Terminal.Attachment)

namespace Verdict

/-- The code with which the program ends. -/
def exitCode : Verdict → Nat
  | .done => 0
  | .refused r => r.exitCode
  | .failed e => e.exitCode
  | .attached _ => 0

/-- What the program says of its failure. -/
def complaint : Verdict → Option String
  | .failed e => some ("rc: " ++ e.message)
  | _ => none

end Verdict

/-- What a program printed, the files that it left, and how it ended. -/
structure Outcome where
  output : String
  files : FileTree
  verdict : Verdict

namespace Host

/-- A path below the home directory. -/
def atHome (h : Host) (p : FilePath) : Except ConfigError FilePath :=
  match h.home with
  | some home => .ok (home ++ p)
  | none => .error .noHome

/-- The configuration of the user, with its path. -/
def config (h : Host) : Except ConfigError (FilePath × Config) := do
  let p ← h.atHome Config.path
  .ok (p, ← Config.load h.files p)

/-- The cursors of the user. -/
def cursors (h : Host) : Except CursorError FileCursorStore :=
  match h.atHome FileCursorStore.defaultPath with
  | .ok p => FileCursorStore.openAt h.files p
  | .error e => .error (.config e)

/-- The outcome of a command that printed something. -/
def printed (h : Host) (output : String) : Outcome := ⟨output, h.files, .done⟩

/-- The outcome of a command that failed. -/
def failed (h : Host) (e : CommandError) : Outcome := ⟨"", h.files, .failed e⟩

/-- The outcome of a command that prints unless it fails. -/
def outcome (h : Host) : Except CommandError String → Outcome
  | .ok output => h.printed output
  | .error e => h.failed e

end Host

/-! ## Commands on the configuration -/

/-- How much of a credential may be seen. -/
def shownLength : Nat := 4

/-- A credential with nothing but its end to be seen. -/
def mask (token : String) : String :=
  let cs := token.toList
  "****" ++
    (if cs.length ≤ shownLength then "" else String.ofList (cs.drop (cs.length - shownLength)))

/-- What stands for a value that is missing. -/
def notSet : String := "(not set)"

/-- The configuration at a path, for the user to read. -/
def describe (p : FilePath) (c : Config) : String :=
  "config: " ++ p.text ++ "\n" ++
  "base_url: " ++ c.baseUrl.getD notSet ++ "\n" ++
  "token: " ++ (c.token.map mask).getD notSet ++ "\n"

/-- The configuration with another value. A base address must be one from which
an endpoint can be made. -/
def assign (c : Config) (key : ConfigKey) (value : String) : Except ConfigError Config :=
  match key with
  | .token => .ok (c.setToken (some value))
  | .baseUrl =>
    match Endpoint.new value none with
    | .ok _ => .ok (c.setBaseUrl (some value))
    | .error e => .error (.endpoint e)

/-- The configuration that a command leaves, if it leaves another one. -/
def changed? (c : Config) : ConfigCommand → Except ConfigError (Option Config)
  | .print => .ok none
  | .set key value => (assign c key value).map some
  | .clear => .ok (some .empty)

/-- A command on the configuration. -/
def configure (h : Host) (command : ConfigCommand) : Outcome :=
  let result : Except ConfigError (String × FileTree) := do
    let (p, c) ← h.config
    match ← changed? c command with
    | none => .ok (describe p c, h.files)
    | some c => do
      let files ← c.save h.files p
      .ok ("saved " ++ p.text ++ "\n", files)
  match result with
  | .ok (output, files) => ⟨output, files, .done⟩
  | .error e => h.failed (.config e)

/-! ## Commands on the service -/

/-- A text filled up with spaces at its end. -/
def padEnd (width : Nat) (text : String) : String :=
  text ++ String.ofList (List.replicate (width - text.length) ' ')

/-- A text filled up with spaces at its beginning. -/
def padStart (width : Nat) (text : String) : String :=
  String.ofList (List.replicate (width - text.length) ' ') ++ text

/-- The state of a session with its exit code. -/
def stateText (s : SessionInfo) : String :=
  match s.exitCode with
  | some code => s.state ++ " (" ++ toString code.toInt ++ ")"
  | none => s.state

/-- A session in one line. -/
def row (s : SessionInfo) : String :=
  "  ".intercalate
    [padEnd 36 s.id, padEnd 10 s.engine, padEnd 12 (stateText s),
      padStart 8 ((s.lastSeq.map fun seq => toString seq.toNat).getD "-"), s.name] ++ "\n"

/-- Sessions in a line each. -/
def rows (sessions : List SessionInfo) : String :=
  if sessions.isEmpty then "no sessions\n" else String.join (sessions.map row)

/-- The session to create. -/
def CreateOptions.request (o : CreateOptions) : CreateSession :=
  ⟨o.engine, o.name, o.workspace, o.prompt, o.mode, []⟩

/-- What a request came to, as a command sees it. -/
def asked {α : Type} (result : Except ServiceError α) : Except CommandError α :=
  match result with
  | .ok value => .ok value
  | .error e => .error (.service e)

/-- A command that asks the service whether it is well. -/
def health (s : Service) : Except CommandError String := do
  if ← asked s.isHealthy then .ok "ok\n" else .error .unhealthy

/-- A command that asks the service for its engines. -/
def engines (s : Service) : Except CommandError String := do
  let names ← asked s.listEngines
  .ok (String.join (names.map fun name => name ++ "\n"))

/-- A command that asks the service for its sessions. -/
def sessions (s : Service) : Except CommandError String := do
  .ok (rows (← asked s.listSessions))

/-- A command that creates a session. -/
def create (s : Service) (o : CreateOptions) : Except CommandError String := do
  .ok (row (← asked (s.createSession o.request)))

/-- A command that ends a session. -/
def terminate (s : Service) (id : String) : Except CommandError String := do
  asked (s.terminateSession id)
  .ok ("terminated " ++ id ++ "\n")

/-- A command that attaches the terminal to a session. -/
def attach (h : Host) (s : Service) (o : AttachOptions) : Outcome :=
  let result : Except CommandError (SessionInfo × FileCursorStore) := do
    let found ← asked s.listSessions
    match found.find? fun info => info.id == o.session with
    | none => .error (.sessionNotFound o.session)
    | some info =>
      match h.cursors with
      | .ok store => .ok (info, store)
      | .error e => .error (.cursors e)
  match result with
  | .error e => h.failed e
  | .ok (info, store) =>
    let manner : Terminal.Attachment.Manner := ⟨o.raw, o.fresh, o.activity⟩
    let (attachment, written) :=
      Terminal.Attachment.start s.endpoint ⟨store, h.files⟩ (.ofInfo info) manner h.offset h.size
    ⟨written, h.files, .attached attachment⟩

/-! ## Invocations -/

/-- The service that an invocation is for. -/
def Host.service (h : Host) (baseUrl token : Option String) : Except CommandError Service :=
  match h.config with
  | .error e => .error (.config e)
  | .ok (_, c) => asked (Service.ofConfig (c.withOverrides baseUrl token) h.network)

/-- A command at the service. -/
def serve (h : Host) (s : Service) : Request → Outcome
  | .config command => configure h command
  | .health => h.outcome (health s)
  | .engines => h.outcome (engines s)
  | .sessions => h.outcome (sessions s)
  | .create options => h.outcome (create s options)
  | .terminate id => h.outcome (terminate s id)
  | .attach options => attach h s options

/-- The command of an invocation. -/
def execute (h : Host) (i : Invocation) : Outcome :=
  match i.request with
  | .config command => configure h command
  | request =>
    match h.service i.baseUrl i.token with
    | .error e => h.failed e
    | .ok s => serve h s request

/-- What is said of a file of the log that cannot be opened. -/
def logFault (text : String) (e : IoError) : CommandError :=
  .logging ("failed to open log file " ++ Text.quoted text ++ ": " ++ e.message)

/-- The file of the log opened, if there is to be one. -/
def Host.openLog (h : Host) (i : Invocation) : Host × Option CommandError :=
  match i.logFile with
  | none => (h, none)
  | some text =>
    let opening := Logging.openFile h.files h.directory text
    ({ h with files := opening.files }, opening.fault.map (logFault text))

/-- What the program does for its words. -/
def run (h : Host) (env : Environment) (words : List String) : Outcome :=
  match Invocation.parse env words with
  | .error refusal => ⟨"", h.files, .refused refusal⟩
  | .ok i =>
    match h.openLog i with
    | (h, some e) => h.failed e
    | (h, none) => execute h i

end RemoteSession.Command
