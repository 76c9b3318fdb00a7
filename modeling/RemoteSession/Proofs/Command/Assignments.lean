import RemoteSession.Proofs.Command.Sources
import RemoteSession.Proofs.Command.Words
import RemoteSession.Proofs.Config.Written

/-!
# Values that a user stores

A command that changes the configuration leaves a file from which the changed one is loaded
(`Command.configure_of_changed`). A base address is checked as it was given and stored without
the blanks around it, which is the same address (`Config.endpoint_setBaseUrl`). So the command
that stores one either fails for the fault of the address and leaves all files as they were,
or the configuration that is loaded afterwards has the credential it had and an endpoint with
this address (`Command.Assigns`, `Command.stored_as_set`).
-/

namespace RemoteSession

namespace Config

/-- A base address from which an endpoint can be made is the address of the endpoint of a
configuration in which it is set. -/
theorem endpoint_setBaseUrl {value : String} {e : Endpoint} (h : Endpoint.new value none = .ok e)
    (c : Config) :
    ∃ e', (c.setBaseUrl (some value)).endpoint = .ok e' ∧ e'.baseUrl = e.baseUrl := by
  have hne : Text.trim value ≠ "" := by
    intro hempty
    rw [Endpoint.new_of_isBlank (Text.trim_eq_empty_iff.1 hempty)] at h
    cases h
  have hbase : nonBlank? (some value) = some (Text.trim value) :=
    nonBlank?_eq_some_iff.2 ⟨value, rfl, rfl, hne⟩
  have hnew : Endpoint.new (Text.trim value) c.token =
      .ok ⟨e.baseUrl, c.token.bind Endpoint.normaliseToken⟩ := by
    rw [Endpoint.new_trim, Endpoint.new_eq, h]
    rfl
  refine ⟨⟨e.baseUrl, c.token.bind Endpoint.normaliseToken⟩, ?_, rfl⟩
  simp only [endpoint, setBaseUrl, hbase, hnew]

end Config

namespace Command

variable {h g : Host} {p : FilePath} {c c' : Config} {command : ConfigCommand}

theorem load_of_config (hconfig : h.config = .ok (p, c)) : Config.load h.files p = .ok c := by
  unfold Host.config at hconfig
  cases hhome : h.atHome Config.path with
  | error e =>
    rw [hhome] at hconfig
    cases hconfig
  | ok path =>
    rw [hhome] at hconfig
    cases hload : Config.load h.files path with
    | error e =>
      simp only [hload, bind, Except.bind] at hconfig
      cases hconfig
    | ok c' =>
      simp only [hload, bind, Except.bind] at hconfig
      cases hconfig
      exact hload

/-- A command that changes the configuration leaves what is loaded as the changed one. -/
theorem configure_of_changed (hconfig : h.config = .ok (p, c)) (hclosed : h.files.Closed)
    (hclear : h.files.Clear p) (hchanged : changed? c command = .ok (some c')) :
    ∃ files, configure h command = ⟨"saved " ++ p.text ++ "\n", files, .done⟩ ∧
      Config.load files p = .ok c' := by
  obtain ⟨files, hsave, hload⟩ := Config.load_save hclosed hclear c'
  refine ⟨files, ?_, hload⟩
  simp only [configure, hconfig, hchanged, hsave, bind, Except.bind]

/-! ## Base addresses -/

/-- What a command that stores a base address comes to : it fails for the fault of the address,
and all files are as they were, or what is loaded has the credential it had and the address. -/
inductive Assigns (h : Host) (p : FilePath) (c : Config) (value : String) (o : Outcome) : Prop
  | refused {e : EndpointError} (hnew : Endpoint.new value none = .error e)
    (hfailed : o = h.failed (.config (.endpoint e))) : Assigns h p c value o
  | stored {e e' : Endpoint} {c' : Config} (hnew : Endpoint.new value none = .ok e)
    (hdone : o.verdict = .done) (houtput : o.output = "saved " ++ p.text ++ "\n")
    (hload : Config.load o.files p = .ok c') (htoken : c'.token = c.token)
    (hendpoint : c'.endpoint = .ok e') (hbase : e'.baseUrl = e.baseUrl) : Assigns h p c value o

theorem configure_assigns (hconfig : h.config = .ok (p, c)) (hclosed : h.files.Closed)
    (hclear : h.files.Clear p) (value : String) :
    Assigns h p c value (configure h (.set .baseUrl value)) := by
  cases hnew : Endpoint.new value none with
  | error e =>
    refine .refused hnew ?_
    simp only [configure, hconfig, changed?, assign, hnew, Except.map, bind, Except.bind]
  | ok e =>
    have hchanged : changed? c (.set .baseUrl value) = .ok (some (c.setBaseUrl (some value))) := by
      simp only [changed?, assign, hnew, Except.map]
    obtain ⟨files, hconfigure, hload⟩ := configure_of_changed hconfig hclosed hclear hchanged
    obtain ⟨e', hendpoint, hbase⟩ := Config.endpoint_setBaseUrl hnew c
    rw [hconfigure]
    exact .stored hnew rfl rfl hload rfl hendpoint hbase

theorem closed_storing (text : String) : (Host.storing text).files.Closed := by
  have hdirectory : (FileTree.empty.set [Config.stateDirectory] .directory).Closed :=
    FileTree.closed_empty.set rfl fun _ => rfl
  refine hdirectory.set (p := Config.path) ?_ fun h => ?_
  · decide +kernel
  · exact absurd h (by decide +kernel)

/-- What is saved is loaded, whatever the texts of a configuration. Any text can be given to be
stored as the base address, and the command fails for its fault and leaves all files as they
were, or the configuration that is loaded afterwards has the credential it had and an endpoint
with the address. -/
theorem stored_as_set :
    (∀ (c : Config) (t : FileTree) (p : FilePath), t.Closed → t.Clear p →
      ∃ t', c.save t p = .ok t' ∧ Config.load t' p = .ok c) ∧
    (∀ (env : Environment) (value : String), env.Fit →
      ∃ i, Invocation.parse env ["config", "set", "base-url", "--", value] = .ok i ∧
        i.request = .config (.set .baseUrl value)) ∧
    ∀ (h g : Host) (env : Environment) (words : List String) (i : Invocation) (value : String)
      (p : FilePath) (c : Config), Invocation.parse env words = .ok i →
        i.request = .config (.set .baseUrl value) → h.openLog i = (g, none) →
        g.config = .ok (p, c) → g.files.Closed → (g.files.exists? p = false → g.files.Clear p) →
          Assigns g p c value (run h env words) := by
  refine ⟨fun c t p hclosed hclear => Config.load_save hclosed hclear c, fun env value henv => ?_,
    fun h g env words i value p c hparse hrequest hlog hconfig hclosed hclear => ?_⟩
  · obtain ⟨i, hparse, hrequest, -⟩ := parse_assign henv .baseUrl value
    exact ⟨i, hparse, hrequest⟩
  · have hplace : g.files.Clear p := by
      cases hexists : g.files.exists? p with
      | false => exact hclear hexists
      | true => exact Config.clear_of_load hexists (load_of_config hconfig)
    have hexecute : execute g i = configure g (.set .baseUrl value) := by
      simp only [execute, hrequest]
    rw [run_of_parse hparse hlog, hexecute]
    exact configure_assigns hconfig hclosed hplace value

/-- A base address with blanks around it is stored beside a credential, and texts with quotes,
backslashes and line ends are loaded as they were saved. -/
theorem stored_as_set_given :
    let texts : Config := ⟨some "a\"b\n\"\"\"", some "\\'\r\n\x00"⟩
    let g := Host.storing "token = \"secret\"\n"
    let words := ["config", "set", "base-url", "--", " 127.0.0.1:8787/ "]
    (∃ t', texts.save .empty Config.path = .ok t' ∧ Config.load t' Config.path = .ok texts) ∧
      g.config = .ok (Config.path, ⟨none, some "secret"⟩) ∧
      (Endpoint.new " 127.0.0.1:8787/ " none).toBool = true ∧
      Assigns g Config.path ⟨none, some "secret"⟩ " 127.0.0.1:8787/ "
        (run g (fun _ => none) words) := by
  intro texts g words
  have henv : Environment.Fit fun _ => none := by
    intro s _ value hvalue
    rw [Option.bind_fun_none] at hvalue
    cases hvalue
  obtain ⟨i, hparse, hrequest, hlog⟩ := parse_assign henv .baseUrl " 127.0.0.1:8787/ "
  have hopen : g.openLog i = (g, none) := by
    simp only [Host.openLog, hlog]
  have hconfig : g.config = .ok (Config.path, ⟨none, some "secret"⟩) := by decide +kernel
  have hexists : g.files.exists? Config.path = true := by decide +kernel
  have hnew : (Endpoint.new " 127.0.0.1:8787/ " none).toBool = true := by decide +kernel
  obtain ⟨hsaved, -, hassigned⟩ := stored_as_set
  refine ⟨hsaved texts .empty Config.path FileTree.closed_empty ?_, hconfig, hnew, ?_⟩
  · exact FileTree.clear_empty (List.cons_ne_nil _ _)
  · have hclosed := closed_storing "token = \"secret\"\n"
    have hassign := hassigned g g (fun _ => none) words i " 127.0.0.1:8787/ " Config.path
      ⟨none, some "secret"⟩
    exact hassign hparse hrequest hopen hconfig hclosed fun hmissing =>
      absurd hmissing (ne_false_of_eq_true hexists)

end Command

end RemoteSession
