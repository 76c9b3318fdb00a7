import RemoteSession.Proofs.Command.Assignments

/-!
# The codes with which the program ends

The code 3 is for a credential that the service rejects, and 2 for a mistake in the
configuration. A request fails with a rejection only if a response of the network was one
(`Service.Told`), and what fails in a command at the service ends with 1 but for these
(`Command.Concludes`). So the program ends with 3 exactly when it failed with the error of a
response with the status 401 (`Command.exitCode_run_eq_three_iff`).

A mistake in the configuration that shows when an endpoint is made of it comes as an error of
the service, of which only rejections are looked for. So a command at the service ends with 2
if and only if the stored configuration could not be loaded, and with 1 whenever no endpoint
can be made of what was loaded, while a command that would store the same base address ends
with 2 (`Command.exit_codes`).
-/

namespace RemoteSession

/-- A result that fails with errors of one kind only. -/
def FailsWith {ε α : Type} (P : ε → Prop) (result : Except ε α) : Prop :=
  ∀ e, result = .error e → P e

namespace FailsWith

variable {ε α β : Type} {P : ε → Prop}

theorem ok (a : α) : FailsWith P (.ok a) := nofun

theorem error {e : ε} (h : P e) : FailsWith P (.error e : Except ε α) := by
  rintro _ ⟨⟩
  exact h

theorem bind {x : Except ε α} {f : α → Except ε β} (hx : FailsWith P x)
    (hf : ∀ a, x = .ok a → FailsWith P (f a)) : FailsWith P (x >>= f) := by
  cases x with
  | error e => exact error (hx e rfl)
  | ok a => exact hf a rfl

end FailsWith

/-! ## Requests -/

namespace Service

/-- An error that was made of a response of the network with the status 401. -/
def Rejected (network : Http.Network) (e : ServiceError) : Prop :=
  ∃ request response, network request = .ok response ∧ response.status = .unauthorized ∧
    e = .ofResponse response.status response.text

/-- An error that is a rejection only if a response was one. -/
def Told (network : Http.Network) (e : ServiceError) : Prop :=
  e.isUnauthorized = false ∨ Rejected network e

variable {s : Service} {r : Http.Request} {response : Http.Response}

theorem isUnauthorized_of_rejected {network : Http.Network} {e : ServiceError}
    (h : Rejected network e) : e.isUnauthorized = true := by
  obtain ⟨_, response, -, hstatus, rfl⟩ := h
  rw [ServiceError.isUnauthorized_ofResponse, hstatus]
  rfl

/-- The error of a response is a rejection only if the response is one. -/
theorem told_ofResponse (h : s.network r = .ok response) :
    Told s.network (.ofResponse response.status response.text) := by
  by_cases hstatus : response.status = .unauthorized
  · exact .inr ⟨r, response, h, hstatus, rfl⟩
  · exact .inl (by rw [ServiceError.isUnauthorized_ofResponse, decide_eq_false hstatus])

theorem failsWith_send (s : Service) (r : Http.Request) :
    FailsWith (Told s.network) (s.send r) := by
  unfold send
  split
  · split
    · exact .ok _
    · exact .error (.inl rfl)
  · exact .error (.inl rfl)

/-- What was sent was answered by the network. -/
theorem network_of_send (h : s.send r = .ok response) : s.network r = .ok response := by
  unfold send at h
  split at h
  · split at h
    · next hanswer => rw [hanswer, ← Except.ok.inj h]
    · cases h
  · cases h

theorem failsWith_read {α : Type} {decode? : String → Option α}
    (h : s.network r = .ok response) : FailsWith (Told s.network) (read decode? response) := by
  unfold read
  split
  · split
    · exact .ok _
    · exact .error (.inl rfl)
  · exact .error (told_ofResponse h)

/-- A request whose answer is read fails with a rejection only if the answer is one. -/
theorem failsWith_send_read {α : Type} (decode? : String → Option α) (s : Service)
    (r : Http.Request) : FailsWith (Told s.network) (s.send r >>= read decode?) :=
  (failsWith_send s r).bind fun _ hsend => failsWith_read (network_of_send hsend)

theorem failsWith_terminateSession (s : Service) (id : String) :
    FailsWith (Told s.network) (s.terminateSession id) := by
  refine (failsWith_send s _).bind fun response hsend => ?_
  split
  · exact .ok _
  · exact .error (told_ofResponse (network_of_send hsend))

end Service

/-! ## Commands at the service -/

namespace Command

open Service (Rejected Told)

variable {network : Http.Network} {h g : Host} {s : Service} {env : Environment}
  {words : List String} {i : Invocation}

/-- An error that ends the program with 1, or one that was made of a rejection. -/
def Ends (network : Http.Network) (e : CommandError) : Prop :=
  e.exitCode = 1 ∨ ∃ fault, e = .service fault ∧ Rejected network fault

/-- How a command at the service comes to its end. -/
inductive Concludes (network : Http.Network) : Verdict → Prop
  | done : Concludes network .done
  | attached (a : Terminal.Attachment) : Concludes network (.attached a)
  | failed {e : CommandError} (h : Ends network e) : Concludes network (.failed e)

theorem failsWith_asked {α : Type} {result : Except ServiceError α}
    (h : FailsWith (Told network) result) : FailsWith (Ends network) (asked result) := by
  cases result with
  | ok value => exact .ok value
  | error e =>
    refine .error ((h e rfl).imp (fun hother => ?_) fun hrejected => ⟨e, rfl, hrejected⟩)
    rw [CommandError.exitCode, hother]
    rfl

theorem concludes_outcome {result : Except CommandError String}
    (hresult : FailsWith (Ends network) result) : Concludes network (h.outcome result).verdict := by
  cases result with
  | ok output => exact .done
  | error e => exact .failed (hresult e rfl)

theorem concludes_attach (h : Host) (s : Service) (o : AttachOptions) :
    Concludes s.network (attach h s o).verdict := by
  have hlist : FailsWith (Ends s.network) (asked s.listSessions) :=
    failsWith_asked (Service.failsWith_send_read _ s _)
  unfold attach
  dsimp only
  split
  · next e he =>
    refine .failed (hlist.bind (fun found _ => ?_) e he)
    split
    · exact .error (.inl rfl)
    · split
      · exact .ok _
      · exact .error (.inl rfl)
  · exact .attached _

/-- A command at the service ends well, or with 1, or with the error of a rejection. -/
theorem concludes_serve {request : Request} (hservice : ∀ command, request ≠ .config command) :
    Concludes s.network (serve h s request).verdict := by
  cases request with
  | config command => exact absurd rfl (hservice command)
  | health =>
    refine concludes_outcome ((failsWith_asked ?_).bind fun healthy _ => ?_)
    · exact (Service.failsWith_send s _).bind fun _ _ => .ok _
    · cases healthy with
      | true => exact .ok _
      | false => exact .error (.inl rfl)
  | engines =>
    refine concludes_outcome ((failsWith_asked ?_).bind fun _ _ => .ok _)
    exact Service.failsWith_send_read _ s _
  | sessions =>
    refine concludes_outcome ((failsWith_asked ?_).bind fun _ _ => .ok _)
    exact Service.failsWith_send_read _ s _
  | create options =>
    refine concludes_outcome ((failsWith_asked ?_).bind fun _ _ => .ok _)
    exact Service.failsWith_send_read _ s _
  | terminate id =>
    refine concludes_outcome ((failsWith_asked ?_).bind fun _ _ => .ok _)
    exact Service.failsWith_terminateSession s id
  | attach options => exact concludes_attach h s options

/-! ## Codes -/

theorem exitCode_of_rejected {fault : ServiceError} (hrejected : Rejected network fault) :
    (CommandError.service fault).exitCode = 3 := by
  rw [CommandError.exitCode, Service.isUnauthorized_of_rejected hrejected]
  rfl

theorem Concludes.exitCode_ne_two {v : Verdict} (h : Concludes network v) : v.exitCode ≠ 2 := by
  cases h with
  | done => decide
  | attached a => exact Nat.ne_of_beq_eq_false rfl
  | @failed e hends =>
    rcases hends with hone | ⟨fault, rfl, hrejected⟩
    · rw [Verdict.exitCode, hone]
      decide
    · rw [Verdict.exitCode, exitCode_of_rejected hrejected]
      decide

/-- What ends the program with 3 is the error of a rejection. -/
theorem Concludes.rejected {v : Verdict} (h : Concludes network v) (hcode : v.exitCode = 3) :
    ∃ fault, v = .failed (.service fault) ∧ Rejected network fault := by
  cases h with
  | done => cases hcode
  | attached a => cases hcode
  | @failed e hends =>
    rcases hends with hone | ⟨fault, rfl, hrejected⟩
    · rw [Verdict.exitCode, hone] at hcode
      cases hcode
    · exact ⟨fault, rfl, hrejected⟩

/-- A command on the configuration fails for the configuration. -/
theorem configure_cases (h : Host) (command : ConfigCommand) :
    (configure h command).verdict = .done ∨
      ∃ e, (configure h command).verdict = .failed (.config e) := by
  unfold configure
  dsimp only
  split
  · exact .inl rfl
  · next e _ => exact .inr ⟨e, rfl⟩

theorem exitCode_configure_ne_three (h : Host) (command : ConfigCommand) :
    (configure h command).verdict.exitCode ≠ 3 := by
  rcases configure_cases h command with hdone | ⟨e, hfailed⟩
  · rw [hdone]
    decide
  · rw [hfailed]
    exact Nat.ne_of_beq_eq_false rfl

/-! ## Invocations -/

theorem execute_of_config {command : ConfigCommand} (hrequest : i.request = .config command) :
    execute h i = configure h command := by
  simp only [execute, hrequest]

/-- Where no endpoint can be made of the configuration, a command at the service fails with an
error of the service. -/
theorem execute_of_unbuilt (hservice : ∀ command, i.request ≠ .config command) {p : FilePath}
    {c : Config} {fault : ConfigError} (hconfig : h.config = .ok (p, c))
    (hendpoint : (c.withOverrides i.baseUrl i.token).endpoint = .error fault) :
    execute h i = h.failed (.service (.invalidConfig fault)) := by
  refine execute_of_refused hservice ?_
  simp only [Host.service, hconfig, Service.ofConfig, hendpoint, asked]

/-- What becomes of a command at the service : the configuration cannot be loaded, no endpoint
can be made of it, or the command is served at the endpoint. -/
theorem execute_cases (hservice : ∀ command, i.request ≠ .config command) :
    (∃ fault, h.config = .error fault ∧ execute h i = h.failed (.config fault)) ∨
    (∃ p c fault, h.config = .ok (p, c) ∧
      execute h i = h.failed (.service (.invalidConfig fault))) ∨
    ∃ p c e, h.config = .ok (p, c) ∧ execute h i = serve h ⟨e, h.network⟩ i.request := by
  cases hconfig : h.config with
  | error fault =>
    refine .inl ⟨fault, rfl, execute_of_refused hservice ?_⟩
    simp only [Host.service, hconfig]
  | ok found =>
    obtain ⟨p, c⟩ := found
    cases hendpoint : (c.withOverrides i.baseUrl i.token).endpoint with
    | error fault =>
      exact .inr (.inl ⟨p, c, fault, rfl, execute_of_unbuilt hservice hconfig hendpoint⟩)
    | ok e =>
      refine .inr (.inr ⟨p, c, e, rfl, execute_of_served hservice ?_⟩)
      simp only [Host.service, hconfig, Service.ofConfig, hendpoint, asked]

theorem network_openLog (h : Host) (i : Invocation) : (h.openLog i).1.network = h.network := by
  unfold Host.openLog
  split <;> rfl

/-- A file of the log that cannot be opened ends the program with 1. -/
theorem exitCode_of_openLog {e : CommandError} (hlog : h.openLog i = (g, some e)) :
    e.exitCode = 1 := by
  unfold Host.openLog at hlog
  split at hlog
  · cases hlog
  · obtain ⟨fault, -, rfl⟩ := Option.map_eq_some_iff.1 (congrArg Prod.snd hlog)
    rfl

/-- A command that ends the program with 3 fails with the error of a rejection. -/
theorem rejected_of_execute (hcode : (execute h i).verdict.exitCode = 3) :
    ∃ fault, (execute h i).verdict = .failed (.service fault) ∧ Rejected h.network fault := by
  by_cases hservice : ∀ command, i.request ≠ .config command
  · rcases execute_cases hservice with ⟨fault, -, hexecute⟩ | ⟨_, _, fault, -, hexecute⟩ |
      ⟨_, _, e, -, hexecute⟩
    · rw [hexecute] at hcode
      cases hcode
    · rw [hexecute] at hcode
      cases hcode
    · rw [hexecute] at hcode ⊢
      exact (concludes_serve hservice).rejected hcode
  · obtain ⟨command, hcommand⟩ := not_forall_not.1 hservice
    rw [execute_of_config hcommand] at hcode
    exact absurd hcode (exitCode_configure_ne_three h command)

theorem exitCode_run_eq_three_iff (h : Host) (env : Environment) (words : List String) :
    (run h env words).verdict.exitCode = 3 ↔
      ∃ fault, (run h env words).verdict = .failed (.service fault) ∧
        Rejected h.network fault := by
  constructor
  · intro hcode
    unfold run at hcode ⊢
    cases hparse : Invocation.parse env words with
    | error refusal =>
      rw [hparse] at hcode
      cases refusal <;> cases hcode
    | ok i =>
      rcases hlog : h.openLog i with ⟨g, _ | e⟩
      · have hnetwork := network_openLog h i
        simp only [hparse, hlog] at hcode hnetwork ⊢
        rw [← hnetwork]
        exact rejected_of_execute hcode
      · simp only [hparse, hlog] at hcode
        rw [Host.failed, Verdict.exitCode, exitCode_of_openLog hlog] at hcode
        cases hcode
  · rintro ⟨fault, hverdict, hrejected⟩
    rw [hverdict]
    exact exitCode_of_rejected hrejected

/-! ## Mistakes in the configuration -/

theorem exitCode_execute_eq_two_iff (hservice : ∀ command, i.request ≠ .config command) :
    (execute h i).verdict.exitCode = 2 ↔ ∃ fault, h.config = .error fault := by
  rcases execute_cases hservice with ⟨fault, hconfig, hexecute⟩ |
    ⟨_, _, fault, hconfig, hexecute⟩ | ⟨_, _, e, hconfig, hexecute⟩
  · rw [hexecute]
    exact iff_of_true rfl ⟨fault, hconfig⟩
  · rw [hexecute, hconfig]
    exact iff_of_false (by rintro ⟨⟩) (by rintro ⟨_, ⟨⟩⟩)
  · rw [hexecute, hconfig]
    exact iff_of_false (concludes_serve hservice).exitCode_ne_two (by rintro ⟨_, ⟨⟩⟩)

/-- A base address of which no endpoint can be made is not stored, and ends the program with 2. -/
theorem exitCode_configure_of_refused {value : String} {fault : EndpointError}
    (hnew : Endpoint.new value none = .error fault) :
    (configure h (.set .baseUrl value)).verdict.exitCode = 2 := by
  cases hconfig : h.config with
  | error e =>
    simp only [configure, hconfig, bind, Except.bind]
    rfl
  | ok found =>
    obtain ⟨p, c⟩ := found
    simp only [configure, hconfig, changed?, assign, hnew, Except.map, bind, Except.bind]
    rfl

/-- A command at the service ends with 2 if and only if the stored configuration cannot be
loaded. If it can, and no endpoint can be made of it and of the values that are given, the
command fails for this and ends with 1, while a command that would store a base address of which
none can be made ends with 2. Any command ends with 3 if and only if it fails with the error of
a response with the status 401. -/
theorem exit_codes (h : Host) (env : Environment) (words : List String) :
    (∀ (g : Host) (i : Invocation), Invocation.parse env words = .ok i →
      h.openLog i = (g, none) →
      ((∀ command, i.request ≠ .config command) →
        ((run h env words).verdict.exitCode = 2 ↔ ∃ fault, g.config = .error fault) ∧
        ∀ (p : FilePath) (c : Config) (fault : ConfigError), g.config = .ok (p, c) →
          (c.withOverrides i.baseUrl i.token).endpoint = .error fault →
            (run h env words).verdict = .failed (.service (.invalidConfig fault)) ∧
              (run h env words).verdict.exitCode = 1) ∧
      ∀ (value : String) (fault : EndpointError), i.request = .config (.set .baseUrl value) →
        Endpoint.new value none = .error fault → (run h env words).verdict.exitCode = 2) ∧
    ((run h env words).verdict.exitCode = 3 ↔
      ∃ fault, (run h env words).verdict = .failed (.service fault) ∧
        Rejected h.network fault) := by
  refine ⟨fun g i hparse hlog => ?_, exitCode_run_eq_three_iff h env words⟩
  rw [run_of_parse hparse hlog]
  refine ⟨fun hservice => ⟨exitCode_execute_eq_two_iff hservice, fun p c fault hconfig he => ?_⟩,
    fun value fault hrequest hnew => ?_⟩
  · rw [execute_of_unbuilt hservice hconfig he]
    exact ⟨rfl, rfl⟩
  · rw [execute_of_config hrequest]
    exact exitCode_configure_of_refused hnew

/-- A host without any files whose network answers all requests alike. -/
def Host.answering (status : Http.Status) : Host where
  home := some []
  directory := []
  files := .empty
  network := fun _ => .ok ⟨status, []⟩
  offset := 0
  size := none

/-- A base address that is stored ends the program with 2, and one that is given on the way
with 1; where there is an endpoint, a rejected credential ends it with 3. -/
theorem exit_codes_foreign :
    let h := Host.answering .unauthorized
    let env : Environment := fun _ => none
    (run h env ["health", "--base-url", "ftp://x"]).verdict.exitCode = 1 ∧
      (run h env ["config", "set", "base-url", "--", "ftp://x"]).verdict.exitCode = 2 ∧
      ∃ fault, (run h env ["sessions", "--base-url", "http://x"]).verdict =
        .failed (.service fault) ∧ Rejected h.network fault := by
  intro h env
  have hconfig : h.config = .ok (Config.path, ⟨none, none⟩) := by decide +kernel
  have hparse : Invocation.parse env ["health", "--base-url", "ftp://x"] =
      .ok ⟨some "ftp://x", none, .warn, none, .health⟩ := by
    decide +kernel
  have hendpoint : (Config.withOverrides ⟨none, none⟩ (some "ftp://x") none).endpoint =
      .error (.endpoint (.invalidBaseUrl "ftp://x" "unsupported scheme 'ftp'")) := by
    decide +kernel
  have henv : Environment.Fit env := by
    intro s _ value hvalue
    rw [Option.bind_fun_none] at hvalue
    cases hvalue
  obtain ⟨i, hassign, hrequest, hlog⟩ := parse_assign henv .baseUrl "ftp://x"
  have hopen : h.openLog i = (h, none) := by
    simp only [Host.openLog, hlog]
    rfl
  have hnew : Endpoint.new "ftp://x" none =
      .error (.invalidBaseUrl "ftp://x" "unsupported scheme 'ftp'") := by
    decide +kernel
  have hservice : ∀ command, Request.health ≠ .config command := by
    rintro command ⟨⟩
  obtain ⟨-, hunbuilt⟩ := ((exit_codes h env _).1 h _ hparse rfl).1 hservice
  have hset := ((exit_codes h env _).1 h i hassign hopen).2 _ _ hrequest hnew
  refine ⟨(hunbuilt _ _ _ hconfig hendpoint).2, hset, ?_⟩
  exact (exit_codes h env _).2.1 (by decide +kernel)

/-- Without a base address a command at the service does not end with 2. -/
theorem not_exits_alike :
    ¬∀ (h : Host) (env : Environment) (words : List String) (i : Invocation) (p : FilePath)
      (c : Config) (fault : ConfigError), Invocation.parse env words = .ok i →
        (∀ command, i.request ≠ .config command) → h.openLog i = (h, none) →
        h.config = .ok (p, c) → (c.withOverrides i.baseUrl i.token).endpoint = .error fault →
          (run h env words).verdict.exitCode = 2 := by
  intro halike
  let h := Host.answering .notFound
  have hcode := halike h (fun _ => none) ["health"] ⟨none, none, .warn, none, .health⟩ Config.path
    ⟨none, none⟩ (.endpoint (.notConfigured Config.unsetMessage)) (by decide +kernel) nofun rfl
    (by decide +kernel) rfl
  have hone : (run h (fun _ => none) ["health"]).verdict.exitCode = 1 := by decide +kernel
  rw [hone] at hcode
  cases hcode

end Command

end RemoteSession
