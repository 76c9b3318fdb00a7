import RemoteSession.Command.Program
import RemoteSession.Proofs.Config.Blanks

/-!
# Where a base address and a credential come from

The base address may stand on the command line, in the environment and in the stored
configuration, and so may the credential; the first of the three that is not blank is to count
(`Config.firstNonBlank?`). The command line goes before the environment whenever it has the
option, and only what is left of the two is passed over for being blank. So an option with a
blank value hides the variable (`Config.Hides`), and what is stored counts in its place. In all
other cases a command at the service comes to what it comes to with the first value that is not
blank (`Command.serves_first_iff`).
-/

namespace RemoteSession

namespace Config

/-- The first of some values that is not blank. -/
def firstNonBlank? (values : List (Option String)) : Option String :=
  values.findSome? nonBlank?

variable {given inherited stored : Option String}

/-- There is no first value if and only if all are missing or blank. -/
theorem firstNonBlank?_eq_none_iff {values : List (Option String)} :
    firstNonBlank? values = none ↔
      ∀ value ∈ values, ∀ text, value = some text → Text.isBlank text = true := by
  simp only [firstNonBlank?, List.findSome?_eq_none_iff, nonBlank?_eq_none_iff]

/-- A blank value that is given hides one that is inherited and is not what is stored. -/
def Hides (given inherited stored : Option String) : Prop :=
  given ≠ none ∧ nonBlank? given = none ∧ nonBlank? inherited ≠ none ∧
    nonBlank? inherited ≠ nonBlank? stored

instance : Decidable (Hides given inherited stored) :=
  inferInstanceAs (Decidable (_ ∧ _))

theorem nonBlank?_nonBlank? (value : Option String) :
    nonBlank? (nonBlank? value) = nonBlank? value := by
  cases hvalue : nonBlank? value with
  | none => rfl
  | some text =>
    obtain ⟨whole, -, rfl, hne⟩ := nonBlank?_eq_some_iff.1 hvalue
    exact nonBlank?_eq_some_iff.2 ⟨_, rfl, Text.trim_trim whole, hne⟩

/-- A value that is put in place of the stored one unless it is blank. -/
theorem nonBlank?_or (given stored : Option String) :
    nonBlank? ((nonBlank? given).or stored) = firstNonBlank? [given, stored] := by
  cases hgiven : nonBlank? given with
  | none => simp [firstNonBlank?, hgiven]
  | some text =>
    have hsame := nonBlank?_nonBlank? given
    rw [hgiven] at hsame
    simp [firstNonBlank?, hgiven, hsame]

/-- To go by whether a value is given, and then by whether it is blank, finds the first that
is not blank unless the given one hides it. -/
theorem firstNonBlank?_or_iff :
    firstNonBlank? [given.or inherited, stored] = firstNonBlank? [given, inherited, stored] ↔
      ¬Hides given inherited stored := by
  cases given with
  | none =>
    have hnone : nonBlank? none = none := rfl
    simp [firstNonBlank?, Hides, List.findSome?_cons, hnone]
  | some text =>
    simp only [firstNonBlank?, Hides, Option.some_or, List.findSome?_cons, List.findSome?_nil]
    cases nonBlank? (some text) with
    | some trimmed => simp
    | none => cases nonBlank? inherited <;> cases nonBlank? stored <;> simp [eq_comm]

end Config

namespace Command

open Config

/-! ## Invocations -/

/-- The value of a shared option on a command line : the innermost one. -/
def optionOf (env : Environment) (words : List String) (name : String) : Option String :=
  match levels env words .program .start with
  | .ok path => path.reverse.findSome? fun e => e.2.get? name
  | .error _ => none

variable {env : Environment} {words : List String} {i : Invocation}

/-- The shared options of an invocation go before the variables of the environment. -/
theorem shared_of_parse (h : Invocation.parse env words = .ok i) :
    i.baseUrl = (optionOf env words baseUrlName).or (env "RC_BASE_URL") ∧
      i.token = (optionOf env words tokenName).or (env "RC_TOKEN") := by
  unfold optionOf
  cases hpath : levels env words .program .start with
  | error e =>
    rw [Invocation.parse, hpath] at h
    cases h
  | ok path =>
    cases hlast : path.getLast? with
    | none =>
      simp only [Invocation.parse, hpath, hlast, bind, Except.bind] at h
      cases h
    | some innermost =>
      simp only [Invocation.parse, hpath, hlast, bind, Except.bind] at h
      cases h
      exact ⟨rfl, rfl⟩

/-! ## Commands at the service -/

/-- What a command at the service comes to with a base address and a credential. -/
def Serves (h : Host) (request : Request) (base token : Option String) (o : Outcome) : Prop :=
  match base with
  | none => ∃ what, o = h.failed (.service (.invalidConfig (.endpoint (.notConfigured what))))
  | some base =>
    match Endpoint.new base token with
    | .error e => o = h.failed (.service (.invalidConfig (.endpoint e)))
    | .ok e => o = serve h ⟨e, h.network⟩ request

variable {h : Host} {p : FilePath} {c : Config}

theorem execute_of_served (hservice : ∀ command, i.request ≠ .config command) {s : Service}
    (hserved : h.service i.baseUrl i.token = .ok s) : execute h i = serve h s i.request := by
  unfold execute
  split
  · next command hcommand => exact absurd hcommand (hservice command)
  · simp only [hserved]

theorem execute_of_refused (hservice : ∀ command, i.request ≠ .config command) {e : CommandError}
    (hserved : h.service i.baseUrl i.token = .error e) : execute h i = h.failed e := by
  unfold execute
  split
  · next command hcommand => exact absurd hcommand (hservice command)
  · simp only [hserved]

/-- A command at the service comes to what it comes to with the values that are given, unless
they are blank, and those that are stored. -/
theorem execute_serves (hservice : ∀ command, i.request ≠ .config command)
    (hconfig : h.config = .ok (p, c)) :
    Serves h i.request (firstNonBlank? [i.baseUrl, c.baseUrl]) (firstNonBlank? [i.token, c.token])
      (execute h i) := by
  have hserved : h.service i.baseUrl i.token =
      asked (Service.ofConfig (c.withOverrides i.baseUrl i.token) h.network) := by
    simp only [Host.service, hconfig]
  have hendpoint := (c.withOverrides i.baseUrl i.token).endpoint_eq
  simp only [withOverrides, nonBlank?_or] at hendpoint
  simp only [Service.ofConfig, withOverrides] at hserved
  cases hbase : firstNonBlank? [i.baseUrl, c.baseUrl] with
  | none =>
    rw [hbase] at hendpoint
    obtain ⟨what, hwhat⟩ := hendpoint
    rw [hwhat] at hserved
    exact ⟨what, execute_of_refused hservice hserved⟩
  | some base =>
    rw [hbase] at hendpoint
    rw [hendpoint] at hserved
    cases hnew : Endpoint.new base (firstNonBlank? [i.token, c.token]) with
    | error e =>
      rw [hnew] at hserved
      simp only [Serves, hnew]
      exact execute_of_refused hservice hserved
    | ok e =>
      rw [hnew] at hserved
      simp only [Serves, hnew]
      exact execute_of_served hservice hserved

/-- A program that has read its words and opened its log carries out the command. -/
theorem run_of_parse {g : Host} (hparse : Invocation.parse env words = .ok i)
    (hlog : h.openLog i = (g, none)) : run h env words = execute g i := by
  simp only [run, hparse, hlog]

/-- A command at the service comes to what it comes to with the first values that are not
blank, where the option goes before the variable whenever it is given; these are the first of
all three that are not blank if and only if no blank option hides the variable. Then a base
address is missing if and only if all three are missing or blank. -/
theorem serves_first_iff {g : Host} (hparse : Invocation.parse env words = .ok i)
    (hservice : ∀ command, i.request ≠ .config command) (hlog : h.openLog i = (g, none))
    (hconfig : g.config = .ok (p, c)) :
    let baseOption := optionOf env words baseUrlName
    let tokenOption := optionOf env words tokenName
    let base := firstNonBlank? [baseOption.or (env "RC_BASE_URL"), c.baseUrl]
    let token := firstNonBlank? [tokenOption.or (env "RC_TOKEN"), c.token]
    Serves g i.request base token (run h env words) ∧
      (base = firstNonBlank? [baseOption, env "RC_BASE_URL", c.baseUrl] ↔
        ¬Hides baseOption (env "RC_BASE_URL") c.baseUrl) ∧
      (token = firstNonBlank? [tokenOption, env "RC_TOKEN", c.token] ↔
        ¬Hides tokenOption (env "RC_TOKEN") c.token) ∧
      (¬Hides baseOption (env "RC_BASE_URL") c.baseUrl →
        (base = none ↔ ∀ value ∈ [baseOption, env "RC_BASE_URL", c.baseUrl],
          ∀ text, value = some text → Text.isBlank text = true)) := by
  obtain ⟨hbase, htoken⟩ := shared_of_parse hparse
  refine ⟨?_, firstNonBlank?_or_iff, firstNonBlank?_or_iff, fun hnot => ?_⟩
  · rw [run_of_parse hparse hlog, ← hbase, ← htoken]
    exact execute_serves hservice hconfig
  · rw [firstNonBlank?_or_iff.2 hnot]
    exact firstNonBlank?_eq_none_iff

/-- A host without a network, where a configuration is stored. -/
def Host.storing (text : String) : Host where
  home := some []
  directory := []
  files := ⟨[([Config.stateDirectory], .directory),
    (Config.path, .file (Text.Utf8.encode text) FileTree.privateMode)]⟩
  network := .unreachable
  offset := 0
  size := none

/-- A base address on the command line goes before another one in the environment, and a
credential in the environment before the stored one. -/
theorem serves_first_iff_given :
    let env : Environment := fun name =>
      if name = "RC_BASE_URL" then some "ftp://env.example"
      else if name = "RC_TOKEN" then some " secret " else none
    let words := ["health", "--base-url", " http://127.0.0.1:8787 "]
    let g := Host.storing "token = \"stored\"\n"
    ∃ i, Invocation.parse env words = .ok i ∧ i.request = .health ∧ g.openLog i = (g, none) ∧
      g.config = .ok (Config.path, ⟨none, some "stored"⟩) ∧
      Serves g i.request (some "http://127.0.0.1:8787") (some "secret") (run g env words) := by
  intro env words g
  have hparse : Invocation.parse env words =
      .ok ⟨some " http://127.0.0.1:8787 ", some " secret ", .warn, none, .health⟩ := by
    decide +kernel
  have hconfig : g.config = .ok (Config.path, ⟨none, some "stored"⟩) := by decide +kernel
  have hoption : optionOf env words baseUrlName = some " http://127.0.0.1:8787 " := by
    decide +kernel
  have hmissing : optionOf env words tokenName = none := by decide +kernel
  obtain ⟨hserves, hbase, htoken, -⟩ := serves_first_iff hparse nofun (g := g) rfl hconfig
  rw [hbase.2 (by rw [hoption]; decide), htoken.2 (by rw [hmissing]; decide), hoption, hmissing]
    at hserves
  exact ⟨_, hparse, rfl, rfl, hconfig, hserves⟩

/-- A blank base address on the command line hides the one in the environment, and the stored
one counts. -/
theorem not_serves_first :
    ¬∀ (env : Environment) (words : List String) (g : Host) (p : FilePath) (c : Config)
      (i : Invocation), Invocation.parse env words = .ok i →
        (∀ command, i.request ≠ .config command) → g.openLog i = (g, none) →
        g.config = .ok (p, c) →
          Serves g i.request
            (firstNonBlank? [optionOf env words baseUrlName, env "RC_BASE_URL", c.baseUrl])
            (firstNonBlank? [optionOf env words tokenName, env "RC_TOKEN", c.token])
            (run g env words) := by
  intro hfirst
  let env : Environment := fun name =>
    if name = "RC_BASE_URL" then some "ftp://env.example" else none
  let words := ["--base-url", " ", "health"]
  let g := Host.storing "base_url = \"ftp://stored.example\"\n"
  have hserves := hfirst env words g Config.path ⟨some "ftp://stored.example", none⟩
    ⟨some " ", none, .warn, none, .health⟩ (by decide +kernel) nofun rfl (by decide +kernel)
  have hbase : firstNonBlank? [optionOf env words baseUrlName, env "RC_BASE_URL",
      some "ftp://stored.example"] = some "ftp://env.example" := by decide +kernel
  have htoken : firstNonBlank? [optionOf env words tokenName, env "RC_TOKEN", none] = none := by
    decide +kernel
  have hnew : Endpoint.new "ftp://env.example" none =
      .error (.invalidBaseUrl "ftp://env.example" "unsupported scheme 'ftp'") := by
    decide +kernel
  have hcomplaint : (run g env words).verdict.complaint =
      some ("rc: invalid configuration: invalid base url 'ftp://stored.example': " ++
        "unsupported scheme 'ftp'") := by
    decide +kernel
  rw [hbase, htoken, Serves, hnew] at hserves
  rw [hserves] at hcomplaint
  exact absurd hcomplaint (by decide +kernel)

end Command

end RemoteSession
