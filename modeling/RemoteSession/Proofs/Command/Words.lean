import RemoteSession.Command.Invocation

/-!
# Words that make an invocation

The words of a command are read one by one (`Command.levels_of_take`,
`Command.levels_of_command`), and come to a good end if nothing is missing and the variables
of the environment have values that the options take (`Command.finish_of_fit`). Behind two
hyphens any text is taken as it is : so every text can be given as the value of an entry of
the configuration (`Command.parse_assign`).
-/

namespace RemoteSession.Command

variable {env : Environment} {place child : Place} {l l' : Level} {word : String}
  {words : List String}

/-! ## The end of the words of a place -/

/-- The variables of the environment have values that the options take. -/
def Environment.Fit (env : Environment) : Prop :=
  ∀ s ∈ sharedSettings, ∀ value, s.variableName.bind env = some value → s.kind.accepts value = true

theorem exists_foldlM_ok {α β ε : Type} {step : β → α → Except ε β} {items : List α}
    (hstep : ∀ a ∈ items, ∀ b, ∃ b', step b a = .ok b') (b : β) :
    ∃ b', items.foldlM step b = .ok b' := by
  induction items generalizing b with
  | nil => exact ⟨b, rfl⟩
  | cons a items ih =>
    obtain ⟨b', hb'⟩ := hstep a List.mem_cons_self b
    rw [List.foldlM_cons, hb']
    exact ih (fun d hd => hstep d (List.mem_cons_of_mem a hd)) b'

theorem environmentValues_of_fit (henv : env.Fit) (l : Level)
    (hplace : place.settings = sharedSettings) :
    ∃ found, l.environmentValues env place = .ok found := by
  rw [Level.environmentValues, hplace]
  refine exists_foldlM_ok (fun s hs found => ?_) []
  cases hvalue : s.variableName.bind env with
  | none => exact ⟨found, rfl⟩
  | some value =>
    have haccepts := henv s (List.filter_sublist.subset hs) value hvalue
    exact ⟨found ++ [value], if_pos haccepts⟩

/-- The words of a place come to a good end when nothing that is required is missing. -/
theorem finish_of_fit (henv : env.Fit) (hplace : place.settings = sharedSettings)
    (hresolve : l.resolve place = .ok l') {commandFollows : Bool}
    (hcommand : place.children.isEmpty = true ∨ commandFollows = true)
    (hrequired : ∀ name ∈ place.required, (l'.get? name).isSome = true) :
    l.finish env place commandFollows = .ok l' := by
  obtain ⟨found, hfound⟩ := environmentValues_of_fit henv l' hplace
  have hmissing : (place.required.any fun name => (l'.get? name).isNone) = false := by
    rw [List.any_eq_false]
    intro name hname
    rw [Option.isNone_eq_false_iff.2 (hrequired name hname)]
    exact Bool.false_ne_true
  have hfollows : (!place.children.isEmpty && !commandFollows) = false := by
    rcases hcommand with h | h <;> simp [h]
  simp [Level.finish, hresolve, hfound, hmissing, hfollows, bind, Except.bind]

/-! ## One word -/

theorem levels_of_take (hleaf : place.children = []) (htake : l.take place word = .ok l') :
    levels env (word :: words) place l = levels env words place l' := by
  simp [levels, hleaf, htake, bind, Except.bind]

theorem levels_of_command (hchild : place.children.lookup word = some child)
    {deeper : List (Place × Level)} (hdeeper : levels env words child .start = .ok deeper)
    (hfinish : Level.start.finish env place true = .ok .start) :
    levels env (word :: words) place .start = .ok ((place, .start) :: deeper) := by
  have hwaiting : (Level.start.trailing || Level.start.isWaiting) = false := rfl
  simp [levels, hwaiting, hchild, hdeeper, hfinish, bind, Except.bind]

/-! ## Assignments -/

/-- What was read of the words of an assignment. -/
def assignment (key : ConfigKey) (value : String) : Level :=
  ⟨[("0", key.word), ("1", value)], [], none, 2, true⟩

theorem levels_assign (henv : env.Fit) (key : ConfigKey) (value : String) :
    levels env [key.word, "--", value] .configSet .start =
      .ok [(.configSet, assignment key value)] := by
  have hkey : Level.start.take .configSet key.word =
      .ok ⟨[], [], some ("0", some key.word), 1, false⟩ := by
    cases key <;> rfl
  have hmark : Level.take ⟨[], [], some ("0", some key.word), 1, false⟩ .configSet "--" =
      .ok ⟨[], [], some ("0", some key.word), 1, true⟩ := by
    cases key <;> rfl
  have hvalue : Level.take ⟨[], [], some ("0", some key.word), 1, true⟩ .configSet value =
      .ok ⟨[("0", key.word)], [], some ("1", some value), 2, true⟩ := by
    cases key <;> rfl
  have hrequired : ∀ name ∈ Place.configSet.required,
      ((assignment key value).get? name).isSome = true :=
    List.forall_mem_cons.2 ⟨rfl, List.forall_mem_cons.2 ⟨rfl, nofun⟩⟩
  have hfinish : Level.finish ⟨[("0", key.word)], [], some ("1", some value), 2, true⟩ env
      .configSet false = .ok (assignment key value) :=
    finish_of_fit henv rfl rfl (.inl rfl) hrequired
  rw [levels_of_take rfl hkey, levels_of_take rfl hmark, levels_of_take rfl hvalue, levels, hfinish]
  rfl

/-- Any text can be given as the value of an entry. -/
theorem parse_assign (henv : env.Fit) (key : ConfigKey) (value : String) :
    ∃ i, Invocation.parse env ["config", "set", key.word, "--", value] = .ok i ∧
      i.request = .config (.set key value) ∧ i.logFile = env "RC_LOG_FILE" := by
  have hset : Place.config.children.lookup "set" = some .configSet := rfl
  have hconfig : Place.program.children.lookup "config" = some .config := rfl
  have hlevels := levels_of_command hset (levels_assign henv key value)
    (finish_of_fit henv rfl rfl (.inr rfl) nofun)
  have hpath := levels_of_command hconfig hlevels (finish_of_fit henv rfl rfl (.inr rfl) nofun)
  have hparse : Invocation.parse env ["config", "set", key.word, "--", value] = .ok
      { baseUrl := env "RC_BASE_URL"
        token := env "RC_TOKEN"
        logLevel := ((env "RC_LOG_LEVEL").bind LogLevel.ofWord?).getD defaultLogLevel
        logFile := env "RC_LOG_FILE"
        request := .config (.set key value) } := by
    rw [Invocation.parse, hpath]
    cases key <;> rfl
  exact ⟨_, hparse, rfl, rfl⟩

end RemoteSession.Command
