import RemoteSession.Proofs.Stream.Advances
import RemoteSession.Proofs.Stream.Clocked

/-!
# A client and its store

A client asks a store to keep the number of each event that it accepts. The store says how
that went; when it failed the client warns of it and goes on (`CursorStore.attempt`), so
that the store is inside the step that takes an event (`Client.receiveStoring`). `Storing`
is a client with its store, after any actions, and `Clocked.stepStoring` the same in time.

What the store says makes no difference to the client : a step with a store is the step
without one, and the store is asked to keep what the step tells to keep, in order
(`Storing.step_eq`). So two clients with different stores, whichever of their attempts fail,
do the same and tell the same at the same instants (`Clocked.agree_of_stores`).
-/

namespace RemoteSession

/-- A way to keep cursors in a state, whose operations say how they went and may leave
something also where they failed. -/
structure CursorStore (σ : Type) where
  load : σ → String → Except CursorError UInt64
  store : σ → String → UInt64 → Except CursorError Unit × σ
  reset : σ → String → Except CursorError Unit × σ

/-- A cursor that could not be kept, of which the client warns. -/
structure StoreFailure where
  session : String
  seq : UInt64
  error : CursorError

namespace CursorStore

variable {σ : Type} (store : CursorStore σ)

/-- Cursors in memory, where nothing fails. -/
def memory : CursorStore MemoryCursorStore where
  load s id := .ok (s.load id)
  store s id seq := (.ok (), s.store id seq)
  reset s id := (.ok (), s.reset id)

/-- Cursors in a file, with the tree that holds the file. -/
def file (disk : Disk) : CursorStore StoredCursors where
  load s id := .ok (s.store.load id)
  store s id seq :=
    let o := s.store.store disk s.files id seq
    (o.result, .ofOutcome o)
  reset s id :=
    let o := s.store.reset disk s.files id
    (o.result, .ofOutcome o)

/-- The store as a view uses it : how an operation went is passed over. -/
def service : CursorService σ where
  load s id := (store.load s id).toOption
  store s id seq := (store.store s id seq).2
  reset s id := (store.reset s id).2

theorem service_memory : memory.service = .memory :=
  rfl

theorem service_file (disk : Disk) : (file disk).service = .file disk :=
  rfl

/-- What was stored with success is loaded again. -/
def Faithful : Prop :=
  ∀ cursors session seq, (store.store cursors session seq).1 = .ok () →
    store.load (store.store cursors session seq).2 session = .ok seq

theorem faithful_memory : memory.Faithful := by
  intro cursors session seq _
  simp [memory, MemoryCursorStore.load, MemoryCursorStore.store, Cursors.load, Keyed.get?_insert]

theorem faithful_file (disk : Disk) : (file disk).Faithful := by
  intro cursors session seq _
  simp only [file, StoredCursors.ofOutcome, FileCursorStore.store, FileCursorStore.load]
  split
  · next h => rw [Cursors.load, h, Option.getD_some]
  · simp [Cursors.load, Keyed.get?_insert]

/-- An attempt to keep a cursor, and the failure when it is one. -/
def attempt (cursors : σ) (session : String) (seq : UInt64) : σ × List StoreFailure :=
  match store.store cursors session seq with
  | (.ok (), cursors) => (cursors, [])
  | (.error error, cursors) => (cursors, [⟨session, seq, error⟩])

/-- Attempts to keep some cursors, in order. -/
def attemptAll (cursors : σ) : List (String × UInt64) → σ × List StoreFailure
  | [] => (cursors, [])
  | (session, seq) :: rest =>
    let (cursors, now) := store.attempt cursors session seq
    let (cursors, later) := attemptAll cursors rest
    (cursors, now ++ later)

theorem attemptAll_append (cursors : σ) (xs ys : List (String × UInt64)) :
    store.attemptAll cursors (xs ++ ys) =
      ((store.attemptAll (store.attemptAll cursors xs).1 ys).1,
        (store.attemptAll cursors xs).2 ++
          (store.attemptAll (store.attemptAll cursors xs).1 ys).2) := by
  induction xs generalizing cursors with
  | nil => rfl
  | cons p rest ih => simp [attemptAll, ih, List.append_assoc]

theorem attemptAll_singleton (cursors : σ) (session : String) (seq : UInt64) :
    store.attemptAll cursors [(session, seq)] = store.attempt cursors session seq := by
  simp [attemptAll]

theorem fst_attempt (cursors : σ) (session : String) (seq : UInt64) :
    (store.attempt cursors session seq).1 = (store.store cursors session seq).2 := by
  unfold attempt
  split <;> next h => rw [h]

/-- Without a failure the cursor was stored with success. -/
theorem ok_of_attempt {cursors : σ} {session : String} {seq : UInt64}
    (h : (store.attempt cursors session seq).2 = []) :
    (store.store cursors session seq).1 = .ok () := by
  unfold attempt at h
  split at h
  · next hstore => rw [hstore]
  · cases h

end CursorStore

/-! ## One step -/

/-- What a client, one of its runs and its store are after a step, and what could not be
kept. -/
structure StoringStep (σ : Type) where
  step : Step
  cursors : σ
  failures : List StoreFailure

namespace Client

variable {σ : Type} (store : CursorStore σ) (cursors : σ) (c : Client) (r : Run)

/-- An event of the session : the store is to keep its number, and the event is told
whether it did or not. -/
def acceptStoring (link : Nat) (e : Event) : StoringStep σ :=
  let (cursors, failures) := store.attempt cursors r.session e.seq
  ⟨c.accept r link e, cursors, failures⟩

/-- A frame of text, for a client with a store. -/
def receiveStoring (link : Nat) (content : String) : StoringStep σ :=
  if c.isCurrent r then
    match c.gate.offerFrame content with
    | (.accepted e, gate) => { c with gate := gate }.acceptStoring store cursors r link e
    | (.stale _ _, _) => ⟨⟨c, some r, []⟩, cursors, []⟩
    | (.malformed, _) => ⟨⟨c, some r, []⟩, cursors, []⟩
  else ⟨⟨c, none, []⟩, cursors, []⟩

/-- The step of a run that is woken. The store is asked where a frame of text is taken. -/
def wakeStoring (w : Wake) : StoringStep σ :=
  match r.wait, w with
  | .frames link, .incoming (some (.text content)) =>
    c.receiveStoring store cursors r link content
  | _, _ => ⟨c.wake r w, cursors, []⟩

/-- A step with a store, whose cursors to keep are those that the step tells. -/
def Stores (out : StoringStep σ) (step : Step) : Prop :=
  out.step = step ∧
    (out.cursors, out.failures) = store.attemptAll cursors (Notice.persists step.notices)

variable {store cursors c r}

theorem stores_of_persists_nil {step : Step} (h : Notice.persists step.notices = []) :
    Stores store cursors ⟨step, cursors, []⟩ step :=
  ⟨rfl, by rw [h]; rfl⟩

theorem persists_setState (c : Client) (state : ConnectionState) :
    Notice.persists (c.setState state).2 = [] := by
  rw [snd_setState]
  split <;> rfl

theorem persists_accept (c : Client) (r : Run) (link : Nat) (e : Event) :
    Notice.persists (c.accept r link e).notices = [(r.session, e.seq)] := by
  unfold accept
  split
  · have hstate := persists_setState { c with outbound := none } (.closed exitedReason)
    simp only [Notice.persists, List.filterMap_append] at hstate ⊢
    rw [hstate]
    rfl
  · rfl

theorem stores_accept (link : Nat) (e : Event) :
    Stores store cursors (c.acceptStoring store cursors r link e) (c.accept r link e) := by
  refine ⟨rfl, ?_⟩
  rw [persists_accept, store.attemptAll_singleton]
  rfl

theorem stores_receive (link : Nat) (content : String) :
    Stores store cursors (c.receiveStoring store cursors r link content)
      (c.receive r link content) := by
  unfold receiveStoring receive
  split
  · obtain ⟨admission, gate⟩ := c.gate.offerFrame content
    cases admission with
    | accepted e => exact stores_accept link e
    | stale seq cursor => exact stores_of_persists_nil rfl
    | malformed => exact stores_of_persists_nil rfl
  · exact stores_of_persists_nil rfl

theorem persists_beginAttempt (c : Client) (r : Run) :
    Notice.persists (c.beginAttempt r).notices = [] := by
  unfold beginAttempt
  split
  · have hstate := c.persists_setState (attemptState r.attempt)
    simp only [Notice.persists, List.filterMap_append] at hstate ⊢
    rw [hstate]
    rfl
  · rfl

theorem persists_lose (c : Client) (r : Run) (reason : String) :
    Notice.persists (c.lose r reason).notices = [] := by
  unfold lose
  split
  · exact persists_setState ..
  · rfl

theorem persists_connect (c : Client) (r : Run) (accepts : Bool) :
    Notice.persists (c.connect r accepts).notices = [] := by
  unfold connect
  simp only
  split
  · exact persists_setState ..
  · rfl

theorem persists_openStream (c : Client) (r : Run) (ticket : String) :
    Notice.persists (c.openStream r ticket).notices = [] := by
  unfold openStream
  split <;> rfl

/-- A wake with a store is the wake without one. -/
theorem stores_wake (w : Wake) :
    Stores store cursors (c.wakeStoring store cursors r w) (c.wake r w) := by
  unfold wakeStoring
  split
  · next link content hwait =>
    have hwake : c.wake r (.incoming (some (.text content))) = c.receive r link content := by
      simp [wake, hwait]
    rw [hwake]
    exact stores_receive link content
  · next hother =>
    refine stores_of_persists_nil ?_
    unfold wake
    split
    · exact persists_beginAttempt ..
    · exact persists_beginAttempt ..
    · exact persists_openStream ..
    · exact persists_lose ..
    · exact persists_connect ..
    · exact persists_lose ..
    · next link content hwait => exact absurd rfl (hother link content hwait)
    · exact persists_lose ..
    · exact persists_lose ..
    · rfl

end Client

/-! ## A client with its store -/

/-- A client with its runs and the store that it asks to keep cursors. -/
structure Storing (σ : Type) where
  system : System
  cursors : σ

namespace Storing

/-- A client with its store after something happened : what the client let others know, and
what could not be kept. -/
structure Outcome (σ : Type) where
  state : Storing σ
  notices : List Notice
  failures : List StoreFailure

variable {σ : Type} (store : CursorStore σ)

/-- A client that follows no session. -/
def new (endpoint : Endpoint) (config : StreamConfig) (cursors : σ) : Storing σ :=
  ⟨.new endpoint config, cursors⟩

/-- The client and its store after an action. -/
def step (s : Storing σ) : Action → Outcome σ
  | .wake generation cause =>
    match s.system.task? generation with
    | none => ⟨s, [], []⟩
    | some t =>
      let next := s.system.client.wakeStoring store s.cursors t.run cause
      let system : System := ⟨next.step.client,
        System.replace s.system.tasks generation next.step.run⟩
      ⟨⟨system, next.cursors⟩, next.step.notices, next.failures⟩
  | action =>
    let (system, notices) := s.system.step action
    ⟨⟨system, s.cursors⟩, notices, []⟩

/-- The client and its store after some actions. -/
def run (s : Storing σ) : List Action → Outcome σ
  | [] => ⟨s, [], []⟩
  | action :: rest =>
    let now := s.step store action
    let later := now.state.run rest
    ⟨later.state, now.notices ++ later.notices, now.failures ++ later.failures⟩

/-- The client of some actions, and a store that is asked to keep what the client tells. -/
def follow (s : Storing σ) (out : System × List Notice) : Outcome σ :=
  let kept := store.attemptAll s.cursors (Notice.persists out.2)
  ⟨⟨out.1, kept.1⟩, out.2, kept.2⟩

variable (s : Storing σ)

theorem follow_of_persists_nil {out : System × List Notice} (h : Notice.persists out.2 = []) :
    s.follow store out = ⟨⟨out.1, s.cursors⟩, out.2, []⟩ := by
  rw [follow, h]
  rfl

theorem persists_stop (c : Client) : Notice.persists c.stop.2 = [] := by
  obtain ⟨links, -, -, hn⟩ := c.stop_eq
  rw [hn]
  split <;> rfl

theorem persists_attach (c : Client) (session : String) (cursor : UInt64) :
    Notice.persists (c.attach session cursor).2 = [] := by
  obtain ⟨links, -, -, hn⟩ := c.attach_eq session cursor
  rw [hn]
  split <;> rfl

/-- A step with a store is the step without one, and the store is asked to keep what the
step tells. -/
theorem step_eq (a : Action) : s.step store a = s.follow store (s.system.step a) := by
  cases a with
  | attach session cursor =>
    rw [follow_of_persists_nil store s (persists_attach ..)]
    rfl
  | stop =>
    rw [follow_of_persists_nil store s (persists_stop ..)]
    rfl
  | wake g w =>
    simp only [step, System.step]
    cases s.system.task? g with
    | none => rfl
    | some t =>
      obtain ⟨hstep, hkept⟩ : Client.Stores store s.cursors
          (s.system.client.wakeStoring store s.cursors t.run w) (s.system.client.wake t.run w) :=
        Client.stores_wake w
      simp only [follow, hstep, ← hkept]
  | _ => rfl

/-- The same of some actions. -/
theorem run_eq (actions : List Action) :
    s.run store actions = s.follow store (s.system.run actions) := by
  induction actions generalizing s with
  | nil => rfl
  | cons a rest ih =>
    have hsplit : ∀ xs ys : List Notice,
        Notice.persists (xs ++ ys) = Notice.persists xs ++ Notice.persists ys :=
      fun xs ys => List.filterMap_append
    rw [run, ih, step_eq]
    simp only [follow, System.run, hsplit, store.attemptAll_append]

end Storing

/-! ## In time -/

namespace Clocked

/-- A client in time with its store, and what happened so far : what the client let others
know at which instant, and what could not be kept. -/
structure Outcome (σ : Type) where
  clocked : Clocked
  cursors : σ
  log : List (Nat × Notice)
  failures : List StoreFailure

variable {σ : Type} (store : CursorStore σ)

/-- The client in time and its store after something that happens. -/
def stepStoring (c : Clocked) (cursors : σ) : Tick → Outcome σ
  | .act action =>
    if c.allows action then
      let out := Storing.step store ⟨c.system, cursors⟩ action
      let system := out.state.system
      let clocked := { c with
        system := system
        since := fun g => if system.wait? g = c.system.wait? g then c.since g else c.now }
      ⟨clocked, out.state.cursors, out.notices.map fun notice => (c.now, notice), out.failures⟩
    else ⟨c, cursors, [], []⟩
  | .pass ms => ⟨if c.canPass ms then { c with now := c.now + ms } else c, cursors, [], []⟩

/-- The client in time and its store after some time. -/
def runStoring (c : Clocked) (cursors : σ) : List Tick → Outcome σ
  | [] => ⟨c, cursors, [], []⟩
  | tick :: rest =>
    let now := c.stepStoring store cursors tick
    let later := now.clocked.runStoring now.cursors rest
    ⟨later.clocked, later.cursors, now.log ++ later.log, now.failures ++ later.failures⟩

variable (c : Clocked) (cursors : σ)

theorem stepStoring_eq (tick : Tick) :
    (c.stepStoring store cursors tick).clocked = (c.step tick).1 ∧
      (c.stepStoring store cursors tick).log = (c.step tick).2 := by
  cases tick with
  | pass ms => exact ⟨rfl, rfl⟩
  | act a =>
    simp only [stepStoring, step, Storing.step_eq]
    split <;> exact ⟨rfl, rfl⟩

/-- A client in time with a store is the client without one. -/
theorem runStoring_eq (ticks : List Tick) :
    (c.runStoring store cursors ticks).clocked = (c.run ticks).1 ∧
      (c.runStoring store cursors ticks).log = (c.run ticks).2 := by
  induction ticks generalizing c cursors with
  | nil => exact ⟨rfl, rfl⟩
  | cons tick rest ih =>
    obtain ⟨hclocked, hlog⟩ := stepStoring_eq store c cursors tick
    simp only [runStoring, run, ih, hclocked, hlog, and_self]

/-- Two clients with any stores, to which the same happens at the same instants, are the
same at every instant, with the same cursor, state, last error, connections and frames
handed to them, and tell the same states and events, request tickets and open addresses at
the same instants, whichever of the attempts of either store fail. -/
theorem agree_of_stores {τ : Type} (store : CursorStore σ) (other : CursorStore τ)
    (endpoint : Endpoint) (config : StreamConfig) (cursors : σ) (others : τ) (ticks : List Tick) :
    let first := (new endpoint config).runStoring store cursors ticks
    let second := (new endpoint config).runStoring other others ticks
    first.log = second.log ∧ first.clocked = second.clocked := by
  intro first second
  obtain ⟨hfirst, hlog⟩ := runStoring_eq store (new endpoint config) cursors ticks
  obtain ⟨hsecond, hlog'⟩ := runStoring_eq other (new endpoint config) others ticks
  exact ⟨hlog.trans hlog'.symm, hfirst.trans hsecond.symm⟩

/-- A store that keeps nothing makes the client warn of an event that another store keeps. -/
example :
    let endpoint : Endpoint := ⟨⟨.http, "", none, .name "localhost", none, [""], none, none⟩, none⟩
    let refusal : CursorError := .io .isADirectory
    let refusing : CursorStore Unit :=
      ⟨fun _ _ => .error refusal, fun _ _ _ => (.error refusal, ()),
        fun _ _ => (.error refusal, ())⟩
    let ticks : List Tick :=
      [.act (.attach "s1" 0), .act (.wake 1 .start), .act (.wake 1 (.ticket (.ok "t"))),
        .act (.wake 1 (.opened (.ok true))),
        .act (.wake 1 (.incoming (some (.text "\x7b\"seq\":1,\"kind\":\"user\"\x7d"))))]
    let start := new endpoint .default
    (start.runStoring refusing () ticks).failures = [⟨"s1", 1, refusal⟩] ∧
      (start.runStoring .memory .empty ticks).failures = [] ∧
      ((start.runStoring .memory .empty ticks).cursors.load "s1") = 1 :=
  ⟨rfl, rfl, rfl⟩

end Clocked

end RemoteSession
