import RemoteSession.Proofs.Session.Parts
import RemoteSession.Proofs.Stream.Attendance
import RemoteSession.Proofs.Timeline.Caps

/-!
# A view shows one attachment

What a view is to show is told by what happened to it (`Scene.ofEntries`) : the session
given to the last attachment, the run that this attachment began, and since then the
events that this run accepted and the echoes of lines, in order. Whoever's turn it is
between the parts of a call, the view shows that and nothing else : its timeline is the
fold of these inputs from an empty one, the state and the exit code of its session are the
last that the events tell, and only the cursor of the session that is attached changes, or
one that is forgotten (`Stage.shows_attached`).

The order of the parts is what carries this. The run before is silenced first, so that no
run is left that could show anything when the timeline is emptied (`Pending`), and only
then does a run begin.
-/

namespace RemoteSession

/-- Cursors that the operations on others leave alone. -/
structure CursorService.Separate {σ : Type} (service : CursorService σ) : Prop where
  store : ∀ cursors {id other : String} (seq : UInt64), id ≠ other →
    service.load (service.store cursors id seq) other = service.load cursors other
  reset : ∀ cursors {id other : String}, id ≠ other →
    service.load (service.reset cursors id) other = service.load cursors other

theorem CursorService.separate_memory : CursorService.memory.Separate where
  store cursors id other seq hne := by
    simp only [memory, MemoryCursorStore.load, MemoryCursorStore.store, Cursors.load,
      Keyed.get?_insert, if_neg hne]
  reset cursors id other hne := by
    simp only [memory, MemoryCursorStore.load, MemoryCursorStore.reset, Cursors.load,
      Keyed.get?_erase, if_neg hne]

/-- A store in a file keeps cursors apart also where it could not be written. -/
theorem CursorService.separate_file (disk : Disk) : (CursorService.file disk).Separate where
  store cursors id other seq hne := by
    simp only [file, StoredCursors.ofOutcome, FileCursorStore.store, FileCursorStore.load]
    split
    · rfl
    · simp only [Cursors.load, Keyed.get?_insert, if_neg hne]
  reset cursors id other hne := by
    simp only [file, StoredCursors.ofOutcome, FileCursorStore.reset, FileCursorStore.load]
    split
    · simp only [Cursors.load, Keyed.get?_erase, if_neg hne]
    · rfl

/-! ## What events tell of a session -/

/-- The state that an event tells, if it tells one. -/
def Event.state? (e : Event) : Option String :=
  match e.body with
  | .status state _ => if state = "" then none else some state
  | _ => none

/-- The exit code that an event tells, if it tells one. -/
def Event.exitCode? (e : Event) : Option Int64 :=
  match e.body with
  | .status _ exitCode => exitCode
  | _ => none

/-- The last of what some events tell. -/
def Event.last? {α : Type} (tells : Event → Option α) (events : List Event) : Option α :=
  (events.filterMap tells).getLast?

theorem Event.last?_concat {α : Type} (tells : Event → Option α) (events : List Event)
    (e : Event) : last? tells (events ++ [e]) = (tells e).or (last? tells events) := by
  rw [last?, last?, List.filterMap_append, List.getLast?_append]
  cases h : tells e <;> simp [h]

/-- A session with the last state and the last exit code that some events tell. -/
def SessionMeta.during (m : SessionMeta) (events : List Event) : SessionMeta :=
  { m with
    state := (Event.last? Event.state? events).getD m.state
    exitCode := (Event.last? Event.exitCode? events).or m.exitCode }

theorem SessionMeta.after_eq (m : SessionMeta) (e : Event) :
    m.after e =
      { m with state := e.state?.getD m.state, exitCode := e.exitCode?.or m.exitCode } := by
  unfold after Event.state? Event.exitCode?
  cases e.body with
  | status state exitCode => by_cases hstate : state = "" <;> simp [hstate]
  | _ => rfl

theorem SessionMeta.during_concat (m : SessionMeta) (events : List Event) (e : Event) :
    m.during (events ++ [e]) = (m.during events).after e := by
  rw [after_eq]
  simp only [during, Event.last?_concat, Option.getD_or, Option.or_assoc]

theorem SessionMeta.during_append (m : SessionMeta) (xs ys : List Event) :
    m.during (xs ++ ys) = ys.foldl after (m.during xs) := by
  induction ys generalizing xs with
  | nil => rw [List.append_nil, List.foldl_nil]
  | cons e rest ih =>
    rw [List.append_cons, ih, during_concat, List.foldl_cons]

/-! ## Scenes -/

/-- What happens to what a view shows. -/
inductive Entry where
  /-- The view is emptied for a session, or for none. -/
  | reset (session : Option SessionMeta)
  | begun (generation : Nat)
  /-- The run of a generation accepts an event. -/
  | accepted (generation : Nat) (event : Event)
  | echo (text : String) (seq : UInt64) (tsMs : Int64)

/-- What a view is to show. -/
structure Scene where
  /-- The session as it was given to the last attachment, none after a detachment. -/
  given : Option SessionMeta
  /-- The generation of the run that the last attachment began. -/
  run : Option Nat
  inputs : List Timeline.Input

namespace Scene

/-- Nothing to show. -/
def blank : Scene := ⟨none, none, []⟩

/-- The scene after an entry. Events that another run accepted are not shown. -/
def note (s : Scene) : Entry → Scene
  | .reset session => ⟨session, none, []⟩
  | .begun g => { s with run := some g }
  | .accepted g e => if s.run = some g then { s with inputs := s.inputs ++ [.event e] } else s
  | .echo text seq tsMs => { s with inputs := s.inputs ++ [.echo text seq tsMs] }

/-- The scene of some entries. -/
def ofEntries (entries : List Entry) : Scene :=
  entries.foldl note blank

/-- The events that are shown. -/
def events (s : Scene) : List Event :=
  s.inputs.filterMap fun
    | .event e => some e
    | .echo .. => none

/-- The session with what the events tell of it. -/
def session? (s : Scene) : Option SessionMeta :=
  s.given.map (·.during s.events)

/-- The scene with some events more. -/
def showing (s : Scene) (events : List Event) : Scene :=
  { s with inputs := s.inputs ++ events.map .event }

theorem showing_nil (s : Scene) : s.showing [] = s := by
  rw [showing, List.map_nil, List.append_nil]

theorem events_showing (s : Scene) (events : List Event) :
    (s.showing events).events = s.events ++ events := by
  simp [showing, Scene.events, List.filterMap_append, List.filterMap_map]

theorem session?_showing (s : Scene) (events : List Event) :
    (s.showing events).session? = s.session?.map fun m => events.foldl SessionMeta.after m := by
  rw [session?, session?, events_showing, Option.map_map]
  simp only [SessionMeta.during_append]
  rfl

end Scene

/-- Whether a part of a call may come last with nothing to see to before it. -/
def Part.alone : Part → Bool
  | .silence => false
  | .present _ => false
  | .follow _ _ => false
  | .halt => false
  | .blank => false
  | _ => true

namespace SessionView

variable {σ : Type} (service : CursorService σ) (v : SessionView σ)

/-- What a part of a call has to do with what the view shows. -/
def entries : Part → List Entry
  | .present m => [.reset (some m)]
  | .blank => [.reset none]
  | .follow session cursor =>
    [.begun (v.system.step (.attach session cursor)).1.client.generation]
  | .record echo seq tsMs => [.echo echo seq tsMs]
  | _ => []

/-- The events that a run accepts when it is woken. -/
def acceptances : Action → List Entry
  | .wake g w => (Notice.events (v.system.step (.wake g w)).2).map (.accepted g)
  | _ => []

end SessionView

namespace Stage

variable {σ : Type} (service : CursorService σ)

/-- What a turn has to do with what the view shows. -/
def entries (p : Stage σ) : Turn → List Entry
  | .go =>
    match p.rest with
    | [] => []
    | part :: _ => p.view.entries part
  | .act a =>
    match a.own? with
    | some own => p.view.acceptances own
    | none => []

/-- What some turns have to do with what the view shows. -/
def log (p : Stage σ) : List Turn → List Entry
  | [] => []
  | turn :: rest => p.entries turn ++ (p.step service turn).log rest

end Stage

namespace SessionView

variable {σ : Type} {service : CursorService σ} {v : SessionView σ}

/-! ## Actions of the client -/

theorem timeline_hearAll (v : SessionView σ) (notices : List Notice) :
    (v.hearAll service notices).1.timeline =
      (Notice.events notices).foldl Timeline.reduce v.timeline := by
  induction notices generalizing v with
  | nil => rfl
  | cons notice rest ih => cases notice <;> exact ih _

theorem session_hearAll (v : SessionView σ) (notices : List Notice) :
    (v.hearAll service notices).1.session =
      v.session.map fun m => (Notice.events notices).foldl SessionMeta.after m := by
  induction notices generalizing v with
  | nil => simp [hearAll, Notice.events]
  | cons notice rest ih =>
    cases notice with
    | event e =>
      have hrest := ih (v.showEvent e).1
      rw [showEvent, Option.map_map] at hrest
      exact hrest
    | _ => exact ih _

theorem timeline_act (v : SessionView σ) (a : Action) :
    (v.act service a).1.timeline =
      (Notice.events (v.system.step a).2).foldl Timeline.reduce v.timeline :=
  timeline_hearAll ..

theorem session_act (v : SessionView σ) (a : Action) :
    (v.act service a).1.session =
      v.session.map fun m => (Notice.events (v.system.step a).2).foldl SessionMeta.after m :=
  session_hearAll ..

/-- What a view shows is its scene. -/
structure Shows (limits : Timeline.Config) (v : SessionView σ) (scene : Scene) : Prop where
  sound : v.system.Sound
  timeline : v.timeline = Timeline.ofInputs limits scene.inputs
  session : v.session = scene.session?
  /-- A run of the current generation is the one that the scene is of. -/
  run : ∀ t ∈ v.system.tasks, t.run.generation = v.system.client.generation →
    scene.run = some t.run.generation
  /-- The run that the scene is of follows the session that is attached. -/
  owner : ∀ t ∈ v.system.tasks, scene.run = some t.run.generation →
    v.attached = some t.run.session

/-- No run is left that could show or keep anything. -/
def Quiet (v : SessionView σ) : Prop :=
  ∀ t ∈ v.system.tasks, t.run.generation ≠ v.system.client.generation

variable {limits : Timeline.Config} {scene : Scene} {a : Action}

theorem Shows.new (endpoint : Endpoint) (config : StreamConfig) (limits : Timeline.Config)
    (cursors : σ) : Shows limits (new endpoint config limits cursors) .blank where
  sound := .new endpoint config
  timeline := rfl
  session := rfl
  run _ ht := nomatch ht
  owner _ ht := nomatch ht

/-- What the client does on its own or in a part of a call, unless it begins a run. -/
theorem Shows.act (service : CursorService σ) (hv : v.Shows limits scene)
    (ha : ∀ session cursor, a ≠ .attach session cursor) :
    Shows limits (v.act service a).1
      (scene.showing (Notice.events (v.system.step a).2)) := by
  obtain ⟨hsystem, hattached, -, -⟩ := act_eq (v := v) service a
  refine ⟨hsystem ▸ hv.sound.step a, ?_, ?_, fun t ht hg => ?_, fun t ht hrun => ?_⟩
  · rw [timeline_act, hv.timeline]
    simp only [Scene.showing, Timeline.ofInputs, List.foldl_append, List.foldl_map]
    rfl
  · rw [session_act, hv.session, Scene.session?_showing]
  · rw [hsystem] at ht hg
    obtain ⟨u, hu, hug, -⟩ := System.origin hv.sound ha ht
    exact hug ▸ hv.run u hu (System.generation_of_mem hv.sound a hu (hug.trans hg))
  · rw [hsystem] at ht
    obtain ⟨u, hu, hug, husession⟩ := System.origin hv.sound ha ht
    rw [hattached, hv.owner u hu (hrun.trans (congrArg some hug.symm)), husession]

/-- What the client does on its own shows what the run of the scene accepts, and nothing of
another run. -/
theorem Shows.wake (hv : v.Shows limits scene) (g : Nat) (w : Wake) :
    Shows limits (v.act service (.wake g w)).1
      ((v.acceptances (.wake g w)).foldl Scene.note scene) := by
  have hact := hv.act service (a := .wake g w) nofun
  have hnote : (v.acceptances (.wake g w)).foldl Scene.note scene =
      scene.showing (Notice.events (v.system.step (.wake g w)).2) := by
    by_cases hg : g = v.system.client.generation
    · cases System.advance hv.sound (a := .wake g w) nofun with
      | still hnone => simp [acceptances, hnone, Scene.showing]
      | told t e ht htg _ hevent =>
        have hrun : scene.run = some g := hg ▸ htg ▸ hv.run t ht htg
        simp [acceptances, hevent, Scene.showing, Scene.note, hrun]
    · have hsilent := (System.silent_of_ne hv.sound hg w).notices
      simp [acceptances, hsilent, Notice.events, Scene.showing]
  rw [hnote]
  exact hact

theorem Shows.still (service : CursorService σ) (hv : v.Shows limits scene)
    (ha : ∀ session cursor, a ≠ .attach session cursor) (hwake : ∀ g w, a ≠ .wake g w) :
    Shows limits (v.act service a).1 scene := by
  have hact := hv.act service ha
  rwa [System.events_of_not_wake hv.sound hwake, Scene.showing_nil] at hact

theorem Shows.own (hv : v.Shows limits scene) {b : ViewAction} (hb : b.own? = some a) :
    Shows limits (v.act service a).1 ((v.acceptances a).foldl Scene.note scene) := by
  cases b <;> cases hb
  · exact hv.wake _ _
  · exact hv.still service nofun nofun
  · exact hv.still service nofun nofun

/-- A run that begins is the one that the scene is of then. -/
theorem Shows.follow (hv : v.Shows limits scene) {session : String}
    (hattached : v.attached = some session) (cursor : UInt64) :
    Shows limits (v.act service (.attach session cursor)).1
      (scene.note
        (.begun (v.system.step (.attach session cursor)).1.client.generation)) := by
  obtain ⟨hsystem, hattached', -, -⟩ := act_eq (v := v) service (.attach session cursor)
  have hbegun := System.begun hv.sound session cursor
  refine ⟨hsystem ▸ hv.sound.step _, ?_, ?_, fun t ht hg => ?_, fun t ht hrun => ?_⟩
  · rw [timeline_act, hbegun.events]
    exact hv.timeline
  · rw [session_act, hbegun.events, hv.session]
    simp only [List.foldl_nil, Option.map_id']
    rfl
  · rw [hsystem] at hg
    exact congrArg some hg.symm
  · rw [hsystem] at ht
    have hg : t.run.generation = (v.system.step (.attach session cursor)).1.client.generation :=
      (Option.some.inj hrun).symm
    rw [hattached', hattached, hbegun.session t ht hg]

theorem Shows.config (hv : v.Shows limits scene) : v.timeline.config = limits := by
  rw [hv.timeline]
  exact ((Timeline.IsEnd.empty limits).takeAll scene.inputs).config

/-- The view emptied for a session or for none, when no run is left. -/
theorem Shows.reset (hv : v.Shows limits scene) (hquiet : v.Quiet) (session : Option SessionMeta) :
    Shows limits { v with session := session, timeline := v.timeline.clear }
      (scene.note (.reset session)) := by
  refine ⟨hv.sound, ?_, ?_, fun t ht hg => absurd hg (hquiet t ht), fun t _ hrun => nomatch hrun⟩
  · rw [Timeline.clear, hv.config]
    rfl
  · cases session <;> rfl

theorem Shows.echo (hv : v.Shows limits scene) (text : String) (seq : UInt64) (tsMs : Int64) :
    Shows limits { v with timeline := (v.timeline.recordLocalInput text seq tsMs).1 }
      (scene.note (.echo text seq tsMs)) := by
  refine ⟨hv.sound, ?_, ?_, hv.run, hv.owner⟩
  · rw [hv.timeline, Timeline.ofInputs, Timeline.ofInputs, Scene.note, List.foldl_append]
    rfl
  · rw [hv.session, Scene.session?, Scene.session?, Scene.events, Scene.events]
    simp [Scene.note]

/-! ## Parts of calls -/

/-- The parts that are left of a call, and what the parts before them saw to: no run is left
when the view is emptied, and a run begins for the session that is attached. -/
inductive Pending (v : SessionView σ) : List Part → Prop where
  | done : Pending v []
  | forget (m : SessionMeta) (cursor : UInt64) :
    Pending v [.forget m.id, .silence, .present m, .follow m.id cursor]
  | silence (m : SessionMeta) (cursor : UInt64) :
    Pending v [.silence, .present m, .follow m.id cursor]
  | present (m : SessionMeta) (cursor : UInt64) : v.Quiet →
    Pending v [.present m, .follow m.id cursor]
  | follow (session : String) (cursor : UInt64) : v.Quiet → v.attached = some session →
    Pending v [.follow session cursor]
  | halt : Pending v [.halt]
  | leave : Pending v [.halt, .blank]
  | blank : v.Quiet → Pending v [.blank]
  | last (part : Part) : part.alone = true → Pending v [part]

theorem Pending.toList {α : Type} (f : α → Part) (hf : ∀ x, (f x).alone = true) (o : Option α) :
    v.Pending (o.map f).toList := by
  cases o with
  | none => exact .done
  | some x => exact .last (f x) (hf x)

theorem pending_parts (v : SessionView σ) (a : ViewAction) : v.Pending (v.parts service a) := by
  cases a with
  | attach m => exact .silence m _
  | attachFresh m => exact .forget m 0
  | stop => exact .halt
  | detach => exact .leave
  | rawMode on => exact .last _ rfl
  | line text tsMs => exact .toList (fun line => .say line tsMs) (fun _ => rfl) _
  | keys octets => exact .toList .send (fun _ => rfl) _
  | send m => exact .last _ rfl
  | resize cols rows => exact .last _ rfl
  | _ => exact .done

theorem quiet_begins (hs : v.system.Sound) (ha : a = .supersede ∨ a = .stop) :
    (v.act service a).1.Quiet := by
  obtain ⟨hsystem, -⟩ := act_eq (v := v) service a
  rw [Quiet, hsystem]
  rcases ha with rfl | rfl <;>
    exact System.not_current_cancelAll (hs.step _) rfl

/-- What the client does on its own leaves a call where it is. -/
theorem Pending.own {rest : List Part} (h : v.Pending rest) (hs : v.system.Sound)
    (ha : a.begins = false) : (v.act service a).1.Pending rest := by
  obtain ⟨hsystem, hattached, -, -⟩ := act_eq (v := v) service a
  have hquiet : v.Quiet → (v.act service a).1.Quiet := fun hnone => by
    rw [Quiet, hsystem]
    exact System.no_run_step hs hnone ha
  cases h with
  | done => exact .done
  | forget m cursor => exact .forget m cursor
  | silence m cursor => exact .silence m cursor
  | present m cursor hnone => exact .present m cursor (hquiet hnone)
  | follow session cursor hnone heq =>
    exact .follow session cursor (hquiet hnone) (hattached.trans heq)
  | halt => exact .halt
  | leave => exact .leave
  | blank hnone => exact .blank (hquiet hnone)
  | last part halone => exact .last part halone

/-- A part that comes last leaves the scene alone but for an echo, and calls at most for
another of its kind. -/
theorem Shows.alone (hv : v.Shows limits scene) {part : Part} (h : part.alone = true) :
    Shows limits (v.perform service part).1 ((v.entries part).foldl Scene.note scene) ∧
      (v.perform service part).1.Pending ((v.perform service part).2 ++ []) := by
  have hsend : ∀ m, Shows limits (v.send m).1 scene := fun m =>
    hv.still service (a := .send m) nofun nofun
  rw [List.append_nil]
  cases part with
  | forget session => exact ⟨⟨hv.sound, hv.timeline, hv.session, hv.run, hv.owner⟩, .done⟩
  | rawMode on => exact ⟨⟨hv.sound, hv.timeline, hv.session, hv.run, hv.owner⟩, .done⟩
  | say line tsMs =>
    refine ⟨hsend line.message, ?_⟩
    simp only [SessionView.perform]
    split
    · exact .last _ rfl
    · exact .done
  | mark echo tsMs => exact ⟨hv, .last _ rfl⟩
  | record echo seq tsMs => exact ⟨hv.echo echo seq tsMs, .done⟩
  | send m => exact ⟨hsend m, .done⟩
  | resize cols rows =>
    refine ⟨hv.still service (a := .setViewport cols rows) ?_ ?_, .done⟩
    · rintro session cursor ⟨⟩
    · rintro g w ⟨⟩
  | silence => cases h
  | present => cases h
  | follow => cases h
  | halt => cases h
  | blank => cases h

/-- A part of a call is done: the view shows the scene after it, and the parts that are
left can rely on what it saw to. -/
theorem Shows.perform (hv : v.Shows limits scene) {part : Part} {rest : List Part}
    (h : v.Pending (part :: rest)) :
    Shows limits (v.perform service part).1 ((v.entries part).foldl Scene.note scene) ∧
      (v.perform service part).1.Pending ((v.perform service part).2 ++ rest) := by
  cases h with
  | forget m cursor =>
    exact ⟨⟨hv.sound, hv.timeline, hv.session, hv.run, hv.owner⟩, .silence m cursor⟩
  | silence m cursor =>
    exact ⟨hv.still service nofun nofun, .present m cursor (quiet_begins hv.sound (.inl rfl))⟩
  | present m cursor hquiet => exact ⟨hv.reset hquiet (some m), .follow m.id cursor hquiet rfl⟩
  | follow session cursor _ hattached => exact ⟨hv.follow hattached cursor, .done⟩
  | halt => exact ⟨hv.still service nofun nofun, .done⟩
  | leave => exact ⟨hv.still service nofun nofun, .blank (quiet_begins hv.sound (.inr rfl))⟩
  | blank hquiet =>
    refine ⟨hv.reset hquiet none, ?_⟩
    simp only [SessionView.perform, List.append_nil]
    exact .toList (fun m : SessionMeta => .forget m.id) (fun _ => rfl) _
  | last _ halone => exact hv.alone halone

/-! ## Cursors -/

/-- Without a cursor to keep all are as they were. -/
theorem cursors_of_persists_nil (h : Notice.persists (v.system.step a).2 = []) :
    (v.act service a).1.cursors = v.cursors := by
  obtain ⟨-, -, hcursors, -⟩ := act_eq (v := v) service a
  rw [hcursors, service.after_eq, h, List.foldl_nil]

/-- The client keeps no cursor but that of the session that is attached, so that what cursors of
other sessions do not change is as it was. -/
theorem Shows.observed_act {α : Type} (hv : v.Shows limits scene) (observe : σ → α) {id : String}
    (hobserve : ∀ cursors {other : String} (seq : UInt64), other ≠ id →
      observe (service.store cursors other seq) = observe cursors) (a : Action)
    (hid : v.attached ≠ some id) : observe (v.act service a).1.cursors = observe v.cursors := by
  by_cases ha : ∃ session cursor, a = .attach session cursor
  · obtain ⟨session, cursor, rfl⟩ := ha
    rw [cursors_of_persists_nil (System.begun hv.sound session cursor).persists]
  · cases System.advance hv.sound fun session cursor h => ha ⟨session, cursor, h⟩ with
    | still _ hkept => rw [cursors_of_persists_nil hkept]
    | told t e ht hg _ _ hkept =>
      obtain ⟨-, -, hcursors, -⟩ := act_eq (v := v) service a
      have hsession := hv.owner t ht (hv.run t ht hg)
      have hne : t.run.session ≠ id := fun h => hid (hsession.trans (congrArg some h))
      rw [hcursors, service.after_eq, hkept]
      exact hobserve v.cursors e.seq hne

theorem Shows.load_act (hv : v.Shows limits scene) (hservice : service.Separate) (a : Action)
    {id : String} (hid : v.attached ≠ some id) :
    service.load (v.act service a).1.cursors id = service.load v.cursors id :=
  hv.observed_act (fun cursors => service.load cursors id)
    (fun cursors _ seq hne => hservice.store cursors seq hne) a hid

/-- A part of a call keeps no cursor, and forgets one at most. -/
theorem Shows.load_perform (hv : v.Shows limits scene) (hservice : service.Separate)
    {part : Part} {id : String} (hid : v.attached ≠ some id) (hpart : part ≠ .forget id) :
    service.load (v.perform service part).1.cursors id = service.load v.cursors id := by
  cases part with
  | silence => exact hv.load_act hservice .supersede hid
  | follow session cursor => exact hv.load_act hservice (.attach session cursor) hid
  | halt => exact hv.load_act hservice .stop hid
  | forget session => exact hservice.reset v.cursors fun h => hpart (congrArg Part.forget h)
  | _ => rfl

end SessionView

namespace Stage

variable {σ : Type} {service : CursorService σ} {limits : Timeline.Config}

/-! ## Turns -/

theorem shows_step (service : CursorService σ) {p : Stage σ} {scene : Scene}
    (hv : p.view.Shows limits scene) (hp : p.view.Pending p.rest) (turn : Turn) :
    (p.step service turn).view.Shows limits ((p.entries turn).foldl Scene.note scene) ∧
      (p.step service turn).view.Pending (p.step service turn).rest := by
  obtain ⟨v, rest⟩ := p
  cases turn with
  | go =>
    cases rest with
    | nil => exact ⟨hv, hp⟩
    | cons part rest => exact hv.perform hp
  | act b =>
    cases hown : b.own? with
    | some a =>
      simp only [step, entries, hown]
      exact ⟨hv.own hown, hp.own hv.sound (ViewAction.begins_of_own? hown)⟩
    | none =>
      simp only [step, entries, hown]
      cases rest with
      | nil => exact ⟨hv, SessionView.pending_parts v b⟩
      | cons part rest => exact ⟨hv, hp⟩

theorem shows_after {p : Stage σ} {scene : Scene} (hv : p.view.Shows limits scene)
    (hp : p.view.Pending p.rest) (turns : List Turn) :
    (p.after service turns).view.Shows limits ((p.log service turns).foldl Scene.note scene) := by
  induction turns generalizing p scene with
  | nil => exact hv
  | cons turn rest ih =>
    obtain ⟨hview, hpending⟩ := shows_step service hv hp turn
    have hrest := ih hview hpending
    rw [← List.foldl_append] at hrest
    exact hrest

/-- A turn changes no cursor but that of the session that is attached, or one that a call
forgets. -/
theorem load_step {p : Stage σ} {scene : Scene} (hv : p.view.Shows limits scene)
    (hservice : service.Separate) (turn : Turn) {id : String}
    (hid : p.view.attached ≠ some id)
    (hturn : turn = .go → p.rest.head? ≠ some (.forget id)) :
    service.load (p.step service turn).view.cursors id = service.load p.view.cursors id := by
  cases p.takes service turn with
  | idle hstep => rw [hstep]
  | part part rest hgo hrest hstep =>
    rw [hstep]
    exact hv.load_perform hservice hid fun h => hturn hgo (by rw [hrest, h]; rfl)
  | own b a _ _ hstep =>
    rw [hstep]
    exact hv.load_act hservice a hid
  | call b _ _ hstep => rw [hstep]

/-- Whatever is attached, attached anew, stopped, left and sent, in any order, and whatever
runs do between the parts of it: the timeline is the fold, from an empty one, of the events
that the run of the last attachment accepted and of the echoes since then, in order; the
session is the one given to that attachment, with the last state and the last exit code that
those events tell, and none after a detachment; that run follows that session; and no turn
changes a cursor but that of the session that is attached or one that is being forgotten. -/
theorem shows_attached (hservice : service.Separate) (endpoint : Endpoint)
    (config : StreamConfig) (limits : Timeline.Config) (cursors : σ) (turns : List Turn) :
    let start := new endpoint config limits cursors
    let p := start.after service turns
    let scene := Scene.ofEntries (start.log service turns)
    p.view.timeline = Timeline.ofInputs limits scene.inputs ∧
      p.view.session = scene.given.map (·.during scene.events) ∧
      (∀ t ∈ p.view.system.tasks, scene.run = some t.run.generation →
        scene.given.map SessionMeta.id = some t.run.session) ∧
      ∀ turn id,
        service.load (p.step service turn).view.cursors id ≠ service.load p.view.cursors id →
          p.view.attached = some id ∨ turn = .go ∧ p.rest.head? = some (.forget id) := by
  intro start p scene
  have hv : p.view.Shows limits scene :=
    shows_after (.new endpoint config limits cursors) .done turns
  refine ⟨hv.timeline, hv.session, fun t ht hrun => ?_, fun turn id hchanged => ?_⟩
  · have howner := hv.owner t ht hrun
    rw [SessionView.attached, hv.session, Scene.session?, Option.map_map] at howner
    exact howner
  · by_cases hid : p.view.attached = some id
    · exact .inl hid
    by_cases hforgets : turn = .go ∧ p.rest.head? = some (.forget id)
    · exact .inr hforgets
    · exact absurd (load_step hv hservice turn hid fun h h' => hforgets ⟨h, h'⟩) hchanged

/-- Another session is attached while frames of the one before still come: one before its
run is silenced, one before the view is emptied and one after that. Only what the new run
takes is shown, and the cursor of the session before stays at its first event. -/
theorem shows_attached_late_frames :
    let endpoint : Endpoint := ⟨⟨.http, "", none, .name "localhost", none, [""], none, none⟩, none⟩
    let late : Nat → Turn := fun g =>
      .act (.wake g (.incoming (some (.text "\x7b\"seq\":2,\"kind\":\"error\"\x7d"))))
    let turns : List Turn :=
      [.act (.attach ⟨"s1", "", "", "", none⟩), .go, .go, .go, .act (.wake 2 .start),
        .act (.wake 2 (.ticket (.ok "t"))), .act (.wake 2 (.opened (.ok true))),
        .act (.attach ⟨"s2", "", "", "", none⟩),
        .act (.wake 2 (.incoming (some (.text "\x7b\"seq\":1,\"kind\":\"error\"\x7d")))), .go,
        late 2, .go, late 2, .go, .act (.wake 4 .start), .act (.wake 4 (.ticket (.ok "u"))),
        .act (.wake 4 (.opened (.ok true))),
        .act (.wake 4 (.incoming (some (.text
          "\x7b\"seq\":7,\"kind\":\"status\",\"payload\":\x7b\"state\":\"busy\"\x7d\x7d"))))]
    let start := new endpoint .default ⟨10, none⟩ MemoryCursorStore.empty
    let p := start.after .memory turns
    let scene := Scene.ofEntries (start.log .memory turns)
    p.view.timeline.items.map Timeline.Item.text = ["busy"] ∧
      p.view.session = some ⟨"s2", "", "", "busy", none⟩ ∧
      p.view.cursors.load "s1" = 1 ∧ p.view.cursors.load "s2" = 7 ∧
      p.view.timeline = Timeline.ofInputs ⟨10, none⟩ scene.inputs ∧
      p.view.session = scene.given.map (·.during scene.events) :=
  ⟨by decide +kernel, by decide +kernel, by decide +kernel, by decide +kernel,
    (shows_attached CursorService.separate_memory _ _ _ _ _).1,
    (shows_attached CursorService.separate_memory _ _ _ _ _).2.1⟩

end Stage

end RemoteSession
