import RemoteSession.Proofs.Stream.Lifecycle

/-!
# A client is never stuck

As long as a client that was attached is neither idle nor closed, exactly one run of the
current generation is alive and goes on with its work (`Clocked.Attended`) : it waits for
a ticket, a connection, a frame or a timer that is still to go off, and the client is
connected exactly while the run takes the frames of the connection that takes what is
sent. A client that is idle, closed or silenced has neither a run nor a connection
(`Clocked.attended_of_attached`).

What this rests on is the call that began the current generation (`System.Owed`) : after
an attachment there is a run until the session is closed, and after any other call there
is none.
-/

namespace RemoteSession

/-- The call that began the current generation, after an action. -/
def Action.begun (last : Option Action) (a : Action) : Option Action :=
  if a.begins then some a else last

/-- The call that began the current generation, after something that happens. -/
def Tick.begun (last : Option Action) : Tick → Option Action
  | .act a => a.begun last
  | .pass _ => last

/-- The last call that began a generation. -/
def Tick.lastCall? (ticks : List Tick) : Option Action :=
  ticks.foldl Tick.begun none

namespace Client

variable {c : Client} {r : Run}

/-- A run takes the frames of a connection exactly while that takes what is sent. -/
theorem Fits.frames_iff (hf : c.Fits r) (link : Nat) :
    r.wait = .frames link ↔ c.outbound = some link := by
  obtain ⟨-, hf⟩ := hf
  cases hw : r.wait <;> rw [hw] at hf <;> simp [hf.1, eq_comm]

/-- A run takes the frames of a connection exactly while the client is connected. -/
theorem Fits.connected_iff (hf : c.Fits r) :
    (∃ link, r.wait = .frames link) ↔ c.state = .connected := by
  obtain ⟨-, hf⟩ := hf
  have hattempt : attemptState r.attempt ≠ .connected := by
    unfold attemptState
    split <;> exact nofun
  cases hw : r.wait <;> rw [hw] at hf <;> simp [hf.2, hattempt]

end Client

namespace System

variable {s : System} {last : Option Action}

/-- The runs of the current generation that are alive. -/
def current (s : System) : List Task :=
  s.tasks.filter fun t => t.run.generation == s.client.generation

theorem current_eq_nil_iff :
    s.current = [] ↔ ∀ t ∈ s.tasks, t.run.generation ≠ s.client.generation := by
  simp [current, List.filter_eq_nil_iff]

/-! ## Whether there is a run -/

/-- Whether there is a run, by the call that began the current generation. -/
def Owed (s : System) : Option Action → Prop
  | some (.attach _ _) =>
    (∃ t ∈ s.tasks, t.run.generation = s.client.generation) ∨ s.client.state.isClosed = true
  | _ => ∀ t ∈ s.tasks, t.run.generation ≠ s.client.generation

/-- A run of the current generation is there until the session is closed. -/
theorem run_step (hs : s.Sound) {t : Task} (ht : t ∈ s.tasks)
    (hg : t.run.generation = s.client.generation) {a : Action} (ha : a.begins = false) :
    (∃ u ∈ (s.step a).1.tasks, u.run.generation = (s.step a).1.client.generation) ∨
      (s.step a).1.client.state.isClosed = true := by
  have hgen := generation_step hs a
  rw [ha, Bool.toNat_false, Nat.add_zero] at hgen
  cases a with
  | attach => cases ha
  | stop => cases ha
  | supersede => cases ha
  | send m => exact .inl ⟨t, ht, hg.trans hgen.symm⟩
  | setViewport cols rows => exact .inl ⟨t, ht, hg.trans hgen.symm⟩
  | refuse link => exact .inl ⟨t, ht, hg⟩
  | drop g =>
    have hkeep : t.cancelled = false := (hs.current t ht).2 hg
    exact .inl ⟨t, List.mem_filter.2 ⟨ht, by simp [hkeep]⟩, hg⟩
  | wake g w =>
    have hw := woken hs g w
    generalize s.step (.wake g w) = out at hw hgen ⊢
    have hstays : ∀ run, g ≠ s.client.generation → t ∈ replace s.tasks g run := fun run hne =>
      mem_replace.2 (.inl ⟨ht, fun h => hne (h.symm.trans hg)⟩)
    cases hw with
    | absent => exact .inl ⟨t, ht, hg⟩
    | late u run _ hne => exact .inl ⟨t, hstays run hne, hg⟩
    | closed u _ hne => exact .inl ⟨t, hstays none hne, hg⟩
    | moved u next hu hcur _ _ hmove =>
      obtain ⟨hmem, hug⟩ := mem_of_task? hu
      cases hr : next.run with
      | none => exact .inr (by rw [(hmove.ended hr).2]; rfl)
      | some r =>
        refine .inl ⟨{ u with run := r }, mem_replace.2 (.inr ⟨u, hmem, hug, r, rfl, rfl⟩), ?_⟩
        exact ((hmove.run_eq hr).1.trans (hug.trans hcur)).trans hgen.symm

/-- Without a run of the current generation there is none before the next call that begins
one. -/
theorem no_run_step (hs : s.Sound) (hnone : ∀ t ∈ s.tasks, t.run.generation ≠ s.client.generation)
    {a : Action} (ha : a.begins = false) :
    ∀ t ∈ (s.step a).1.tasks, t.run.generation ≠ (s.step a).1.client.generation := by
  have habsent : ∀ t, s.task? s.client.generation ≠ some t := fun t ht =>
    hnone t (mem_of_task? ht).1 (mem_of_task? ht).2
  intro t ht hg
  have hfound := task?_of_mem (hs.step a) ht
  rw [hg] at hfound
  have hturned := turned hs (Action.ne_attach ha)
  generalize s.step a = out at hturned hfound
  cases hturned with
  | left _ _ _ _ hkept => exact habsent t (hkept t hfound)
  | moved u w next _ hu => exact habsent u hu

theorem owed_step (hs : s.Sound) (h : s.Owed last) (a : Action) :
    (s.step a).1.Owed (a.begun last) := by
  cases ha : a.begins with
  | false =>
    have hlast : a.begun last = last := by simp [Action.begun, ha]
    rw [hlast]
    unfold Owed at h ⊢
    split at h
    · rcases h with ⟨t, ht, hg⟩ | hclosed
      · exact run_step hs ht hg ha
      · rw [(step_of_isClosed hs hclosed (Action.ne_attach ha)).2]
        exact .inr hclosed
    · exact no_run_step hs h ha
  | true =>
    have hlast : a.begun last = some a := by simp [Action.begun, ha]
    rw [hlast]
    cases a with
    | attach session cursor =>
      exact .inl ⟨_, List.mem_append.2 (.inr (List.mem_singleton.2 rfl)), rfl⟩
    | stop => exact not_current_cancelAll (hs.step .stop) rfl
    | supersede => exact not_current_cancelAll (hs.step .supersede) rfl
    | _ => cases ha

end System

namespace Clocked

variable {c : Clocked} {t : Task}

/-- Nothing goes on by itself : no run that was not cancelled has still to begin, and none
has a timer that is due. -/
def Quiescent (c : Clocked) : Prop :=
  ∀ t ∈ c.system.tasks, t.cancelled = false →
    t.run.wait ≠ .start ∧ ∀ due, c.due? t.run.generation = some due → c.now < due

/-- A run is at work for a client. -/
structure Attended (c : Clocked) (t : Task) : Prop where
  /-- It is the only run of the current generation. -/
  alone : c.system.current = [t]
  /-- It waits for a ticket, a connection, a frame or a timer, and when the timer goes off
  it asks for the next ticket. -/
  waits : c.Quiescent → t.run.wait = .ticket ∨ t.run.wait = .opening ∨
    (∃ link, t.run.wait = .frames link) ∨
      (∃ ms, t.run.wait = .delay ms) ∧ ∃ due, c.now < due ∧ c.RequestsAt due
  /-- It takes frames exactly while the client is connected. -/
  connected : (∃ link, t.run.wait = .frames link) ↔ c.system.client.state = .connected
  /-- It takes the frames of the connection that takes what is sent. -/
  outbound : ∀ link, t.run.wait = .frames link ↔ c.system.client.outbound = some link

theorem attended_of_mem (hs : c.system.Sound) (ht : t ∈ c.system.tasks)
    (hg : t.run.generation = c.system.client.generation) : c.Attended t := by
  have hfits := hs.fits t ht hg
  refine ⟨?_, fun hquiet => ?_, hfits.connected_iff, hfits.frames_iff⟩
  · rw [System.current, ← hg]
    exact System.filter_generation hs.nodup ht
  · obtain ⟨hbegun, htimer⟩ := hquiet t ht ((hs.current t ht).2 hg)
    cases hw : t.run.wait with
    | start => exact absurd hw hbegun
    | ticket => exact .inl rfl
    | opening => exact .inr (.inl rfl)
    | frames link => exact .inr (.inr (.inl ⟨link, rfl⟩))
    | delay ms =>
      have hwait : c.system.wait? t.run.generation = some (.delay ms) := by
        rw [System.wait?, System.task?_of_mem hs ht, Option.map_some, hw]
      have hdue : c.due? t.run.generation = some (c.since t.run.generation + ms) :=
        due?_eq_some.2 ⟨ms, hwait, rfl⟩
      have hlater := htimer _ hdue
      have hwaits : c.Waits t.run.generation (c.since t.run.generation + ms) :=
        ⟨hs, hg.symm, hdue, Nat.le_of_lt hlater⟩
      exact .inr (.inr (.inr ⟨⟨ms, rfl⟩, _, hlater, requestsAt_of_waits hwaits⟩))

theorem owed_step {last : Option Action} (hs : c.system.Sound) (h : c.system.Owed last)
    (tick : Tick) : (c.step tick).1.system.Owed (tick.begun last) := by
  cases tick with
  | pass ms =>
    simp only [step]
    split <;> exact h
  | act a =>
    by_cases hallow : c.allows a = true
    · rw [step_act hallow]
      exact System.owed_step hs h a
    · have ha : a.begun last = last := by
        cases a with
        | wake g w => rfl
        | _ => exact absurd rfl hallow
      simpa [step, hallow, Tick.begun, ha] using h

theorem owed_run {last : Option Action} (hs : c.system.Sound) (h : c.system.Owed last)
    (ticks : List Tick) :
    (c.run ticks).1.system.Sound ∧ (c.run ticks).1.system.Owed (ticks.foldl Tick.begun last) := by
  induction ticks generalizing c last with
  | nil => exact ⟨hs, h⟩
  | cons tick rest ih => exact ih (sound_step hs tick) (owed_step hs h tick)

/-- Whatever happened to a client and whenever it did : if an attachment was the last call
to begin a generation and the client is at work, then exactly one run is at work for it;
and if it is idle or closed, or was silenced last, then it has no run and no connection. -/
theorem attended_of_attached (endpoint : Endpoint) (config : StreamConfig) (before : List Tick) :
    let c := ((new endpoint config).run before).1
    (∀ session cursor, Tick.lastCall? before = some (.attach session cursor) →
      c.system.client.state = .connecting ∨ c.system.client.state = .connected ∨
        (∃ k, c.system.client.state = .reconnecting k) → ∃ t, c.Attended t) ∧
    (c.system.client.state = .idle ∨ (∃ reason, c.system.client.state = .closed reason) ∨
      Tick.lastCall? before = some .supersede →
        c.system.current = [] ∧ c.system.client.outbound = none) := by
  intro c
  have hnew : (new endpoint config).system.Sound := System.Sound.new endpoint config
  have howed : (new endpoint config).system.Owed none := nofun
  obtain ⟨hs, h⟩ : c.system.Sound ∧ c.system.Owed (Tick.lastCall? before) :=
    owed_run hnew howed before
  constructor
  · intro session cursor hlast hstate
    rw [hlast] at h
    rcases h with ⟨t, ht, hg⟩ | hclosed
    · exact ⟨t, attended_of_mem hs ht hg⟩
    · rcases hstate with hstate | hstate | ⟨k, hstate⟩ <;>
      · rw [hstate] at hclosed
        cases hclosed
  · intro hcause
    have hnone : ∀ t ∈ c.system.tasks, t.run.generation ≠ c.system.client.generation := by
      rcases hcause with hidle | ⟨reason, hclosed⟩ | hlast
      · intro t ht hg
        rcases (hs.fits t ht hg).state_eq with hstate | hstate | ⟨k, hstate⟩ <;>
        · rw [hidle] at hstate
          cases hstate
      · intro t ht hg
        have hopen := (hs.fits t ht hg).not_isClosed
        rw [hclosed] at hopen
        cases hopen
      · rw [hlast] at h
        exact h
    exact ⟨System.current_eq_nil_iff.2 hnone, hs.idle hnone⟩

/-- A run waits after its ticket was refused, and is then silenced. -/
theorem attended_of_attached_refused :
    let endpoint : Endpoint := ⟨⟨.http, "", none, .name "localhost", none, [""], none, none⟩, none⟩
    let before : List Tick :=
      [.act (.attach "a" 0), .act (.wake 1 .start), .act (.wake 1 (.ticket (.error "no"))),
        .pass 100]
    let c := ((new endpoint .default).run before).1
    let silenced := ((new endpoint .default).run (before ++ [.act .supersede])).1
    Tick.lastCall? before = some (.attach "a" 0) ∧ c.system.client.state = .reconnecting 1 ∧
      c.Quiescent ∧ (∃ t, c.Attended t) ∧
      Tick.lastCall? (before ++ [.act .supersede]) = some .supersede ∧
      silenced.system.current = [] ∧ silenced.system.client.outbound = none := by
  intro endpoint before c silenced
  have hquiet : c.Quiescent := by
    have htasks : c.system.tasks = [⟨⟨1, "a", 0, .delay 500⟩, false⟩] := rfl
    have hvalue : c.due? 1 = some 500 := rfl
    have hnow : c.now = 100 := rfl
    intro t ht _
    rw [htasks, List.mem_singleton] at ht
    subst ht
    refine ⟨nofun, fun due hdue => ?_⟩
    rw [hvalue] at hdue
    cases hdue
    rw [hnow]
    decide
  have hstate : c.system.client.state = .reconnecting 1 := rfl
  have hwaiting :=
    (attended_of_attached endpoint .default before).1 "a" 0 rfl (.inr (.inr ⟨1, hstate⟩))
  have hsilenced :=
    (attended_of_attached endpoint .default (before ++ [.act .supersede])).2 (.inr (.inr rfl))
  exact ⟨rfl, hstate, hquiet, hwaiting, rfl, hsilenced⟩

end Clocked

end RemoteSession
