import RemoteSession.Proofs.Stream.Soundness
import RemoteSession.Proofs.Stream.Clocked

/-!
# Reports of states

A step tells at most one state, and tells one exactly when the state changes. There
are five causes of it (`System.Cause`) : an attachment, a stop, a connection that
opens, a failure, and the last event of the session; all but the calls belong to a
run of the current generation (`System.told_step`). A run that waits for something is
not moved by anything else (`System.step_of_not_awaits`).
-/

namespace RemoteSession

/-- The state that a notice tells. -/
def Notice.state? : Notice → Option ConnectionState
  | .state shown => some shown
  | _ => none

/-- The states that are told, in order. -/
def Notice.states (notices : List Notice) : List ConnectionState :=
  notices.filterMap Notice.state?

namespace System

variable {s : System}

/-- Whether an action is a connection that opens for the run of the current generation. -/
def opens (s : System) : Action → Bool
  | .wake g (.opened (.ok _)) =>
    g == s.client.generation && s.wait? g == some .opening
  | _ => false

/-- Whether an action is a failure of the run of the current generation: no ticket, no
connection, or the end of its connection. -/
def fails (s : System) : Action → Bool
  | .wake g w =>
    g == s.client.generation && (s.task? g).any fun t => (t.run.failure? w).isSome
  | _ => false

/-- An action is the last event of the session, not seen before, which the run of the
current generation takes. -/
def Exits (s : System) (a : Action) : Prop :=
  ∃ link content e, s.wait? s.client.generation = some (.frames link) ∧
    a = .wake s.client.generation (.incoming (some (.text content))) ∧
      Event.decode? content = some e ∧ s.client.gate.cursor < e.seq ∧ e.body.isTerminal = true

/-- Why a state is told. -/
inductive Cause (s : System) (a : Action) : ConnectionState → Prop where
  | attached (session : String) (cursor : UInt64) : a = .attach session cursor →
    Cause s a .connecting
  | stopped : a = .stop → Cause s a (.closed Client.stoppedReason)
  | connected : s.opens a = true → Cause s a .connected
  | lost (t : Task) (w : Wake) (reason : String) : a = .wake s.client.generation w →
    s.task? s.client.generation = some t → t.run.failure? w = some reason →
    Cause s a (.reconnecting (Client.nextAttempt t.run.failures))
  | exited : s.Exits a → Cause s a (.closed Client.exitedReason)

/-- The two ways in which a step tells of states. -/
def Told (s : System) (a : Action) (out : System × List Notice) : Prop :=
  (Notice.states out.2 = [] ∧ out.1.client.state = s.client.state) ∨
    ∃ state, Notice.states out.2 = [state] ∧ state ≠ s.client.state ∧
      out.1.client.state = state ∧ Cause s a state

theorem opens_iff {a : Action} : s.opens a = true ↔
    (∃ accepts, a = .wake s.client.generation (.opened (.ok accepts))) ∧
      s.wait? s.client.generation = some .opening := by
  unfold opens
  split
  · next g accepts =>
    rw [Bool.and_eq_true, beq_iff_eq, beq_iff_eq]
    constructor
    · rintro ⟨rfl, hw⟩
      exact ⟨⟨accepts, rfl⟩, hw⟩
    · rintro ⟨⟨_, h⟩, hw⟩
      cases h
      exact ⟨rfl, hw⟩
  · next hne => exact ⟨nofun, fun ⟨⟨accepts, h⟩, _⟩ => absurd h (hne _ accepts)⟩

/-- A run that waits for a connection gets one, whether that takes frames or not. -/
theorem opens_of_task? {t : Task} (ht : s.task? s.client.generation = some t)
    (hwait : t.run.wait = .opening) (accepts : Bool) :
    s.opens (.wake s.client.generation (.opened (.ok accepts))) = true :=
  opens_iff.2 ⟨⟨accepts, rfl⟩, by simp [wait?, ht, hwait]⟩

theorem fails_iff {a : Action} : s.fails a = true ↔
    ∃ t w reason, a = .wake s.client.generation w ∧ s.task? s.client.generation = some t ∧
      t.run.failure? w = some reason := by
  constructor
  · intro h
    unfold fails at h
    split at h
    · next g w =>
      rw [Bool.and_eq_true, beq_iff_eq, Option.any_eq_true] at h
      obtain ⟨rfl, t, ht, hf⟩ := h
      obtain ⟨reason, hf⟩ := Option.isSome_iff_exists.1 hf
      exact ⟨t, w, reason, rfl, ht, hf⟩
    · cases h
  · rintro ⟨t, w, reason, rfl, ht, hf⟩
    simp [fails, ht, hf]

theorem task?_eq_of_wait? {g : Nat} {wait : Wait} (h : s.wait? g = some wait) :
    ∃ t, s.task? g = some t ∧ t.run.wait = wait :=
  Option.map_eq_some_iff.1 h

theorem told_of_cause {a : Action} {state : ConnectionState} {out : System × List Notice}
    (hcause : Cause s a state) (hstate : out.1.client.state = state)
    (hstates : Notice.states out.2 = if s.client.state = state then [] else [state]) :
    Told s a out := by
  by_cases h : s.client.state = state
  · rw [if_pos h] at hstates
    exact .inl ⟨hstates, hstate.trans h.symm⟩
  · rw [if_neg h] at hstates
    exact .inr ⟨state, hstates, Ne.symm h, hstate, hcause⟩

theorem states_state (state old : ConnectionState) :
    Notice.states (if old = state then [] else [.state state]) =
      if old = state then [] else [state] := by
  split <;> rfl

theorem told_wake (hs : s.Sound) (g : Nat) (w : Wake) :
    Told s (.wake g w) (s.step (.wake g w)) := by
  have hw := woken hs g w
  generalize s.step (.wake g w) = out at hw ⊢
  cases hw with
  | absent => exact .inl ⟨rfl, rfl⟩
  | late => exact .inl ⟨rfl, rfl⟩
  | closed => exact .inl ⟨rfl, rfl⟩
  | moved t next ht hcur _ hfits hmove =>
    subst hcur
    cases hmove with
    | connect accepts hwait =>
      obtain ⟨-, hf⟩ := hfits
      rw [hwait] at hf
      have hne : s.client.state ≠ .connected := by
        rw [hf.2, Client.attemptState]
        split <;> simp
      exact told_of_cause (.connected (opens_of_task? ht hwait accepts)) rfl
        (by rw [if_neg hne]; rfl)
    | lose w reason hl =>
      refine told_of_cause (.lost t w reason rfl ht hl) rfl ?_
      rw [Client.snd_setState, states_state]
    | exit link content e hwait hd hlt hterm =>
      obtain ⟨-, hf⟩ := hfits
      rw [hwait] at hf
      have hne : s.client.state ≠ .closed Client.exitedReason := by
        rw [hf.2.1]
        simp
      have hstate : (s.client.exited link e).state = .closed Client.exitedReason :=
        ((Client.Move.exit link content e hwait hd hlt hterm).ended rfl).2
      have hexits : s.Exits (.wake s.client.generation (.incoming (some (.text content)))) :=
        ⟨link, content, e, by simp [wait?, ht, hwait], rfl, hd, hlt, hterm⟩
      exact told_of_cause (.exited hexits) hstate (by rw [if_neg hne]; rfl)
    | _ => exact .inl ⟨rfl, rfl⟩

/-- A step tells at most one state, and tells one exactly when the state changes. -/
theorem told_step (hs : s.Sound) (a : Action) : Told s a (s.step a) := by
  cases a with
  | attach session cursor =>
    obtain ⟨links, -, hc, hn⟩ := s.client.attach_eq session cursor
    refine told_of_cause (.attached session cursor rfl) (by simp [step, hc]) ?_
    simp only [step, hn]
    exact states_state ..
  | stop =>
    obtain ⟨links, -, hc, hn⟩ := s.client.stop_eq
    by_cases hclosed : s.client.state.isClosed
    · exact .inl ⟨by simp [step, hn, hclosed, Notice.states], by simp [step, hc, hclosed]⟩
    · have hne : s.client.state ≠ .closed Client.stoppedReason := fun h => hclosed (by rw [h]; rfl)
      refine told_of_cause (.stopped rfl) (by simp [step, hc, hclosed]) ?_
      simp [step, hn, hclosed, hne, Notice.states, Notice.state?]
  | supersede =>
    obtain ⟨links, -, hc⟩ := s.client.supersede_eq
    exact .inl ⟨rfl, by simp [step, hc]⟩
  | send m =>
    obtain ⟨links, -, hc⟩ := s.client.send_eq m
    exact .inl ⟨rfl, by simp [step, hc]⟩
  | setViewport cols rows =>
    obtain ⟨links, -, hc⟩ := s.client.setViewport_eq cols rows
    exact .inl ⟨rfl, by simp [step, hc]⟩
  | wake g w => exact told_wake hs g w
  | drop g => exact .inl ⟨rfl, rfl⟩
  | refuse link => exact .inl ⟨rfl, rfl⟩

/-- What begins no generation and does not wake the current run with what it waits for
tells nothing and leaves the run as it was. -/
theorem step_of_not_awaits (hs : s.Sound) {t : Task} (ht : s.task? s.client.generation = some t)
    {a : Action} (hbegins : a.begins = false)
    (hw : ∀ w, a = .wake s.client.generation w → t.run.awaits w = false) :
    (s.step a).2 = [] ∧ (s.step a).1.task? s.client.generation = some t := by
  cases a with
  | attach => cases hbegins
  | stop => cases hbegins
  | supersede => cases hbegins
  | send m => exact ⟨rfl, ht⟩
  | setViewport cols rows => exact ⟨rfl, ht⟩
  | refuse link => exact ⟨rfl, ht⟩
  | drop g =>
    obtain ⟨hmem, hg⟩ := mem_of_task? ht
    have hkeep : t.cancelled = false := (hs.current t hmem).2 hg
    have hmem' : t ∈ (s.step (.drop g)).1.tasks := by simp [step, hmem, hkeep]
    exact ⟨rfl, hg ▸ task?_of_mem (hs.step (.drop g)) hmem'⟩
  | wake g w =>
    by_cases hcur : g = s.client.generation
    · subst hcur
      have hwake := Client.wake_of_not_awaits (c := s.client) (hw w rfl)
      refine ⟨by simp only [step, ht, hwake], ?_⟩
      exact task?_step_wake hs ht (by rw [hwake]) (mem_of_task? ht).2
    · have hout := woken hs g w
      generalize s.step (.wake g w) = out at hout ⊢
      cases hout with
      | absent => exact ⟨rfl, ht⟩
      | late u run hu _ hor =>
        refine ⟨rfl, (find?_replace_of_ne (fun r hr => ?_) (Ne.symm hcur)).trans ht⟩
        rcases hor with rfl | rfl
        · cases hr
        · cases hr
          exact (mem_of_task? hu).2
      | closed u =>
        have hnone : ∀ r, (none : Option Run) = some r → r.generation = g := by
          rintro r ⟨⟩
        exact ⟨rfl, (find?_replace_of_ne hnone (Ne.symm hcur)).trans ht⟩
      | moved u next _ h => exact absurd h hcur

end System

end RemoteSession
