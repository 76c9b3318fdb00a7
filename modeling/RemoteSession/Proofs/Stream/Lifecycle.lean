import Mathlib.Data.List.Chain
import RemoteSession.Proofs.Stream.Failures
import RemoteSession.Proofs.Stream.Timers

/-!
# The life of a stream

The states that a client tells follow the life of a stream (`Clocked.Orderly`), whatever
happens and whenever it does. An attachment makes it connecting and a connection that
opens for its run connected; the failures in a row are told with their numbers, and the
next ticket is requested after the step of the backoff that belongs to the number; a stop or
the last event of the session closes it, and then nothing is told or asked for before the next
attachment. No state is told twice in a row (`Clocked.lifecycle`).
-/

namespace RemoteSession

namespace System

variable {s : System}

/-- Once it is closed, a stream stays so and nothing is told or asked for before the next
attachment. -/
theorem step_of_isClosed (hs : s.Sound) (hclosed : s.client.state.isClosed = true) {a : Action}
    (ha : ∀ session cursor, a ≠ .attach session cursor) :
    (s.step a).2 = [] ∧ (s.step a).1.client.state = s.client.state := by
  cases a with
  | attach session cursor => exact absurd rfl (ha session cursor)
  | stop =>
    obtain ⟨links, -, hc, hn⟩ := s.client.stop_eq
    exact ⟨by simp [step, hn, hclosed], by simp [step, hc, hclosed]⟩
  | supersede =>
    obtain ⟨links, -, hc⟩ := s.client.supersede_eq
    exact ⟨rfl, by simp [step, hc]⟩
  | send m =>
    obtain ⟨links, -, hc⟩ := s.client.send_eq m
    exact ⟨rfl, by simp [step, hc]⟩
  | setViewport cols rows =>
    obtain ⟨links, -, hc⟩ := s.client.setViewport_eq cols rows
    exact ⟨rfl, by simp [step, hc]⟩
  | wake g w =>
    have hw := woken hs g w
    generalize s.step (.wake g w) = out at hw ⊢
    cases hw with
    | moved t next _ _ _ hfits =>
      rw [hfits.not_isClosed] at hclosed
      cases hclosed
    | _ => exact ⟨rfl, rfl⟩
  | drop g => exact ⟨rfl, rfl⟩
  | refuse link => exact ⟨rfl, rfl⟩

end System

namespace Clocked

/-- The states that something makes the client tell. -/
def reports (c : Clocked) (tick : Tick) : List ConnectionState :=
  Notice.states ((c.step tick).2.map Prod.snd)

/-- Whether a connection opens for the run of the current generation. -/
def opens (c : Clocked) : Tick → Bool
  | .act a => c.system.opens a
  | .pass _ => false

/-- Whether the run of the current generation fails. -/
def fails (c : Clocked) : Tick → Bool
  | .act a => c.system.fails a
  | .pass _ => false

/-- The failures in a row after something happened. -/
def count (c : Clocked) (n : Nat) : Tick → Nat
  | .act a => if c.allows a then c.system.count n a else n
  | .pass _ => n

/-- The failures in a row after some time. -/
def failures (c : Clocked) (n : Nat) : List Tick → Nat
  | [] => n
  | tick :: rest => (c.step tick).1.failures (c.count n tick) rest

/-- What happens to a client keeps to the life of a stream. -/
structure Orderly (backoff : Backoff) (c : Clocked) (n : Nat) (tick : Tick) : Prop where
  /-- Only an attachment makes the client tell that it is connecting. -/
  connecting : .connecting ∈ c.reports tick → ∃ session cursor, tick = .act (.attach session cursor)
  /-- Only a connection that opens for its run makes it tell that it is connected. -/
  connected : .connected ∈ c.reports tick → c.opens tick = true
  /-- Only a failure makes it tell that it reconnects, and it tells which one in a row. -/
  reconnecting : ∀ k, .reconnecting k ∈ c.reports tick → c.fails tick = true ∧ k = n + 1
  /-- Each failure is told, and the next ticket requested after the step that stands at the
  place of the failure in a row, after the last step from there on, and at once without any. -/
  failure : c.fails tick = true → n < Client.greatestAttempt →
    c.reports tick = [.reconnecting (n + 1)] ∧
      (c.step tick).1.RequestsAt
        (c.now + backoff.steps.getD (min n (backoff.steps.length - 1)) 0)
  /-- Only a stop and the last event of the session make it tell that it is closed. -/
  closed : ∀ reason, .closed reason ∈ c.reports tick →
    tick = .act .stop ∧ reason = Client.stoppedReason ∨
      (∃ a, tick = .act a ∧ c.system.Exits a) ∧ reason = Client.exitedReason
  /-- No state is entered without a word. -/
  told : (c.step tick).1.system.client.state ≠ c.system.client.state →
    c.reports tick = [(c.step tick).1.system.client.state]

/-- A closed stream tells and asks for nothing before the next attachment. -/
def Final (c : Clocked) : Prop :=
  c.system.client.state.isClosed = true → ∀ later : List Tick,
    (∀ session cursor, .act (.attach session cursor) ∉ later) →
      (c.run later).2 = [] ∧ (c.run later).1.system.client.state = c.system.client.state

variable {c : Clocked} {n : Nat}

theorem step_act {a : Action} (h : c.allows a = true) :
    c.step (.act a) =
      (⟨(c.system.step a).1, c.now, fun g =>
        if (c.system.step a).1.wait? g = c.system.wait? g then c.since g else c.now⟩,
        (c.system.step a).2.map fun notice => (c.now, notice)) := by
  simp only [step, h, if_true]

theorem map_snd_log (instant : Nat) (notices : List Notice) :
    (notices.map fun notice => (instant, notice)).map Prod.snd = notices := by
  rw [List.map_map]
  exact List.map_id notices

/-- What something that happens makes the client tell : no state, while its own is as it
was, or the one that it enters. -/
theorem reports_step (hs : c.system.Sound) (tick : Tick) :
    c.reports tick = [] ∧ (c.step tick).1.system.client.state = c.system.client.state ∨
      ∃ a state, tick = .act a ∧ c.allows a = true ∧ c.reports tick = [state] ∧
        state ≠ c.system.client.state ∧ (c.step tick).1.system.client.state = state ∧
        System.Cause c.system a state := by
  cases tick with
  | pass ms =>
    refine .inl ⟨rfl, ?_⟩
    simp only [step]
    split <;> rfl
  | act a =>
    by_cases hallow : c.allows a = true
    · simp only [reports, step_act hallow, map_snd_log]
      rcases System.told_step hs a with ⟨hnil, hsame⟩ | ⟨state, hone, hne, hstate, hcause⟩
      · exact .inl ⟨hnil, hsame⟩
      · exact .inr ⟨a, state, rfl, hallow, hone, hne, hstate, hcause⟩
    · refine .inl ?_
      simp [reports, step, hallow, Notice.states]

/-! ## What is kept -/

theorem sound_step (hs : c.system.Sound) (tick : Tick) : (c.step tick).1.system.Sound := by
  cases tick with
  | pass ms =>
    simp only [step]
    split <;> exact hs
  | act a =>
    by_cases hallow : c.allows a = true
    · rw [step_act hallow]
      exact hs.step a
    · simpa [step, hallow] using hs

theorem config_step (hs : c.system.Sound) (tick : Tick) :
    (c.step tick).1.system.client.config = c.system.client.config := by
  cases tick with
  | pass ms =>
    simp only [step]
    split <;> rfl
  | act a =>
    by_cases hallow : c.allows a = true
    · rw [step_act hallow]
      exact System.config_step hs a
    · simp [step, hallow]

theorem counted_step (hs : c.system.Sound) (hc : c.system.Counted n) (tick : Tick) :
    (c.step tick).1.system.Counted (c.count n tick) := by
  cases tick with
  | pass ms =>
    simp only [step]
    split <;> exact hc
  | act a =>
    by_cases hallow : c.allows a = true
    · rw [step_act hallow, count, if_pos hallow]
      exact System.counted_step hs hc a
    · simpa [step, count, hallow] using hc

/-! ## Each step keeps to the life of a stream -/

/-- A failure may happen at any time. -/
theorem allows_of_fails {a : Action} (h : c.system.fails a = true) : c.allows a = true := by
  obtain ⟨t, w, reason, rfl, -, hf⟩ := System.fails_iff.1 h
  unfold allows
  split
  · next heq =>
    cases heq
    simp [Run.failure?] at hf
  · rfl

/-- A failure makes the run wait a delay that began at that instant. -/
theorem waits_of_fails (hs : c.system.Sound) (hc : c.system.Counted n) {a : Action}
    (h : c.system.fails a = true) (hn : n < Client.greatestAttempt) :
    (c.step (.act a)).1.Waits c.system.client.generation
      (c.now + c.system.client.config.backoff.delay n) := by
  obtain ⟨-, hwait⟩ := System.step_of_fails hs hc h hn
  obtain ⟨t, w, reason, rfl, ht, hf⟩ := System.fails_iff.1 h
  rw [step_act (allows_of_fails h)]
  refine ⟨hs.step _, System.generation_wake hs _ w, due?_eq_some.2 ⟨_, hwait, ?_⟩,
    Nat.le_add_right _ _⟩
  -- The delay is not what the run waited for before, so its wait began just now.
  have hne : c.system.wait? c.system.client.generation ≠
      some (.delay (c.system.client.config.backoff.delay n)) := by
    intro hold
    obtain ⟨u, hu, hw⟩ := System.task?_eq_of_wait? hold
    rw [ht] at hu
    cases hu
    simp [Run.failure?, hw] at hf
  simp only [hwait, if_neg (Ne.symm hne)]

theorem orderly_step (hs : c.system.Sound) (hc : c.system.Counted n) (tick : Tick) :
    c.Orderly c.system.client.config.backoff n tick := by
  have hreports := reports_step hs tick
  refine ⟨fun h => ?_, fun h => ?_, fun k h => ?_, fun h hn => ?_, fun reason h => ?_, fun h => ?_⟩
  · rcases hreports with ⟨hnil, -⟩ | ⟨a, state, rfl, -, hone, -, -, hcause⟩
    · rw [hnil] at h
      cases h
    · rw [hone, List.mem_singleton] at h
      subst h
      cases hcause with
      | attached session cursor ha => exact ⟨session, cursor, by rw [ha]⟩
  · rcases hreports with ⟨hnil, -⟩ | ⟨a, state, rfl, -, hone, -, -, hcause⟩
    · rw [hnil] at h
      cases h
    · rw [hone, List.mem_singleton] at h
      subst h
      cases hcause with
      | connected hopens => exact hopens
  · rcases hreports with ⟨hnil, -⟩ | ⟨a, state, rfl, -, hone, hne, -, hcause⟩
    · rw [hnil] at h
      cases h
    · rw [hone, List.mem_singleton] at h
      subst h
      cases hcause with
      | lost t w reason ha ht hf =>
        exact ⟨System.fails_iff.2 ⟨t, w, reason, ha, ht, hf⟩,
          System.nextAttempt_of_ne hs hc ht hf hne⟩
  · cases tick with
    | pass ms => cases h
    | act a =>
      obtain ⟨hnotices, -⟩ := System.step_of_fails hs hc h hn
      have hwaits := waits_of_fails hs hc h hn
      rw [Backoff.delay_eq_getD] at hwaits
      refine ⟨?_, requestsAt_of_waits hwaits⟩
      rw [reports, step_act (allows_of_fails h), map_snd_log, hnotices]
      rfl
  · rcases hreports with ⟨hnil, -⟩ | ⟨a, state, rfl, -, hone, -, -, hcause⟩
    · rw [hnil] at h
      cases h
    · rw [hone, List.mem_singleton] at h
      subst h
      cases hcause with
      | stopped ha => exact .inl ⟨by rw [ha], rfl⟩
      | exited hexits => exact .inr ⟨⟨a, rfl, hexits⟩, rfl⟩
  · rcases hreports with ⟨-, hsame⟩ | ⟨a, state, rfl, -, hone, -, hstate, -⟩
    · exact absurd hsame h
    · rw [hone, hstate]

theorem final_of_sound (hs : c.system.Sound) : c.Final := by
  intro hclosed later hlater
  induction later generalizing c with
  | nil => exact ⟨rfl, rfl⟩
  | cons tick rest ih =>
    have hstep : (c.step tick).2 = [] ∧
        (c.step tick).1.system.client.state = c.system.client.state := by
      cases tick with
      | pass ms =>
        refine ⟨rfl, ?_⟩
        simp only [step]
        split <;> rfl
      | act a =>
        by_cases hallow : c.allows a = true
        · have ha : ∀ session cursor, a ≠ .attach session cursor := by
            rintro session cursor rfl
            exact hlater session cursor List.mem_cons_self
          obtain ⟨hnil, hsame⟩ := System.step_of_isClosed hs hclosed ha
          rw [step_act hallow, hnil]
          exact ⟨rfl, hsame⟩
        · simp [step, hallow]
    obtain ⟨hnil, hsame⟩ := hstep
    obtain ⟨hrest, hstate⟩ := ih (sound_step hs tick) (by rw [hsame]; exact hclosed)
      fun session cursor h => hlater session cursor (List.mem_cons_of_mem _ h)
    exact ⟨by simp only [run, hnil, hrest, List.append_nil], hstate.trans hsame⟩

/-! ## Whole lives -/

theorem kept_run (hs : c.system.Sound) (hc : c.system.Counted n) (ticks : List Tick) :
    (c.run ticks).1.system.Sound ∧ (c.run ticks).1.system.Counted (c.failures n ticks) ∧
      (c.run ticks).1.system.client.config = c.system.client.config := by
  induction ticks generalizing c n with
  | nil => exact ⟨hs, hc, rfl⟩
  | cons tick rest ih =>
    obtain ⟨hs', hc', hconfig⟩ := ih (sound_step hs tick) (counted_step hs hc tick)
    exact ⟨hs', hc', hconfig.trans (config_step hs tick)⟩

/-- The states that are told differ each from the one before, the first from the state
that the client was in. -/
theorem isChain_run (hs : c.system.Sound) (ticks : List Tick) :
    (c.system.client.state :: Notice.states ((c.run ticks).2.map Prod.snd)).IsChain (· ≠ ·) := by
  induction ticks generalizing c with
  | nil => exact .singleton _
  | cons tick rest ih =>
    have hrest := ih (sound_step hs tick)
    have hsplit : Notice.states ((c.run (tick :: rest)).2.map Prod.snd) =
        c.reports tick ++ Notice.states (((c.step tick).1.run rest).2.map Prod.snd) := by
      simp only [run, reports, Notice.states, List.map_append, List.filterMap_append]
    rw [hsplit]
    rcases reports_step hs tick with ⟨hnil, hsame⟩ | ⟨a, state, -, -, hone, hne, hstate, -⟩
    · rw [hnil, ← hsame]
      exact hrest
    · rw [hstate] at hrest
      rw [hone]
      exact .cons_cons (Ne.symm hne) hrest

/-- Whatever happens to a client and whenever it does, no state is told twice in a row,
what happens next keeps to the life of a stream, and a closed stream is silent. -/
theorem lifecycle (endpoint : Endpoint) (config : StreamConfig) (before : List Tick) :
    (Notice.states (((new endpoint config).run before).2.map Prod.snd)).IsChain (· ≠ ·) ∧
      (∀ tick, ((new endpoint config).run before).1.Orderly config.backoff
        ((new endpoint config).failures 0 before) tick) ∧
      ((new endpoint config).run before).1.Final := by
  have hs : (new endpoint config).system.Sound := System.Sound.new endpoint config
  obtain ⟨hs', hc, hconfig⟩ := kept_run hs (System.counted_new endpoint config) before
  refine ⟨(isChain_run hs before).tail, fun tick => ?_, final_of_sound hs'⟩
  have horderly := orderly_step hs' hc tick
  rwa [hconfig] at horderly

end Clocked

end RemoteSession
