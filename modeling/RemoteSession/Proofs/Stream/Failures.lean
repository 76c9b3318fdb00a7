import RemoteSession.Proofs.Stream.Reports

/-!
# Failures in a row

The failures since the last attachment or the last connection that opened, counted
over the actions (`System.count`) and not read from the runs. A run keeps the number
of them, up to the greatest that is told apart (`System.counted_step`), and so a
failure makes the client tell the next number and wait the delay that belongs to it
(`System.step_of_fails`).
-/

namespace RemoteSession

namespace System

/-- The failures in a row after an action. -/
def count (s : System) (n : Nat) (a : Action) : Nat :=
  match a with
  | .attach _ _ => 0
  | _ => if s.opens a then 0 else if s.fails a then n + 1 else n

/-- The run of the current generation knows how many failures in a row there were. -/
def Counted (s : System) (n : Nat) : Prop :=
  ∀ t, s.task? s.client.generation = some t →
    match t.run.wait with
    | .frames _ => n = 0
    | .delay _ => n ≠ 0 ∧ t.run.attempt = min (n - 1) Client.greatestAttempt
    | _ => t.run.attempt = min n Client.greatestAttempt

variable {s : System} {n : Nat}

theorem count_of_other {t : Task} (ht : s.task? s.client.generation = some t) {w : Wake}
    (hopens : t.run.wait = .opening → ∀ accepts, w ≠ .opened (.ok accepts))
    (hf : t.run.failure? w = none) :
    s.count n (.wake s.client.generation w) = n := by
  have ho : s.opens (.wake s.client.generation w) = false := by
    refine Bool.eq_false_iff.2 fun h => ?_
    obtain ⟨⟨accepts, h⟩, hw⟩ := opens_iff.1 h
    obtain ⟨u, hu, hw⟩ := task?_eq_of_wait? hw
    rw [ht] at hu
    cases hu
    cases h
    exact hopens hw accepts rfl
  have hl : s.fails (.wake s.client.generation w) = false := by simp [fails, ht, hf]
  simp [count, ho, hl]

theorem count_of_fails {a : Action} (h : s.fails a = true) : s.count n a = n + 1 := by
  have ho : s.opens a = false := by
    refine Bool.eq_false_iff.2 fun ho => ?_
    obtain ⟨t, w, reason, rfl, ht, hf⟩ := fails_iff.1 h
    obtain ⟨⟨accepts, hw⟩, hwait⟩ := opens_iff.1 ho
    obtain ⟨u, hu, hwait⟩ := task?_eq_of_wait? hwait
    rw [ht] at hu
    cases hu
    cases hw
    simp [Run.failure?, hwait] at hf
  obtain ⟨t, w, reason, rfl, -, -⟩ := fails_iff.1 h
  simp [count, ho, h]

/-! ## The count and the number that runs keep -/

/-- A run that fails knows how many failures there were before. -/
theorem Counted.failures (hc : s.Counted n) {t : Task} (ht : s.task? s.client.generation = some t)
    {w : Wake} {reason : String} (hf : t.run.failure? w = some reason) :
    t.run.failures = min n Client.greatestAttempt := by
  have hold := hc t ht
  unfold Run.failure? at hf
  unfold Run.failures
  split at hf
  · next hw =>
    rw [hw] at hold ⊢
    exact hold
  · next hw =>
    rw [hw] at hold ⊢
    exact hold
  · next hw =>
    rw [hw] at hold ⊢
    simp [show n = 0 from hold]
  · next hw =>
    rw [hw] at hold ⊢
    simp [show n = 0 from hold]
  · cases hf

theorem Counted.of_not_current {s' : System}
    (h : ∀ t ∈ s'.tasks, t.run.generation ≠ s'.client.generation) : s'.Counted n := by
  intro t ht
  obtain ⟨hmem, hg⟩ := mem_of_task? ht
  exact absurd hg (h t hmem)

theorem counted_new (endpoint : Endpoint) (config : StreamConfig) :
    (new endpoint config).Counted 0 :=
  Counted.of_not_current nofun

theorem counted_attach (hs : s.Sound) (session : String) (cursor : UInt64) :
    (s.step (.attach session cursor)).1.Counted 0 := by
  intro t ht
  rw [task_of_attach hs ht]
  rfl

/-- A move keeps the count in step with the number that the run keeps. -/
theorem counted_moved {t : Task} {w : Wake} {next : Step} (hc : s.Counted n)
    (ht : s.task? s.client.generation = some t) (hmove : s.client.Move t.run w next) :
    Counted ⟨next.client, replace s.tasks s.client.generation next.run⟩
      (s.count n (.wake s.client.generation w)) := by
  rintro ⟨run, cancelled⟩ ht'
  have hgen : next.client.generation = s.client.generation := hmove.frame.2.2.1
  simp only [hgen] at ht'
  have hrun := run_of_replace ht'
  have hold := hc t ht
  cases hmove with
  | rest w ha =>
    have hf : t.run.failure? w = none := by
      refine Option.eq_none_iff_forall_not_mem.2 fun reason h => ?_
      rw [Run.awaits_of_failure? h] at ha
      cases ha
    have hopens : t.run.wait = .opening → ∀ accepts, w ≠ .opened (.ok accepts) := by
      rintro hw accepts rfl
      simp [Run.awaits, hw] at ha
    rw [count_of_other ht hopens hf]
    cases hrun
    exact hold
  | start hw =>
    rw [hw] at hold
    rw [count_of_other ht (by simp) (by simp [Run.failure?])]
    cases hrun
    exact hold
  | retry ms hw =>
    rw [hw] at hold
    rw [count_of_other ht (by simp) (by simp [Run.failure?])]
    cases hrun
    have := hold.2
    simp only [Client.nextAttempt, this]
    omega
  | «open» ticket hw =>
    rw [hw] at hold
    rw [count_of_other ht (by simp) (by simp [Run.failure?])]
    cases hrun
    exact hold
  | connect accepts hw =>
    cases hrun
    simp [count, opens_of_task? ht hw accepts]
  | lose w reason hf =>
    have hfails : s.fails (.wake s.client.generation w) = true :=
      fails_iff.2 ⟨t, w, reason, rfl, ht, hf⟩
    have heq := hc.failures ht hf
    cases hrun
    rw [count_of_fails hfails]
    exact ⟨Nat.succ_ne_zero n, heq⟩
  | pass link content hw =>
    rw [count_of_other ht (by simp) (by simp [Run.failure?])]
    cases hrun
    exact hold
  | tell link content e hw =>
    rw [count_of_other ht (by simp) (by simp [Run.failure?])]
    cases hrun
    exact hold
  | exit => cases hrun

/-- Each action keeps the count in step with the number that the current run keeps. -/
theorem counted_step (hs : s.Sound) (hc : s.Counted n) (a : Action) :
    (s.step a).1.Counted (s.count n a) := by
  by_cases ha : ∃ session cursor, a = .attach session cursor
  · obtain ⟨session, cursor, rfl⟩ := ha
    exact counted_attach hs session cursor
  · have hturned := turned hs (a := a) fun session cursor h => ha ⟨session, cursor, h⟩
    generalize s.step a = out at hturned ⊢
    cases hturned with
    | left _ hasleep _ _ hkept =>
      have ho : s.opens a = false := by
        refine Bool.eq_false_iff.2 fun ho => ?_
        obtain ⟨⟨_, rfl⟩, hwait⟩ := opens_iff.1 ho
        rw [wait?, hasleep _ rfl] at hwait
        cases hwait
      have hl : s.fails a = false := by
        refine Bool.eq_false_iff.2 fun hl => ?_
        obtain ⟨t, w, -, rfl, ht, -⟩ := fails_iff.1 hl
        rw [hasleep w rfl] at ht
        cases ht
      have hsame : s.count n a = n := by
        unfold count
        split
        · exact absurd ⟨_, _, rfl⟩ ha
        · simp [ho, hl]
      intro t ht
      rw [hsame]
      exact hc t (hkept t ht)
    | moved t w next hw ht _ hmove =>
      subst hw
      exact counted_moved hc ht hmove

/-- Before a failure the client shows its connection, or the attempt that failed. -/
theorem state_of_failure {t : Task} (hfits : s.client.Fits t.run) {w : Wake} {reason : String}
    (hf : t.run.failure? w = some reason) :
    s.client.state = .connected ∧ t.run.failures = 0 ∨
      s.client.state = Client.attemptState t.run.failures := by
  obtain ⟨-, hfits⟩ := hfits
  unfold Run.failure? at hf
  unfold Run.failures
  split at hf
  · next hw =>
    rw [hw] at hfits ⊢
    exact .inr hfits.2
  · next hw =>
    rw [hw] at hfits ⊢
    exact .inr hfits.2
  · next hw =>
    rw [hw] at hfits ⊢
    exact .inl ⟨hfits.2.1, rfl⟩
  · next hw =>
    rw [hw] at hfits ⊢
    exact .inl ⟨hfits.2.1, rfl⟩
  · cases hf

/-- A failure is told with its number, and the run then waits the delay before that
attempt. Beyond the greatest number nothing new is told. -/
theorem step_of_fails (hs : s.Sound) (hc : s.Counted n) {a : Action} (hfails : s.fails a = true)
    (hn : n < Client.greatestAttempt) :
    (s.step a).2 = [.state (.reconnecting (n + 1))] ∧
      (s.step a).1.wait? s.client.generation = some (.delay (s.client.config.backoff.delay n)) := by
  obtain ⟨t, w, reason, rfl, ht, hf⟩ := fails_iff.1 hfails
  obtain ⟨hmem, hg⟩ := mem_of_task? ht
  have hattempt : t.run.failures = n := by
    rw [hc.failures ht hf]
    omega
  have hnext : Client.nextAttempt n = n + 1 := by
    unfold Client.nextAttempt
    omega
  have hcur : s.client.isCurrent { t.run with attempt := t.run.failures } = true := by
    simp [Client.isCurrent, hg]
  have hwake : s.client.wake t.run w =
      ⟨s.client.failed reason (n + 1),
        some { t.run with attempt := n, wait := .delay (s.client.config.backoff.delay n) },
        (s.client.setState (.reconnecting (n + 1))).2⟩ := by
    rw [Client.wake_of_failure? hf,
      Client.lose_of_isCurrent (r := { t.run with attempt := t.run.failures }) hcur]
    simp only [hattempt, hnext]
  constructor
  · have hne : s.client.state ≠ .reconnecting (n + 1) := by
      rcases state_of_failure (hs.fits t hmem hg) hf with ⟨h, -⟩ | h
      · simp [h]
      · rw [h, hattempt, Client.attemptState]
        split <;> simp
    simp only [step, ht, hwake, Client.snd_setState, if_neg hne]
  · have hrun := congrArg Step.run hwake
    rw [wait?, task?_step_wake hs ht hrun hg]
    rfl

/-- A failure that changes the state is told with the number after the failures so far. -/
theorem nextAttempt_of_ne (hs : s.Sound) (hc : s.Counted n) {t : Task} {w : Wake}
    {reason : String} (ht : s.task? s.client.generation = some t)
    (hf : t.run.failure? w = some reason)
    (hne : .reconnecting (Client.nextAttempt t.run.failures) ≠ s.client.state) :
    Client.nextAttempt t.run.failures = n + 1 := by
  obtain ⟨hmem, hg⟩ := mem_of_task? ht
  have heq := hc.failures ht hf
  have hlt : t.run.failures < Client.greatestAttempt := by
    refine Nat.lt_of_not_le fun hle => ?_
    have hgreatest : t.run.failures = Client.greatestAttempt := by omega
    rcases state_of_failure (hs.fits t hmem hg) hf with ⟨-, h⟩ | h
    · rw [hgreatest] at h
      cases h
    · exact hne (by rw [h, hgreatest]; rfl)
  unfold Client.nextAttempt
  omega

end System

end RemoteSession
