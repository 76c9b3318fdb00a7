import RemoteSession.Proofs.Stream.Reports
import RemoteSession.Proofs.Stream.Clocked

/-!
# Timers

A run that waits a delay asks for its ticket at the instant at which its timer is due,
no sooner and no later, whatever else happens, unless another generation begins first
(`Clocked.requestsAt_of_waits`) : time does not pass the timer of the current run, the
timer does not go off before it is due, and nothing else makes the run go on.
-/

namespace RemoteSession

/-- Whether something that happens begins a generation. -/
def Tick.begins : Tick → Bool
  | .act a => a.begins
  | .pass _ => false

namespace Clocked

/-- The instant of the first request for a ticket. -/
def firstRequest? (log : List (Nat × Notice)) : Option Nat :=
  log.findSome? fun
    | (instant, .ticketRequest) => some instant
    | _ => none

/-- The next ticket of the current run is requested at an instant, unless another
generation begins before : as long as it was not requested, the instant has not passed,
and it is once the instant has come and the timer goes off. -/
def RequestsAt (c : Clocked) (due : Nat) : Prop :=
  ∀ later : List Tick, (∀ tick ∈ later, tick.begins = false) →
    firstRequest? (c.run later).2 = some due ∨
      firstRequest? (c.run later).2 = none ∧ (c.run later).1.now ≤ due ∧
        ((c.run later).1.run [.pass (due - (c.run later).1.now),
          .act (.wake c.system.client.generation .elapsed)]).2 = [(due, .ticketRequest)]

/-- The run of the current generation waits a delay that is over at an instant. -/
structure Waits (c : Clocked) (generation due : Nat) : Prop where
  sound : c.system.Sound
  current : c.system.client.generation = generation
  timer : c.due? generation = some due
  now : c.now ≤ due

variable {c : Clocked} {generation due : Nat}

theorem due?_eq_some : c.due? generation = some due ↔
    ∃ ms, c.system.wait? generation = some (.delay ms) ∧ c.since generation + ms = due := by
  unfold due?
  split
  · next ms h => simp [h]
  · next h => exact ⟨nofun, fun ⟨ms, hw, _⟩ => absurd hw (h ms)⟩

theorem Waits.task (h : c.Waits generation due) : ∃ t ms,
    c.system.task? generation = some t ∧ t.run.wait = .delay ms ∧ t.cancelled = false := by
  obtain ⟨ms, hw, -⟩ := due?_eq_some.1 h.timer
  obtain ⟨t, ht, hwait⟩ := System.task?_eq_of_wait? hw
  obtain ⟨hmem, hg⟩ := System.mem_of_task? ht
  exact ⟨t, ms, ht, hwait, (h.sound.current t hmem).2 (hg.trans h.current.symm)⟩

/-- A timer that goes off makes its run ask for a ticket. -/
theorem Waits.elapsed (h : c.Waits generation due) :
    (c.system.step (.wake generation .elapsed)).2 = [.ticketRequest] := by
  obtain ⟨t, ms, ht, hwait, -⟩ := h.task
  have hw := System.woken h.sound generation .elapsed
  generalize c.system.step (.wake generation .elapsed) = out at hw ⊢
  cases hw with
  | absent hnone => rw [ht] at hnone; cases hnone
  | late _ _ _ hne => exact absurd h.current.symm hne
  | closed _ _ hne => exact absurd h.current.symm hne
  | moved u next hu _ _ _ hmove =>
    rw [ht] at hu
    cases hu
    cases hmove with
    | rest _ ha => simp [Run.awaits, hwait] at ha
    | retry => rfl
    | lose _ reason hf => simp [Run.failure?, hwait] at hf

/-- Time can pass up to the instant at which the timer is due. -/
theorem Waits.canPass (h : c.Waits generation due) {ms : Nat} :
    c.canPass ms = true ↔ c.now + ms ≤ due := by
  obtain ⟨t, delay, ht, hwait, hkeep⟩ := h.task
  obtain ⟨hmem, hg⟩ := System.mem_of_task? ht
  unfold Clocked.canPass
  rw [List.all_eq_true]
  constructor
  · intro hall
    simpa [hkeep, hg, h.timer] using hall t hmem
  · intro hle u hu
    cases hc : u.cancelled with
    | true => rfl
    | false =>
      have hu' := (h.sound.current u hu).1 hc
      simpa [hu', h.current, h.timer] using hle

/-- While the run waits, nothing but its timer makes it go on. -/
theorem Waits.step (h : c.Waits generation due) {tick : Tick} (hbegins : tick.begins = false) :
    (c.step tick).2 = [(due, .ticketRequest)] ∨
      (c.step tick).2 = [] ∧ (c.step tick).1.Waits generation due := by
  cases tick with
  | pass ms =>
    refine .inr ⟨rfl, ?_⟩
    by_cases hpass : c.canPass ms = true
    · simp only [Clocked.step, hpass, if_true]
      exact ⟨h.sound, h.current, h.timer, h.canPass.1 hpass⟩
    · simp only [Clocked.step, hpass]
      exact h
  | act a =>
    by_cases hallow : c.allows a = true
    · simp only [Clocked.step, hallow, if_true]
      by_cases ha : a = .wake generation .elapsed
      · subst ha
        have hdue : due ≤ c.now := by simpa [allows, h.timer] using hallow
        have hnow : c.now = due := Nat.le_antisymm h.now hdue
        exact .inl (by simp [h.elapsed, hnow])
      · obtain ⟨t, ms, ht, hwait, -⟩ := h.task
        have hcur := h.current
        subst hcur
        have hawaits : ∀ w, a = .wake c.system.client.generation w → t.run.awaits w = false := by
          rintro w rfl
          unfold Run.awaits
          rw [hwait]
          cases w with
          | elapsed => exact absurd rfl ha
          | _ => rfl
        obtain ⟨hnil, hsame⟩ := System.step_of_not_awaits h.sound ht hbegins hawaits
        have hgen := System.generation_step h.sound a
        have hwaits : (c.system.step a).1.wait? c.system.client.generation =
            c.system.wait? c.system.client.generation := by
          simp only [System.wait?, hsame, ht]
        refine .inr ⟨by simp [hnil], h.sound.step a, ?_, ?_, h.now⟩
        · rw [hgen, show a.begins = false from hbegins]
          rfl
        · obtain ⟨delay, hw, hsum⟩ := due?_eq_some.1 h.timer
          refine due?_eq_some.2 ⟨delay, hwaits.trans hw, ?_⟩
          simp only [hwaits, if_true]
          exact hsum
    · simp only [Clocked.step, hallow]
      exact .inr ⟨rfl, h⟩

theorem firstRequest?_cons (instant : Nat) (log : List (Nat × Notice)) :
    firstRequest? ((instant, .ticketRequest) :: log) = some instant :=
  rfl

/-- A run that waits asks for its ticket when its timer is due. -/
theorem requestsAt_of_waits (h : c.Waits generation due) : c.RequestsAt due := by
  intro later hlater
  rw [h.current]
  induction later generalizing c with
  | nil =>
    refine .inr ⟨rfl, h.now, ?_⟩
    have hpass : c.canPass (due - c.now) = true := by
      refine h.canPass.2 ?_
      have := h.now
      omega
    have hnow : c.now + (due - c.now) = due := by
      have := h.now
      omega
    have hallow : allows { c with now := due } (.wake generation .elapsed) = true := by
      have hdue : due? { c with now := due } generation = some due := h.timer
      simp [allows, hdue]
    simp only [run, Clocked.step, hpass, if_true, hnow, hallow, h.elapsed]
    rfl
  | cons tick rest ih =>
    rcases h.step (hlater tick List.mem_cons_self) with heq | ⟨heq, hnext⟩
    · refine .inl ?_
      simp only [run, heq, List.singleton_append]
      exact firstRequest?_cons due _
    · have hrest := ih hnext fun tick htick => hlater tick (List.mem_cons_of_mem _ htick)
      simpa only [run, heq, List.nil_append] using hrest

end Clocked

end RemoteSession
