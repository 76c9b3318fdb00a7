import RemoteSession.Proofs.Stream.Exchange
import RemoteSession.Proofs.Stream.Silence

/-!
# What passes the gate

An action other than an attachment leaves the cursor of the gate alone, and then tells of
no event and keeps no cursor, or it moves it up to that of an event, which the run of the
current generation keeps for its session and tells (`System.Advance`). An attachment
sets the cursor, and the run that it begins is of its session (`System.Begun`).
-/

namespace RemoteSession

/-- The cursors that are to be kept, in order. -/
def Notice.persists (notices : List Notice) : List (String × UInt64) :=
  notices.filterMap fun
    | .persist session seq => some (session, seq)
    | _ => none

/-- The cursors after some notices are those after what is to be kept of them. -/
theorem CursorService.after_eq {σ : Type} (service : CursorService σ) (cursors : σ)
    (notices : List Notice) :
    service.after cursors notices =
      (Notice.persists notices).foldl (fun c p => service.store c p.1 p.2) cursors := by
  induction notices generalizing cursors with
  | nil => rfl
  | cons notice rest ih => cases notice <;> exact ih _

namespace System

variable {s : System} {a : Action}

/-- What becomes of the cursor of the gate by an action other than an attachment. -/
inductive Advance (s : System) (out : System × List Notice) : Prop where
  /-- It stays, no event is told and no cursor is to be kept. -/
  | still : Notice.events out.2 = [] → Notice.persists out.2 = [] →
    out.1.client.gate = s.client.gate → Advance s out
  /-- It becomes that of a later event, which the run of the current generation tells. -/
  | told (t : Task) (e : Event) : t ∈ s.tasks → t.run.generation = s.client.generation →
    s.client.gate.cursor < e.seq → Notice.events out.2 = [e] →
    Notice.persists out.2 = [(t.run.session, e.seq)] → out.1.client.gate = ⟨e.seq⟩ → Advance s out

theorem advance (hs : s.Sound) (ha : ∀ session cursor, a ≠ .attach session cursor) :
    s.Advance (s.step a) := by
  have hturned := turned hs ha
  generalize s.step a = out at hturned ⊢
  cases hturned with
  | left _ _ htold hgate =>
    refine .still (List.filterMap_eq_nil_iff.2 fun notice hin => ?_)
      (List.filterMap_eq_nil_iff.2 fun notice hin => ?_) hgate <;> rw [htold notice hin]
  | moved t w next _ ht _ hmove =>
    obtain ⟨hmem, hg⟩ := mem_of_task? ht
    cases hmove with
    | tell link content e _ _ hlt => exact .told t e hmem hg hlt rfl rfl rfl
    | exit link content e _ _ hlt =>
      obtain ⟨links, -, heq⟩ := s.client.exited_eq link e
      exact .told t e hmem hg hlt rfl rfl (by simp [heq])
    | lose w reason =>
      simp only [Client.snd_setState]
      split <;> exact .still rfl rfl rfl
    | _ => exact .still rfl rfl rfl

/-- Every run was there before, in the same generation and of the same session, unless it
has just begun. -/
theorem origin (hs : s.Sound) (ha : ∀ session cursor, a ≠ .attach session cursor) {t : Task}
    (ht : t ∈ (s.step a).1.tasks) :
    ∃ u ∈ s.tasks, u.run.generation = t.run.generation ∧ u.run.session = t.run.session := by
  have hcancelled : t ∈ cancelAll s.tasks →
      ∃ u ∈ s.tasks, u.run.generation = t.run.generation ∧ u.run.session = t.run.session := by
    intro h
    obtain ⟨u, hu, rfl⟩ := mem_cancelAll.1 h
    exact ⟨u, hu, rfl, rfl⟩
  cases a with
  | attach session cursor => exact absurd rfl (ha session cursor)
  | stop => exact hcancelled ht
  | supersede => exact hcancelled ht
  | send m => exact ⟨t, ht, rfl, rfl⟩
  | setViewport cols rows => exact ⟨t, ht, rfl, rfl⟩
  | drop g => exact ⟨t, (List.mem_filter.1 ht).1, rfl, rfl⟩
  | refuse link => exact ⟨t, ht, rfl, rfl⟩
  | wake g w =>
    have hw := woken hs g w
    generalize s.step (.wake g w) = out at hw ht
    -- what is left of the run that was woken is of its generation and session
    have hreplaced : ∀ {u : Task} {run : Option Run}, s.task? g = some u →
        (∀ r, run = some r → r.generation = u.run.generation ∧ r.session = u.run.session) →
        t ∈ replace s.tasks g run →
        ∃ u ∈ s.tasks, u.run.generation = t.run.generation ∧ u.run.session = t.run.session := by
      intro u run hu hrun hin
      rcases mem_replace.1 hin with ⟨hold, -⟩ | ⟨_, -, -, r, hr, rfl⟩
      · exact ⟨t, hold, rfl, rfl⟩
      · obtain ⟨hmem, -⟩ := mem_of_task? hu
        obtain ⟨hgeneration, hsession⟩ := hrun r hr
        exact ⟨u, hmem, hgeneration.symm, hsession.symm⟩
    cases hw with
    | absent => exact ⟨t, ht, rfl, rfl⟩
    | late u run hu _ hor =>
      refine hreplaced hu (fun r hr => ?_) ht
      rcases hor with rfl | rfl
      · cases hr
      · cases hr
        exact ⟨rfl, rfl⟩
    | closed u hu =>
      refine hreplaced hu ?_ ht
      rintro r ⟨⟩
    | moved u next hu _ _ _ hmove => exact hreplaced hu (fun r hr => hmove.run_eq hr) ht

/-- A run that was there before is of the current generation only if it was then. -/
theorem generation_of_mem (hs : s.Sound) (a : Action) {t : Task} (ht : t ∈ s.tasks)
    (hg : t.run.generation = (s.step a).1.client.generation) :
    t.run.generation = s.client.generation := by
  have hle := hs.le t ht
  have hgen := generation_step hs a
  omega

/-- A run of the current generation was there before, and of the same session, unless it
has just begun. -/
theorem run_of_step (hs : s.Sound) (ha : ∀ session cursor, a ≠ .attach session cursor) {t : Task}
    (ht : t ∈ (s.step a).1.tasks)
    (hg : t.run.generation = (s.step a).1.client.generation) :
    ∃ u ∈ s.tasks, u.run.generation = s.client.generation ∧ u.run.session = t.run.session := by
  obtain ⟨u, hu, hug, hsession⟩ := origin hs ha ht
  exact ⟨u, hu, generation_of_mem hs a hu (hug.trans hg), hsession⟩

/-- What an attachment makes of the cursor of the gate and of the current run. -/
structure Begun (session : String) (cursor : UInt64) (out : System × List Notice) : Prop where
  events : Notice.events out.2 = []
  persists : Notice.persists out.2 = []
  gate : out.1.client.gate = ⟨cursor⟩
  session : ∀ t ∈ out.1.tasks, t.run.generation = out.1.client.generation → t.run.session = session

theorem begun (hs : s.Sound) (session : String) (cursor : UInt64) :
    Begun session cursor (s.step (.attach session cursor)) := by
  obtain ⟨links, -, hc, hn⟩ := s.client.attach_eq session cursor
  refine ⟨?_, ?_, ?_, fun t ht hg => ?_⟩
  · simp only [step, hn]
    split <;> rfl
  · simp only [step, hn]
    split <;> rfl
  · simp only [step, hc]
  · have hfound := task?_of_mem (hs.step (.attach session cursor)) ht
    rw [hg] at hfound
    rw [task_of_attach hs hfound]

/-- Events are told by runs that are woken, and by nothing else. -/
theorem events_of_not_wake (hs : s.Sound) (ha : ∀ g w, a ≠ .wake g w) :
    Notice.events (s.step a).2 = [] := by
  cases a with
  | attach session cursor => exact (begun hs session cursor).events
  | stop =>
    obtain ⟨links, -, -, hn⟩ := s.client.stop_eq
    simp only [step, hn]
    split <;> rfl
  | wake g w => exact absurd rfl (ha g w)
  | _ => rfl

end System

end RemoteSession
