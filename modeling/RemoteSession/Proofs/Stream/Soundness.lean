import RemoteSession.Proofs.Stream.Moves
import RemoteSession.Stream.System

/-!
# Sound systems

What holds of a client and its runs after whatever happened (`System.sound_after`) :
no run is of a later generation, no two are of the same, a run is of the current one
exactly when it was not cancelled, the client then shows what it waits for, and
without such a run it has no connection (`System.Sound`).

In a sound system a wake has four outcomes (`System.Woken`) : there is no such run; it
is of an earlier generation, and goes or stays; it closes a connection that it has
just opened; or it is of the current one and takes one of its moves.
-/

namespace RemoteSession

/-- Whether an action begins a generation. -/
def Action.begins : Action → Bool
  | .attach _ _ => true
  | .stop => true
  | .supersede => true
  | _ => false

theorem Action.ne_attach {a : Action} (h : a.begins = false) (session : String)
    (cursor : UInt64) : a ≠ .attach session cursor := by
  rintro rfl
  cases h

namespace System

/-- What holds of a client and its runs. -/
structure Sound (s : System) : Prop where
  /-- No run is of a later generation. -/
  le : ∀ t ∈ s.tasks, t.run.generation ≤ s.client.generation
  /-- No two runs are of the same generation. -/
  nodup : (s.tasks.map fun t => t.run.generation).Nodup
  /-- The runs of the current generation are those that were not cancelled. -/
  current : ∀ t ∈ s.tasks, t.cancelled = false ↔ t.run.generation = s.client.generation
  /-- The client shows what a run of its generation waits for. -/
  fits : ∀ t ∈ s.tasks, t.run.generation = s.client.generation → s.client.Fits t.run
  /-- There is no connection without a run of the current generation. -/
  idle : (∀ t ∈ s.tasks, t.run.generation ≠ s.client.generation) → s.client.outbound = none

variable {s : System}

/-! ## Tasks -/

theorem mem_of_task? {g : Nat} {t : Task} (h : s.task? g = some t) :
    t ∈ s.tasks ∧ t.run.generation = g := by
  have hg := List.find?_some h
  exact ⟨List.mem_of_find?_eq_some h, by simpa using hg⟩

/-- In a list without two runs of one generation each run is alone in its own. -/
theorem filter_generation {tasks : List Task}
    (hn : (tasks.map fun t => t.run.generation).Nodup) {t : Task} (ht : t ∈ tasks) :
    (tasks.filter fun u => u.run.generation == t.run.generation) = [t] := by
  induction tasks with
  | nil => cases ht
  | cons u rest ih =>
    rw [List.map_cons, List.nodup_cons] at hn
    rcases List.mem_cons.1 ht with rfl | ht
    · have hrest : (rest.filter fun u => u.run.generation == t.run.generation) = [] := by
        refine List.filter_eq_nil_iff.2 fun u hu heq => hn.1 ?_
        exact List.mem_map.2 ⟨u, hu, by simpa using heq⟩
      rw [List.filter_cons_of_pos (by simp), hrest]
    · have hne : u.run.generation ≠ t.run.generation := fun h =>
        hn.1 (List.mem_map.2 ⟨t, ht, h.symm⟩)
      rw [List.filter_cons_of_neg (by simpa using hne)]
      exact ih hn.2 ht

/-- In a list without two runs of one generation each run is found by its own. -/
theorem find?_generation {tasks : List Task} (hn : (tasks.map fun t => t.run.generation).Nodup)
    {t : Task} (ht : t ∈ tasks) :
    (tasks.find? fun u => u.run.generation == t.run.generation) = some t := by
  rw [← List.head?_filter, filter_generation hn ht, List.head?_singleton]

theorem task?_of_mem (hs : s.Sound) {t : Task} (ht : t ∈ s.tasks) :
    s.task? t.run.generation = some t :=
  find?_generation hs.nodup ht

theorem mem_cancelAll {tasks : List Task} {t' : Task} :
    t' ∈ cancelAll tasks ↔ ∃ t ∈ tasks, { t with cancelled := true } = t' :=
  List.mem_map

theorem map_generation_cancelAll (tasks : List Task) :
    (cancelAll tasks).map (fun t => t.run.generation) = tasks.map fun t => t.run.generation := by
  simp [cancelAll]

theorem mem_replace {tasks : List Task} {g : Nat} {run : Option Run} {t' : Task} :
    t' ∈ replace tasks g run ↔
      (t' ∈ tasks ∧ t'.run.generation ≠ g) ∨
        ∃ t ∈ tasks, t.run.generation = g ∧ ∃ r, run = some r ∧ t' = { t with run := r } := by
  unfold replace
  rw [List.mem_filterMap]
  constructor
  · rintro ⟨t, ht, h⟩
    split at h
    · next hg =>
      obtain ⟨r, hr, rfl⟩ := Option.map_eq_some_iff.1 h
      exact .inr ⟨t, ht, hg, r, hr, rfl⟩
    · next hg =>
      cases h
      exact .inl ⟨ht, hg⟩
  · rintro (⟨ht, hg⟩ | ⟨t, ht, hg, r, rfl, rfl⟩)
    · exact ⟨t', ht, if_neg hg⟩
    · exact ⟨t, ht, by simp [hg]⟩

/-- A run in another form is found where the old one was. -/
theorem sublist_replace (tasks : List Task) (g : Nat) {run : Option Run}
    (hrun : ∀ r, run = some r → r.generation = g) :
    ((replace tasks g run).map fun t => t.run.generation).Sublist
      (tasks.map fun t => t.run.generation) := by
  induction tasks with
  | nil => exact List.Sublist.slnil
  | cons t rest ih =>
    unfold replace at ih ⊢
    by_cases hg : t.run.generation = g
    · cases hr : run with
      | none =>
        rw [hr] at ih
        simpa [hg] using ih.cons g
      | some r =>
        rw [hr] at ih
        simpa [hg, hrun r hr] using ih
    · simpa [hg] using ih

/-- A run in another form leaves all others alone. -/
theorem find?_replace_of_ne {tasks : List Task} {g g' : Nat} {run : Option Run}
    (hrun : ∀ r, run = some r → r.generation = g) (hne : g' ≠ g) :
    ((replace tasks g run).find? fun t => t.run.generation == g') =
      tasks.find? fun t => t.run.generation == g' := by
  induction tasks with
  | nil => rfl
  | cons t rest ih =>
    unfold replace at ih ⊢
    by_cases hg : t.run.generation = g
    · have ht : (t.run.generation == g') = false := by simp [hg, Ne.symm hne]
      have hg' : (g == g') = false := by simp [Ne.symm hne]
      cases hr : run with
      | none => simpa [hr, hg, List.find?_cons, hg'] using ih
      | some r => simpa [hr, hg, hrun r hr, List.find?_cons, hg'] using ih
    · simp [hg, List.find?_cons, ih]

/-- After a move of the run of a generation, it is what is found of that generation. -/
theorem run_of_replace {c : Client} {tasks : List Task} {g : Nat} {run : Option Run} {t : Task}
    (ht : task? ⟨c, replace tasks g run⟩ g = some t) : run = some t.run := by
  obtain ⟨hmem, hg⟩ := mem_of_task? ht
  rcases mem_replace.1 hmem with ⟨-, hne⟩ | ⟨u, -, -, r, hr, rfl⟩
  · exact absurd hg hne
  · exact hr

/-! ## What a wake comes to -/

/-- The outcomes of a wake. -/
inductive Woken (s : System) (g : Nat) (w : Wake) : System × List Notice → Prop where
  | absent : s.task? g = none → Woken s g w (s, [])
  | late (t : Task) (run : Option Run) : s.task? g = some t → g ≠ s.client.generation →
    run = none ∨ run = some t.run → Woken s g w (⟨s.client, replace s.tasks g run⟩, [])
  | closed (t : Task) {accepts : Bool} : s.task? g = some t → g ≠ s.client.generation →
    t.run.wait = .opening → w = .opened (.ok accepts) →
    Woken s g w
      (⟨{ s.client with
          links := s.client.links ++
            [Link.offered accepts [.normalClose Client.supersededReason]] },
        replace s.tasks g none⟩, [])
  | moved (t : Task) (next : Step) : s.task? g = some t → g = s.client.generation →
    t.cancelled = false → s.client.Fits t.run → s.client.Move t.run w next →
    Woken s g w (⟨next.client, replace s.tasks g next.run⟩, next.notices)

theorem woken (hs : s.Sound) (g : Nat) (w : Wake) : Woken s g w (s.step (.wake g w)) := by
  cases ht : s.task? g with
  | none =>
    simp only [step, ht]
    exact .absent ht
  | some t =>
    obtain ⟨hmem, hg⟩ := mem_of_task? ht
    simp only [step, ht]
    by_cases hcur : g = s.client.generation
    · have hfits := hs.fits t hmem (hg.trans hcur)
      have hrun : s.client.isCurrent t.run = true := by simp [Client.isCurrent, hg, hcur]
      exact .moved t _ ht hcur ((hs.current t hmem).2 (hg.trans hcur)) hfits
        (Client.move_wake hrun hfits w)
    · have hrun : s.client.isCurrent t.run = false := by
        simpa [Client.isCurrent, hg] using Ne.symm hcur
      rcases Client.wake_of_not_isCurrent hrun w with ⟨run, heq, hor⟩ | ⟨accepts, hwait, hw, heq⟩
      · rw [heq]
        exact .late t run ht hcur hor
      · rw [heq]
        exact .closed t ht hcur hwait hw

/-! ## Steps keep systems sound -/

theorem Sound.new (endpoint : Endpoint) (config : StreamConfig) : (new endpoint config).Sound where
  le _ ht := nomatch ht
  nodup := List.nodup_nil
  current _ ht := nomatch ht
  fits _ ht := nomatch ht
  idle _ := rfl

/-- A call that leaves the generation alone may set what no run waits for. -/
theorem Sound.of_client (hs : s.Sound) {c : Client} (hg : c.generation = s.client.generation)
    (ho : c.outbound = s.client.outbound) (hf : ∀ r, s.client.Fits r → c.Fits r) :
    Sound ⟨c, s.tasks⟩ where
  le t ht := hg ▸ hs.le t ht
  nodup := hs.nodup
  current t ht := by
    rw [hg]
    exact hs.current t ht
  fits t ht h := hf _ (hs.fits t ht (h.trans hg))
  idle h := by
    rw [ho]
    exact hs.idle fun t ht => hg ▸ h t ht

/-- After a call that begins a generation no run is of the current one. -/
theorem Sound.cancelAll (hs : s.Sound) {c : Client}
    (hg : c.generation = s.client.generation + 1) (ho : c.outbound = none) :
    Sound ⟨c, System.cancelAll s.tasks⟩ := by
  have hlt : ∀ t ∈ System.cancelAll s.tasks, t.run.generation < c.generation := by
    intro t' ht'
    obtain ⟨t, ht, rfl⟩ := mem_cancelAll.1 ht'
    have := hs.le t ht
    simp only
    omega
  refine ⟨fun t ht => Nat.le_of_lt (hlt t ht), ?_, fun t ht => ?_, fun t ht h => ?_, fun _ => ho⟩
  · rw [map_generation_cancelAll]
    exact hs.nodup
  · obtain ⟨u, -, rfl⟩ := mem_cancelAll.1 ht
    simpa using Nat.ne_of_lt (hlt _ ht)
  · exact absurd h (Nat.ne_of_lt (hlt t ht))

theorem Sound.attach (hs : s.Sound) (session : String) (cursor : UInt64) :
    (s.step (.attach session cursor)).1.Sound := by
  obtain ⟨links, -, hc, -⟩ := s.client.attach_eq session cursor
  have hold := hs.cancelAll (c := (s.client.attach session cursor).1) (by rw [hc]) (by rw [hc])
  have hlt : ∀ t ∈ System.cancelAll s.tasks,
      t.run.generation < (s.client.attach session cursor).1.generation := by
    intro t ht
    refine Nat.lt_of_le_of_ne (hold.le t ht) fun h => ?_
    obtain ⟨u, -, rfl⟩ := mem_cancelAll.1 ht
    simpa using (hold.current _ ht).2 h
  simp only [step]
  refine ⟨fun t ht => ?_, ?_, fun t ht => ?_, fun t ht hg => ?_, fun h => ?_⟩
  · rcases List.mem_append.1 ht with ht | ht
    · exact hold.le t ht
    · cases List.mem_singleton.1 ht
      exact Nat.le_refl _
  · rw [List.map_append, List.nodup_append]
    refine ⟨hold.nodup, by simp, fun g hg g' hg' => ?_⟩
    obtain ⟨t, ht, rfl⟩ := List.mem_map.1 hg
    obtain rfl : g' = (s.client.attach session cursor).1.generation := by simpa using hg'
    exact Nat.ne_of_lt (hlt t ht)
  · rcases List.mem_append.1 ht with ht | ht
    · exact hold.current t ht
    · simp [List.mem_singleton.1 ht]
  · rcases List.mem_append.1 ht with ht | ht
    · exact absurd hg (Nat.ne_of_lt (hlt t ht))
    · rw [List.mem_singleton.1 ht, hc]
      exact ⟨rfl, rfl, rfl, rfl⟩
  · exact absurd rfl (h _ (List.mem_append.2 (.inr (List.mem_singleton.2 rfl))))

theorem Sound.replace (hs : s.Sound) {g : Nat} {c : Client} {run : Option Run}
    (hc : c.generation = s.client.generation) (hrun : ∀ r, run = some r → r.generation = g)
    (hfits : ∀ t ∈ s.tasks, t.run.generation = c.generation → t.run.generation ≠ g →
      c.Fits t.run)
    (hnew : ∀ r, run = some r → g = c.generation → c.Fits r)
    (hidle : (∀ t ∈ System.replace s.tasks g run, t.run.generation ≠ c.generation) →
      c.outbound = none) :
    Sound ⟨c, System.replace s.tasks g run⟩ := by
  refine ⟨fun t' ht' => ?_, ?_, fun t' ht' => ?_, fun t' ht' hg' => ?_, hidle⟩
  · rcases mem_replace.1 ht' with ⟨ht, -⟩ | ⟨t, ht, hg, r, hr, rfl⟩
    · exact hc ▸ hs.le t' ht
    · have := hs.le t ht
      simp only [hrun r hr, hc]
      omega
  · exact (sublist_replace s.tasks g hrun).nodup hs.nodup
  · rcases mem_replace.1 ht' with ⟨ht, -⟩ | ⟨t, ht, hg, r, hr, rfl⟩
    · rw [hc]
      exact hs.current t' ht
    · simp only [hrun r hr, hc, ← hg]
      exact hs.current t ht
  · rcases mem_replace.1 ht' with ⟨ht, hne⟩ | ⟨t, ht, hg, r, hr, rfl⟩
    · exact hfits t' ht hg' hne
    · exact hnew r hr ((hrun r hr).symm.trans hg')

theorem Sound.wake (hs : s.Sound) (g : Nat) (w : Wake) : (s.step (.wake g w)).1.Sound := by
  have hw := woken hs g w
  generalize s.step (.wake g w) = out at hw ⊢
  cases hw with
  | absent => exact hs
  | late t run ht hne hor =>
    obtain ⟨hmem, hg⟩ := mem_of_task? ht
    refine hs.replace rfl ?_ (fun u hu hc _ => hs.fits u hu hc) (fun _ _ h => absurd h hne) ?_
    · rcases hor with rfl | rfl <;> simp [hg]
    · intro h
      refine hs.idle fun u hu hc => ?_
      have hu' : u.run.generation ≠ g := fun h' => hne (h'.symm.trans hc)
      exact h u (mem_replace.2 (.inl ⟨hu, hu'⟩)) hc
  | closed t ht hne =>
    refine hs.replace rfl nofun ?_ nofun ?_
    · intro u hu hc _
      exact (hs.fits u hu hc).of_links (by simp) s.client.viewport
    · intro h
      refine hs.idle fun u hu hc => ?_
      have hu' : u.run.generation ≠ g := fun h' => hne (h'.symm.trans hc)
      exact h u (mem_replace.2 (.inl ⟨hu, hu'⟩)) hc
  | moved t next ht hcur _ hfits hmove =>
    obtain ⟨hmem, hg⟩ := mem_of_task? ht
    obtain ⟨-, -, hgen, -, -⟩ := hmove.frame
    refine hs.replace hgen ?_ ?_ ?_ ?_
    · intro r hr
      rw [(hmove.run_eq hr).1, hg]
    · intro u hu hc hne
      exact absurd (hc.trans (hgen.trans hcur.symm)) hne
    · intro r hr _
      exact hmove.fits hfits hr
    · intro h
      cases hr : next.run with
      | none => exact (hmove.ended hr).1
      | some r =>
        have hr' : r.generation = next.client.generation := by
          rw [(hmove.run_eq hr).1, hg, hcur, hgen]
        exact absurd hr' (h { t with run := r } (mem_replace.2 (.inr ⟨t, hmem, hg, r, hr, rfl⟩)))

theorem Sound.step (hs : s.Sound) (a : Action) : (s.step a).1.Sound := by
  cases a with
  | attach session cursor => exact hs.attach session cursor
  | stop =>
    obtain ⟨links, -, hc, -⟩ := s.client.stop_eq
    exact hs.cancelAll (c := s.client.stop.1) (by rw [hc]) (by rw [hc])
  | supersede =>
    obtain ⟨links, -, hc⟩ := s.client.supersede_eq
    exact hs.cancelAll (c := s.client.supersede) (by rw [hc]) (by rw [hc])
  | send m =>
    obtain ⟨links, hlen, hc⟩ := s.client.send_eq m
    simp only [System.step, hc]
    exact hs.of_client rfl rfl fun r hf => hf.of_links (Nat.le_of_eq hlen.symm) s.client.viewport
  | setViewport cols rows =>
    obtain ⟨links, hlen, hc⟩ := s.client.setViewport_eq cols rows
    simp only [System.step, hc]
    exact hs.of_client rfl rfl fun r hf => hf.of_links (Nat.le_of_eq hlen.symm) _
  | wake g w => exact hs.wake g w
  | drop g =>
    refine ⟨fun t ht => hs.le t (List.mem_filter.1 ht |>.1), ?_,
      fun t ht => hs.current t (List.mem_filter.1 ht |>.1),
      fun t ht hg => hs.fits t (List.mem_filter.1 ht |>.1) hg, fun h => ?_⟩
    · exact (List.filter_sublist.map _).nodup hs.nodup
    · refine hs.idle fun t ht hg => ?_
      refine h t (List.mem_filter.2 ⟨ht, ?_⟩) hg
      simp [(hs.current t ht).2 hg]
  | refuse link =>
    exact hs.of_client rfl rfl fun r hf =>
      hf.of_links (Nat.le_of_eq (List.length_modify ..).symm) s.client.viewport

/-- A run that was woken and goes on is found again. -/
theorem task?_step_wake (hs : s.Sound) {g : Nat} {t : Task} (ht : s.task? g = some t) {w : Wake}
    {r : Run} (hrun : (s.client.wake t.run w).run = some r) (hr : r.generation = g) :
    (s.step (.wake g w)).1.task? g = some { t with run := r } := by
  obtain ⟨hmem, hg⟩ := mem_of_task? ht
  have htasks : (s.step (.wake g w)).1.tasks = System.replace s.tasks g (some r) := by
    simp only [System.step, ht, hrun]
  have hin : { t with run := r } ∈ (s.step (.wake g w)).1.tasks := by
    rw [htasks]
    exact mem_replace.2 (.inr ⟨t, hmem, hg, r, rfl, rfl⟩)
  have hfound := task?_of_mem (hs.step (.wake g w)) hin
  rwa [hr] at hfound

/-! ## The run of the current generation -/

/-- After a call that cancels all runs none is of the current generation. -/
theorem not_current_cancelAll (hs : s.Sound) {tasks : List Task} (h : s.tasks = cancelAll tasks) :
    ∀ t ∈ s.tasks, t.run.generation ≠ s.client.generation := by
  intro t ht hg
  have hkeep := (hs.current t ht).2 hg
  rw [h] at ht
  obtain ⟨u, -, rfl⟩ := mem_cancelAll.1 ht
  cases hkeep

/-- After an attachment the run of the current generation is the one that has begun. -/
theorem task_of_attach (hs : s.Sound) {session : String} {cursor : UInt64} {t : Task}
    (ht : (s.step (.attach session cursor)).1.task?
      (s.step (.attach session cursor)).1.client.generation = some t) :
    t = ⟨⟨(s.client.attach session cursor).1.generation, session, 0, .start⟩, false⟩ := by
  obtain ⟨hmem, hg⟩ := mem_of_task? ht
  have hkeep := ((hs.step (.attach session cursor)).current t hmem).2 hg
  rcases List.mem_append.1 hmem with hold | hnew
  · obtain ⟨u, -, rfl⟩ := mem_cancelAll.1 hold
    cases hkeep
  · exact List.mem_singleton.1 hnew

/-- What an action other than an attachment comes to for the run of the current
generation : it was not woken, is then as it was, or gone, and at most a stop is told;
or it takes one of its moves. -/
inductive Turned (s : System) (a : Action) : System × List Notice → Prop where
  | left (out : System × List Notice) :
    (∀ w, a = .wake s.client.generation w → s.task? s.client.generation = none) →
    (∀ notice ∈ out.2, notice = .state (.closed Client.stoppedReason)) →
    out.1.client.gate = s.client.gate →
    (∀ t, out.1.task? out.1.client.generation = some t →
      s.task? s.client.generation = some t) → Turned s a out
  | moved (t : Task) (w : Wake) (next : Step) : a = .wake s.client.generation w →
    s.task? s.client.generation = some t → s.client.Fits t.run → s.client.Move t.run w next →
    Turned s a (⟨next.client, replace s.tasks s.client.generation next.run⟩, next.notices)

theorem turned_wake (hs : s.Sound) (g : Nat) (w : Wake) :
    Turned s (.wake g w) (s.step (.wake g w)) := by
  have hw := woken hs g w
  generalize s.step (.wake g w) = out at hw ⊢
  cases hw with
  | absent hnone =>
    refine .left _ (fun u hu => ?_) (List.forall_mem_nil _) rfl fun _ ht => ht
    cases hu
    exact hnone
  | late t run ht hne hor =>
    have hother : ∀ u, Action.wake g w ≠ .wake s.client.generation u := by
      rintro u hu
      cases hu
      exact hne rfl
    refine .left _ (fun u hu => absurd hu (hother u)) (List.forall_mem_nil _) rfl fun u hu => ?_
    refine (find?_replace_of_ne (fun r hr => ?_) (Ne.symm hne)).symm.trans hu
    rcases hor with rfl | rfl
    · cases hr
    · cases hr
      exact (mem_of_task? ht).2
  | closed t ht hne =>
    have hnone : ∀ r, (none : Option Run) = some r → r.generation = g := nofun
    have hother : ∀ u, Action.wake g w ≠ .wake s.client.generation u := by
      rintro u hu
      cases hu
      exact hne rfl
    exact .left _ (fun u hu => absurd hu (hother u)) (List.forall_mem_nil _) rfl fun u hu =>
      (find?_replace_of_ne hnone (Ne.symm hne)).symm.trans hu
  | moved t next ht hcur _ hfits hmove =>
    subst hcur
    exact .moved t w next rfl ht hfits hmove

theorem turned (hs : s.Sound) {a : Action} (ha : ∀ session cursor, a ≠ .attach session cursor) :
    Turned s a (s.step a) := by
  have hgone : ∀ {s' : System}, s'.Sound → s'.tasks = cancelAll s.tasks → ∀ t,
      s'.task? s'.client.generation = some t → s.task? s.client.generation = some t := by
    intro s' hs' htasks t ht
    obtain ⟨hmem, hg⟩ := mem_of_task? ht
    exact absurd hg (not_current_cancelAll hs' htasks t hmem)
  cases a with
  | attach session cursor => exact absurd rfl (ha session cursor)
  | stop =>
    obtain ⟨links, -, hc, hn⟩ := s.client.stop_eq
    refine .left _ nofun (fun notice hin => ?_) (by simp [System.step, hc])
      (hgone (hs.step .stop) rfl)
    simp only [System.step, hn] at hin
    split at hin
    · cases hin
    · exact List.mem_singleton.1 hin
  | supersede =>
    obtain ⟨links, -, hc⟩ := s.client.supersede_eq
    exact .left _ nofun (List.forall_mem_nil _) (by simp [System.step, hc])
      (hgone (hs.step .supersede) rfl)
  | send m =>
    obtain ⟨links, -, hc⟩ := s.client.send_eq m
    refine .left _ nofun (List.forall_mem_nil _) (by simp [System.step, hc]) fun t ht => ?_
    simp only [System.step, hc] at ht
    exact ht
  | setViewport cols rows =>
    obtain ⟨links, -, hc⟩ := s.client.setViewport_eq cols rows
    refine .left _ nofun (List.forall_mem_nil _) (by simp [System.step, hc]) fun t ht => ?_
    simp only [System.step, hc] at ht
    exact ht
  | wake g w => exact turned_wake hs g w
  | drop g =>
    refine .left _ nofun (List.forall_mem_nil _) rfl fun t ht => ?_
    obtain ⟨hmem, hg⟩ := mem_of_task? ht
    exact hg ▸ task?_of_mem hs (List.mem_filter.1 hmem).1
  | refuse link => exact .left _ nofun (List.forall_mem_nil _) rfl fun t ht => ht

/-! ## Generations -/

/-- No action changes where and how the client connects. -/
theorem setup_step (hs : s.Sound) (a : Action) :
    (s.step a).1.client.endpoint = s.client.endpoint ∧
      (s.step a).1.client.config = s.client.config := by
  cases a with
  | attach session cursor =>
    obtain ⟨links, -, hc, -⟩ := s.client.attach_eq session cursor
    simp [step, hc]
  | stop =>
    obtain ⟨links, -, hc, -⟩ := s.client.stop_eq
    simp [step, hc]
  | supersede =>
    obtain ⟨links, -, hc⟩ := s.client.supersede_eq
    simp [step, hc]
  | send m =>
    obtain ⟨links, -, hc⟩ := s.client.send_eq m
    simp [step, hc]
  | setViewport cols rows =>
    obtain ⟨links, -, hc⟩ := s.client.setViewport_eq cols rows
    simp [step, hc]
  | wake g w =>
    have hw := woken hs g w
    generalize s.step (.wake g w) = out at hw ⊢
    cases hw with
    | moved t next _ _ _ _ hmove => exact ⟨hmove.frame.1, hmove.frame.2.1⟩
    | _ => exact ⟨rfl, rfl⟩
  | drop g => exact ⟨rfl, rfl⟩
  | refuse link => exact ⟨rfl, rfl⟩

theorem config_step (hs : s.Sound) (a : Action) :
    (s.step a).1.client.config = s.client.config :=
  (setup_step hs a).2

theorem generation_wake (hs : s.Sound) (g : Nat) (w : Wake) :
    (s.step (.wake g w)).1.client.generation = s.client.generation := by
  have hw := woken hs g w
  generalize s.step (.wake g w) = out at hw ⊢
  cases hw with
  | moved t next _ _ _ _ hmove => exact hmove.frame.2.2.1
  | _ => rfl

/-- A generation begins with every call that cancels the runs before it, and never
otherwise. -/
theorem generation_step (hs : s.Sound) (a : Action) :
    (s.step a).1.client.generation = s.client.generation + a.begins.toNat := by
  cases a with
  | attach session cursor =>
    obtain ⟨links, -, hc, -⟩ := s.client.attach_eq session cursor
    simp [System.step, hc, Action.begins]
  | stop =>
    obtain ⟨links, -, hc, -⟩ := s.client.stop_eq
    simp [System.step, hc, Action.begins]
  | supersede =>
    obtain ⟨links, -, hc⟩ := s.client.supersede_eq
    simp [System.step, hc, Action.begins]
  | send m =>
    obtain ⟨links, -, hc⟩ := s.client.send_eq m
    simp [System.step, hc, Action.begins]
  | setViewport cols rows =>
    obtain ⟨links, -, hc⟩ := s.client.setViewport_eq cols rows
    simp [System.step, hc, Action.begins]
  | wake g w => exact generation_wake hs g w
  | drop g => rfl
  | refuse link => rfl

theorem generation_le_run (hs : s.Sound) (actions : List Action) :
    s.client.generation ≤ (s.run actions).1.client.generation := by
  induction actions generalizing s with
  | nil => exact Nat.le_refl _
  | cons a rest ih =>
    calc s.client.generation ≤ (s.step a).1.client.generation := by
          rw [generation_step hs a]
          exact Nat.le_add_right _ _
      _ ≤ (s.run (a :: rest)).1.client.generation := ih (hs.step a)

/-! ## Runs -/

/-- The system after some actions. -/
def after (endpoint : Endpoint) (config : StreamConfig) (actions : List Action) : System :=
  ((new endpoint config).run actions).1

theorem run_append (s : System) (xs ys : List Action) :
    s.run (xs ++ ys) = (((s.run xs).1.run ys).1, (s.run xs).2 ++ ((s.run xs).1.run ys).2) := by
  induction xs generalizing s with
  | nil => rfl
  | cons a rest ih => simp [run, ih, List.append_assoc]

theorem Sound.run (hs : s.Sound) (actions : List Action) : (s.run actions).1.Sound := by
  induction actions generalizing s with
  | nil => exact hs
  | cons a rest ih => exact ih (hs.step a)

theorem setup_run (hs : s.Sound) (actions : List Action) :
    (s.run actions).1.client.endpoint = s.client.endpoint ∧
      (s.run actions).1.client.config = s.client.config := by
  induction actions generalizing s with
  | nil => exact ⟨rfl, rfl⟩
  | cons a rest ih =>
    obtain ⟨hendpoint, hconfig⟩ := setup_step hs a
    obtain ⟨hendpoint', hconfig'⟩ := ih (hs.step a)
    exact ⟨hendpoint'.trans hendpoint, hconfig'.trans hconfig⟩

/-- Whatever happened, the system is sound. -/
theorem sound_after (endpoint : Endpoint) (config : StreamConfig) (actions : List Action) :
    (after endpoint config actions).Sound :=
  (Sound.new endpoint config).run actions

end System

end RemoteSession
