import RemoteSession.Proofs.Session.Effects

/-!
# No event is shown twice

As long as what is stored is loaded again (`CursorService.Reliable`) and no cursor is
forgotten, the events that are shown of a session should go up from one to the next and
begin after its cursor, however often the session is left and attached again and whatever
its old runs still do; and its cursor should never go back (`Stage.Ascends`). This is so
exactly when every event is shown after the cursor that is kept of its session at that
moment (`Stage.ascends_iff`).

A run that takes every event after the cursor that it began with does not ensure this: the
cursor is read before the run of the same session is silenced, and when that run shows an
event in between, the next one begins behind it, shows it again and takes the cursor back
(`Stage.not_ascends_read_early`). With no event of the session in between, the gate of the
current run stands where its session was read to (`Stage.Follows`), and an event that passes
the gate exceeds the cursor that it replaces.
-/

namespace RemoteSession

/-- Cursors that are loaded as they were stored last. -/
structure CursorService.Reliable {σ : Type} (service : CursorService σ) : Prop where
  load_store : service.Observed service.load

theorem CursorService.reliable_memory : CursorService.memory.Reliable where
  load_store cursors id seq other := by
    simp only [memory, MemoryCursorStore.load, MemoryCursorStore.store, Cursors.load,
      Keyed.get?_insert]
    split <;> rfl

/-- A store in a file tells what was stored, also where it could not be written. -/
theorem CursorService.reliable_file (disk : Disk) : (CursorService.file disk).Reliable where
  load_store cursors id seq other := by
    simp only [file, StoredCursors.ofOutcome, FileCursorStore.store, FileCursorStore.load]
    split
    · next h =>
      split
      · next hid => rw [Cursors.load, ← hid, h, Option.getD_some]
      · rfl
    · simp only [Cursors.load, Keyed.get?_insert]
      split <;> rfl

/-! ## Numbers that go up -/

/-- Numbers that go up from one to another. -/
inductive Climbs : UInt64 → List UInt64 → UInt64 → Prop where
  | refl (n : UInt64) : Climbs n [] n
  | step {n seq top : UInt64} {rest : List UInt64} : n < seq → Climbs seq rest top →
    Climbs n (seq :: rest) top

namespace Climbs

variable {n m top : UInt64} {seqs later : List UInt64}

theorem append (h : Climbs n seqs m) (hlater : Climbs m later top) :
    Climbs n (seqs ++ later) top := by
  induction h with
  | refl => exact hlater
  | step hlt _ ih => exact .step hlt (ih hlater)

theorem le (h : Climbs n seqs m) : n ≤ m := by
  induction h with
  | refl => exact UInt64.le_refl _
  | step hlt _ ih => exact UInt64.le_trans (UInt64.le_of_lt hlt) ih

theorem lt_of_mem (h : Climbs n seqs m) : ∀ seq ∈ seqs, n < seq := by
  induction h with
  | refl => exact List.forall_mem_nil _
  | step hlt _ ih =>
    exact List.forall_mem_cons.2 ⟨hlt, fun seq hseq => UInt64.lt_trans hlt (ih seq hseq)⟩

theorem pairwise (h : Climbs n seqs m) : seqs.Pairwise (· < ·) := by
  induction h with
  | refl => exact .nil
  | step _ hrest ih => exact .cons hrest.lt_of_mem ih

end Climbs

namespace SessionView

variable {σ : Type} {service : CursorService σ} {v : SessionView σ}

theorem cursor_of_cursors_eq {w : SessionView σ} (h : w.cursors = v.cursors) (id : String) :
    w.cursor service id = v.cursor service id := by
  rw [cursor, cursor, h]

theorem cursor_of_stored (hservice : service.Reliable) {w : SessionView σ} {session : String}
    {seq : UInt64} (h : w.cursors = service.store v.cursors session seq) (id : String) :
    w.cursor service id = if session = id then seq else v.cursor service id := by
  rw [cursor, h, hservice.load_store]
  split <;> rfl

end SessionView

namespace Stage

variable {σ : Type} (service : CursorService σ)

/-- What is shown of a session goes up and begins after its cursor, which never goes back. -/
structure Ascends (p : Stage σ) (turns : List Turn) (id : String) : Prop where
  pairwise : (p.shown service id turns).Pairwise (· < ·)
  above : ∀ seq ∈ p.shown service id turns, p.view.cursor service id < seq
  kept : ∀ before between, before ++ between <+: turns →
    (p.after service before).view.cursor service id ≤
      (p.after service (before ++ between)).view.cursor service id

/-- Every event of a session is shown after the cursor that is kept then. -/
def Exceeds (p : Stage σ) (turns : List Turn) (id : String) : Prop :=
  ∀ before turn later, turns = before ++ turn :: later →
    ∀ seq ∈ (p.after service before).shown service id [turn],
      (p.after service before).view.cursor service id < seq

/-- The session that is about to be attached: its cursor was read, and the run before is not
silenced yet. -/
def awaited? (p : Stage σ) : Option String :=
  match p.rest with
  | .silence :: .present m :: _ => some m.id
  | _ => none

/-- Whether no event of a session is shown between the reading of its cursor and the silencing
of the run before. -/
def undisturbed (p : Stage σ) : List Turn → Bool
  | [] => true
  | turn :: rest =>
    p.awaited?.all (fun id => (p.shown service id [turn]).isEmpty) &&
      (p.step service turn).undisturbed rest

/-- The current run, and the one that is about to begin, go on from where their sessions were
read to. -/
structure Follows (p : Stage σ) : Prop where
  gate : ∀ t ∈ p.view.system.tasks, t.run.generation = p.view.system.client.generation →
    p.view.cursor service t.run.session = p.view.system.client.gate.cursor
  read : ∀ session cursor, .follow session cursor ∈ p.rest →
    p.view.cursor service session = cursor
  keeping : p.Keeping

variable {service} {p : Stage σ} {limits : Timeline.Config} {turn : Turn} {turns : List Turn}
  {id : String}

/-! ## What goes up -/

theorem cursor_after (hservice : service.Reliable) (hp : p.Sound limits) (hkeeping : p.Keeping)
    (hturns : ∀ turn ∈ turns, turn.forgets = false) (id : String) :
    (p.after service turns).view.cursor service id =
      (p.shown service id turns).getLast?.getD (p.view.cursor service id) := by
  rw [SessionView.cursor, observe_after hservice.load_store hp hkeeping hturns, Option.getD_or]
  rfl

/-- One event is shown of a session in a turn at most. -/
theorem shown_turn_cases (service : CursorService σ) (hp : p.Sound limits) (turn : Turn)
    (id : String) : p.shown service id [turn] = [] ∨ ∃ seq, p.shown service id [turn] = [seq] := by
  cases effect service hp turn with
  | still hevents => exact .inl (shown_of_events_nil hevents id)
  | showed g w t e _ _ _ hattached _ hevents =>
    rw [shown_of_showed hattached hevents]
    split
    · exact .inr ⟨e.seq, rfl⟩
    · exact .inl rfl
  | forgot session _ _ hevents => exact .inl (shown_of_events_nil hevents id)

theorem Exceeds.climbs (hservice : service.Reliable) (hp : p.Sound limits) (hkeeping : p.Keeping)
    (hturns : ∀ turn ∈ turns, turn.forgets = false) (h : p.Exceeds service turns id) :
    Climbs (p.view.cursor service id) (p.shown service id turns)
      ((p.after service turns).view.cursor service id) := by
  induction turns generalizing p with
  | nil => exact .refl _
  | cons turn rest ih =>
    obtain ⟨hturn, hrest⟩ := List.forall_mem_cons.1 hturns
    have hnow : Climbs (p.view.cursor service id) (p.shown service id [turn])
        ((p.step service turn).view.cursor service id) := by
      have hcursor : (p.step service turn).view.cursor service id = _ :=
        cursor_after hservice hp hkeeping (List.forall_mem_singleton.2 hturn) id
      rw [hcursor]
      rcases shown_turn_cases service hp turn id with hnone | ⟨seq, hone⟩
      · rw [hnone]
        exact .refl _
      · have hlt := h [] turn rest rfl seq (hone ▸ List.mem_singleton_self seq)
        rw [hone]
        exact .step hlt (.refl _)
    have hlater := ih (hp.step service turn) (hkeeping.step service hturn) hrest
      fun before next later heq => h (turn :: before) next later (congrArg (turn :: ·) heq)
    rw [shown_cons]
    exact hnow.append hlater

theorem Exceeds.ascends (hservice : service.Reliable) (hp : p.Sound limits)
    (hkeeping : p.Keeping) (hturns : ∀ turn ∈ turns, turn.forgets = false)
    (h : p.Exceeds service turns id) : p.Ascends service turns id := by
  have hclimbs := h.climbs hservice hp hkeeping hturns
  refine ⟨hclimbs.pairwise, hclimbs.lt_of_mem, ?_⟩
  rintro before between ⟨later, rfl⟩
  obtain ⟨hearly, -⟩ := List.forall_mem_append.1 hturns
  obtain ⟨hbefore, hbetween⟩ := List.forall_mem_append.1 hearly
  have hmoved : (p.after service before).Exceeds service between id := by
    rintro first turn last rfl seq hseq
    rw [← after_append] at hseq ⊢
    exact h (before ++ first) turn (last ++ later) (by simp) seq hseq
  rw [after_append]
  exact (hmoved.climbs hservice (hp.after service before) (hkeeping.after service hbefore)
    hbetween).le

/-- The cursor that is kept is that of the last event shown before, or the first of all. -/
theorem Ascends.exceeds (hservice : service.Reliable) (hp : p.Sound limits)
    (hkeeping : p.Keeping) (hturns : ∀ turn ∈ turns, turn.forgets = false)
    (h : p.Ascends service turns id) : p.Exceeds service turns id := by
  rintro before turn later rfl seq hseq
  obtain ⟨hbefore, -⟩ := List.forall_mem_append.1 hturns
  have hshown : p.shown service id (before ++ turn :: later) =
      p.shown service id before ++ ((p.after service before).shown service id [turn] ++
        ((p.after service before).step service turn).shown service id later) := by
    rw [shown_append, shown_cons]
  have hlate : seq ∈ (p.after service before).shown service id [turn] ++
      ((p.after service before).step service turn).shown service id later :=
    List.mem_append_left _ hseq
  have hpairwise := hshown ▸ h.pairwise
  rw [cursor_after hservice hp hkeeping hbefore]
  cases hlast : (p.shown service id before).getLast? with
  | none => exact h.above seq (hshown ▸ List.mem_append_right _ hlate)
  | some last =>
    exact (List.pairwise_append.1 hpairwise).2.2 last (List.mem_of_getLast? hlast) seq hlate

/-! ## Undisturbed -/

theorem Follows.new (endpoint : Endpoint) (config : StreamConfig) (limits : Timeline.Config)
    (cursors : σ) : (new endpoint config limits cursors).Follows service where
  gate _ ht := nomatch ht
  read _ _ hmem := nomatch hmem
  keeping _ hmem := nomatch hmem

/-- A run shows no event of a session that is about to be attached. -/
theorem Follows.session_ne (h : p.Follows service) (hp : p.Sound limits)
    (hquiet : ∀ id, p.awaited? = some id → p.shown service id [turn] = []) {t : Task} {e : Event}
    (ht : t ∈ p.view.system.tasks) (hg : t.run.generation = p.view.system.client.generation)
    (hattached : p.view.attached = some t.run.session)
    (hevents : ViewNotice.events (p.tell service turn) = [e]) {session : String}
    {cursor : UInt64} (hfollow : .follow session cursor ∈ p.rest) : t.run.session ≠ session := by
  obtain ⟨v, rest⟩ := p
  obtain ⟨-, -, hpending⟩ := hp
  cases hpending with
  | forget m => cases h.keeping _ List.mem_cons_self
  | silence m =>
    have hnone := hquiet m.id rfl
    have hsession : session = m.id := by simp_all
    rw [shown_of_showed hattached hevents] at hnone
    rintro rfl
    simp [hsession] at hnone
  | present m _ hnone => exact absurd hg (hnone t ht)
  | follow _ _ hnone => exact absurd hg (hnone t ht)
  | last part halone =>
    obtain rfl := List.mem_singleton.1 hfollow
    cases halone
  | _ => simp at hfollow

/-- Where nothing is shown and nothing forgotten, all was read as far as before. -/
theorem Follows.cursor_of_events_nil (h : p.Follows service) (hp : p.Sound limits)
    (hnone : ViewNotice.events (p.tell service turn) = []) (id : String) :
    (p.step service turn).view.cursor service id = p.view.cursor service id := by
  cases effect service hp turn with
  | still _ hsame => exact SessionView.cursor_of_cursors_eq hsame id
  | showed g w t e _ _ _ _ _ hevents => simp [hnone] at hevents
  | forgot other _ hpart => cases h.keeping _ (List.mem_of_head? hpart)

theorem Follows.gate_step (hservice : service.Reliable) (h : p.Follows service)
    (hp : p.Sound limits) {u : Task} (hu : u ∈ (p.step service turn).view.system.tasks)
    (hg : u.run.generation = (p.step service turn).view.system.client.generation) :
    (p.step service turn).view.cursor service u.run.session =
      (p.step service turn).view.system.client.gate.cursor := by
  cases origin service hp hu hg with
  | stayed t ht htg hsession hnone hgate =>
    rw [h.cursor_of_events_nil hp hnone, hgate, ← hsession]
    exact h.gate t ht htg
  | showed e _ _ hstored hgate =>
    rw [SessionView.cursor_of_stored hservice hstored, if_pos rfl, hgate]
  | began cursor hfollow hnone hgate =>
    rw [h.cursor_of_events_nil hp hnone, hgate]
    exact h.read _ cursor hfollow

theorem Follows.step (hservice : service.Reliable) (h : p.Follows service) (hp : p.Sound limits)
    (hturn : turn.forgets = false)
    (hquiet : ∀ id, p.awaited? = some id → p.shown service id [turn] = []) :
    (p.step service turn).Follows service := by
  refine ⟨fun u hu hg => h.gate_step hservice hp hu hg, fun session cursor hfollow => ?_,
    h.keeping.step service hturn⟩
  rcases follow_of_step service hfollow with hbefore | ⟨hview, m, -, ⟨-, rfl⟩ | ⟨rfl, -⟩⟩
  · have hcursor := h.read session cursor hbefore
    cases effect service hp turn with
    | still _ hsame => rw [SessionView.cursor_of_cursors_eq hsame, hcursor]
    | showed g w t e _ ht hg hattached _ hevents hstored =>
      have hne := h.session_ne hp hquiet ht hg hattached hevents hbefore
      rw [SessionView.cursor_of_stored hservice hstored, if_neg hne, hcursor]
    | forgot other _ hpart => cases h.keeping _ (List.mem_of_head? hpart)
  · rw [hview]
  · cases hturn

/-- An event that passes the gate is after the cursor of its session. -/
theorem Follows.lt_of_shown (h : p.Follows service) (hp : p.Sound limits) (turn : Turn)
    (id : String) : ∀ seq ∈ p.shown service id [turn], p.view.cursor service id < seq := by
  intro seq hseq
  cases effect service hp turn with
  | still hevents => simp [shown_of_events_nil hevents] at hseq
  | showed g w t e _ ht hg hattached hlt hevents =>
    rw [shown_of_showed hattached hevents] at hseq
    split at hseq
    · next hid =>
      rw [List.mem_singleton.1 hseq, ← hid, h.gate t ht hg]
      exact hlt
    · cases hseq
  | forgot _ _ _ hevents => simp [shown_of_events_nil hevents] at hseq

theorem Follows.exceeds (hservice : service.Reliable) (h : p.Follows service)
    (hp : p.Sound limits) (hturns : ∀ turn ∈ turns, turn.forgets = false)
    (hquiet : p.undisturbed service turns = true) (id : String) :
    p.Exceeds service turns id := by
  induction turns generalizing p with
  | nil =>
    rintro before turn later heq
    simp at heq
  | cons turn rest ih =>
    obtain ⟨hturn, hrest⟩ := List.forall_mem_cons.1 hturns
    rw [undisturbed, Bool.and_eq_true] at hquiet
    obtain ⟨hnow, hlater⟩ := hquiet
    have hnone : ∀ id, p.awaited? = some id → p.shown service id [turn] = [] := by
      intro id hid
      simpa [hid] using hnow
    rintro before next later heq
    cases before with
    | nil =>
      cases heq
      exact h.lt_of_shown hp turn id
    | cons first before =>
      cases heq
      exact ih (h.step hservice hp hturn hnone) (hp.step service turn) hrest hlater before next
        later rfl

/-- Whatever is attached, stopped, sent and received, in any order and between the parts of
calls, with no cursor forgotten. What is shown of a session goes up and begins after its
cursor, which never goes back, exactly when every event of it is shown after the cursor that is
kept then. This is so for all sessions when no event of a session is shown after its cursor
was read to attach it and before the run before is silenced. -/
theorem ascends_iff (hservice : service.Reliable) (endpoint : Endpoint) (config : StreamConfig)
    (limits : Timeline.Config) (cursors : σ) (turns : List Turn)
    (hturns : ∀ turn ∈ turns, turn.forgets = false) :
    let start := new endpoint config limits cursors
    (∀ id, start.Ascends service turns id ↔ start.Exceeds service turns id) ∧
      (start.undisturbed service turns = true → ∀ id, start.Ascends service turns id) := by
  intro start
  have hstart : start.Sound limits := .new endpoint config limits cursors
  have hfollows : start.Follows service := .new endpoint config limits cursors
  refine ⟨fun id => ⟨fun h => h.exceeds hservice hstart hfollows.keeping hturns, fun h => ?_⟩,
    fun hquiet id => ?_⟩
  · exact h.ascends hservice hstart hfollows.keeping hturns
  · exact (hfollows.exceeds hservice hstart hturns hquiet id).ascends hservice hstart
      hfollows.keeping hturns

/-- A session is attached anew after its first event. A frame that reaches the run before once
it is silenced is not shown, and the new run does not show the first event again. -/
theorem ascends_reattached :
    let endpoint : Endpoint := ⟨⟨.http, "", none, .name "localhost", none, [""], none, none⟩, none⟩
    let first := "\x7b\"seq\":1,\"kind\":\"user\"\x7d"
    let second := "\x7b\"seq\":2,\"kind\":\"user\"\x7d"
    let frame := fun (g : Nat) text => Turn.act (.wake g (.incoming (some (.text text))))
    let turns : List Turn :=
      [.act (.attach ⟨"s1", "", "", "", none⟩), .go, .go, .go, .act (.wake 2 .start),
        .act (.wake 2 (.ticket (.ok "t"))), .act (.wake 2 (.opened (.ok true))), frame 2 first,
        .act (.attach ⟨"s1", "", "", "", none⟩), .go, frame 2 second, .go, .go,
        .act (.wake 4 .start), .act (.wake 4 (.ticket (.ok "u"))),
        .act (.wake 4 (.opened (.ok true))), frame 4 first, frame 4 second]
    let start := new endpoint .default ⟨10, none⟩ MemoryCursorStore.empty
    start.shown .memory "s1" turns = [1, 2] ∧ start.Ascends .memory turns "s1" := by
  intro endpoint first second frame turns start
  refine ⟨by decide +kernel, ?_⟩
  exact (ascends_iff CursorService.reliable_memory endpoint .default ⟨10, none⟩
    MemoryCursorStore.empty turns (by decide)).2 (by decide +kernel) "s1"

/-- A session is attached anew after its first event. Its run shows two more once the cursor was
read and before it is silenced, so that the next run asks for them again: the first of them is
shown twice and takes the cursor back. -/
theorem not_ascends_read_early :
    let endpoint : Endpoint := ⟨⟨.http, "", none, .name "localhost", none, [""], none, none⟩, none⟩
    let first := "\x7b\"seq\":1,\"kind\":\"user\"\x7d"
    let second := "\x7b\"seq\":2,\"kind\":\"user\"\x7d"
    let third := "\x7b\"seq\":3,\"kind\":\"user\"\x7d"
    let frame := fun (g : Nat) text => Turn.act (.wake g (.incoming (some (.text text))))
    let turns : List Turn :=
      [.act (.attach ⟨"s1", "", "", "", none⟩), .go, .go, .go, .act (.wake 2 .start),
        .act (.wake 2 (.ticket (.ok "t"))), .act (.wake 2 (.opened (.ok true))), frame 2 first,
        .act (.attach ⟨"s1", "", "", "", none⟩), frame 2 second, frame 2 third, .go, .go, .go,
        .act (.wake 4 .start), .act (.wake 4 (.ticket (.ok "u"))),
        .act (.wake 4 (.opened (.ok true)))]
    let start := new endpoint .default ⟨10, none⟩ MemoryCursorStore.empty
    let again := turns ++ [frame 4 second]
    (∀ turn ∈ again, turn.forgets = false) ∧ start.shown .memory "s1" again = [1, 2, 3, 2] ∧
      (start.after .memory turns).view.cursors.load "s1" = 3 ∧
      (start.after .memory again).view.cursors.load "s1" = 2 ∧
      ¬ start.Ascends .memory again "s1" := by
  intro endpoint first second third frame turns start again
  have hshown : start.shown .memory "s1" again = [1, 2, 3, 2] := by decide +kernel
  refine ⟨by decide, hshown, by decide +kernel, by decide +kernel, fun h => ?_⟩
  have hpairwise := hshown ▸ h.pairwise
  revert hpairwise
  decide

end Stage

end RemoteSession
