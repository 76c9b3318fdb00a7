import RemoteSession.Proofs.Stream.Soundness
import RemoteSession.Session.View

/-!
# Superseded runs are silent

A call that begins a generation cancels the runs before it, but a cancelled run is
there until it is dropped, and whatever it waited for may still wake it. Such a wake
tells nothing, persists nothing and leaves the client as it was, but for a connection
that the run has just opened and then closes (`System.Silent`). This holds of every
run that is not of the current generation (`System.silent_of_superseded`), and so,
after a stop or a supersession, for ever of all runs before it.
-/

namespace RemoteSession

/-- The cursors after some notices of a client. -/
def CursorService.after {σ : Type} (service : CursorService σ) (cursors : σ)
    (notices : List Notice) : σ :=
  notices.foldl
    (fun cursors notice =>
      match notice with
      | .persist session seq => service.store cursors session seq
      | _ => cursors)
    cursors

namespace System

/-- A wake that nobody hears of and that leaves the client as it was. -/
structure Silent (s : System) (g : Nat) (w : Wake) : Prop where
  /-- No state and no event is told, no ticket requested and no connection opened. -/
  notices : (s.step (.wake g w)).2 = []
  persisted : ∀ {σ : Type} (service : CursorService σ) (cursors : σ),
    service.after cursors (s.step (.wake g w)).2 = cursors
  /-- State, cursor, current connection, last error and all else are as before. -/
  client : { (s.step (.wake g w)).1.client with links := s.client.links } = s.client
  /-- The connections are as before, but for one that the run has just opened: it gets
  one frame, a normal close, or none if it takes no frames. -/
  links : (s.step (.wake g w)).1.client.links = s.client.links ∨
    ∃ accepts, (s.task? g).map (fun t => t.run.wait) = some .opening ∧
      w = .opened (.ok accepts) ∧
        (s.step (.wake g w)).1.client.links =
          s.client.links ++
            [⟨if accepts then [.normalClose Client.supersededReason] else [], accepts⟩]
  /-- Other runs are as before. -/
  others : ∀ g' ≠ g, (s.step (.wake g w)).1.task? g' = s.task? g'

variable {s : System}

theorem silent_of_ne (hs : s.Sound) {g : Nat} (hne : g ≠ s.client.generation) (w : Wake) :
    s.Silent g w := by
  have hw := woken hs g w
  have hnil : (s.step (.wake g w)).2 = [] := by
    generalize s.step (.wake g w) = out at hw ⊢
    cases hw with
    | moved t next _ hcur => exact absurd hcur hne
    | _ => rfl
  refine ⟨hnil, fun service cursors => by rw [hnil]; rfl, ?_, ?_, ?_⟩ <;>
    generalize s.step (.wake g w) = out at hw ⊢
  · cases hw with
    | moved t next _ hcur => exact absurd hcur hne
    | _ => rfl
  · cases hw with
    | moved t next _ hcur => exact absurd hcur hne
    | closed t ht _ hwait hcause => exact .inr ⟨_, by simp [ht, hwait], hcause, rfl⟩
    | _ => exact .inl rfl
  · intro g' hg'
    cases hw with
    | moved t next _ hcur => exact absurd hcur hne
    | absent => rfl
    | late t run ht _ hor =>
      refine find?_replace_of_ne (fun r hr => ?_) hg'
      rcases hor with rfl | rfl
      · cases hr
      · cases hr
        exact (mem_of_task? ht).2
    | closed t => exact find?_replace_of_ne nofun hg'

/-- A wake of a run that is not of the current generation is silent, whatever happened
before. In particular, after a stop or a supersession all wakes of the runs before it
are, whatever happens then. -/
theorem silent_of_superseded (endpoint : Endpoint) (config : StreamConfig)
    (before : List Action) :
    (∀ g w, g ≠ (after endpoint config before).client.generation →
      (after endpoint config before).Silent g w) ∧
    ∀ cut, cut = Action.stop ∨ cut = Action.supersede → ∀ later g w,
      g ≤ (after endpoint config before).client.generation →
        (after endpoint config (before ++ cut :: later)).Silent g w := by
  refine ⟨fun g w hne => silent_of_ne (sound_after ..) hne w, ?_⟩
  intro cut hcut later g w hle
  refine silent_of_ne (sound_after ..) (Nat.ne_of_lt ?_) w
  have hs := sound_after endpoint config before
  have hbegins : cut.begins = true := by rcases hcut with rfl | rfl <;> rfl
  have hstep := generation_step hs cut
  rw [hbegins, Bool.toNat_true] at hstep
  have hlater := generation_le_run (hs.step cut) later
  have heq : after endpoint config (before ++ cut :: later) =
      (((after endpoint config before).step cut).1.run later).1 := by
    simp [after, run_append, run]
  rw [heq]
  omega

/-- A run is superseded while its connection opens, and a stop supersedes the next one. -/
theorem silent_of_superseded_opening :
    let endpoint : Endpoint := ⟨⟨.http, "", none, .name "localhost", none, [""], none, none⟩, none⟩
    let before : List Action :=
      [.attach "a" 0, .wake 1 .start, .wake 1 (.ticket (.ok "t")), .attach "b" 0]
    1 ≠ (after endpoint .default before).client.generation ∧
      (after endpoint .default before).Silent 1 (.opened (.ok true)) ∧
      2 ≤ (after endpoint .default before).client.generation ∧
      (after endpoint .default (before ++ .stop :: [.wake 2 .start])).Silent 2 .start :=
  ⟨by decide, (silent_of_superseded _ _ _).1 1 _ (by decide), by decide,
    (silent_of_superseded _ _ _).2 .stop (.inl rfl) _ 2 _ (by decide)⟩

end System

end RemoteSession
