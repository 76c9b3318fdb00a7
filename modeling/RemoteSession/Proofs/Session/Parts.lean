import RemoteSession.Proofs.Session.Actions

/-!
# Calls at once

A turn does the next part of a call, something that the client does of its own, or nothing
yet of a call that begins (`Stage.Takes`). A call whose parts follow each other at once does
what it does as one step (`Stage.after_call`), so that all that is shown of stages holds in the
runs of a view (`Stage.after_run`).
-/

namespace RemoteSession

namespace Stage

variable {σ : Type} {service : CursorService σ}

theorem after_append (p : Stage σ) (xs ys : List Turn) :
    p.after service (xs ++ ys) = (p.after service xs).after service ys :=
  List.foldl_append

theorem report_append (p : Stage σ) (xs ys : List Turn) :
    p.report service (xs ++ ys) =
      p.report service xs ++ (p.after service xs).report service ys := by
  induction xs generalizing p with
  | nil => rfl
  | cons turn rest ih =>
    rw [List.cons_append, report, ih, report, List.append_assoc]
    rfl

/-! ## Turns -/

/-- What a turn of a stage is. -/
inductive Takes (service : CursorService σ) (p : Stage σ) (turn : Turn) : Prop where
  /-- There is no part to do, or a call that cannot begin yet. -/
  | idle : p.step service turn = p → p.tell service turn = [] → Takes service p turn
  | part (part : Part) (rest : List Part) : turn = .go → p.rest = part :: rest →
    p.step service turn =
      ⟨(p.view.perform service part).1, (p.view.perform service part).2 ++ rest⟩ →
    p.tell service turn = p.view.tell service part → Takes service p turn
  | own (b : ViewAction) (a : Action) : turn = .act b → b.own? = some a →
    p.step service turn = ⟨(p.view.act service a).1, p.rest⟩ →
    p.tell service turn = (p.view.act service a).2 → Takes service p turn
  | call (b : ViewAction) : turn = .act b → p.rest = [] →
    p.step service turn = ⟨p.view, p.view.parts service b⟩ →
    p.tell service turn = [] → Takes service p turn

theorem takes (service : CursorService σ) (p : Stage σ) (turn : Turn) : p.Takes service turn := by
  obtain ⟨v, rest⟩ := p
  cases turn with
  | go =>
    cases rest with
    | nil => exact .idle rfl rfl
    | cons part rest => exact .part part rest rfl rfl rfl rfl
  | act b =>
    cases hown : b.own? with
    | some a => exact .own b a rfl hown (by simp only [step, hown]) (by simp only [tell, hown])
    | none =>
      cases rest with
      | nil => exact .call b rfl rfl (by simp only [step, hown]) (by simp only [tell, hown])
      | cons part rest => exact .idle (by simp only [step, hown]) (by simp only [tell, hown])

/-! ## Calls -/

/-- A call begins, and its parts are done with nothing in between. -/
def atOnce (a : ViewAction) (n : Nat) : List Turn :=
  .act a :: List.replicate n .go

/-- What a call makes of a view, and what it lets others know, whenever it was attached. -/
def Does (service : CursorService σ) (v : SessionView σ) (turns : List Turn)
    (out : SessionView σ × List ViewNotice) : Prop :=
  (Stage.mk v []).after service turns = ⟨out.1, []⟩ ∧
    ((Stage.mk v []).report service turns).map Prod.snd = out.2

/-- The session is known until the view is emptied, and only then is its cursor forgotten. -/
theorem does_detach (v : SessionView σ) : ∃ n, Does service v (atOnce .detach n)
    (v.detach service) := by
  have hblank : (Stage.mk v []).after service (atOnce .detach 2) =
      ⟨{ (v.act service .stop).1 with
          session := none, timeline := (v.act service .stop).1.timeline.clear },
        ((v.act service .stop).1.session.map fun m => Part.forget m.id).toList ++ []⟩ := rfl
  have htold : ((Stage.mk v []).report service (atOnce .detach 2)).map Prod.snd =
      (v.act service .stop).2 := by
    simp [atOnce, report, tell, step, SessionView.tell, SessionView.perform, SessionView.parts,
      ViewAction.own?, Function.comp_def]
  simp only [SessionView.detach]
  cases hsession : (v.act service .stop).1.session with
  | none =>
    rw [hsession] at hblank
    exact ⟨2, hblank, htold⟩
  | some m =>
    rw [hsession] at hblank
    refine ⟨2 + 1, ?_, ?_⟩ <;> rw [atOnce, ← List.replicate_append_replicate, ← List.cons_append]
    · rw [after_append, ← atOnce, hblank]
      rfl
    · rw [report_append, ← atOnce, hblank, List.map_append, htold]
      rfl

theorem does_line (v : SessionView σ) (text : String) (tsMs : Int64) : ∃ n,
    Does service v (atOnce (.line text tsMs) n) (v.step service (.line text tsMs)) := by
  simp only [SessionView.step, SessionView.sendLine]
  cases hline : Composer.line? text ((v.session.map SessionMeta.engine).getD "") v.rawMode with
  | none =>
    exact ⟨0, by simp [Does, atOnce, after, report, tell, step, ViewAction.own?,
      SessionView.parts, hline]⟩
  | some line =>
    have hsay : (Stage.mk v []).after service (atOnce (.line text tsMs) 1) =
        ⟨(v.send line.message).1,
          (if (v.send line.message).2 then [Part.mark line.echo tsMs] else []) ++ []⟩ := by
      simp [atOnce, after, step, ViewAction.own?, SessionView.parts, SessionView.perform, hline]
    have htold : (Stage.mk v []).report service (atOnce (.line text tsMs) 1) = [] := by
      simp [atOnce, report, tell, step, SessionView.tell, SessionView.parts, ViewAction.own?,
        hline]
    cases htaken : (v.send line.message).2 with
    | false =>
      rw [htaken] at hsay
      exact ⟨1, by simpa [hline, htaken] using hsay, by simp [htold, htaken]⟩
    | true =>
      rw [htaken] at hsay
      refine ⟨1 + 2, ?_, ?_⟩ <;> rw [atOnce, ← List.replicate_append_replicate, ← List.cons_append]
      · rw [after_append, ← atOnce, hsay]
        simp [after, step, SessionView.perform, htaken]
      · rw [report_append, ← atOnce, hsay, htold]
        simp [report, step, tell, SessionView.tell, SessionView.perform, htaken]

theorem does_keys (v : SessionView σ) (octets : List UInt8) : ∃ n,
    Does service v (atOnce (.keys octets) n) (v.step service (.keys octets)) := by
  simp only [SessionView.step, SessionView.sendKeystrokes]
  cases hkeys : Composer.keystrokes? octets with
  | none =>
    exact ⟨0, by simp [Does, atOnce, after, report, tell, step, ViewAction.own?,
      SessionView.parts, hkeys]⟩
  | some m =>
    refine ⟨1, ?_⟩
    simp [Does, atOnce, after, report, tell, step, ViewAction.own?, SessionView.tell,
      SessionView.parts, SessionView.perform, hkeys]

theorem does_own (v : SessionView σ) {b : ViewAction} {a : Action} (hown : b.own? = some a) :
    Does service v (atOnce b 0) (v.act service a) := by
  simp [Does, atOnce, after, report, tell, step, hown, Function.comp_def]

/-- What a view does as one step it does in some turns with nothing in between, and lets others
know the same. -/
theorem after_call (service : CursorService σ) (v : SessionView σ) (a : ViewAction) : ∃ n,
    Does service v (atOnce a n) (v.step service a) := by
  cases a with
  | attach m =>
    refine ⟨3, rfl, ?_⟩
    simp [atOnce, report, tell, step, SessionView.tell, SessionView.perform, SessionView.parts,
      ViewAction.own?, Function.comp_def, SessionView.step, SessionView.attach, SessionView.start]
  | attachFresh m =>
    refine ⟨4, rfl, ?_⟩
    simp [atOnce, report, tell, step, SessionView.tell, SessionView.perform, SessionView.parts,
      ViewAction.own?, Function.comp_def, SessionView.step, SessionView.attachFresh,
      SessionView.start]
  | stop =>
    refine ⟨1, rfl, ?_⟩
    simp [atOnce, report, tell, step, SessionView.tell, SessionView.parts, ViewAction.own?,
      Function.comp_def, SessionView.step, SessionView.stop]
  | detach => exact does_detach v
  | rawMode on => exact ⟨1, rfl, rfl⟩
  | line text tsMs => exact does_line v text tsMs
  | keys octets => exact does_keys v octets
  | send m => exact ⟨1, rfl, rfl⟩
  | resize cols rows => exact ⟨1, rfl, rfl⟩
  | wake g w => exact ⟨0, does_own v rfl⟩
  | drop g => exact ⟨0, does_own v rfl⟩
  | refuse link => exact ⟨0, does_own v rfl⟩

/-- What a view comes to by its steps is a stage that some turns come to, with the same told
along the way. -/
theorem after_run (v : SessionView σ) (actions : List ViewAction) : ∃ turns,
    Does service v turns (v.run service actions) := by
  induction actions generalizing v with
  | nil => exact ⟨[], rfl, rfl⟩
  | cons a rest ih =>
    obtain ⟨n, hcall, hnow⟩ := after_call service v a
    obtain ⟨turns, hrest, hlater⟩ := ih (v.step service a).1
    refine ⟨atOnce a n ++ turns, ?_, ?_⟩
    · rw [after_append, hcall, hrest]
      rfl
    · rw [report_append, List.map_append, hnow, hcall, hlater]
      rfl

end Stage

end RemoteSession
