import RemoteSession.Proofs.Session.Scenes

/-!
# What turns show and keep

A turn shows an event when the run of the current generation accepts it, and then the cursor
of the session that is attached becomes that of the event; it forgets a cursor when that is
the next part of the call; and it does neither of both otherwise (`Stage.Effect`). Unless a
cursor is forgotten, that of a session is that of the last event shown of it
(`Stage.observe_after`). The gate moves with the events shown, and is set by a run that begins
(`Stage.Origin`).
-/

namespace RemoteSession

/-- What is observed of the cursors is what was stored last. -/
def CursorService.Observed {σ : Type} (service : CursorService σ)
    (observe : σ → String → Option UInt64) : Prop :=
  ∀ cursors id seq other, observe (service.store cursors id seq) other =
    if id = other then some seq else observe cursors other

/-- Whether a part forgets a cursor, or calls for that. -/
def Part.forgets : Part → Bool
  | .forget _ => true
  | .blank => true
  | _ => false

/-- Whether a turn begins a call that forgets a cursor. -/
def Turn.forgets : Turn → Bool
  | .go => false
  | .act a => a.forgets

namespace SessionView

variable {σ : Type} {service : CursorService σ} {v : SessionView σ} {part : Part}

theorem say_of_mem_parts {text : String} {tsMs : Int64}
    (h : part ∈ v.parts service (.line text tsMs)) : ∃ line, part = .say line tsMs := by
  simp only [parts, Option.mem_toList, Option.map_eq_some_iff] at h
  obtain ⟨line, -, heq⟩ := h
  exact ⟨line, heq.symm⟩

theorem send_of_mem_parts {octets : List UInt8} (h : part ∈ v.parts service (.keys octets)) :
    ∃ m, part = .send m := by
  simp only [parts, Option.mem_toList, Option.map_eq_some_iff] at h
  obtain ⟨m, -, heq⟩ := h
  exact ⟨m, heq.symm⟩

end SessionView

namespace Stage

variable {σ : Type} (service : CursorService σ)

/-- The events of a session that some turns show while it is attached, by their numbers. -/
def shown (p : Stage σ) (id : String) (turns : List Turn) : List UInt64 :=
  (p.report service turns).filterMap fun
    | (session, .stream (.event e)) => if session = some id then some e.seq else none
    | _ => none

/-- What a turn does to the cursors and what it shows. -/
inductive Effect (p : Stage σ) (turn : Turn) : Prop where
  /-- No event is shown and no cursor changes. -/
  | still : ViewNotice.events (p.tell service turn) = [] →
    (p.step service turn).view.cursors = p.view.cursors → Effect p turn
  /-- The run of the current generation shows an event after the cursor of its gate, and the
  cursor of the session that is attached is kept. -/
  | showed (g : Nat) (w : Wake) (t : Task) (e : Event) : turn = .act (.wake g w) →
    t ∈ p.view.system.tasks → t.run.generation = p.view.system.client.generation →
    p.view.attached = some t.run.session → p.view.system.client.gate.cursor < e.seq →
    ViewNotice.events (p.tell service turn) = [e] →
    (p.step service turn).view.cursors = service.store p.view.cursors t.run.session e.seq →
    Effect p turn
  /-- The cursor of a session is forgotten. -/
  | forgot (session : String) : turn = .go → p.rest.head? = some (.forget session) →
    ViewNotice.events (p.tell service turn) = [] →
    (p.step service turn).view.cursors = service.reset p.view.cursors session → Effect p turn

/-- Where a run of the current generation comes from that is there after a turn, and where the
gate stands then. -/
inductive Origin (p : Stage σ) (turn : Turn) (u : Task) : Prop where
  /-- It was there before, and shows nothing. -/
  | stayed (t : Task) : t ∈ p.view.system.tasks →
    t.run.generation = p.view.system.client.generation → t.run.session = u.run.session →
    ViewNotice.events (p.tell service turn) = [] →
    (p.step service turn).view.system.client.gate = p.view.system.client.gate → Origin p turn u
  /-- It was there before, and shows an event of the session that is attached. -/
  | showed (e : Event) : p.view.attached = some u.run.session →
    ViewNotice.events (p.tell service turn) = [e] →
    (p.step service turn).view.cursors = service.store p.view.cursors u.run.session e.seq →
    (p.step service turn).view.system.client.gate = ⟨e.seq⟩ → Origin p turn u
  /-- It begins. -/
  | began (cursor : UInt64) : .follow u.run.session cursor ∈ p.rest →
    ViewNotice.events (p.tell service turn) = [] →
    (p.step service turn).view.system.client.gate = ⟨cursor⟩ → Origin p turn u

/-- A stage that turns may come to. -/
def Sound (limits : Timeline.Config) (p : Stage σ) : Prop :=
  ∃ scene, p.view.Shows limits scene ∧ p.view.Pending p.rest

/-- What is left of the call forgets no cursor. -/
def Keeping (p : Stage σ) : Prop :=
  ∀ part ∈ p.rest, part.forgets = false

variable {service} {p : Stage σ} {limits : Timeline.Config} {turn : Turn}

/-! ## Stages -/

theorem Sound.new (endpoint : Endpoint) (config : StreamConfig) (limits : Timeline.Config)
    (cursors : σ) : (new endpoint config limits cursors).Sound limits :=
  ⟨.blank, .new endpoint config limits cursors, .done⟩

theorem Sound.step (service : CursorService σ) (h : p.Sound limits) (turn : Turn) :
    (p.step service turn).Sound limits := by
  obtain ⟨_, hview, hpending⟩ := h
  exact ⟨_, shows_step service hview hpending turn⟩

theorem Sound.after (service : CursorService σ) (h : p.Sound limits) (turns : List Turn) :
    (p.after service turns).Sound limits := by
  induction turns generalizing p with
  | nil => exact h
  | cons turn rest ih => exact ih (h.step service turn)

theorem Sound.system (h : p.Sound limits) : p.view.system.Sound := by
  obtain ⟨_, hview, -⟩ := h
  exact hview.sound

/-- A part that forgets no cursor calls for none that does. -/
theorem keeping_perform (service : CursorService σ) (v : SessionView σ) {part : Part}
    (h : part.forgets = false) :
    ∀ more ∈ (v.perform service part).2, more.forgets = false := by
  cases part with
  | blank => cases h
  | say line tsMs =>
    simp only [SessionView.perform]
    split
    · exact List.forall_mem_singleton.2 rfl
    · exact List.forall_mem_nil _
  | mark => exact List.forall_mem_singleton.2 rfl
  | _ => exact List.forall_mem_nil _

theorem keeping_parts (service : CursorService σ) (v : SessionView σ) {b : ViewAction}
    (h : b.forgets = false) : ∀ part ∈ v.parts service b, part.forgets = false := by
  cases b with
  | attachFresh m => cases h
  | detach => cases h
  | line text tsMs =>
    intro part hpart
    obtain ⟨line, rfl⟩ := SessionView.say_of_mem_parts hpart
    rfl
  | keys octets =>
    intro part hpart
    obtain ⟨m, rfl⟩ := SessionView.send_of_mem_parts hpart
    rfl
  | _ => simp [SessionView.parts, Part.forgets]

theorem Keeping.step (service : CursorService σ) (h : p.Keeping) (hturn : turn.forgets = false) :
    (p.step service turn).Keeping := by
  cases p.takes service turn with
  | idle hstep => rwa [hstep]
  | part part rest _ hrest hstep =>
    rw [Keeping, hrest, List.forall_mem_cons] at h
    obtain ⟨hpart, hlater⟩ := h
    rw [hstep]
    exact List.forall_mem_append.2 ⟨keeping_perform service p.view hpart, hlater⟩
  | own b a _ _ hstep =>
    rw [hstep]
    exact h
  | call b heq _ hstep =>
    subst heq
    rw [hstep]
    exact keeping_parts service p.view hturn

theorem Keeping.after (service : CursorService σ) (h : p.Keeping) {turns : List Turn}
    (hturns : ∀ turn ∈ turns, turn.forgets = false) : (p.after service turns).Keeping := by
  induction turns generalizing p with
  | nil => exact h
  | cons turn rest ih =>
    obtain ⟨hturn, hrest⟩ := List.forall_mem_cons.1 hturns
    exact ih (h.step service hturn) hrest

/-! ## Effects -/

/-- Without a run that is woken nothing is shown and nothing kept. -/
theorem still_act (service : CursorService σ) {v : SessionView σ} (hs : v.system.Sound)
    {a : Action} (ha : ∀ g w, a ≠ .wake g w) :
    ViewNotice.events (v.act service a).2 = [] ∧ (v.act service a).1.cursors = v.cursors := by
  have hnone := System.events_of_not_wake hs ha
  obtain ⟨-, -, -, hevents⟩ := SessionView.act_eq (v := v) service a
  refine ⟨hevents.trans hnone, SessionView.cursors_of_persists_nil ?_⟩
  by_cases hattach : ∃ session cursor, a = .attach session cursor
  · obtain ⟨session, cursor, rfl⟩ := hattach
    exact (System.begun hs session cursor).persists
  · cases System.advance hs fun session cursor h => hattach ⟨session, cursor, h⟩ with
    | still _ hkept => exact hkept
    | told t e _ _ _ hevent => simp [hnone] at hevent

/-- A part of a call shows nothing, and changes no cursor unless it forgets one. -/
theorem still_perform (service : CursorService σ) {v : SessionView σ} (hs : v.system.Sound)
    {part : Part} (hpart : ∀ session, part ≠ .forget session) :
    ViewNotice.events (v.tell service part) = [] ∧
      (v.perform service part).1.cursors = v.cursors := by
  cases part with
  | silence => exact still_act service hs (a := .supersede) nofun
  | follow session cursor =>
    exact still_act service hs (a := .attach session cursor) (by rintro g w ⟨⟩)
  | halt => exact still_act service hs (a := .stop) nofun
  | forget session => exact absurd rfl (hpart session)
  | _ => exact ⟨rfl, rfl⟩

theorem effect_wake (service : CursorService σ) (h : p.Sound limits) (g : Nat) (w : Wake) :
    p.Effect service (.act (.wake g w)) := by
  obtain ⟨scene, hview, -⟩ := h
  obtain ⟨-, -, hcursors, hevents⟩ := SessionView.act_eq (v := p.view) service (.wake g w)
  cases System.advance hview.sound (Action.ne_attach (a := .wake g w) rfl) with
  | still hnone hkept =>
    exact .still (hevents.trans hnone) (SessionView.cursors_of_persists_nil hkept)
  | told t e ht hg hlt hevent hkept =>
    refine .showed g w t e rfl ht hg (hview.owner t ht (hview.run t ht hg)) hlt
      (hevents.trans hevent) (hcursors.trans ?_)
    rw [service.after_eq, hkept]
    rfl

theorem effect (service : CursorService σ) (h : p.Sound limits) (turn : Turn) :
    p.Effect service turn := by
  cases p.takes service turn with
  | idle hstep htell =>
    refine .still ?_ (by rw [hstep])
    rw [htell]
    rfl
  | part part rest hgo hrest hstep htell =>
    by_cases hforget : ∃ session, part = .forget session
    · obtain ⟨session, rfl⟩ := hforget
      refine .forgot session hgo (by rw [hrest]; rfl) ?_ (by rw [hstep]; rfl)
      rw [htell]
      rfl
    · obtain ⟨hevents, hcursors⟩ := still_perform service h.system fun session heq =>
        hforget ⟨session, heq⟩
      exact .still (htell ▸ hevents) (by rw [hstep]; exact hcursors)
  | own b a heq hown hstep htell =>
    by_cases hwake : ∃ g w, b = .wake g w
    · obtain ⟨g, w, rfl⟩ := hwake
      exact heq ▸ effect_wake service h g w
    · have ha : ∀ g w, a ≠ .wake g w := by
        rintro g w rfl
        cases b <;> cases hown
        exact hwake ⟨g, w, rfl⟩
      obtain ⟨hevents, hcursors⟩ := still_act service h.system ha
      exact .still (htell ▸ hevents) (by rw [hstep]; exact hcursors)
  | call b _ _ hstep htell =>
    refine .still ?_ (by rw [hstep])
    rw [htell]
    rfl

/-! ## The current run -/

/-- Without a run that is woken the gate stays where it is, unless a run begins. -/
theorem stayed_act (service : CursorService σ) {v : SessionView σ} (hs : v.system.Sound)
    {a : Action} (ha : ∀ session cursor, a ≠ .attach session cursor) (hwake : ∀ g w, a ≠ .wake g w)
    {u : Task} (hu : u ∈ (v.act service a).1.system.tasks)
    (hg : u.run.generation = (v.act service a).1.system.client.generation) :
    (∃ t ∈ v.system.tasks, t.run.generation = v.system.client.generation ∧
      t.run.session = u.run.session) ∧
      (v.act service a).1.system.client.gate = v.system.client.gate := by
  obtain ⟨hsystem, -⟩ := SessionView.act_eq (v := v) service a
  rw [hsystem] at hu hg ⊢
  refine ⟨System.run_of_step hs ha hu hg, ?_⟩
  cases System.advance hs ha with
  | still _ _ hgate => exact hgate
  | told t e _ _ _ hevent => simp [System.events_of_not_wake hs hwake] at hevent

theorem origin_part (service : CursorService σ) (h : p.Sound limits) {part : Part}
    {rest : List Part} (hrest : p.rest = part :: rest)
    (hstep : p.step service turn =
      ⟨(p.view.perform service part).1, (p.view.perform service part).2 ++ rest⟩)
    (htell : p.tell service turn = p.view.tell service part) {u : Task}
    (hu : u ∈ (p.view.perform service part).1.system.tasks)
    (hg : u.run.generation = (p.view.perform service part).1.system.client.generation) :
    p.Origin service turn u := by
  have hs := h.system
  have hstayed : ViewNotice.events (p.view.tell service part) = [] →
      ((∃ t ∈ p.view.system.tasks, t.run.generation = p.view.system.client.generation ∧
        t.run.session = u.run.session) ∧
        (p.view.perform service part).1.system.client.gate = p.view.system.client.gate) →
      p.Origin service turn u := by
    rintro hnone ⟨⟨t, ht, htg, hsession⟩, hgate⟩
    exact .stayed t ht htg hsession (by rw [htell, hnone]) (by rw [hstep, hgate])
  cases part with
  | silence =>
    have hquiet : (p.view.act service .supersede).1.Quiet :=
      SessionView.quiet_begins hs (.inl rfl)
    exact absurd hg (hquiet u hu)
  | halt =>
    have hquiet : (p.view.act service .stop).1.Quiet := SessionView.quiet_begins hs (.inr rfl)
    exact absurd hg (hquiet u hu)
  | follow session cursor =>
    have hbegun := System.begun hs session cursor
    obtain ⟨hsystem, -, -, hevents⟩ :=
      SessionView.act_eq (v := p.view) service (.attach session cursor)
    have hsession : u.run.session = session := hbegun.session u (hsystem ▸ hu) (hsystem ▸ hg)
    refine .began cursor ?_ ?_ ?_
    · rw [hrest, hsession]
      exact List.mem_cons_self
    · rw [htell]
      exact hevents.trans hbegun.events
    · rw [hstep]
      exact (congrArg (·.client.gate) hsystem).trans hbegun.gate
  | say line tsMs =>
    exact hstayed rfl (stayed_act service hs (a := .send line.message) nofun nofun hu hg)
  | send m => exact hstayed rfl (stayed_act service hs (a := .send m) nofun nofun hu hg)
  | resize cols rows =>
    exact hstayed rfl (stayed_act service hs (a := .setViewport cols rows)
      (by rintro session cursor ⟨⟩) (by rintro g w ⟨⟩) hu hg)
  | _ => exact hstayed rfl ⟨⟨u, hu, hg, rfl⟩, rfl⟩

theorem origin_own (service : CursorService σ) (h : p.Sound limits) {a : Action}
    (ha : ∀ session cursor, a ≠ .attach session cursor)
    (hstep : p.step service turn = ⟨(p.view.act service a).1, p.rest⟩)
    (htell : p.tell service turn = (p.view.act service a).2) {u : Task}
    (hu : u ∈ (p.view.act service a).1.system.tasks)
    (hg : u.run.generation = (p.view.act service a).1.system.client.generation) :
    p.Origin service turn u := by
  obtain ⟨scene, hview, -⟩ := h
  obtain ⟨hsystem, -, hcursors, hevents⟩ := SessionView.act_eq (v := p.view) service a
  obtain ⟨t, ht, htg, hsession⟩ := System.run_of_step hview.sound ha (hsystem ▸ hu) (hsystem ▸ hg)
  cases System.advance hview.sound ha with
  | still hnone _ hgate =>
    refine .stayed t ht htg hsession ?_ ?_
    · rw [htell, hevents, hnone]
    · rw [hstep, hsystem, hgate]
  | told t' e ht' htg' _ hevent hkept hgate =>
    -- both runs are of the current generation, and so of the session that is attached
    have hattached := hview.owner t ht (hview.run t ht htg)
    have hattached' := hview.owner t' ht' (hview.run t' ht' htg')
    have hsame : t'.run.session = u.run.session :=
      (Option.some.inj (hattached'.symm.trans hattached)).trans hsession
    refine .showed e (hattached'.trans (congrArg some hsame)) ?_ ?_ ?_
    · rw [htell, hevents, hevent]
    · rw [hstep, hcursors, service.after_eq, hkept, ← hsame]
      rfl
    · rw [hstep, hsystem, hgate]

theorem origin (service : CursorService σ) (h : p.Sound limits) {turn : Turn} {u : Task}
    (hu : u ∈ (p.step service turn).view.system.tasks)
    (hg : u.run.generation = (p.step service turn).view.system.client.generation) :
    p.Origin service turn u := by
  cases p.takes service turn with
  | idle hstep htell =>
    rw [hstep] at hu hg
    exact .stayed u hu hg rfl (by rw [htell]; rfl) (by rw [hstep])
  | part part rest _ hrest hstep htell =>
    rw [hstep] at hu hg
    exact origin_part service h hrest hstep htell hu hg
  | own b a _ hown hstep htell =>
    rw [hstep] at hu hg
    exact origin_own service h (Action.ne_attach (ViewAction.begins_of_own? hown)) hstep htell hu hg
  | call b _ _ hstep htell =>
    rw [hstep] at hu hg
    exact .stayed u hu hg rfl (by rw [htell]; rfl) (by rw [hstep])

/-- No part calls for a run to begin. -/
theorem not_follow_mem_perform (service : CursorService σ) (v : SessionView σ) (part : Part)
    (session : String) (cursor : UInt64) :
    .follow session cursor ∉ (v.perform service part).2 := by
  cases part with
  | say line tsMs =>
    simp only [SessionView.perform]
    split <;> simp
  | blank => simp [SessionView.perform]
  | mark => simp [SessionView.perform]
  | _ => exact List.not_mem_nil

/-- A run that is about to begin was so before, or it is attached now. -/
theorem follow_of_step (service : CursorService σ) {session : String} {cursor : UInt64}
    (hfollow : .follow session cursor ∈ (p.step service turn).rest) :
    .follow session cursor ∈ p.rest ∨ (p.step service turn).view = p.view ∧
      ∃ m : SessionMeta, m.id = session ∧
        (turn = .act (.attach m) ∧ cursor = p.view.cursor service session ∨
          turn = .act (.attachFresh m) ∧ cursor = 0) := by
  cases p.takes service turn with
  | idle hstep => exact .inl (hstep ▸ hfollow)
  | part part rest _ hrest hstep =>
    rw [hstep] at hfollow
    rcases List.mem_append.1 hfollow with hmore | hlater
    · exact absurd hmore (not_follow_mem_perform service p.view part session cursor)
    · rw [hrest]
      exact .inl (List.mem_cons_of_mem part hlater)
  | own b a _ _ hstep =>
    rw [hstep] at hfollow
    exact .inl hfollow
  | call b heq _ hstep =>
    rw [hstep] at hfollow
    refine .inr ⟨by rw [hstep], ?_⟩
    cases b with
    | attach m =>
      simp only [SessionView.parts, List.mem_cons, reduceCtorEq, false_or, List.not_mem_nil,
        or_false, Part.follow.injEq] at hfollow
      obtain ⟨rfl, rfl⟩ := hfollow
      exact ⟨m, rfl, .inl ⟨heq, rfl⟩⟩
    | attachFresh m =>
      simp only [SessionView.parts, List.mem_cons, reduceCtorEq, false_or, List.not_mem_nil,
        or_false, Part.follow.injEq] at hfollow
      obtain ⟨rfl, rfl⟩ := hfollow
      exact ⟨m, rfl, .inr ⟨heq, rfl⟩⟩
    | _ => simp [SessionView.parts] at hfollow

/-! ## Events shown -/

theorem shown_cons (p : Stage σ) (id : String) (turn : Turn) (rest : List Turn) :
    p.shown service id (turn :: rest) =
      p.shown service id [turn] ++ (p.step service turn).shown service id rest := by
  simp only [shown, report, List.append_nil, List.filterMap_append]

theorem shown_append (p : Stage σ) (id : String) (xs ys : List Turn) :
    p.shown service id (xs ++ ys) =
      p.shown service id xs ++ (p.after service xs).shown service id ys := by
  rw [shown, report_append, List.filterMap_append]
  rfl

/-- While one session is attached its events are all that are shown of it, and none are of
another. -/
theorem shown_turn (p : Stage σ) (id : String) (turn : Turn) :
    p.shown service id [turn] =
      if p.view.attached = some id then (ViewNotice.events (p.tell service turn)).map Event.seq
      else [] := by
  simp only [shown, report, List.append_nil]
  induction p.tell service turn with
  | nil => simp [ViewNotice.events]
  | cons notice rest ih =>
    simp only [ViewNotice.events, List.map_cons, List.filterMap_cons] at ih ⊢
    rw [ih]
    cases notice with
    | stream notice => cases notice <;> split <;> simp_all
    | _ => rfl

theorem shown_of_events_nil (h : ViewNotice.events (p.tell service turn) = []) (id : String) :
    p.shown service id [turn] = [] := by
  rw [shown_turn, h, List.map_nil, ite_self]

theorem shown_of_showed {session : String} {e : Event}
    (hattached : p.view.attached = some session)
    (h : ViewNotice.events (p.tell service turn) = [e]) (id : String) :
    p.shown service id [turn] = if session = id then [e.seq] else [] := by
  simp only [shown_turn, h, hattached, Option.some.injEq, List.map_cons, List.map_nil]

/-! ## Cursors -/

/-- A turn that forgets nothing takes the cursor of a session to the event that it shows. -/
theorem observe_step {observe : σ → String → Option UInt64} (hobserve : service.Observed observe)
    (h : p.Sound limits) (hkeeping : p.Keeping) (turn : Turn) (id : String) :
    observe (p.step service turn).view.cursors id =
      (p.shown service id [turn]).getLast?.or (observe p.view.cursors id) := by
  cases effect service h turn with
  | still hevents hcursors =>
    rw [hcursors, shown_of_events_nil hevents]
    rfl
  | showed g w t e _ _ _ hattached _ hevents hcursors =>
    rw [hcursors, hobserve, shown_of_showed hattached hevents]
    split <;> rfl
  | forgot session _ hpart => cases hkeeping _ (List.mem_of_head? hpart)

/-- As long as no cursor is forgotten, that of a session is that of the last event shown of
it. -/
theorem observe_after {observe : σ → String → Option UInt64} (hobserve : service.Observed observe)
    (h : p.Sound limits) (hkeeping : p.Keeping) {turns : List Turn}
    (hturns : ∀ turn ∈ turns, turn.forgets = false) (id : String) :
    observe (p.after service turns).view.cursors id =
      (p.shown service id turns).getLast?.or (observe p.view.cursors id) := by
  induction turns generalizing p with
  | nil => rfl
  | cons turn rest ih =>
    obtain ⟨hturn, hrest⟩ := List.forall_mem_cons.1 hturns
    have hlater := ih (h.step service turn) (hkeeping.step service hturn) hrest
    rw [observe_step hobserve h hkeeping turn id, ← Option.or_assoc] at hlater
    rw [shown_cons, List.getLast?_append]
    exact hlater

end Stage

end RemoteSession
