import RemoteSession.Proofs.Session.Echoes
import RemoteSession.Proofs.Session.Effects
import RemoteSession.Proofs.Stream.Tickets

/-!
# Sessions left and forgotten

A session that is left leaves nothing behind, whatever runs do between the parts of the call:
its run is silenced first, and then the view is emptied and the cursor forgotten
(`Stage.Parting`). Nothing that happens before the next attachment changes that, since a stream
that is closed tells nothing any more (`Stage.Gone`). A stop forgets nothing.

When a session is attached afresh its cursor is forgotten before its run is silenced. What that
run shows of the session in between stores the cursor again, which then stays
(`Stage.not_forgotten_in_between`); without such an event the session has no cursor until one is
shown of it. The run that begins asks for the tail in both cases, and so does every run that
begins to follow the session later, unless it was told to go on from a cursor that came back
(`Stage.Fresh`). All of this is `Stage.forgets_exactly`.
-/

namespace RemoteSession

/-- Cursors as they are kept : what was stored last, unless it was forgotten since. -/
structure CursorService.Keeps {σ : Type} (service : CursorService σ)
    (kept : σ → String → Option UInt64) : Prop where
  load : ∀ cursors id, service.load cursors id = some ((kept cursors id).getD 0)
  store : service.Observed kept
  reset : ∀ cursors id other,
    kept (service.reset cursors id) other = if id = other then none else kept cursors other

theorem CursorService.keeps_memory :
    CursorService.memory.Keeps fun cursors => Keyed.get? cursors.cursors where
  load _ _ := rfl
  store _ _ _ _ := Keyed.get?_insert ..
  reset _ _ _ := Keyed.get?_erase ..

/-- A store in a file knows what it keeps also where the file could not be written. -/
theorem CursorService.keeps_file (disk : Disk) :
    (CursorService.file disk).Keeps fun cursors => Keyed.get? cursors.store.cursors where
  load _ _ := rfl
  store cursors id seq other := by
    simp only [file, StoredCursors.ofOutcome, FileCursorStore.store]
    split
    · next hkept =>
      split
      · next hid => rw [← hid, hkept]
      · rfl
    · exact Keyed.get?_insert ..
  reset cursors id other := by
    simp only [file, StoredCursors.ofOutcome, FileCursorStore.reset]
    split
    · exact Keyed.get?_erase ..
    · next hnone =>
      split
      · next hid => rw [← hid, Option.not_isSome_iff_eq_none.1 hnone]
      · rfl

/-- Whether a turn begins a call that attaches a session. -/
def Turn.attaches : Turn → Bool
  | .go => false
  | .act a => a.attaches

/-- Whether the client does something of its own in a turn. -/
def Turn.isOwn : Turn → Bool
  | .go => false
  | .act a => a.own?.isSome

/-- Whether a part changes nothing of a view that shows no session. -/
def Part.idle : Part → Bool
  | .halt => true
  | .blank => true
  | .say _ _ => true
  | .rawMode _ => true
  | .send _ => true
  | .resize _ _ => true
  | _ => false

/-- The addresses that are opened, in order. -/
def ViewNotice.urls (notices : List ViewNotice) : List Url :=
  notices.filterMap fun
    | .stream (.opening url) => some url
    | _ => none

namespace System

theorem urls_attach (s : System) (session : String) (cursor : UInt64) :
    Notice.urls (s.step (.attach session cursor)).2 = [] := by
  obtain ⟨links, -, -, hn⟩ := s.client.attach_eq session cursor
  simp only [step, hn]
  split <;> rfl

theorem urls_stop (s : System) : Notice.urls (s.step .stop).2 = [] := by
  obtain ⟨links, -, -, hn⟩ := s.client.stop_eq
  simp only [step, hn]
  split <;> rfl

theorem isClosed_stop (s : System) : (s.step .stop).1.client.state.isClosed = true := by
  obtain ⟨links, -, hc, -⟩ := s.client.stop_eq
  simp only [step, hc]
  split
  · assumption
  · rfl

end System

namespace SessionView

variable {σ : Type} {service : CursorService σ} {limits : Timeline.Config} {v : SessionView σ}
  {a : Action}

/-- The changes of the timeline that an event makes open nothing. -/
theorem urls_hearAll (v : SessionView σ) (notices : List Notice) :
    ViewNotice.urls (v.hearAll service notices).2 = Notice.urls notices := by
  induction notices generalizing v with
  | nil => rfl
  | cons notice rest ih =>
    simp only [hearAll, ViewNotice.urls, List.filterMap_append] at ih ⊢
    rw [ih]
    cases notice with
    | event e =>
      cases h : (v.showEvent e).2 <;> simp [hear, h, Notice.urls]
    | _ => rfl

theorem urls_act (v : SessionView σ) (a : Action) :
    ViewNotice.urls (v.act service a).2 = Notice.urls (v.system.step a).2 :=
  urls_hearAll ..

/-! ## Stopped -/

/-- A stop tells of a state at most, and leaves all but the client as it was. -/
theorem act_stop (service : CursorService σ) (v : SessionView σ) :
    (v.act service .stop).1 = { v with system := (v.system.step .stop).1 } := by
  obtain ⟨links, -, -, hn⟩ := v.system.client.stop_eq
  simp only [act, System.step, hn]
  split <;> rfl

/-! ## Left -/

/-- No session is followed and nothing is shown. -/
structure Left (limits : Timeline.Config) (v : SessionView σ) : Prop where
  sound : v.system.Sound
  closed : v.system.client.state.isClosed = true
  timeline : v.timeline = .empty limits
  session : v.session = none

/-- A stream that is closed tells nothing. -/
theorem Left.act (service : CursorService σ) (h : v.Left limits)
    (ha : ∀ session cursor, a ≠ .attach session cursor) : (v.act service a).1.Left limits := by
  obtain ⟨hnone, hstate⟩ := System.step_of_isClosed h.sound h.closed ha
  simp only [SessionView.act, hnone, hearAll]
  exact ⟨h.sound.step a, by rw [hstate]; exact h.closed, h.timeline, h.session⟩

/-- No connection takes what is sent. -/
theorem Left.refused (h : v.Left limits) (m : Message) : (v.send m).2 = false := by
  have hstate : v.system.client.state.isConnected = false := by
    have hclosed := h.closed
    unfold ConnectionState.isClosed at hclosed
    split at hclosed
    · next heq => rw [heq]; rfl
    · cases hclosed
  rw [send, Client.snd_send, hstate, Bool.false_and]

/-- No part of a call that attaches nothing shows anything, or calls for another part. -/
theorem Left.perform (service : CursorService σ) (h : v.Left limits) {part : Part}
    (hpart : part.idle = true) :
    (v.perform service part).1.Left limits ∧ (v.perform service part).2 = [] := by
  have hsend : ∀ m, (v.send m).1.Left limits := fun m =>
    h.act service (a := .send m) (Action.ne_attach rfl)
  cases part with
  | halt => exact ⟨h.act service (a := .stop) nofun, rfl⟩
  | blank =>
    refine ⟨⟨h.sound, h.closed, ?_, rfl⟩, ?_⟩
    · simp only [SessionView.perform, h.timeline]
      rfl
    · simp only [SessionView.perform, h.session]
      rfl
  | say line tsMs =>
    refine ⟨hsend line.message, ?_⟩
    simp only [SessionView.perform, h.refused line.message]
    rfl
  | rawMode on => exact ⟨⟨h.sound, h.closed, h.timeline, h.session⟩, rfl⟩
  | send m => exact ⟨hsend m, rfl⟩
  | resize cols rows =>
    exact ⟨h.act service (a := .setViewport cols rows) (Action.ne_attach rfl), rfl⟩
  | _ => cases hpart

theorem idle_of_mem_parts (service : CursorService σ) (v : SessionView σ) {b : ViewAction}
    (hb : b.attaches = false) : ∀ part ∈ v.parts service b, part.idle = true := by
  cases b with
  | attach m => cases hb
  | attachFresh m => cases hb
  | line text tsMs =>
    intro part hpart
    obtain ⟨line, rfl⟩ := say_of_mem_parts hpart
    rfl
  | keys octets =>
    intro part hpart
    obtain ⟨m, rfl⟩ := send_of_mem_parts hpart
    rfl
  | _ => simp [parts, Part.idle]

end SessionView

namespace Stage

variable {σ : Type} {service : CursorService σ} {kept : σ → String → Option UInt64}
  {limits : Timeline.Config} {v : SessionView σ} {p : Stage σ} {turn : Turn} {turns : List Turn}
  {id : String}

/-! ## Left in parts -/

/-- A session was left, and its cursor is forgotten. -/
structure Gone (kept : σ → String → Option UInt64) (limits : Timeline.Config)
    (left : Option String) (p : Stage σ) : Prop where
  view : p.view.Left limits
  idle : ∀ part ∈ p.rest, part.idle = true
  forgotten : ∀ id, left = some id → kept p.view.cursors id = none

/-- The parts that are left of leaving a session, and what was seen to before them. -/
inductive Parting (limits : Timeline.Config) (left : Option String) : Stage σ → Prop where
  | halt (w : SessionView σ) : w.attached = left → Parting limits left ⟨w, [.halt, .blank]⟩
  | blank (w : SessionView σ) : w.system.client.state.isClosed = true → w.attached = left →
    Parting limits left ⟨w, [.blank]⟩
  | forget (w : SessionView σ) (id : String) : w.Left limits → left = some id →
    Parting limits left ⟨w, [.forget id]⟩

variable {left : Option String}

theorem Gone.attached (h : p.Gone kept limits left) : p.view.attached = none := by
  rw [SessionView.attached, h.view.session]
  rfl

theorem Gone.cursors_step (service : CursorService σ) (h : p.Gone kept limits left)
    (hp : p.Sound limits) (turn : Turn) :
    (p.step service turn).view.cursors = p.view.cursors := by
  cases effect service hp turn with
  | still _ hsame => exact hsame
  | showed g w t e _ _ _ hattached => cases h.attached.symm.trans hattached
  | forgot session _ hpart => cases h.idle _ (List.mem_of_head? hpart)

theorem Gone.step (service : CursorService σ) (h : p.Gone kept limits left) (hp : p.Sound limits)
    (hturn : turn.attaches = false) : (p.step service turn).Gone kept limits left := by
  have hcursors := h.cursors_step service hp turn
  have hforgotten : ∀ id, left = some id → kept (p.step service turn).view.cursors id = none :=
    fun id hid => by rw [hcursors]; exact h.forgotten id hid
  cases p.takes service turn with
  | idle hstep => rwa [hstep]
  | part part rest _ hrest hstep =>
    have hidle := h.idle
    rw [hrest, List.forall_mem_cons] at hidle
    obtain ⟨hview, hmore⟩ := h.view.perform service hidle.1
    rw [hmore, List.nil_append] at hstep
    rw [hstep] at hforgotten ⊢
    exact ⟨hview, hidle.2, hforgotten⟩
  | own b a _ hown hstep =>
    rw [hstep] at hforgotten ⊢
    exact ⟨h.view.act service (Action.ne_attach (ViewAction.begins_of_own? hown)), h.idle,
      hforgotten⟩
  | call b heq _ hstep =>
    subst heq
    rw [hstep] at hforgotten ⊢
    exact ⟨h.view, SessionView.idle_of_mem_parts service p.view hturn, hforgotten⟩

theorem Gone.after (service : CursorService σ) (h : p.Gone kept limits left)
    (hp : p.Sound limits) (hturns : ∀ turn ∈ turns, turn.attaches = false) :
    (p.after service turns).Gone kept limits left ∧
      (p.after service turns).view.cursors = p.view.cursors := by
  induction turns generalizing p with
  | nil => exact ⟨h, rfl⟩
  | cons turn rest ih =>
    obtain ⟨hturn, hrest⟩ := List.forall_mem_cons.1 hturns
    obtain ⟨hgone, hsame⟩ := ih (h.step service hp hturn) (hp.step service turn) hrest
    exact ⟨hgone, hsame.trans (h.cursors_step service hp turn)⟩

theorem Parting.rest_ne_nil (h : p.Parting limits left) : p.rest ≠ [] := by
  cases h <;> exact List.cons_ne_nil _ _

/-- What the client does on its own leaves the parts of the call where they are. -/
theorem Parting.own (service : CursorService σ) (h : p.Parting limits left) (hp : p.Sound limits)
    {a : Action} (ha : ∀ session cursor, a ≠ .attach session cursor) :
    Parting limits left ⟨(p.view.act service a).1, p.rest⟩ := by
  obtain ⟨hsystem, hattached, -, -⟩ := SessionView.act_eq (v := p.view) service a
  have hs := hp.system
  cases h with
  | halt w hsame => exact .halt _ (hattached.trans hsame)
  | blank w hclosed hsame =>
    refine .blank _ ?_ (hattached.trans hsame)
    rw [hsystem, (System.step_of_isClosed hs hclosed ha).2]
    exact hclosed
  | forget w id hw hid => exact .forget _ id (hw.act service ha) hid

theorem Parting.part (hservice : service.Keeps kept) (h : p.Parting limits left)
    (hp : p.Sound limits) {part : Part} {rest : List Part} (hrest : p.rest = part :: rest) :
    Parting limits left
        ⟨(p.view.perform service part).1, (p.view.perform service part).2 ++ rest⟩ ∨
      Gone kept limits left
        ⟨(p.view.perform service part).1, (p.view.perform service part).2 ++ rest⟩ := by
  obtain ⟨scene, hview, -⟩ := hp
  cases h with
  | halt w hsame =>
    cases hrest
    have hstop : (w.perform service .halt).1 = { w with system := (w.system.step .stop).1 } :=
      SessionView.act_stop service w
    rw [hstop]
    exact .inl (.blank _ w.system.isClosed_stop hsame)
  | blank w hclosed hsame =>
    cases hrest
    have hleft : SessionView.Left limits
        { w with session := none, timeline := w.timeline.clear } :=
      ⟨hview.sound, hclosed, congrArg Timeline.empty hview.config, rfl⟩
    simp only [SessionView.perform]
    cases hsession : w.session with
    | none =>
      refine .inr ⟨hleft, List.forall_mem_nil _, fun id hid => ?_⟩
      rw [← hsame, SessionView.attached, hsession] at hid
      cases hid
    | some m =>
      refine .inl (.forget _ m.id hleft ?_)
      rw [← hsame, SessionView.attached, hsession]
      rfl
  | forget w id hw hid =>
    cases hrest
    refine .inr ⟨⟨hw.sound, hw.closed, hw.timeline, hw.session⟩, List.forall_mem_nil _,
      fun other hother => ?_⟩
    obtain rfl : id = other := Option.some.inj (hid.symm.trans hother)
    exact (hservice.reset w.cursors id id).trans (if_pos rfl)

/-- No call begins before the parts are done. -/
theorem Parting.step (hservice : service.Keeps kept) (h : p.Parting limits left)
    (hp : p.Sound limits) (turn : Turn) :
    (p.step service turn).Parting limits left ∨ (p.step service turn).Gone kept limits left := by
  cases p.takes service turn with
  | idle hstep =>
    rw [hstep]
    exact .inl h
  | part part rest _ hrest hstep =>
    rw [hstep]
    exact h.part hservice hp hrest
  | own b a _ hown hstep =>
    rw [hstep]
    exact .inl (h.own service hp (Action.ne_attach (ViewAction.begins_of_own? hown)))
  | call b _ hrest => exact absurd hrest h.rest_ne_nil

/-- The cursor of another session is not touched. -/
theorem kept_step (hservice : service.Keeps kept)
    (h : p.Parting limits left ∨ p.Gone kept limits left) (hp : p.Sound limits) (turn : Turn)
    (hid : left ≠ some id) :
    kept (p.step service turn).view.cursors id = kept p.view.cursors id := by
  have hattached : p.view.attached = left ∨ p.view.attached = none := by
    rcases h with hparting | hgone
    · cases hparting with
      | halt w hsame => exact .inl hsame
      | blank w _ hsame => exact .inl hsame
      | forget w _ hw => exact .inr (congrArg (Option.map SessionMeta.id) hw.session)
    · exact .inr hgone.attached
  have hpart : ∀ session, p.rest.head? = some (.forget session) → session ≠ id := by
    rintro session hhead rfl
    rcases h with hparting | hgone
    · cases hparting with
      | forget w other _ hother =>
        cases hhead
        exact hid hother
      | _ => cases hhead
    · cases hgone.idle _ (List.mem_of_head? hhead)
  cases effect service hp turn with
  | still _ hsame => rw [hsame]
  | showed g w t e _ _ _ hsession _ _ hstored =>
    have hne : t.run.session ≠ id := by
      rintro rfl
      rcases hattached with hsame | hnone
      · exact hid (hsame.symm.trans hsession)
      · cases hnone.symm.trans hsession
    rw [hstored, hservice.store, if_neg hne]
  | forgot session _ hhead _ hreset => rw [hreset, hservice.reset, if_neg (hpart session hhead)]

theorem kept_after (hservice : service.Keeps kept)
    (h : p.Parting limits left ∨ p.Gone kept limits left) (hp : p.Sound limits)
    (hturns : ∀ turn ∈ turns, turn.attaches = false) :
    ((p.after service turns).Parting limits left ∨ (p.after service turns).Gone kept limits left) ∧
      ∀ id, left ≠ some id →
        kept (p.after service turns).view.cursors id = kept p.view.cursors id := by
  induction turns generalizing p with
  | nil => exact ⟨h, fun _ _ => rfl⟩
  | cons turn rest ih =>
    obtain ⟨hturn, hrest⟩ := List.forall_mem_cons.1 hturns
    have hstep : (p.step service turn).Parting limits left ∨
        (p.step service turn).Gone kept limits left := by
      rcases h with hparting | hgone
      · exact hparting.step hservice hp turn
      · exact .inr (hgone.step service hp hturn)
    obtain ⟨hlast, hkept⟩ := ih hstep (hp.step service turn) hrest
    exact ⟨hlast, fun id hid => (hkept id hid).trans (kept_step hservice h hp turn hid)⟩

/-! ## Attached afresh -/

/-- A run that follows a session, or is about to, has nothing to go on from. -/
structure Fresh (id : String) (p : Stage σ) : Prop where
  gate : ∀ t ∈ p.view.system.tasks, t.run.generation = p.view.system.client.generation →
    t.run.session = id → p.view.system.client.gate.cursor = 0
  read : ∀ cursor, .follow id cursor ∈ p.rest → cursor = 0

/-- A cursor that is forgotten comes back with an event of its session only. -/
theorem forgotten_step (hservice : service.Keeps kept) (hp : p.Sound limits)
    (hnone : p.shown service id [turn] = []) (h : kept p.view.cursors id = none) :
    kept (p.step service turn).view.cursors id = none := by
  cases effect service hp turn with
  | still _ hsame => rw [hsame, h]
  | showed g w t e _ _ _ hattached _ hevents hstored =>
    rw [shown_of_showed hattached hevents] at hnone
    rw [hstored, hservice.store]
    split
    · next hid => simp [hid] at hnone
    · exact h
  | forgot session _ _ _ hreset => rw [hreset, hservice.reset, h, ite_self]

theorem forgotten_after (hservice : service.Keeps kept) (hp : p.Sound limits)
    (hnone : p.shown service id turns = []) (h : kept p.view.cursors id = none) :
    kept (p.after service turns).view.cursors id = none := by
  induction turns generalizing p with
  | nil => exact h
  | cons turn rest ih =>
    rw [shown_cons, List.append_eq_nil_iff] at hnone
    exact ih (hp.step service turn) hnone.2 (forgotten_step hservice hp hnone.1 h)

theorem Fresh.step (service : CursorService σ) (h : p.Fresh id) (hp : p.Sound limits)
    (hnone : p.shown service id [turn] = [])
    (hread : turn.attaches = true → p.view.cursor service id = 0) :
    (p.step service turn).Fresh id := by
  refine ⟨fun u hu hg hid => ?_, fun cursor hfollow => ?_⟩
  · cases origin service hp hu hg with
    | stayed t ht htg hsession _ hgate =>
      rw [hgate]
      exact h.gate t ht htg (hsession.trans hid)
    | showed e hattached hevents =>
      rw [shown_of_showed hattached hevents, if_pos hid] at hnone
      cases hnone
    | began cursor hfollow _ hgate =>
      rw [hgate]
      exact h.read cursor (hid ▸ hfollow)
  · rcases follow_of_step service hfollow with hbefore | ⟨-, m, -, ⟨rfl, rfl⟩ | ⟨-, hzero⟩⟩
    · exact h.read cursor hbefore
    · exact hread rfl
    · exact hzero

/-- What a run opens for the session asks for its tail. -/
theorem Fresh.urls (h : p.Fresh id) (hp : p.Sound limits) {a : Action}
    (ha : ∀ session cursor, a ≠ .attach session cursor) (hattached : p.view.attached = some id) :
    ∀ url ∈ Notice.urls (p.view.system.step a).2,
      ∃ ticket, url = p.view.system.client.endpoint.streamUrl id ticket
        (.lastN p.view.system.client.config.tailLen) := by
  obtain ⟨scene, hview, -⟩ := hp
  have hturned := System.turned hview.sound ha
  generalize p.view.system.step a = out at hturned
  intro url hurl
  cases hturned with
  | left _ _ hstates =>
    obtain ⟨notice, hnotice, htold⟩ := List.mem_filterMap.1 hurl
    rw [hstates notice hnotice] at htold
    cases htold
  | moved t w next _ ht _ hmove =>
    obtain ⟨hmem, hg⟩ := System.mem_of_task? ht
    have hsession : t.run.session = id :=
      Option.some.inj ((hview.owner t hmem (hview.run t hmem hg)).symm.trans hattached)
    cases hmove with
    | «open» ticket =>
      rw [List.mem_singleton.1 hurl, hsession, h.gate t hmem hg hsession]
      exact ⟨ticket, rfl⟩
    | lose w reason =>
      rw [Client.snd_setState] at hurl
      split at hurl <;> cases hurl
    | _ => cases hurl

/-- A part of a call opens nothing. -/
theorem urls_part (service : CursorService σ) (w : SessionView σ) (part : Part) :
    ViewNotice.urls (w.tell service part) = [] := by
  cases part with
  | silence => exact SessionView.urls_act w .supersede
  | follow session cursor =>
    exact (SessionView.urls_act w (.attach session cursor)).trans (w.system.urls_attach ..)
  | halt => exact (SessionView.urls_act w .stop).trans w.system.urls_stop
  | _ => rfl

/-- Connections are opened by the client on its own, and by no part of a call. -/
theorem urls_tell (service : CursorService σ) (p : Stage σ) (turn : Turn) :
    ViewNotice.urls (p.tell service turn) = [] ∨
      ∃ a, (∀ session cursor, a ≠ .attach session cursor) ∧
        ViewNotice.urls (p.tell service turn) = Notice.urls (p.view.system.step a).2 := by
  cases p.takes service turn with
  | idle _ htell => exact .inl (by rw [htell]; rfl)
  | part part rest _ _ _ htell =>
    rw [htell]
    exact .inl (urls_part service p.view part)
  | own b a _ hown _ htell =>
    rw [htell]
    exact .inr ⟨a, Action.ne_attach (ViewAction.begins_of_own? hown), SessionView.urls_act ..⟩
  | call b _ _ _ htell => exact .inl (by rw [htell]; rfl)

theorem setup_step (service : CursorService σ) (hp : p.Sound limits) (turn : Turn) :
    (p.step service turn).view.system.client.endpoint = p.view.system.client.endpoint ∧
      (p.step service turn).view.system.client.config = p.view.system.client.config := by
  have hact : ∀ a, (p.view.act service a).1.system.client.endpoint =
      p.view.system.client.endpoint ∧
      (p.view.act service a).1.system.client.config = p.view.system.client.config := fun a => by
    rw [(SessionView.act_eq (v := p.view) service a).1]
    exact System.setup_step hp.system a
  cases p.takes service turn with
  | idle hstep => exact ⟨by rw [hstep], by rw [hstep]⟩
  | part part rest _ _ hstep =>
    rw [hstep]
    cases part with
    | silence => exact hact .supersede
    | follow session cursor => exact hact (.attach session cursor)
    | halt => exact hact .stop
    | say line tsMs => exact hact (.send line.message)
    | send m => exact hact (.send m)
    | resize cols rows => exact hact (.setViewport cols rows)
    | _ => exact ⟨rfl, rfl⟩
  | own b a _ _ hstep =>
    rw [hstep]
    exact hact a
  | call b _ _ hstep => exact ⟨by rw [hstep], by rw [hstep]⟩

theorem setup_after (service : CursorService σ) (hp : p.Sound limits) (turns : List Turn) :
    (p.after service turns).view.system.client.endpoint = p.view.system.client.endpoint ∧
      (p.after service turns).view.system.client.config = p.view.system.client.config := by
  induction turns generalizing p with
  | nil => exact ⟨rfl, rfl⟩
  | cons turn rest ih =>
    obtain ⟨hendpoint, hconfig⟩ := setup_step service hp turn
    obtain ⟨hendpoint', hconfig'⟩ := ih (hp.step service turn)
    exact ⟨hendpoint'.trans hendpoint, hconfig'.trans hconfig⟩

/-- As long as nothing is shown of the session, and its cursor is not there or not read, all
that is opened for it asks for the tail. -/
theorem Fresh.after (hservice : service.Keeps kept) (h : p.Fresh id) (hp : p.Sound limits)
    (hnone : p.shown service id turns = [])
    (hread : kept p.view.cursors id = none ∨ ∀ turn ∈ turns, turn.attaches = false) :
    ∀ url, (some id, .stream (.opening url)) ∈ p.report service turns →
      ∃ ticket, url = p.view.system.client.endpoint.streamUrl id ticket
        (.lastN p.view.system.client.config.tailLen) := by
  induction turns generalizing p with
  | nil => exact fun _ hurl => nomatch hurl
  | cons turn rest ih =>
    rw [shown_cons, List.append_eq_nil_iff] at hnone
    obtain ⟨hnow, hlater⟩ := hnone
    have hload : turn.attaches = true → p.view.cursor service id = 0 := by
      intro hattaches
      rcases hread with hforgotten | hnever
      · rw [SessionView.cursor, hservice.load, hforgotten]
        rfl
      · cases (hnever turn List.mem_cons_self).symm.trans hattaches
    have hreads : kept (p.step service turn).view.cursors id = none ∨
        ∀ turn ∈ rest, turn.attaches = false := by
      rcases hread with hforgotten | hnever
      · exact .inl (forgotten_step hservice hp hnow hforgotten)
      · exact .inr fun next hnext => hnever next (List.mem_cons_of_mem turn hnext)
    intro url hurl
    rcases List.mem_append.1 hurl with hopened | hopened
    · obtain ⟨notice, hin, heq⟩ := List.mem_map.1 hopened
      obtain ⟨hattached, rfl⟩ := Prod.mk.inj heq
      have hmem : url ∈ ViewNotice.urls (p.tell service turn) :=
        List.mem_filterMap.2 ⟨_, hin, rfl⟩
      rcases urls_tell service p turn with hquiet | ⟨a, ha, hsame⟩
      · rw [hquiet] at hmem
        cases hmem
      · exact h.urls hp ha hattached url (hsame ▸ hmem)
    · obtain ⟨hendpoint, hconfig⟩ := setup_step service hp turn
      rw [← hendpoint, ← hconfig]
      exact ih (h.step service hp hnow hload) (hp.step service turn) hlater hreads url hopened

/-- What the client does on its own leaves the parts of a call that are left as they are. -/
theorem rest_after_own (service : CursorService σ) (p : Stage σ)
    (hturns : ∀ turn ∈ turns, turn.isOwn = true) : (p.after service turns).rest = p.rest := by
  induction turns generalizing p with
  | nil => rfl
  | cons turn rest ih =>
    obtain ⟨hturn, hrest⟩ := List.forall_mem_cons.1 hturns
    refine (ih (p.step service turn) hrest).trans ?_
    cases turn with
    | go => cases hturn
    | act b =>
      obtain ⟨a, hown⟩ := Option.isSome_iff_exists.1 hturn
      simp only [step, hown]

theorem forgets_of_isOwn (h : turn.isOwn = true) : turn.forgets = false := by
  cases turn with
  | go => cases h
  | act b => cases b <;> first | rfl | cases h

theorem after_concat (service : CursorService σ) (p : Stage σ) (turns : List Turn) (turn : Turn) :
    p.after service (turns ++ [turn]) = (p.after service turns).step service turn :=
  after_append p turns [turn]

theorem forgotten_of_go (hservice : service.Keeps kept) {rest : List Part}
    (hrest : p.rest = .forget id :: rest) :
    (p.step service .go).rest = rest ∧ kept (p.step service .go).view.cursors id = none := by
  obtain ⟨v, parts⟩ := p
  obtain rfl : parts = .forget id :: rest := hrest
  exact ⟨rfl, (hservice.reset v.cursors id id).trans (if_pos rfl)⟩

theorem silenced_of_go (service : CursorService σ) (hp : p.Sound limits) {rest : List Part}
    (hrest : p.rest = .silence :: rest) :
    (p.step service .go).rest = rest ∧ (p.step service .go).view.Quiet ∧
      (p.step service .go).view.cursors = p.view.cursors := by
  have hs := hp.system
  obtain ⟨v, parts⟩ := p
  obtain rfl : parts = .silence :: rest := hrest
  obtain ⟨-, hcursors⟩ := still_act service hs (a := .supersede) nofun
  exact ⟨rfl, SessionView.quiet_begins hs (.inl rfl), hcursors⟩

/-- The run of a session that is attached afresh: its cursor is forgotten, and then it is
silenced. -/
structure Refreshed (kept : σ → String → Option UInt64) (limits : Timeline.Config)
    (m : SessionMeta) (again : List UInt64) (p : Stage σ) : Prop where
  sound : p.Sound limits
  keeping : p.Keeping
  fresh : p.Fresh m.id
  /-- The cursor is that of the last event which the run showed in between. -/
  kept : kept p.view.cursors m.id = again.getLast?

theorem refreshed (hservice : service.Keeps kept) (hp : p.Sound limits) (hrest : p.rest = [])
    (m : SessionMeta) {reading between : List Turn}
    (hown : ∀ turn ∈ reading ++ between, turn.isOwn = true) :
    let forgotten := p.after service (.act (.attachFresh m) :: reading ++ [.go])
    (forgotten.after service (between ++ [.go])).Refreshed kept limits m
      (forgotten.shown service m.id between) := by
  intro forgotten
  obtain ⟨hreading, hbetween⟩ := List.forall_mem_append.1 hown
  have hbegun : (p.step service (.act (.attachFresh m))).rest =
      [.forget m.id, .silence, .present m, .follow m.id 0] := by
    simp only [step, ViewAction.own?, hrest]
    rfl
  have hasked : (p.after service (.act (.attachFresh m) :: reading)).rest =
      [.forget m.id, .silence, .present m, .follow m.id 0] :=
    (rest_after_own service (p.step service (.act (.attachFresh m))) hreading).trans hbegun
  have hforgotten : forgotten.rest = [.silence, .present m, .follow m.id 0] ∧
      kept forgotten.view.cursors m.id = none := by
    have hgo := forgotten_of_go hservice hasked
    rwa [← after_concat] at hgo
  have hsound : forgotten.Sound limits := hp.after service _
  have hwaiting : (forgotten.after service between).rest = [.silence, .present m, .follow m.id 0] :=
    (rest_after_own service forgotten hbetween).trans hforgotten.1
  have hkeeping : forgotten.Keeping := by
    rw [Keeping, hforgotten.1]
    simp [Part.forgets]
  obtain ⟨hlast, hquiet, hcursors⟩ :=
    silenced_of_go service (hsound.after service between) hwaiting
  have hkept := observe_after hservice.store hsound hkeeping
    (fun turn hturn => forgets_of_isOwn (hbetween turn hturn)) m.id
  rw [← after_concat] at hlast hquiet hcursors
  refine ⟨hsound.after service _, ?_, ⟨fun t ht hg _ => absurd hg (hquiet t ht), ?_⟩, ?_⟩
  · rw [Keeping, hlast]
    simp [Part.forgets]
  · rw [hlast]
    simp
  · rw [hcursors, hkept, hforgotten.2, Option.or_none]

/-- A session that is left is gone, and so it stays until another one is attached. -/
theorem gone_of_detach (hservice : service.Keeps kept) (hp : p.Sound limits)
    (hrest : p.rest = []) {during later : List Turn}
    (hturns : ∀ turn ∈ during ++ later, turn.attaches = false)
    (hdone : (p.after service (.act .detach :: during)).rest = []) :
    (p.after service (.act .detach :: (during ++ later))).Gone kept limits p.view.attached ∧
      ∀ id, p.view.attached ≠ some id →
        kept (p.after service (.act .detach :: (during ++ later))).view.cursors id =
          kept p.view.cursors id := by
  obtain ⟨hduring, hlater⟩ := List.forall_mem_append.1 hturns
  obtain ⟨v, rest⟩ := p
  obtain rfl : rest = [] := hrest
  have hbegun : Parting limits v.attached ⟨v, [.halt, .blank]⟩ := .halt v rfl
  have hsound : (Stage.mk v [.halt, .blank]).Sound limits := hp.step service (.act .detach)
  obtain ⟨hor, hkept⟩ := kept_after hservice (.inl hbegun) hsound hduring
  have hleft : ((Stage.mk v [.halt, .blank]).after service during).Gone kept limits
      v.attached := by
    rcases hor with hparting | hgone
    · exact absurd hdone hparting.rest_ne_nil
    · exact hgone
  obtain ⟨hgone, hsame⟩ := hleft.after service (hsound.after service during) hlater
  have hall : (Stage.mk v []).after service (.act .detach :: (during ++ later)) =
      ((Stage.mk v [.halt, .blank]).after service during).after service later :=
    after_append _ during later
  rw [hall]
  exact ⟨hgone, fun id hid => by rw [hsame]; exact hkept id hid⟩

/-- A stop that is under way leaves all but the client as it is. -/
theorem stopped_of_go (service : CursorService σ) (p : Stage σ) (hrest : p.rest = [])
    {waiting : List Turn} (hown : ∀ turn ∈ waiting, turn.isOwn = true) :
    let asked := p.after service (.act .stop :: waiting)
    (asked.step service .go).rest = [] ∧
      (asked.step service .go).view.timeline = asked.view.timeline ∧
      (asked.step service .go).view.session = asked.view.session ∧
      (asked.step service .go).view.cursors = asked.view.cursors := by
  intro asked
  obtain ⟨v, rest⟩ := p
  obtain rfl : rest = [] := hrest
  have hasked : asked.rest = [.halt] := rest_after_own service ⟨v, [.halt]⟩ hown
  generalize asked = q at hasked ⊢
  obtain ⟨w, parts⟩ := q
  obtain rfl : parts = [.halt] := hasked
  have hstop : ((Stage.mk w [.halt]).step service .go).view =
      { w with system := (w.system.step .stop).1 } := SessionView.act_stop service w
  rw [hstop]
  exact ⟨rfl, rfl, rfl, rfl⟩

/-- For a store that keeps what it is told to, whatever happened before and whatever runs do
between the parts of the calls.

A session that is left is closed, shows nothing and is known no more, its cursor is gone and
those of all others are as they were, and that stays so whatever happens before another
attachment.

A session is attached afresh: its cursor is forgotten and then its run is silenced. Until an
event of the session is shown after that, its cursor is that of the last event that the run
showed in between, and it has none when there is no such event. Every connection that opens for
it before that asks for the tail, when there is no such event or when nothing is attached again.

A stop changes neither what is shown nor what is known of the session nor any cursor. -/
theorem forgets_exactly (hservice : service.Keeps kept) (endpoint : Endpoint)
    (config : StreamConfig) (limits : Timeline.Config) (cursors : σ) (before : List Turn) :
    let p := (new endpoint config limits cursors).after service before
    p.rest = [] →
    (∀ during later, (∀ turn ∈ during ++ later, turn.attaches = false) →
      (p.after service (.act .detach :: during)).rest = [] →
      let left := (p.after service (.act .detach :: (during ++ later))).view
      left.system.client.state.isClosed = true ∧ left.timeline = .empty limits ∧
        left.session = none ∧ (∀ m, p.view.session = some m → kept left.cursors m.id = none) ∧
        ∀ id, p.view.attached ≠ some id → kept left.cursors id = kept p.view.cursors id) ∧
    (∀ m reading between later, (∀ turn ∈ reading ++ between, turn.isOwn = true) →
      let forgotten := p.after service (.act (.attachFresh m) :: reading ++ [.go])
      let silenced := forgotten.after service (between ++ [.go])
      let again := forgotten.shown service m.id between
      silenced.shown service m.id later = [] →
      (again = [] → kept (silenced.after service later).view.cursors m.id = none) ∧
        ((∀ turn ∈ later, turn.forgets = false) →
          kept (silenced.after service later).view.cursors m.id = again.getLast?) ∧
        (again = [] ∨ (∀ turn ∈ later, turn.attaches = false) →
          ∀ url, (some m.id, .stream (.opening url)) ∈ silenced.report service later →
            ∃ ticket, url = endpoint.streamUrl m.id ticket (.lastN config.tailLen))) ∧
    ∀ waiting, (∀ turn ∈ waiting, turn.isOwn = true) →
      let asked := p.after service (.act .stop :: waiting)
      let stopped := asked.step service .go
      stopped.rest = [] ∧ stopped.view.timeline = asked.view.timeline ∧
        stopped.view.session = asked.view.session ∧
        stopped.view.cursors = asked.view.cursors := by
  intro p hrest
  have hnew : (new endpoint config limits cursors).Sound limits :=
    .new endpoint config limits cursors
  have hp : p.Sound limits := hnew.after service before
  refine ⟨?_, ?_, fun waiting hown => stopped_of_go service p hrest hown⟩
  · intro during later hturns hdone left
    obtain ⟨hgone, hothers⟩ := gone_of_detach hservice hp hrest hturns hdone
    refine ⟨hgone.view.closed, hgone.view.timeline, hgone.view.session, fun m hm => ?_, hothers⟩
    exact hgone.forgotten m.id (congrArg (Option.map SessionMeta.id) hm)
  · intro m reading between later hown forgotten silenced again hnone
    have hrefreshed : silenced.Refreshed kept limits m again :=
      refreshed hservice hp hrest m hown
    have hforgotten : again = [] → kept silenced.view.cursors m.id = none := fun hquiet => by
      rw [hrefreshed.kept, hquiet, List.getLast?_nil]
    refine ⟨fun hquiet => ?_, fun hlater => ?_, fun hor url hurl => ?_⟩
    · exact forgotten_after hservice hrefreshed.sound hnone (hforgotten hquiet)
    · rw [observe_after hservice.store hrefreshed.sound hrefreshed.keeping hlater, hnone,
        hrefreshed.kept]
      rfl
    · obtain ⟨ticket, heq⟩ := hrefreshed.fresh.after hservice hrefreshed.sound hnone
        (hor.imp_left hforgotten) url hurl
      obtain ⟨hendpoint, hconfig⟩ : silenced.view.system.client.endpoint = endpoint ∧
          silenced.view.system.client.config = config := by
        have hturns : silenced = (new endpoint config limits cursors).after service
            (before ++ ((.act (.attachFresh m) :: reading ++ [.go]) ++ (between ++ [.go]))) := by
          rw [after_append, after_append]
        rw [hturns]
        exact setup_after service hnew _
      exact ⟨ticket, hendpoint ▸ hconfig ▸ heq⟩

/-- A session is left, or attached afresh, or stopped after its first event. Frames of its run
come before the first part of the call, between the parts and after them; the one that comes
once the cursor is forgotten cannot be read. -/
theorem forgets_exactly_streaming :
    let endpoint : Endpoint := ⟨⟨.http, "", none, .name "localhost", none, [""], none, none⟩, none⟩
    let m : SessionMeta := ⟨"s1", "", "", "", none⟩
    let frame := fun text => Turn.act (.wake 2 (.incoming (some (.text text))))
    let before : List Turn :=
      [.act (.attach m), .go, .go, .go, .act (.wake 2 .start), .act (.wake 2 (.ticket (.ok "t"))),
        .act (.wake 2 (.opened (.ok true))), frame "\x7b\"seq\":1,\"kind\":\"error\"\x7d"]
    let second := frame "\x7b\"seq\":2,\"kind\":\"error\"\x7d"
    let third := frame "\x7b\"seq\":3,\"kind\":\"error\"\x7d"
    let p := (new endpoint .default ⟨10, none⟩ MemoryCursorStore.empty).after .memory before
    let during : List Turn := [second, .go, third, .go, .go]
    let left := (p.after .memory (.act .detach :: (during ++ [third]))).view
    let forgotten := p.after .memory (.act (.attachFresh m) :: [second] ++ [.go])
    let silenced := forgotten.after .memory ([frame "?"] ++ [.go])
    let later : List Turn :=
      [third, .go, .go, .act (.wake 4 .start), .act (.wake 4 (.ticket (.ok "u")))]
    let asked := p.after .memory (.act .stop :: [second])
    Keyed.get? p.view.cursors.cursors "s1" = some 1 ∧
      left.timeline = .empty ⟨10, none⟩ ∧ Keyed.get? left.cursors.cursors "s1" = none ∧
      Keyed.get? (silenced.after .memory later).view.cursors.cursors "s1" = none ∧
      (∀ url, (some "s1", .stream (.opening url)) ∈ silenced.report .memory later →
        ∃ ticket, url = endpoint.streamUrl "s1" ticket (.lastN 256)) ∧
      Keyed.get? asked.view.cursors.cursors "s1" = some 2 ∧
      (asked.step .memory .go).view.cursors = asked.view.cursors := by
  intro endpoint m frame before second third p during left forgotten silenced later asked
  have hforgets := forgets_exactly CursorService.keeps_memory endpoint .default ⟨10, none⟩
    MemoryCursorStore.empty before (List.isEmpty_iff.1 (by decide +kernel))
  have hp : (new endpoint .default ⟨10, none⟩ MemoryCursorStore.empty).after .memory before = p :=
    rfl
  rw [hp] at hforgets
  obtain ⟨hdetach, hfresh, hstop⟩ := hforgets
  have hagain : forgotten.shown .memory m.id [frame "?"] = [] :=
    List.isEmpty_iff.1 (by decide +kernel)
  have hsession : p.view.session = some m := by decide +kernel
  obtain ⟨-, htimeline, -, hforgotten, -⟩ := hdetach during [third] (by decide)
    (List.isEmpty_iff.1 (by decide +kernel))
  obtain ⟨hnone, -, hurls⟩ := hfresh m [second] [frame "?"] later (by decide) (by decide +kernel)
  obtain ⟨-, -, -, hcursors⟩ := hstop [second] (by decide)
  have hfirst : Keyed.get? p.view.cursors.cursors "s1" = some 1 := by decide +kernel
  have hstored : Keyed.get? asked.view.cursors.cursors "s1" = some 2 := by decide +kernel
  clear_value p
  exact ⟨hfirst, htimeline, hforgotten m hsession, hnone hagain, hurls (.inl hagain), hstored,
    hcursors⟩

/-- A session is attached afresh after its first event. Its run shows one more once the cursor
is forgotten and before the run is silenced, so that the cursor is there again when the call is
done and the new run has not even begun. -/
theorem not_forgotten_in_between :
    let endpoint : Endpoint := ⟨⟨.http, "", none, .name "localhost", none, [""], none, none⟩, none⟩
    let m : SessionMeta := ⟨"s1", "", "", "", none⟩
    let frame := fun text => Turn.act (.wake 2 (.incoming (some (.text text))))
    let before : List Turn :=
      [.act (.attach m), .go, .go, .go, .act (.wake 2 .start), .act (.wake 2 (.ticket (.ok "t"))),
        .act (.wake 2 (.opened (.ok true))), frame "\x7b\"seq\":1,\"kind\":\"error\"\x7d"]
    let p := (new endpoint .default ⟨10, none⟩ MemoryCursorStore.empty).after .memory before
    let forgotten := p.after .memory [.act (.attachFresh m), .go]
    let silenced := forgotten.after .memory
      [frame "\x7b\"seq\":2,\"kind\":\"error\"\x7d", .go]
    let fresh := silenced.after .memory [.go, .go]
    p.rest.isEmpty = true ∧ Keyed.get? p.view.cursors.cursors "s1" = some 1 ∧
      Keyed.get? forgotten.view.cursors.cursors "s1" = none ∧
      fresh.rest.isEmpty = true ∧ silenced.shown .memory "s1" [.go, .go] = [] ∧
      Keyed.get? fresh.view.cursors.cursors "s1" = some 2 := by
  decide +kernel

end Stage

end RemoteSession
