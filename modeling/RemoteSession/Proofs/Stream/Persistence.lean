import RemoteSession.Proofs.Session.Watermarks
import RemoteSession.Proofs.Stream.Storing

/-!
# Kept before told

A client asks its store to keep each event that it accepts, once, and tells the event right
after (`Notice.Delivers`) : an event that was told was kept, or its failure was warned of. No
other cursor is ever to be kept. What is kept from one attachment to the next is of the
session that is attached, and goes up from the cursor at which it was attached; so as long
as no attempt fails, the store has the cursor of the client once an event was accepted
(`Storing.kept_of_run`).
-/

namespace RemoteSession

/-- A log in which each of some events is to be kept for its session and is told right
after, in order; nothing else in it is to be kept or is an event. -/
inductive Notice.Delivers : List (String × Event) → List Notice → Prop where
  | nil : Delivers [] []
  | event {accepted : List (String × Event)} {log : List Notice} (session : String) (e : Event) :
    Delivers accepted log →
      Delivers ((session, e) :: accepted) (.persist session e.seq :: .event e :: log)
  | other {accepted : List (String × Event)} {log : List Notice} (notice : Notice) :
    (∀ session seq, notice ≠ .persist session seq) → (∀ e, notice ≠ .event e) →
      Delivers accepted log → Delivers accepted (notice :: log)

namespace Notice.Delivers

variable {accepted later : List (String × Event)} {log more : List Notice}

theorem append (h : Delivers accepted log) (hmore : Delivers later more) :
    Delivers (accepted ++ later) (log ++ more) := by
  induction h with
  | nil => exact hmore
  | event session e _ ih => exact .event session e ih
  | other notice hkept htold _ ih => exact .other notice hkept htold ih

/-- A log with nothing to keep and no event. -/
theorem quiet (hkept : Notice.persists log = []) (htold : Notice.events log = []) :
    Delivers [] log := by
  induction log with
  | nil => exact .nil
  | cons notice rest ih =>
    cases notice with
    | persist session seq => cases hkept
    | event e => cases htold
    | _ => exact .other _ nofun nofun (ih hkept htold)

/-- What is to be kept are the events, each for its session. -/
theorem persists (h : Delivers accepted log) :
    Notice.persists log = accepted.map fun p => (p.1, p.2.seq) := by
  unfold Notice.persists
  induction h with
  | nil => rfl
  | event session e _ ih => simp [ih]
  | other notice hkept htold _ ih =>
    cases notice with
    | persist session seq => exact absurd rfl (hkept session seq)
    | _ => exact ih

end Notice.Delivers

/-- Numbers that go up end with the last of them. -/
theorem Climbs.eq_concat {n top : UInt64} {seqs : List UInt64} (h : Climbs n seqs top)
    (hseqs : seqs ≠ []) : ∃ init, seqs = init ++ [top] := by
  induction h with
  | refl => exact absurd rfl hseqs
  | step _ hrest ih =>
    cases hrest with
    | refl => exact ⟨[], rfl⟩
    | step _ _ =>
      obtain ⟨init, heq⟩ := ih nofun
      exact ⟨_ :: init, by rw [heq, List.cons_append]⟩

namespace System

variable {s : System} {a : Action} {session : String}

/-- The event that an action brings to the client and that it accepts, with the session
that is attached : the run of the current generation reads its connection, and the event
is after the cursor. -/
def accepted (s : System) : Action → Option (String × Event)
  | .wake g (.incoming (some (.text content))) =>
    match s.wait? g, s.client.session, Event.decode? content with
    | some (.frames _), some session, some e =>
      if g = s.client.generation ∧ s.client.gate.cursor < e.seq then some (session, e) else none
    | _, _, _ => none
  | _ => none

/-- The events that are accepted of some actions, in order. -/
def acceptedAll (s : System) : List Action → List (String × Event)
  | [] => []
  | a :: rest => (s.accepted a).toList ++ (s.step a).1.acceptedAll rest

theorem accepted_eq_some_iff {e : Event} : s.accepted a = some (session, e) ↔
    ∃ content link, a = .wake s.client.generation (.incoming (some (.text content))) ∧
      s.wait? s.client.generation = some (.frames link) ∧ s.client.session = some session ∧
        Event.decode? content = some e ∧ s.client.gate.cursor < e.seq := by
  constructor
  · intro h
    unfold accepted at h
    split at h
    · next g content =>
      split at h
      · next link session' e' hwait hsession hdecode =>
        split at h
        · next hnew =>
          obtain ⟨rfl, hlt⟩ := hnew
          cases h
          exact ⟨content, link, rfl, hwait, hsession, hdecode, hlt⟩
        · cases h
      · cases h
    · cases h
  · rintro ⟨content, link, rfl, hwait, hsession, hdecode, hlt⟩
    simp [accepted, hwait, hsession, hdecode, hlt]

/-! ## One step -/

/-- What is accepted is a text with a later event, for a run that reads its connection. -/
theorem accepted_eq_none {t : Task} (ht : s.task? s.client.generation = some t) {w : Wake}
    (h : ∀ content link e, w = .incoming (some (.text content)) → t.run.wait = .frames link →
      Event.decode? content = some e → ¬s.client.gate.cursor < e.seq) :
    s.accepted (.wake s.client.generation w) = none := by
  refine Option.eq_none_iff_forall_ne_some.2 fun ⟨session, e⟩ hsome => ?_
  obtain ⟨content, link, heq, hwait, -, hdecode, hlt⟩ := accepted_eq_some_iff.1 hsome
  obtain ⟨u, hu, hwait⟩ := task?_eq_of_wait? hwait
  rw [ht] at hu
  cases hu
  cases heq
  exact h content link e rfl hwait hdecode hlt

theorem accepted_of_move {t : Task} (ht : s.task? s.client.generation = some t)
    (hfits : s.client.Fits t.run) {link : Nat} {content : String} {e : Event}
    (hwait : t.run.wait = .frames link) (hdecode : Event.decode? content = some e)
    (hlt : s.client.gate.cursor < e.seq) :
    s.accepted (.wake s.client.generation (.incoming (some (.text content)))) =
      some (t.run.session, e) :=
  accepted_eq_some_iff.2
    ⟨content, link, rfl, by rw [wait?, ht, Option.map_some, hwait], hfits.1, hdecode, hlt⟩

/-- A move that takes an event has it kept and tells it, and no other does. -/
theorem delivers_move {t : Task} {w : Wake} {next : Step}
    (ht : s.task? s.client.generation = some t) (hfits : s.client.Fits t.run)
    (hmove : s.client.Move t.run w next) :
    Notice.Delivers (s.accepted (.wake s.client.generation w)).toList next.notices := by
  cases hmove with
  | rest w hawaits =>
    rw [accepted_eq_none ht fun content link e hw hwait => ?_]
    · exact .nil
    · subst hw
      simp [Run.awaits, hwait] at hawaits
  | lose w reason hf =>
    rw [accepted_eq_none ht fun content link e hw hwait => ?_]
    · refine .quiet (Client.persists_setState ..) ?_
      rw [Client.snd_setState]
      split <;> rfl
    · subst hw
      simp [Run.failure?, hwait] at hf
  | pass link content hwait hold =>
    rw [accepted_eq_none ht fun content' link' e hw _ hdecode => ?_]
    · exact .nil
    · cases hw
      exact UInt64.not_lt.2 (hold e hdecode)
  | tell link content e hwait hdecode hlt hterm =>
    rw [accepted_of_move ht hfits hwait hdecode hlt]
    exact .event _ e .nil
  | exit link content e hwait hdecode hlt hterm =>
    rw [accepted_of_move ht hfits hwait hdecode hlt]
    exact .event _ e (.quiet rfl rfl)
  | _ =>
    rw [accepted_eq_none ht fun content link e hw => by cases hw]
    exact .quiet rfl rfl

/-- An event that an action makes the client accept is kept and told, and nothing else is. -/
theorem delivers_step (hs : s.Sound) (a : Action) :
    Notice.Delivers (s.accepted a).toList (s.step a).2 := by
  by_cases ha : ∃ session cursor, a = .attach session cursor
  · obtain ⟨session, cursor, rfl⟩ := ha
    have hbegun := begun hs session cursor
    exact .quiet hbegun.persists hbegun.events
  · have hturned := turned hs (a := a) fun session cursor h => ha ⟨session, cursor, h⟩
    generalize s.step a = out at hturned ⊢
    cases hturned with
    | moved t w next hw ht hfits hmove =>
      subst hw
      exact delivers_move ht hfits hmove
    | left _ hasleep htold =>
      have hnone : s.accepted a = none := by
        refine Option.eq_none_iff_forall_ne_some.2 fun ⟨session, e⟩ hsome => ?_
        obtain ⟨content, link, rfl, hwait, -⟩ := accepted_eq_some_iff.1 hsome
        rw [wait?, hasleep _ rfl] at hwait
        cases hwait
      rw [hnone]
      refine .quiet (List.filterMap_eq_nil_iff.2 fun notice hin => ?_)
        (List.filterMap_eq_nil_iff.2 fun notice hin => ?_) <;> rw [htold notice hin]

theorem delivers_run (hs : s.Sound) (actions : List Action) :
    Notice.Delivers (s.acceptedAll actions) (s.run actions).2 := by
  induction actions generalizing s with
  | nil => exact .nil
  | cons a rest ih => exact (delivers_step hs a).append (ih (hs.step a))

/-! ## One attachment -/

/-- The run of the current generation is of a session. -/
def Follows (s : System) (session : String) : Prop :=
  ∀ t ∈ s.tasks, t.run.generation = s.client.generation → t.run.session = session

/-- What is to be kept is of a session, and goes up from the cursor before to the one
after. -/
structure Keeps (s : System) (session : String) (out : System × List Notice) : Prop where
  follows : out.1.Follows session
  session : ∀ p ∈ Notice.persists out.2, p.1 = session
  climbs : Climbs s.client.gate.cursor ((Notice.persists out.2).map Prod.snd)
    out.1.client.gate.cursor

theorem Follows.step (hs : s.Sound) (h : s.Follows session)
    (ha : ∀ other floor, a ≠ .attach other floor) : s.Keeps session (s.step a) := by
  have hfollows : (s.step a).1.Follows session := by
    intro t ht hg
    obtain ⟨u, hu, hug, hsession⟩ := run_of_step hs ha ht hg
    exact hsession ▸ h u hu hug
  cases advance hs ha with
  | still _ hkept hgate =>
    refine ⟨hfollows, ?_, ?_⟩ <;> rw [hkept]
    · exact List.forall_mem_nil _
    · rw [hgate]
      exact .refl _
  | told t e ht hg hlt _ hkept hgate =>
    refine ⟨hfollows, ?_, ?_⟩ <;> rw [hkept]
    · exact List.forall_mem_singleton.2 (h t ht hg)
    · rw [hgate]
      exact .step hlt (.refl _)

theorem Follows.run (hs : s.Sound) (h : s.Follows session) {actions : List Action}
    (ha : ∀ a ∈ actions, ∀ other floor, a ≠ .attach other floor) :
    s.Keeps session (s.run actions) := by
  induction actions generalizing s with
  | nil => exact ⟨h, List.forall_mem_nil _, .refl _⟩
  | cons a rest ih =>
    have hstep := h.step hs (ha a List.mem_cons_self)
    have hrest := ih (hs.step a) hstep.follows fun b hb => ha b (List.mem_cons_of_mem a hb)
    have hsplit : Notice.persists (s.run (a :: rest)).2 =
        Notice.persists (s.step a).2 ++ Notice.persists ((s.step a).1.run rest).2 :=
      List.filterMap_append
    refine ⟨hrest.follows, ?_, ?_⟩ <;> rw [hsplit]
    · exact List.forall_mem_append.2 ⟨hstep.session, hrest.session⟩
    · rw [List.map_append]
      exact hstep.climbs.append hrest.climbs

end System

namespace Storing

variable {σ : Type} {store : CursorStore σ} {s : Storing σ} {session : String}

/-- Without a failure a faithful store has the last of what it was to keep. -/
theorem load_attemptAll (hstore : store.Faithful) (cursors : σ)
    {pairs : List (String × UInt64)} {seq : UInt64}
    (h : (store.attemptAll cursors (pairs ++ [(session, seq)])).2 = []) :
    store.load (store.attemptAll cursors (pairs ++ [(session, seq)])).1 session = .ok seq := by
  rw [store.attemptAll_append, store.attemptAll_singleton] at h ⊢
  rw [store.fst_attempt]
  exact hstore _ _ _ (store.ok_of_attempt (List.append_eq_nil_iff.1 h).2)

/-- As long as no attempt fails, the store has the cursor of the client once an event was
accepted. -/
theorem load_of_keeps (hstore : store.Faithful) {out : System × List Notice}
    (hkeeps : s.system.Keeps session out) (hsome : Notice.persists out.2 ≠ [])
    (hfailures : (s.follow store out).failures = []) :
    store.load (s.follow store out).state.cursors session = .ok out.1.client.gate.cursor := by
  have hseqs : (Notice.persists out.2).map Prod.snd ≠ [] :=
    fun h => hsome (List.map_eq_nil_iff.1 h)
  obtain ⟨init, heq⟩ := hkeeps.climbs.eq_concat hseqs
  obtain ⟨pairs, last, hpairs, -, hlast⟩ := List.map_eq_append_iff.1 heq
  obtain ⟨⟨owner, seq⟩, rfl, hseq⟩ := List.map_eq_singleton_iff.1 hlast
  have howner : owner = session := by
    refine hkeeps.session (owner, seq) ?_
    rw [hpairs]
    exact List.mem_append_right _ (List.mem_singleton.2 rfl)
  subst howner
  rw [follow, hpairs] at hfailures ⊢
  rw [← hseq]
  exact load_attemptAll hstore s.cursors hfailures

/-- Whatever happens to a client and however its store behaves : each event that is
accepted is to be kept once, for the session that is attached, and is told right after, and
nothing else is to be kept; the store is asked for just that, in this order. From an
attachment to the next one all that is to be kept is of its session and goes up from its
cursor; and while no attempt fails, a store that loads what it stored has the cursor of the
client as soon as an event was accepted. -/
theorem kept_of_run (store : CursorStore σ) (endpoint : Endpoint) (config : StreamConfig)
    (cursors : σ) :
    (∀ actions,
      let out := (new endpoint config cursors).run store actions
      Notice.Delivers ((System.new endpoint config).acceptedAll actions) out.notices ∧
        (out.state.cursors, out.failures) =
          store.attemptAll cursors (Notice.persists out.notices)) ∧
    ∀ before session cursor later, (∀ a ∈ later, ∀ other floor, a ≠ .attach other floor) →
      let begun := ((new endpoint config cursors).run store
        (before ++ [.attach session cursor])).state
      let out := begun.run store later
      let kept := Notice.persists out.notices
      (∀ p ∈ kept, p.1 = session ∧ cursor < p.2) ∧ (kept.map Prod.snd).Pairwise (· < ·) ∧
        (store.Faithful → out.failures = [] → begun.system.acceptedAll later ≠ [] →
          store.load out.state.cursors session = .ok out.state.system.client.gate.cursor) := by
  have hnew : (System.new endpoint config).Sound := .new endpoint config
  constructor
  · intro actions
    rw [run_eq]
    exact ⟨System.delivers_run hnew actions, rfl⟩
  · intro before session cursor later hlater begun out kept
    have hout : out = begun.follow store (begun.system.run later) := run_eq store begun later
    have hbegun : begun.system =
        (((System.new endpoint config).run before).1.step (.attach session cursor)).1 := by
      refine (congrArg (fun o => o.state.system) (run_eq store _ _)).trans ?_
      refine (congrArg Prod.fst (System.run_append _ before [.attach session cursor])).trans ?_
      rfl
    have hattached := System.begun (hnew.run before) session cursor
    have hs : begun.system.Sound := hbegun ▸ (hnew.run before).step _
    have hkeeps : begun.system.Keeps session (begun.system.run later) :=
      System.Follows.run hs (hbegun ▸ hattached.session) hlater
    have hgate : begun.system.client.gate.cursor = cursor := by rw [hbegun, hattached.gate]
    have hclimbs := hkeeps.climbs
    rw [hgate] at hclimbs
    have hkept : kept = Notice.persists (begun.system.run later).2 := by
      change Notice.persists out.notices = _
      rw [hout]
      rfl
    rw [hkept]
    refine ⟨fun p hp => ⟨hkeeps.session p hp, ?_⟩, hclimbs.pairwise,
      fun hstore hfailures haccepted => ?_⟩
    · exact hclimbs.lt_of_mem _ (List.mem_map_of_mem hp)
    · rw [hout] at hfailures ⊢
      refine load_of_keeps hstore hkeeps ?_ hfailures
      rw [(System.delivers_run hs later).persists]
      exact fun h => haccepted (List.map_eq_nil_iff.1 h)

/-- Cursors in memory have the number of the one event of the session that is attached,
after another that was left before it had any. -/
theorem kept_of_run_memory :
    let endpoint : Endpoint := ⟨⟨.http, "", none, .name "localhost", none, [""], none, none⟩, none⟩
    let begun := ((new endpoint .default .empty).run .memory
      ([.attach "s0" 4, .wake 1 .start] ++ [.attach "s1" 0])).state
    let out := begun.run .memory
      [.wake 2 .start, .wake 1 (.ticket (.ok "t1")), .wake 2 (.ticket (.ok "t2")),
        .wake 2 (.opened (.ok true)),
        .wake 2 (.incoming (some (.text "\x7b\"seq\":1,\"kind\":\"user\"\x7d")))]
    CursorStore.memory.load out.state.cursors "s1" = .ok 1 :=
  Eq.trans
    (((kept_of_run .memory _ .default .empty).2 _ "s1" 0 _ (by simp)).2.2
      CursorStore.faithful_memory (List.isEmpty_iff.1 (by decide +kernel))
      (List.isEmpty_eq_false_iff.1 (by decide +kernel)))
    (congrArg Except.ok (by decide +kernel))

end Storing

end RemoteSession
