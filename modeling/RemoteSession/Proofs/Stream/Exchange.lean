import RemoteSession.Proofs.Stream.Replays

/-!
# What a server sees of a client

While a session is attached there are three kinds of actions for its server. A
connection opens, and the run then reads it (`System.opened`). The run reads a text,
which is passed over or whose event is told (`System.read`). Or there is something else
(`System.aside`) : it tells of no event and leaves the cursor alone, and when the run
has asked for an address, then where to resume is in it.
-/

namespace RemoteSession

namespace System

variable {s : System} {a : Action}

/-- What the run of the current generation waits for after a move. -/
theorem wait?_of_move {t : Task} {w : Wake} {next : Step} (hmove : s.client.Move t.run w next)
    {wait : Wait}
    (h : wait? ⟨next.client, replace s.tasks s.client.generation next.run⟩
      next.client.generation = some wait) :
    ∃ r, next.run = some r ∧ r.wait = wait := by
  have hgen : next.client.generation = s.client.generation := hmove.frame.2.2.1
  obtain ⟨u, hu, hwait⟩ := task?_eq_of_wait? h
  simp only [hgen] at hu
  exact ⟨u.run, run_of_replace hu, hwait⟩

/-- An action that neither opens a connection of the current run nor brings it a frame. -/
structure Aside (s : System) (out : System × List Notice) : Prop where
  events : Notice.events out.2 = []
  gate : out.1.client.gate = s.client.gate
  alive : ∀ wait, out.1.wait? out.1.client.generation = some wait →
    ∃ old, s.wait? s.client.generation = some old
  reading : ∀ link, out.1.wait? out.1.client.generation = some (.frames link) →
    s.wait? s.client.generation = some (.frames link)
  opening : out.1.wait? out.1.client.generation = some .opening →
    s.wait? s.client.generation = some .opening ∧ Notice.asked? out.2 = none ∨
      ∃ url, Notice.asked? out.2 = some url ∧
        Resume.ofUrl? url = some (.ofCursor s.client.gate.cursor s.client.config.tailLen)

theorem aside (hs : s.Sound) (hattach : ∀ session cursor, a ≠ .attach session cursor)
    (hopens : s.opens a = false) (hreads : ∀ content, ¬Hosted.reads s content a) :
    s.Aside (s.step a) := by
  have hturned := turned hs hattach
  generalize s.step a = out at hturned ⊢
  cases hturned with
  | left _ _ htold hgate hkept =>
    have hwait : ∀ wait, out.1.wait? out.1.client.generation = some wait →
        s.wait? s.client.generation = some wait := by
      intro wait h
      obtain ⟨t, ht, hw⟩ := task?_eq_of_wait? h
      rw [wait?, hkept t ht, Option.map_some, hw]
    have hasked : Notice.asked? out.2 = none := by
      refine List.findSome?_eq_none_iff.2 fun notice hin => ?_
      rw [htold notice (List.mem_reverse.1 hin)]
    refine ⟨?_, hgate, fun wait h => ⟨wait, hwait wait h⟩, fun link => hwait _,
      fun h => .inl ⟨hwait _ h, hasked⟩⟩
    refine List.filterMap_eq_nil_iff.2 fun notice hin => ?_
    rw [htold notice hin]
  | moved t w next hw ht hfits hmove =>
    subst hw
    have halive : ∃ old, s.wait? s.client.generation = some old :=
      ⟨t.run.wait, by rw [wait?, ht, Option.map_some]⟩
    cases hmove with
    | rest w hawaits =>
      refine ⟨rfl, rfl, fun _ _ => halive, fun link h => ?_, fun h => .inl ⟨?_, rfl⟩⟩
      · obtain ⟨r, hr, hwait⟩ := wait?_of_move (.rest w hawaits) h
        cases hr
        rw [wait?, ht, Option.map_some, hwait]
      · obtain ⟨r, hr, hwait⟩ := wait?_of_move (.rest w hawaits) h
        cases hr
        rw [wait?, ht, Option.map_some, hwait]
    | start hw =>
      refine ⟨rfl, rfl, fun _ _ => halive, fun link h => ?_, fun h => ?_⟩ <;>
      · obtain ⟨r, hr, hwait⟩ := wait?_of_move (.start hw) h
        cases hr
        cases hwait
    | retry ms hw =>
      refine ⟨rfl, rfl, fun _ _ => halive, fun link h => ?_, fun h => ?_⟩ <;>
      · obtain ⟨r, hr, hwait⟩ := wait?_of_move (.retry ms hw) h
        cases hr
        cases hwait
    | «open» ticket hw =>
      refine ⟨rfl, rfl, fun _ _ => halive, fun link h => ?_,
        fun _ => .inr ⟨_, rfl, Resume.ofUrl?_streamUrl ..⟩⟩
      obtain ⟨r, hr, hwait⟩ := wait?_of_move (.open ticket hw) h
      cases hr
      cases hwait
    | connect accepts hw =>
      rw [opens_of_task? ht hw accepts] at hopens
      cases hopens
    | lose w reason hf =>
      refine ⟨?_, rfl, fun _ _ => halive, fun link h => ?_, fun h => ?_⟩
      · simp only [Client.snd_setState]
        split <;> rfl
      all_goals
        obtain ⟨r, hr, hwait⟩ := wait?_of_move (.lose w reason hf) h
        cases hr
        cases hwait
    | pass link content hw =>
      exact absurd ⟨rfl, link, by rw [wait?, ht, Option.map_some, hw]⟩ (hreads content)
    | tell link content e hw =>
      exact absurd ⟨rfl, link, by rw [wait?, ht, Option.map_some, hw]⟩ (hreads content)
    | exit link content e hw =>
      exact absurd ⟨rfl, link, by rw [wait?, ht, Option.map_some, hw]⟩ (hreads content)

/-- A wake of the current run makes it take a move. -/
theorem move_of_task? (hs : s.Sound) {t : Task} (ht : s.task? s.client.generation = some t)
    (w : Wake) : ∃ next, s.client.Move t.run w next ∧
      s.step (.wake s.client.generation w) =
        (⟨next.client, replace s.tasks s.client.generation next.run⟩, next.notices) := by
  obtain ⟨hmem, hg⟩ := mem_of_task? ht
  have hcur : s.client.isCurrent t.run = true := by simp [Client.isCurrent, hg]
  exact ⟨_, Client.move_wake hcur (hs.fits t hmem hg) w, by simp only [step, ht]⟩

/-- A connection that opens for the current run : the run then reads it. -/
structure Opened (s : System) (out : System × List Notice) : Prop where
  events : Notice.events out.2 = []
  gate : out.1.client.gate = s.client.gate
  was : s.wait? s.client.generation = some .opening
  waits : ∀ wait, out.1.wait? out.1.client.generation = some wait → ∃ link, wait = .frames link

theorem opened (hs : s.Sound) (hopens : s.opens a = true) : s.Opened (s.step a) := by
  obtain ⟨⟨accepts, rfl⟩, hwas⟩ := opens_iff.1 hopens
  obtain ⟨t, ht, hwait⟩ := task?_eq_of_wait? hwas
  obtain ⟨next, hmove, hstep⟩ := move_of_task? hs ht (.opened (.ok accepts))
  rw [hstep]
  cases hmove with
  | rest _ hawaits => simp [Run.awaits, hwait] at hawaits
  | connect accepts hw =>
    refine ⟨rfl, rfl, hwas, fun wait h => ?_⟩
    obtain ⟨r, hr, rfl⟩ := wait?_of_move (.connect accepts hw) h
    cases hr
    exact ⟨_, rfl⟩
  | lose _ reason hf => simp [Run.failure?, hwait] at hf

/-- What becomes of a text that the current run reads : it is passed over, being no event
or an old one, or its event is told. -/
inductive Read (s : System) (content : String) (out : System × List Notice) : Prop where
  | passed : (∀ e, Event.decode? content = some e → e.seq ≤ s.client.gate.cursor) →
    Notice.events out.2 = [] → out.1.client.gate = s.client.gate →
    (∀ wait, out.1.wait? out.1.client.generation = some wait →
      s.wait? s.client.generation = some wait) → Read s content out
  | told (e : Event) : Event.decode? content = some e → s.client.gate.cursor < e.seq →
    Notice.events out.2 = [e] → out.1.client.gate = ⟨e.seq⟩ →
    (∀ wait, out.1.wait? out.1.client.generation = some wait →
      e.body.isTerminal = false ∧ ∃ link, wait = .frames link) → Read s content out

theorem read (hs : s.Sound) {content : String} (hreads : Hosted.reads s content a) :
    s.Read content (s.step a) := by
  obtain ⟨rfl, link, hwas⟩ := hreads
  obtain ⟨t, ht, hwait⟩ := task?_eq_of_wait? hwas
  obtain ⟨next, hmove, hstep⟩ := move_of_task? hs ht (.incoming (some (.text content)))
  rw [hstep]
  cases hmove with
  | rest _ hawaits => simp [Run.awaits, hwait] at hawaits
  | lose _ reason hf => simp [Run.failure?, hwait] at hf
  | pass link content hw hold =>
    refine .passed hold rfl rfl fun wait h => ?_
    obtain ⟨r, hr, rfl⟩ := wait?_of_move (.pass link content hw hold) h
    cases hr
    rw [wait?, ht, Option.map_some]
  | tell link content e hw hd hlt hterm =>
    refine .told e hd hlt rfl rfl fun wait h => ?_
    obtain ⟨r, hr, rfl⟩ := wait?_of_move (.tell link content e hw hd hlt hterm) h
    cases hr
    exact ⟨hterm, link, hw⟩
  | exit link content e hw hd hlt hterm =>
    obtain ⟨links, -, heq⟩ := s.client.exited_eq link e
    refine .told e hd hlt rfl (by simp [heq]) fun wait h => ?_
    obtain ⟨r, hr, -⟩ := wait?_of_move (.exit link content e hw hd hlt hterm) h
    cases hr

end System

end RemoteSession
