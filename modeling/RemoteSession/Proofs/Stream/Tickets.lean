import Mathlib.Data.List.Chain
import RemoteSession.Proofs.Stream.Server

/-!
# Tickets

What a run does for its connections is a log of its own (`Dealing`) : it asks for a ticket,
is answered, and opens an address, or asks again. No other order of these can be
(`Dealing.Leads`), whatever happens to the client and whichever of its runs go on late
(`System.attempts_run`).

So the ticket of an address is the answer to the request right before it, in the same run;
with what the query of the address says besides, it is all that is in the query
(`Endpoint.pairs_streamUrl`). A request without a ticket opens nothing, and where no ticket
is issued twice none is in two addresses (`System.opened_of_issued`).
-/

namespace RemoteSession

/-! ## Addresses -/

/-- What an address asks for with a cursor : the number after it, once there is one, and
otherwise a tail. -/
theorem Resume.pair_ofCursor (cursor : UInt64) (tailLen : UInt32) :
    (Resume.ofCursor cursor tailLen).pair =
      if 0 < cursor.toNat then ("from_seq", toString (min (cursor.toNat + 1) (UInt64.size - 1)))
      else ("last_n", toString tailLen.toNat) := by
  have hpos : cursor > 0 ↔ 0 < cursor.toNat := UInt64.lt_iff_toNat_lt
  have hlt := cursor.toNat_lt
  unfold ofCursor
  by_cases h : cursor > 0
  · rw [if_pos h, if_pos (hpos.1 h), pair, successor]
    split
    · next hlast =>
      subst hlast
      rfl
    · next hlast =>
      have hne : cursor.toNat ≠ 18446744073709551615 := fun heq =>
        hlast (UInt64.toNat_inj.1 heq)
      have hsize : UInt64.size = 18446744073709551616 := rfl
      rw [UInt64.toNat_add, UInt64.toNat_one, Nat.mod_eq_of_lt (by omega),
        Nat.min_eq_left (by omega)]
  · rw [if_neg h, if_neg fun hcursor => h (hpos.2 hcursor), pair]

/-- The query of the address of a stream is where it resumes and its ticket, whatever
characters the ticket has. -/
theorem Endpoint.pairs_streamUrl (e : Endpoint) (session ticket : String) (r : Resume) :
    (e.streamUrl session ticket r).pairs = [r.pair, ("ticket", ticket)] := by
  have hne : ∀ name value, (Url.formPair name value).toList ≠ [] := by
    intro name value
    simp [Url.toList_formPair]
  rw [Url.pairs, splitAt_streamUrl]
  simp [hne, Url.readPair_formPair]

/-- The ticket in the query of an address. -/
def Url.ticket? (url : Url) : Option String :=
  url.pairs.lookup "ticket"

theorem Url.ticket?_of_pairs {url : Url} {r : Resume} {ticket : String}
    (h : url.pairs = [r.pair, ("ticket", ticket)]) : url.ticket? = some ticket := by
  rw [ticket?, h]
  cases r <;> rfl

/-- The addresses that are opened, in order. -/
def Notice.urls (notices : List Notice) : List Url :=
  notices.filterMap fun
    | .opening url => some url
    | _ => none

/-! ## Dealings -/

/-- What a run does for its connections. -/
inductive Dealing where
  | requested
  | answered (result : Except String String)
  /-- An address is opened while the client has this cursor. -/
  | opened (cursor : UInt64) (url : Url)

namespace Dealing

/-- What can come right after another in the same run. -/
inductive Leads (tailLen : UInt32) : Dealing → Dealing → Prop where
  | answered (result : Except String String) : Leads tailLen .requested (.answered result)
  | opened (ticket : String) (cursor : UInt64) (url : Url) :
    url.pairs = [(Resume.ofCursor cursor tailLen).pair, ("ticket", ticket)] →
      Leads tailLen (.answered (.ok ticket)) (.opened cursor url)
  | refused (detail : String) : Leads tailLen (.answered (.error detail)) .requested
  | lost (cursor : UInt64) (url : Url) : Leads tailLen (.opened cursor url) .requested

/-- What a run does for its connections, from its first request on. -/
structure Attempts (tailLen : UInt32) (dealings : List Dealing) : Prop where
  first : ∀ d ∈ dealings.head?, d = .requested
  chain : dealings.IsChain (Leads tailLen)

/-- What some notices say of a run, while the client has this cursor. -/
def told (cursor : UInt64) (notices : List Notice) : List Dealing :=
  notices.filterMap fun
    | .ticketRequest => some .requested
    | .opening url => some (.opened cursor url)
    | _ => none

/-- The dealings of the run of a generation. -/
def ofRun (g : Nat) (log : List (Nat × Dealing)) : List Dealing :=
  (log.filter fun p => p.1 = g).map Prod.snd

/-- The tickets that are issued, in order. -/
def issued (log : List (Nat × Dealing)) : List String :=
  log.filterMap fun
    | (_, .answered (.ok ticket)) => some ticket
    | _ => none

/-- The addresses that are opened, in order. -/
def urls (log : List (Nat × Dealing)) : List Url :=
  log.filterMap fun
    | (_, .opened _ url) => some url
    | _ => none

variable {tailLen : UInt32} {dealings : List Dealing} {d : Dealing}

theorem ofRun_append (g : Nat) (xs ys : List (Nat × Dealing)) :
    ofRun g (xs ++ ys) = ofRun g xs ++ ofRun g ys := by
  rw [ofRun, List.filter_append, List.map_append]
  rfl

theorem ofRun_map (g : Nat) (xs : List Dealing) : ofRun g (xs.map (Prod.mk g)) = xs := by
  simp [ofRun, List.filter_map, Function.comp_def]

theorem ofRun_map_of_ne {g other : Nat} (h : other ≠ g) (xs : List Dealing) :
    ofRun g (xs.map (Prod.mk other)) = [] := by
  simp [ofRun, List.filter_map, Function.comp_def, h]

theorem told_setState (cursor : UInt64) (c : Client) (state : ConnectionState) :
    told cursor (c.setState state).2 = [] := by
  rw [Client.snd_setState]
  split <;> rfl

theorem leads_of_last {p : Dealing} (hlast : dealings.getLast? = some p)
    (hleads : Leads tailLen p d) : ∀ q ∈ dealings.getLast?, Leads tailLen q d := by
  rintro q hq
  rw [hlast] at hq
  cases hq
  exact hleads

namespace Attempts

theorem nil : Attempts tailLen [] :=
  ⟨nofun, .nil⟩

/-- One dealing more, after the last one. -/
theorem concat (h : Attempts tailLen dealings) (hfirst : dealings = [] → d = .requested)
    (hlast : ∀ p ∈ dealings.getLast?, Leads tailLen p d) : Attempts tailLen (dealings ++ [d]) := by
  refine ⟨?_, List.isChain_append.2 ⟨h.chain, .singleton d, fun p hp e he => ?_⟩⟩
  · cases dealings with
    | nil => exact fun e he => (Option.some.inj he) ▸ hfirst rfl
    | cons p rest => exact h.first
  · cases he
    exact hlast p hp

/-- What is not a request comes after what leads to it. -/
theorem before (h : Attempts tailLen dealings) {earlier later : List Dealing}
    (heq : dealings = earlier ++ d :: later) (hd : d ≠ .requested) :
    ∃ init p, earlier = init ++ [p] ∧ Leads tailLen p d := by
  subst heq
  rcases List.eq_nil_or_concat' earlier with rfl | ⟨init, p, rfl⟩
  · exact absurd (h.first d rfl) hd
  · refine ⟨init, p, rfl, (List.isChain_append.1 h.chain).2.2 p ?_ d rfl⟩
    rw [List.getLast?_concat]
    rfl

/-- An address is opened with the ticket that was just asked for. -/
theorem opened (h : Attempts tailLen dealings) {earlier later : List Dealing} {cursor : UInt64}
    {url : Url} (heq : dealings = earlier ++ .opened cursor url :: later) :
    ∃ init ticket, earlier = init ++ [.requested, .answered (.ok ticket)] ∧
      url.pairs = [(Resume.ofCursor cursor tailLen).pair, ("ticket", ticket)] := by
  obtain ⟨init, p, rfl, hopened⟩ := h.before heq nofun
  cases hopened with
  | opened ticket _ _ hpairs =>
    rw [List.append_assoc] at heq
    obtain ⟨init, p, rfl, hanswered⟩ := h.before heq nofun
    cases hanswered with
    | answered => exact ⟨init, ticket, List.append_assoc .., hpairs⟩

/-- Without a ticket the run at most asks again. -/
theorem refused (h : Attempts tailLen dealings) {earlier later : List Dealing} {detail : String}
    (heq : dealings = earlier ++ .answered (.error detail) :: d :: later) : d = .requested := by
  subst heq
  have hleads := (List.isChain_cons_cons.1 (List.isChain_append.1 h.chain).2.1).1
  cases hleads
  rfl

end Attempts

end Dealing

namespace System

open Dealing

/-- The answer to a run that asked for a ticket. -/
def answer (s : System) (g : Nat) : Wake → List Dealing
  | .ticket result => if s.wait? g = some .ticket then [.answered result] else []
  | _ => []

/-- What an action makes the runs do for their connections, each with its generation. -/
def dealings (s : System) : Action → List (Nat × Dealing)
  | .wake g w =>
    (s.answer g w ++ told s.client.gate.cursor (s.step (.wake g w)).2).map (Prod.mk g)
  | a => (told s.client.gate.cursor (s.step a).2).map (Prod.mk s.client.generation)

/-- What some actions make the runs do for their connections, in order. -/
def dealingsAll (s : System) : List Action → List (Nat × Dealing)
  | [] => []
  | a :: rest => s.dealings a ++ (s.step a).1.dealingsAll rest

variable {s s' : System} {a : Action} {g : Nat}

/-! ## One step -/

/-- The run of a generation is as it was, or gone, or has just begun. -/
def Rests (s s' : System) (g : Nat) : Prop :=
  ∀ t, s'.task? g = some t →
    (∃ u, s.task? g = some u ∧ u.run.wait = t.run.wait) ∨
      s.client.generation < g ∧ t.run.wait = .start

/-- What a step makes the run of a generation do for its connections, by what the run waits
for before and after. -/
inductive Deals (s s' : System) (g : Nat) : List Dealing → Prop where
  | rests : Rests s s' g → Deals s s' g []
  | moves (u : Task) : s.task? g = some u → u.run.wait ≠ .ticket →
    (∀ t, s'.task? g = some t → t.run.wait ≠ .ticket) → Deals s s' g []
  | asks (u : Task) : s.task? g = some u → u.run.wait ≠ .ticket →
    (∀ t, s'.task? g = some t → t.run.wait = .ticket) → Deals s s' g [.requested]
  | answered (u : Task) (result : Except String String) : s.task? g = some u →
    u.run.wait = .ticket →
    (∀ t, s'.task? g = some t → t.run.wait ≠ .ticket ∧ ∃ detail, result = .error detail) →
    Deals s s' g [.answered result]
  | opens (u : Task) (ticket : String) (url : Url) : s.task? g = some u → u.run.wait = .ticket →
    url.pairs =
      [(Resume.ofCursor s.client.gate.cursor s.client.config.tailLen).pair, ("ticket", ticket)] →
    (∀ t, s'.task? g = some t → t.run.wait ≠ .ticket) →
    Deals s s' g [.answered (.ok ticket), .opened s.client.gate.cursor url]

/-- A call makes no run do anything. -/
theorem dealings_of_not_wake (ha : ∀ g w, a ≠ .wake g w) : s.dealings a = [] := by
  cases a with
  | attach session cursor =>
    obtain ⟨links, -, -, hn⟩ := s.client.attach_eq session cursor
    simp only [dealings, step, hn]
    split <;> rfl
  | stop =>
    obtain ⟨links, -, -, hn⟩ := s.client.stop_eq
    simp only [dealings, step, hn]
    split <;> rfl
  | wake g w => exact absurd rfl (ha g w)
  | _ => rfl

/-- Runs that are then as they were rest. -/
theorem rests_of_mem (hs : s.Sound)
    (h : ∀ t ∈ s'.tasks, t.run.generation = g → ∃ u ∈ s.tasks, u.run = t.run) : Rests s s' g := by
  intro t ht
  obtain ⟨hmem, hg⟩ := mem_of_task? ht
  obtain ⟨u, hu, hrun⟩ := h t hmem hg
  have hfound := task?_of_mem hs hu
  rw [hrun, hg] at hfound
  exact .inl ⟨u, hfound, by rw [hrun]⟩

theorem rests_of_cancelAll (hs : s.Sound) {c : Client} : Rests s ⟨c, cancelAll s.tasks⟩ g := by
  refine rests_of_mem hs fun t ht _ => ?_
  obtain ⟨u, hu, rfl⟩ := mem_cancelAll.1 ht
  exact ⟨u, hu, rfl⟩

theorem rests_of_attach (hs : s.Sound) (session : String) (cursor : UInt64) :
    Rests s (s.step (.attach session cursor)).1 g := by
  intro t ht
  obtain ⟨hmem, hg⟩ := mem_of_task? ht
  rcases List.mem_append.1 hmem with hold | hnew
  · obtain ⟨u, hu, rfl⟩ := mem_cancelAll.1 hold
    have hfound := task?_of_mem hs hu
    rw [show u.run.generation = g from hg] at hfound
    exact .inl ⟨u, hfound, rfl⟩
  · obtain ⟨links, -, hc, -⟩ := s.client.attach_eq session cursor
    have hbegun : (s.client.attach session cursor).1.generation = s.client.generation + 1 := by
      rw [hc]
    cases List.mem_singleton.1 hnew
    have hg : (s.client.attach session cursor).1.generation = g := hg
    exact .inr ⟨by omega, rfl⟩

/-- A wake leaves the runs of all other generations as they were. -/
theorem rests_of_wake (hs : s.Sound) {other : Nat} (w : Wake) (hne : g ≠ other) :
    Rests s (s.step (.wake other w)).1 g := by
  have hkept : ∀ {c : Client} {run : Option Run},
      (∀ r, run = some r → r.generation = other) → Rests s ⟨c, replace s.tasks other run⟩ g :=
    fun hrun t ht => .inl ⟨t, (find?_replace_of_ne hrun hne).symm.trans ht, rfl⟩
  have hw := woken hs other w
  generalize s.step (.wake other w) = out at hw ⊢
  cases hw with
  | absent => exact fun t ht => .inl ⟨t, ht, rfl⟩
  | late t run ht _ hor =>
    refine hkept fun r hr => ?_
    rcases hor with rfl | rfl
    · cases hr
    · cases hr
      exact (mem_of_task? ht).2
  | closed => exact hkept nofun
  | moved t next ht _ _ _ hmove =>
    exact hkept fun r hr => (hmove.run_eq hr).1.trans (mem_of_task? ht).2

/-- A run that is not woken does nothing for its connections. -/
theorem deals_of_not_woken (hs : s.Sound) (ha : ∀ w, a ≠ .wake g w) :
    Deals s (s.step a).1 g (ofRun g (s.dealings a)) := by
  by_cases hwake : ∃ other w, a = .wake other w
  · obtain ⟨other, w, rfl⟩ := hwake
    have hne : other ≠ g := fun h => ha w (h ▸ rfl)
    rw [dealings, ofRun_map_of_ne hne]
    exact .rests (rests_of_wake hs w hne.symm)
  · rw [dealings_of_not_wake fun other w h => hwake ⟨other, w, h⟩]
    refine .rests ?_
    cases a with
    | attach session cursor => exact rests_of_attach hs session cursor
    | stop => exact rests_of_cancelAll hs
    | supersede => exact rests_of_cancelAll hs
    | wake other w => exact absurd ⟨other, w, rfl⟩ hwake
    | drop other => exact rests_of_mem hs fun t ht _ => ⟨t, (List.mem_filter.1 ht).1, rfl⟩
    | _ => exact rests_of_mem hs fun t ht _ => ⟨t, ht, rfl⟩

/-- A run in another form waits for what that form does. -/
theorem wait_of_replace {c : Client} {tasks : List Task} {r : Run} {t : Task}
    (ht : task? ⟨c, replace tasks g (some r)⟩ g = some t) : t.run.wait = r.wait := by
  rw [Option.some.inj (run_of_replace ht)]

/-- A run that was superseded ends with the answer. -/
theorem step_of_late_answer {t : Task} (ht : s.task? g = some t) (hne : g ≠ s.client.generation)
    (hwait : t.run.wait = .ticket) (result : Except String String) :
    s.step (.wake g (.ticket result)) = (⟨s.client, replace s.tasks g none⟩, []) := by
  have hrun : s.client.isCurrent t.run = false := by
    simpa [Client.isCurrent, (mem_of_task? ht).2] using Ne.symm hne
  cases result <;> simp [step, ht, Client.wake, hwait, Client.openStream, Client.lose, hrun]

/-- After the answer a run of the current generation opens an address, or fails. -/
theorem deals_of_answer (hs : s.Sound) {t : Task} (ht : s.task? g = some t)
    (hwait : t.run.wait = .ticket) (result : Except String String) :
    Deals s (s.step (.wake g (.ticket result))).1 g
      (.answered result :: told s.client.gate.cursor (s.step (.wake g (.ticket result))).2) := by
  by_cases hcur : g = s.client.generation
  · have hw := woken hs g (.ticket result)
    generalize s.step (.wake g (.ticket result)) = out at hw ⊢
    cases hw with
    | absent hnone => rw [ht] at hnone; cases hnone
    | late _ _ _ hne => exact absurd hcur hne
    | closed _ _ hne => exact absurd hcur hne
    | moved u next hu _ _ _ hmove =>
      rw [ht] at hu
      cases hu
      cases hmove with
      | rest _ hawaits => simp [Run.awaits, hwait] at hawaits
      | «open» ticket =>
        refine .opens t ticket _ ht hwait (Endpoint.pairs_streamUrl ..) fun u hu => ?_
        rw [wait_of_replace hu]
        nofun
      | lose _ reason hf =>
        rw [told_setState]
        refine .answered t result ht hwait fun u hu => ?_
        rw [wait_of_replace hu]
        refine ⟨nofun, ?_⟩
        cases result with
        | error detail => exact ⟨detail, rfl⟩
        | ok ticket => simp [Run.failure?, hwait] at hf
  · rw [step_of_late_answer ht hcur hwait]
    refine .answered t result ht hwait fun u hu => ?_
    cases run_of_replace hu

/-- A run that does not wait for the answer asks for a ticket, or does nothing for its
connections. -/
theorem deals_of_other (hs : s.Sound) {w : Wake}
    (h : ∀ t, s.task? g = some t → t.run.wait = .ticket → ∀ result, w ≠ .ticket result) :
    Deals s (s.step (.wake g w)).1 g (told s.client.gate.cursor (s.step (.wake g w)).2) := by
  have hw := woken hs g w
  generalize s.step (.wake g w) = out at hw ⊢
  cases hw with
  | absent => exact .rests fun t ht => .inl ⟨t, ht, rfl⟩
  | late t run ht _ hor =>
    refine .rests fun u hu => ?_
    rcases hor with rfl | rfl
    · cases run_of_replace hu
    · exact .inl ⟨t, ht, (wait_of_replace hu).symm⟩
  | closed t ht =>
    refine .rests fun u hu => ?_
    cases run_of_replace hu
  | moved t next ht _ _ _ hmove =>
    cases hmove with
    | rest => exact .rests fun u hu => .inl ⟨t, ht, (wait_of_replace hu).symm⟩
    | start hwait => exact .asks t ht (by simp [hwait]) fun u hu => wait_of_replace hu
    | retry ms hwait => exact .asks t ht (by simp [hwait]) fun u hu => wait_of_replace hu
    | «open» ticket hwait => exact absurd rfl (h t ht hwait (.ok ticket))
    | connect accepts hwait =>
      refine .moves t ht (by simp [hwait]) fun u hu => ?_
      rw [wait_of_replace hu]
      rintro ⟨⟩
    | lose _ reason hf =>
      rw [told_setState]
      refine .moves t ht (fun hwait => ?_) fun u hu => ?_
      · cases w with
        | ticket result => exact h t ht hwait result rfl
        | _ => simp [Run.failure?, hwait] at hf
      · rw [wait_of_replace hu]
        rintro ⟨⟩
    | pass => exact .rests fun u hu => .inl ⟨t, ht, (wait_of_replace hu).symm⟩
    | tell => exact .rests fun u hu => .inl ⟨t, ht, (wait_of_replace hu).symm⟩
    | exit =>
      refine .rests fun u hu => ?_
      cases run_of_replace hu

/-- What a step makes a run do for its connections. -/
theorem deals (hs : s.Sound) (a : Action) (g : Nat) :
    Deals s (s.step a).1 g (ofRun g (s.dealings a)) := by
  by_cases ha : ∃ w, a = .wake g w
  · obtain ⟨w, rfl⟩ := ha
    rw [dealings, ofRun_map]
    by_cases hanswer : ∃ t result, s.task? g = some t ∧ t.run.wait = .ticket ∧ w = .ticket result
    · obtain ⟨t, result, ht, hwait, rfl⟩ := hanswer
      have hasked : s.answer g (.ticket result) = [.answered result] := by
        simp [answer, wait?, ht, hwait]
      rw [hasked]
      exact deals_of_answer hs ht hwait result
    · have hnone : s.answer g w = [] := by
        unfold answer
        split
        · next result =>
          refine if_neg fun hwait => hanswer ?_
          obtain ⟨t, ht, hwait⟩ := task?_eq_of_wait? hwait
          exact ⟨t, result, ht, hwait, rfl⟩
        · rfl
      rw [hnone]
      exact deals_of_other hs fun t ht hwait result hw => hanswer ⟨t, result, ht, hwait, hw⟩
  · exact deals_of_not_woken hs fun w h => ha ⟨w, h⟩

/-! ## Runs -/

/-- What the run of a generation did fits what it waits for : it asked last exactly when it
waits for the ticket. A generation that has not begun has done nothing. -/
structure Dealt (s : System) (g : Nat) (dealings : List Dealing) : Prop where
  attempts : Attempts s.client.config.tailLen dealings
  unbegun : s.client.generation < g → dealings = []
  asked : ∀ t, s.task? g = some t → t.run.wait = .ticket → dealings.getLast? = some .requested
  ready : ∀ t, s.task? g = some t → t.run.wait ≠ .ticket →
    ∀ d ∈ dealings.getLast?, Leads s.client.config.tailLen d .requested

theorem Dealt.step (hs : s.Sound) {dealings : List Dealing} (h : s.Dealt g dealings)
    (a : Action) : (s.step a).1.Dealt g (dealings ++ ofRun g (s.dealings a)) := by
  have hconfig := config_step hs a
  have hbegins := generation_step hs a
  have hbegun : ∀ u, s.task? g = some u → ¬(s.step a).1.client.generation < g := by
    intro u hu hlt
    obtain ⟨hmem, hg⟩ := mem_of_task? hu
    have hle := hs.le u hmem
    omega
  have hdeals := deals hs a g
  generalize ofRun g (s.dealings a) = now at hdeals ⊢
  generalize (s.step a).1 = s' at hconfig hbegins hbegun hdeals ⊢
  obtain ⟨hattempts, hunbegun, hasked, hready⟩ := h
  cases hdeals with
  | rests hrests =>
    rw [List.append_nil]
    refine ⟨hconfig ▸ hattempts, fun hlt => hunbegun (by omega), fun t ht hwait => ?_,
      fun t ht hwait => hconfig ▸ ?_⟩
    · rcases hrests t ht with ⟨u, hu, heq⟩ | ⟨-, hstart⟩
      · exact hasked u hu (heq.trans hwait)
      · rw [hstart] at hwait
        cases hwait
    · rcases hrests t ht with ⟨u, hu, heq⟩ | ⟨hlt, -⟩
      · exact hready u hu fun h => hwait (heq.symm.trans h)
      · rw [hunbegun hlt]
        exact nofun
  | moves u hu hwait hafter =>
    rw [List.append_nil]
    exact ⟨hconfig ▸ hattempts, fun hlt => hunbegun (by omega),
      fun t ht h => absurd h (hafter t ht), fun t ht _ => hconfig ▸ hready u hu hwait⟩
  | asks u hu hwait hafter =>
    have hnow := hattempts.concat (fun _ => rfl) (hready u hu hwait)
    exact ⟨hconfig ▸ hnow, fun hlt => absurd hlt (hbegun u hu),
      fun _ _ _ => List.getLast?_concat, fun t ht h => absurd (hafter t ht) h⟩
  | answered u result hu hwait hafter =>
    have hlast := hasked u hu hwait
    have hnow := hattempts.concat (d := .answered result) (fun h => by simp [h] at hlast)
      (leads_of_last hlast (.answered result))
    refine ⟨hconfig ▸ hnow, fun hlt => absurd hlt (hbegun u hu),
      fun t ht h => absurd h (hafter t ht).1, fun t ht _ => ?_⟩
    obtain ⟨-, detail, rfl⟩ := hafter t ht
    exact leads_of_last List.getLast?_concat (.refused detail)
  | opens u ticket url hu hwait hpairs hafter =>
    have hlast := hasked u hu hwait
    have hanswered := hattempts.concat (d := .answered (.ok ticket)) (fun h => by simp [h] at hlast)
      (leads_of_last hlast (.answered _))
    have hnow := hanswered.concat (d := .opened s.client.gate.cursor url) (fun h => by simp at h)
      (leads_of_last List.getLast?_concat (.opened ticket _ url hpairs))
    rw [List.append_cons]
    refine ⟨hconfig ▸ hnow, fun hlt => absurd hlt (hbegun u hu),
      fun t ht h => absurd h (hafter t ht), fun t ht _ => ?_⟩
    exact leads_of_last List.getLast?_concat (.lost _ url)

theorem Dealt.run (hs : s.Sound) {dealings : List Dealing} (h : s.Dealt g dealings)
    (actions : List Action) :
    (s.run actions).1.Dealt g (dealings ++ ofRun g (s.dealingsAll actions)) := by
  induction actions generalizing s dealings with
  | nil => exact (List.append_nil dealings).symm ▸ h
  | cons a rest ih =>
    have hrest := ih (hs.step a) (h.step hs a)
    rwa [List.append_assoc, ← ofRun_append] at hrest

/-- Whatever happens, each run asks, is answered and opens in order. -/
theorem attempts_run (endpoint : Endpoint) (config : StreamConfig) (actions : List Action)
    (g : Nat) : Attempts config.tailLen (ofRun g ((new endpoint config).dealingsAll actions)) := by
  have hs := Sound.new endpoint config
  have hnew : (new endpoint config).Dealt g [] := ⟨.nil, fun _ => rfl, nofun, nofun⟩
  have hattempts := (hnew.run hs actions).attempts
  rwa [(setup_run hs actions).2] at hattempts

/-! ## All runs -/

theorem dealings_eq (s : System) (a : Action) :
    ∃ g, s.dealings a = (ofRun g (s.dealings a)).map (Prod.mk g) := by
  cases a with
  | wake g w => exact ⟨g, by rw [dealings, ofRun_map]⟩
  | _ => exact ⟨s.client.generation, (congrArg (List.map _) (ofRun_map _ _)).symm⟩

theorem urls_append (xs ys : List (Nat × Dealing)) : urls (xs ++ ys) = urls xs ++ urls ys :=
  List.filterMap_append

theorem issued_append (xs ys : List (Nat × Dealing)) :
    issued (xs ++ ys) = issued xs ++ issued ys :=
  List.filterMap_append

/-- The tickets of the addresses that are opened are some of those that are issued, in
their order. -/
theorem sublist_issued (hs : s.Sound) (a : Action) :
    ((urls (s.dealings a)).map Url.ticket?).Sublist ((issued (s.dealings a)).map some) := by
  obtain ⟨g, heq⟩ := dealings_eq s a
  have hdeals := deals hs a g
  rw [heq]
  generalize ofRun g (s.dealings a) = now at hdeals
  cases hdeals with
  | opens u ticket url _ _ hpairs => simp [urls, issued, Url.ticket?_of_pairs hpairs]
  | _ => simp [urls]

theorem sublist_issued_run (hs : s.Sound) (actions : List Action) :
    ((urls (s.dealingsAll actions)).map Url.ticket?).Sublist
      ((issued (s.dealingsAll actions)).map some) := by
  induction actions generalizing s with
  | nil => exact .slnil
  | cons a rest ih =>
    rw [dealingsAll, urls_append, issued_append, List.map_append, List.map_append]
    exact (sublist_issued hs a).append (ih (hs.step a))

/-- All addresses that are opened are in the log. -/
theorem urls_dealings (s : System) (a : Action) :
    urls (s.dealings a) = Notice.urls (s.step a).2 := by
  have htold : ∀ (g : Nat) (cursor : UInt64) (notices : List Notice),
      urls ((told cursor notices).map (Prod.mk g)) = Notice.urls notices := by
    intro g cursor notices
    simp only [urls, told, Notice.urls, List.filterMap_map, List.filterMap_filterMap]
    congr 1
    funext notice
    cases notice <;> rfl
  have hanswer : ∀ (g : Nat) (w : Wake), urls ((s.answer g w).map (Prod.mk g)) = [] := by
    intro g w
    unfold answer
    split
    · split <;> rfl
    · rfl
  cases a with
  | wake g w => rw [dealings, List.map_append, urls_append, hanswer, htold, List.nil_append]
  | _ => exact htold _ _ _

theorem urls_dealingsAll (s : System) (actions : List Action) :
    urls (s.dealingsAll actions) = Notice.urls (s.run actions).2 := by
  induction actions generalizing s with
  | nil => rfl
  | cons a rest ih =>
    rw [dealingsAll, urls_append, urls_dealings, ih]
    exact List.filterMap_append.symm

/-- Whatever happens to a client : an address is opened with the ticket of the request right
before it, in the same run, and its query says this ticket and where to resume by the cursor
that the client then has, and nothing else. After a request without a ticket a run at most
asks again. Where no ticket is issued twice, no two addresses have the same. -/
theorem opened_of_issued (endpoint : Endpoint) (config : StreamConfig) (actions : List Action) :
    let log := (new endpoint config).dealingsAll actions
    (∀ g earlier cursor url later, ofRun g log = earlier ++ .opened cursor url :: later →
      ∃ init ticket, earlier = init ++ [.requested, .answered (.ok ticket)] ∧
        url.pairs =
          [if 0 < cursor.toNat then
              ("from_seq", toString (min (cursor.toNat + 1) (UInt64.size - 1)))
            else ("last_n", toString config.tailLen.toNat),
            ("ticket", ticket)]) ∧
      (∀ g earlier detail d later,
        ofRun g log = earlier ++ .answered (.error detail) :: d :: later → d = .requested) ∧
      ((issued log).Nodup →
        ((Notice.urls ((new endpoint config).run actions).2).map Url.ticket?).Nodup) := by
  intro log
  refine ⟨fun g earlier cursor url later heq => ?_, fun g earlier detail d later heq => ?_,
    fun hnodup => ?_⟩
  · obtain ⟨init, ticket, hearlier, hpairs⟩ :=
      (attempts_run endpoint config actions g).opened heq
    rw [Resume.pair_ofCursor] at hpairs
    exact ⟨init, ticket, hearlier, hpairs⟩
  · exact (attempts_run endpoint config actions g).refused heq
  · rw [← urls_dealingsAll]
    have hsome : ((issued log).map some).Nodup :=
      List.Pairwise.map some (fun _ _ hne h => hne (Option.some.inj h)) hnodup
    exact (sublist_issued_run (.new endpoint config) actions).nodup hsome

/-- A connection that could not be opened, and one that could after a failed request, have
tickets of their own. -/
theorem opened_of_issued_three :
    let endpoint : Endpoint := ⟨⟨.http, "", none, .name "localhost", none, [""], none, none⟩, none⟩
    let actions : List Action :=
      [.attach "s1" 57, .wake 1 .start, .wake 1 (.ticket (.ok "t-1")),
        .wake 1 (.opened (.error (.connect "refused"))), .wake 1 .elapsed,
        .wake 1 (.ticket (.error "offline")), .wake 1 .elapsed, .wake 1 (.ticket (.ok "t+2"))]
    let opened := Notice.urls ((new endpoint .default).run actions).2
    opened.map Url.ticket? = [some "t-1", some "t+2"] ∧ (opened.map Url.ticket?).Nodup := by
  intro endpoint actions opened
  exact ⟨by decide, (opened_of_issued endpoint .default actions).2.2 (by decide)⟩

end System

end RemoteSession
