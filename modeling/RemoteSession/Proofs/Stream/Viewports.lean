import RemoteSession.Proofs.Session.Payloads
import RemoteSession.Proofs.Stream.Framing

/-!
# Sizes of the terminal

A client keeps the last size that it was told (`System.viewport_run`), and tells it to
connections : to one that opens before anything else, and to the one that it has with each
call that sets it, as long as these take frames. Unless somebody sends a size as a message of
its own, no other frame is one, so what a step tells a connection is one size at most
(`System.viewportsOn_step`).

So the last size on the client's connection is the one that the client keeps, as long as
the connection takes frames (`System.Informed`) : what the session knows is never out of date
(`System.informed_of_opens`).
-/

namespace RemoteSession

/-- The size that a message tells. -/
def Message.viewport? : Message → Option (UInt16 × UInt16)
  | .resize cols rows => some (cols, rows)
  | .input _ => none

/-- The size that a frame tells, as the session reads it. -/
def Outgoing.viewport? : Outgoing → Option (UInt16 × UInt16)
  | .text content => (Message.decode? content).bind Message.viewport?
  | .close _ _ => none

@[simp] theorem Outgoing.viewport?_ofMessage (m : Message) :
    (Outgoing.ofMessage m).viewport? = m.viewport? := by
  rw [ofMessage, Outgoing.viewport?, Message.decode?_encode, Option.bind_some]

@[simp] theorem Outgoing.viewport?_normalClose (reason : String) :
    (Outgoing.normalClose reason).viewport? = none :=
  rfl

/-- The size that an action sets. -/
def Action.viewport? : Action → Option (UInt16 × UInt16)
  | .setViewport cols rows => some (cols, rows)
  | _ => none

/-- The size that was set last. -/
def Action.lastViewport? (actions : List Action) : Option (UInt16 × UInt16) :=
  (actions.filterMap Action.viewport?).getLast?

theorem Action.lastViewport?_append (xs ys : List Action) :
    lastViewport? (xs ++ ys) = (lastViewport? ys).or (lastViewport? xs) := by
  simp only [lastViewport?, List.filterMap_append, List.getLast?_append]

theorem Action.lastViewport?_singleton (a : Action) : lastViewport? [a] = a.viewport? := by
  unfold lastViewport?
  cases h : a.viewport? <;> simp [h]

namespace Client

variable (c : Client)

/-- The sizes that a connection was told, in order. -/
def viewportsOn (link : Nat) : List (UInt16 × UInt16) :=
  (c.sentOn link).filterMap Outgoing.viewport?

theorem accepts_handOver (link other : Nat) (frame : Outgoing) :
    (c.handOver link frame).accepts other = c.accepts other := by
  unfold handOver
  split
  · simp only [accepts, List.getElem?_modify]
    cases c.links[other]? <;> simp
    split <;> rfl
  · rfl

theorem accepts_send (m : Message) (other : Nat) :
    (c.send m).1.accepts other = c.accepts other := by
  unfold send
  split
  · exact c.accepts_handOver ..
  · rfl

/-- A client with a connection hands it each message that it sends, as long as the connection
takes frames. -/
theorem sentOn_send (hconnected : ∀ {l}, c.outbound = some l → c.state = .connected)
    (m : Message) (link : Nat) :
    (c.send m).1.sentOn link = c.sentOn link ++
      if c.outbound = some link ∧ c.accepts link = true then [.ofMessage m] else [] := by
  unfold send
  cases hout : c.outbound with
  | none => cases c.state.isConnected <;> simp
  | some l =>
    rw [hconnected hout, ConnectionState.isConnected, c.hands_handOver l (.ofMessage m) link]
    by_cases heq : link = l
    · subst heq
      simp
    · simp [heq, Ne.symm heq]

/-- A connection takes frames as it did when it opened. -/
theorem accepts_connected (accepts : Bool) :
    (c.connected accepts).accepts c.links.length = accepts := by
  simp [connected, Client.accepts, Link.offered]

theorem filterMap_greeting : c.greeting.filterMap Outgoing.viewport? = c.viewport.toList := by
  unfold greeting
  cases c.viewport <;> simp [Message.viewport?]

theorem viewportsOn_send (hconnected : ∀ {l}, c.outbound = some l → c.state = .connected)
    (m : Message) (link : Nat) :
    (c.send m).1.viewportsOn link = c.viewportsOn link ++
      (if c.outbound = some link ∧ c.accepts link = true then m.viewport? else none).toList := by
  rw [viewportsOn, c.sentOn_send hconnected, List.filterMap_append, viewportsOn]
  split
  · cases hm : m.viewport? <;> simp [hm]
  · rfl

variable {c}

theorem Hands.viewportsOn_eq {c' : Client} {link : Nat} {frames : List Outgoing}
    (h : c.Hands c' link frames) (other : Nat) :
    c'.viewportsOn other =
      c.viewportsOn other ++ if other = link then frames.filterMap Outgoing.viewport? else [] := by
  rw [viewportsOn, h other, List.filterMap_append, viewportsOn]
  split <;> rfl

/-! ## Connections that take no frames -/

section Refused

variable {link : Nat} {l : Link} (hl : c.links[link]? = some l) (haccepts : l.accepts = false)

include hl haccepts

theorem refused_handOver (other : Nat) (frame : Outgoing) :
    (c.handOver other frame).links[link]? = some l := by
  unfold handOver
  split
  · next htakes =>
    have hne : other ≠ link := by
      rintro rfl
      simp [Client.accepts, hl, haccepts] at htakes
    simp [hne, hl]
  · exact hl

theorem refused_shutdown (reason : String) : (c.shutdown reason).links[link]? = some l := by
  unfold shutdown
  split
  · exact hl
  · exact refused_handOver hl haccepts _ _

theorem refused_send (m : Message) : (c.send m).1.links[link]? = some l := by
  unfold send
  split
  · exact refused_handOver hl haccepts _ _
  · exact hl

end Refused

end Client

namespace System

open RemoteSession.Action

variable {s : System} {a : Action}

/-! ## What a step tells -/

/-- No action sends a size as a message of its own. -/
def Unsized (actions : List Action) : Prop :=
  ∀ cols rows, Action.send (.resize cols rows) ∉ actions

/-- The size that an action tells a connection: the one that the client keeps, when it is the
connection that opens and takes frames, and the one that is set, when it is the client's and
takes frames. -/
def tells (s : System) (a : Action) (link : Nat) : Option (UInt16 × UInt16) :=
  if s.opens a then
    if link = s.client.links.length ∧ a.takes = true then s.client.viewport else none
  else if s.client.outbound = some link ∧ s.client.accepts link = true then a.viewport? else none

theorem viewport?_of_opens (h : s.opens a = true) : a.viewport? = none := by
  obtain ⟨⟨accepts, rfl⟩, -⟩ := opens_iff.1 h
  rfl

/-- What is not told a size keeps those that it was told. -/
theorem Handed.viewportsOn_eq {s' : System} (h : Handed s a s') (hsaid : s.said a = [])
    (link : Nat) : s'.client.viewportsOn link = s.client.viewportsOn link := by
  cases h with
  | nothing hkept => rw [Client.viewportsOn, hkept, Client.viewportsOn]
  | text other m _ _ _ _ htold => exact nomatch hsaid.symm.trans htold
  | close other reason hhands =>
    rw [hhands.viewportsOn_eq]
    simp

/-- A step tells a connection one size at most. -/
theorem viewportsOn_step (hs : s.Sound) (ha : Unsized [a]) (link : Nat) :
    (s.step a).1.client.viewportsOn link =
      s.client.viewportsOn link ++ (s.tells a link).toList := by
  have hconnected : ∀ {l}, s.client.outbound = some l → s.client.state = .connected :=
    fun hl => (connected_of_outbound hs hl).1
  cases hopens : s.opens a with
  | true =>
    rw [(hands_of_opens hs hopens).viewportsOn_eq, tells, if_pos hopens]
    cases a.takes <;> by_cases heq : link = s.client.links.length <;>
      simp [heq, Client.filterMap_greeting]
  | false =>
  have hsilent : a.viewport? = none → s.said a = [] →
      (s.step a).1.client.viewportsOn link =
        s.client.viewportsOn link ++ (s.tells a link).toList := fun hnone hsaid => by
    rw [(handed_step hs a).viewportsOn_eq hsaid, tells, hopens, hnone]
    simp
  cases a with
  | send m =>
    have hnone : m.viewport? = none := by
      cases m with
      | input data => rfl
      | resize cols rows => exact absurd (List.mem_singleton_self _) (ha cols rows)
    have hsend := s.client.viewportsOn_send hconnected m link
    rw [hnone] at hsend
    simpa [step, tells, viewport?, opens] using hsend
  | setViewport cols rows =>
    exact Client.viewportsOn_send { s.client with viewport := some (cols, rows) } hconnected
      (.resize cols rows) link
  | wake g w => exact hsilent rfl (by simp [said, hopens])
  | _ => exact hsilent rfl rfl

/-! ## What a step leaves alone -/

/-- What a step leaves alone of the size and of connections. -/
structure Kept (s : System) (a : Action) (c : Client) : Prop where
  /-- The client keeps the size that was set last. -/
  viewport : c.viewport = a.viewport?.or s.client.viewport
  /-- All connections keep their numbers. -/
  length : s.client.links.length ≤ c.links.length
  /-- The client's connection was so before, unless it has just opened, and takes frames only
  if it did then. -/
  outbound : s.opens a = false → ∀ {link}, c.outbound = some link →
    s.client.outbound = some link ∧ (c.accepts link = true → s.client.accepts link = true)

/-- A client that has no connection left. -/
theorem Kept.of_none {c : Client} {links : List Link}
    (hlen : links.length = s.client.links.length)
    (hc : c.viewport = s.client.viewport ∧ c.outbound = none ∧ c.links = links)
    (ha : a.viewport? = none) : s.Kept a c where
  viewport := by rw [ha, hc.1, Option.none_or]
  length := by exact Nat.le_of_eq (hlen.symm.trans (congrArg List.length hc.2.2.symm))
  outbound _ _ h := nomatch hc.2.1.symm.trans h

/-- A client that keeps its connection. -/
theorem Kept.of_outbound {c : Client} (hviewport : c.viewport = a.viewport?.or s.client.viewport)
    (hlen : s.client.links.length ≤ c.links.length) (hout : c.outbound = s.client.outbound)
    (haccepts : ∀ link, s.client.outbound = some link → c.accepts link = true →
      s.client.accepts link = true) : s.Kept a c where
  viewport := hviewport
  length := hlen
  outbound _ link h := by
    rw [hout] at h
    exact ⟨h, haccepts link h⟩

theorem Kept.same {w : Wake} {g : Nat} : s.Kept (.wake g w) s.client :=
  .of_outbound rfl (Nat.le_refl _) rfl fun _ _ => id

theorem kept_wake (hs : s.Sound) (g : Nat) (w : Wake) :
    s.Kept (.wake g w) (s.step (.wake g w)).1.client := by
  have hw := woken hs g w
  generalize s.step (.wake g w) = out at hw ⊢
  cases hw with
  | absent => exact .same
  | late => exact .same
  | closed =>
    refine .of_outbound rfl (by simp) rfl fun link hlink haccepts => ?_
    obtain ⟨-, hlt⟩ := connected_of_outbound hs hlink
    rwa [Client.accepts, List.getElem?_append_left hlt] at haccepts
  | moved t next ht hcur _ _ hmove =>
    subst hcur
    cases hmove with
    | connect accepts hwait =>
      have hopens := opens_of_task? ht hwait accepts
      exact ⟨rfl, by simp [Client.connected], fun h => absurd hopens (by simp [h])⟩
    | lose => exact .of_none rfl ⟨rfl, rfl, rfl⟩ rfl
    | exit link content e =>
      obtain ⟨links, hlen, heq⟩ := s.client.exited_eq link e
      exact .of_none hlen (by simp [heq]) rfl
    | _ => exact .of_outbound rfl (Nat.le_refl _) rfl fun _ _ => id

theorem kept_step (hs : s.Sound) (a : Action) : s.Kept a (s.step a).1.client := by
  cases a with
  | attach session cursor =>
    obtain ⟨links, hlen, hc, -⟩ := s.client.attach_eq session cursor
    exact .of_none hlen (by simp [step, hc]) rfl
  | stop =>
    obtain ⟨links, hlen, hc, -⟩ := s.client.stop_eq
    exact .of_none hlen (by simp [step, hc]) rfl
  | supersede =>
    obtain ⟨links, hlen, hc⟩ := s.client.supersede_eq
    exact .of_none hlen (by simp [step, hc]) rfl
  | send m =>
    obtain ⟨links, hlen, hc⟩ := s.client.send_eq m
    refine .of_outbound (by simp [step, hc, viewport?]) (by simp [step, hc, hlen])
      (by simp [step, hc]) fun link _ haccepts => ?_
    rwa [step, s.client.accepts_send m link] at haccepts
  | setViewport cols rows =>
    obtain ⟨links, hlen, hc⟩ := s.client.setViewport_eq cols rows
    refine .of_outbound (by simp [step, hc, viewport?]) (by simp [step, hc, hlen])
      (by simp [step, hc]) fun link _ haccepts => ?_
    rwa [step, Client.setViewport, Client.accepts_send] at haccepts
  | wake g w => exact kept_wake hs g w
  | drop g => exact .of_outbound rfl (Nat.le_refl _) rfl fun _ _ => id
  | refuse other =>
    refine .of_outbound rfl (by simp [step]) rfl fun link _ haccepts => ?_
    simp only [step, Client.accepts, List.getElem?_modify] at haccepts ⊢
    cases hl : s.client.links[link]? with
    | none => simp [hl] at haccepts
    | some l =>
      rw [hl] at haccepts
      by_cases heq : other = link
      · simp [heq] at haccepts
      · simpa [heq] using haccepts

/-! ## What a run tells -/

theorem viewport_run (hs : s.Sound) (actions : List Action) :
    (s.run actions).1.client.viewport = (lastViewport? actions).or s.client.viewport := by
  induction actions generalizing s with
  | nil => rfl
  | cons a rest ih =>
    rw [← List.singleton_append, lastViewport?_append, lastViewport?_singleton, Option.or_assoc,
      ← (kept_step hs a).viewport]
    exact ih (hs.step a)

/-- The client's connection was told the size that the client keeps last, as long as it takes
frames. -/
def Informed (s : System) : Prop :=
  ∀ link, s.client.outbound = some link → s.client.accepts link = true →
    (s.client.viewportsOn link).getLast? = s.client.viewport

theorem Informed.step (hi : s.Informed) (hs : s.Sound) (ha : Unsized [a]) :
    (s.step a).1.Informed := by
  intro link hout haccepts
  rw [viewportsOn_step hs ha, List.getLast?_append, (kept_step hs a).viewport, tells]
  cases hopens : s.opens a with
  | true =>
    -- a connection that opens has no frames yet, and the action sets no size
    rw [client_of_opens hs hopens] at hout haccepts
    obtain rfl : s.client.links.length = link := Option.some.inj hout
    rw [s.client.accepts_connected] at haccepts
    rw [if_pos rfl, if_pos ⟨rfl, haccepts⟩, Client.viewportsOn, Client.sentOn_length,
      viewport?_of_opens hopens]
    cases s.client.viewport <;> rfl
  | false =>
    obtain ⟨hold, htook⟩ := (kept_step hs a).outbound hopens hout
    rw [if_neg Bool.false_ne_true, if_pos ⟨hold, htook haccepts⟩, hi link hold (htook haccepts)]
    cases a.viewport? <;> rfl

theorem Unsized.mono {xs ys : List Action} (h : Unsized ys) (hsub : xs ⊆ ys) : Unsized xs :=
  fun cols rows hin => h cols rows (hsub hin)

theorem Unsized.head {rest : List Action} (h : Unsized (a :: rest)) : Unsized [a] :=
  h.mono (by simp)

theorem Unsized.tail {rest : List Action} (h : Unsized (a :: rest)) : Unsized rest :=
  h.mono (List.subset_cons_self a rest)

theorem Informed.new (endpoint : Endpoint) (config : StreamConfig) :
    (new endpoint config).Informed :=
  fun _ h => nomatch h

theorem Informed.run (hi : s.Informed) (hs : s.Sound) {actions : List Action}
    (ha : Unsized actions) : (s.run actions).1.Informed := by
  induction actions generalizing s with
  | nil => exact hi
  | cons a rest ih => exact ih (hi.step hs ha.head) (hs.step a) ha.tail

/-- What a connection was handed stays with it. -/
theorem sentOn_prefix_run (hs : s.Sound) (actions : List Action) (link : Nat) :
    s.client.sentOn link <+: (s.run actions).1.client.sentOn link := by
  induction actions generalizing s with
  | nil => exact List.prefix_rfl
  | cons a rest ih =>
    obtain ⟨frames, heq, -⟩ := (handed_step hs a).frames link
    have hstep : s.client.sentOn link <+: (s.step a).1.client.sentOn link := ⟨frames, heq.symm⟩
    exact hstep.trans (ih (hs.step a))

/-- A connection that takes no frames stays as it is. -/
theorem refused_step (hs : s.Sound) {link : Nat} {l : Link} (hl : s.client.links[link]? = some l)
    (haccepts : l.accepts = false) (a : Action) : (s.step a).1.client.links[link]? = some l := by
  have hthere : link < s.client.links.length := (List.getElem?_eq_some_iff.1 hl).1
  cases a with
  | attach session cursor =>
    simp only [step, Client.attach, Client.fst_setState]
    refine Client.refused_shutdown ?_ haccepts _
    exact hl
  | stop =>
    have hended : (Client.shutdown { s.client with generation := s.client.generation + 1 }
        Client.stopReason).links[link]? = some l := by
      refine Client.refused_shutdown ?_ haccepts _
      exact hl
    simp only [step, Client.stop]
    split
    · exact hended
    · rw [Client.fst_setState]
      exact hended
  | supersede =>
    refine Client.refused_shutdown ?_ haccepts _
    exact hl
  | send m => exact Client.refused_send hl haccepts m
  | setViewport cols rows =>
    refine Client.refused_send ?_ haccepts _
    exact hl
  | drop g => exact hl
  | refuse other =>
    simp only [step, List.getElem?_modify, hl]
    split
    · cases l
      cases haccepts
      rfl
    · rfl
  | wake g w =>
    have hw := woken hs g w
    generalize s.step (.wake g w) = out at hw ⊢
    cases hw with
    | absent => exact hl
    | late => exact hl
    | closed => exact (List.getElem?_append_left hthere).trans hl
    | moved t next _ _ _ _ hmove =>
      cases hmove with
      | connect => exact (List.getElem?_append_left hthere).trans hl
      | exit other content e =>
        refine Client.refused_handOver ?_ haccepts other _
        exact hl
      | _ => exact hl

theorem refused_run (hs : s.Sound) {link : Nat} {l : Link} (hl : s.client.links[link]? = some l)
    (haccepts : l.accepts = false) (actions : List Action) :
    (s.run actions).1.client.links[link]? = some l := by
  induction actions generalizing s with
  | nil => exact hl
  | cons a rest ih => exact ih (hs.step a) (refused_step hs hl haccepts a)

/-- A connection that is there is told no size but with the calls that set one while it is the
client's. -/
theorem viewportsOn_run (hs : s.Sound) {actions : List Action} (ha : Unsized actions) {link : Nat}
    (hlink : link < s.client.links.length)
    (hset : ∀ pre cols rows post, actions = pre ++ .setViewport cols rows :: post →
      (s.run pre).1.client.outbound ≠ some link) :
    (s.run actions).1.client.viewportsOn link = s.client.viewportsOn link := by
  induction actions generalizing s with
  | nil => rfl
  | cons a rest ih =>
    have hnone : s.tells a link = none := by
      unfold tells
      split
      · rw [if_neg fun h => Nat.ne_of_lt hlink h.1]
      · split
        · next hcurrent =>
          cases a with
          | setViewport cols rows => exact absurd hcurrent.1 (hset [] cols rows rest rfl)
          | _ => rfl
        · rfl
    have hstep := viewportsOn_step hs ha.head link
    rw [hnone, Option.toList_none, List.append_nil] at hstep
    rw [← hstep]
    refine ih (hs.step a) ha.tail (Nat.lt_of_lt_of_le hlink (kept_step hs a).length) ?_
    rintro pre cols rows post rfl
    exact hset (a :: pre) cols rows post rfl

/-- Whatever happened, a connection that opens for the current run is told the size of the
terminal before anything else, if it was set before, unless it takes no frames and is handed
none at all. If it was not, no frame on it tells a size until one is set while it is the
client's. And as long as it is the client's and takes frames,
the last size that it was told is the one that was set last, if any was. -/
theorem informed_of_opens (endpoint : Endpoint) (config : StreamConfig)
    (before later : List Action) (a : Action) (hsends : Unsized (before ++ a :: later))
    (hopens : (after endpoint config before).opens a = true) :
    let link := (after endpoint config before).client.links.length
    let s := after endpoint config (before ++ a :: later)
    (∀ cols rows, lastViewport? before = some (cols, rows) →
      (s.client.sentOn link).head? =
        if a.takes then some (.ofMessage (.resize cols rows)) else none) ∧
    (lastViewport? before = none →
      (∀ pre cols rows post, later = pre ++ .setViewport cols rows :: post →
        (after endpoint config (before ++ a :: pre)).client.outbound ≠ some link) →
      ∀ frame ∈ s.client.sentOn link, frame.viewport? = none) ∧
    (s.client.outbound = some link → s.client.accepts link = true →
      (s.client.viewportsOn link).getLast? = lastViewport? (before ++ later)) := by
  intro link s
  have hs := sound_after endpoint config before
  have hrun : ∀ pre, after endpoint config (before ++ a :: pre) =
      (((after endpoint config before).step a).1.run pre).1 := fun pre => by
    simp [after, run_append, run]
  have hnew : ∀ actions, (after endpoint config actions).client.viewport =
      lastViewport? actions := fun actions => by
    rw [after, viewport_run (Sound.new ..)]
    exact Option.or_none
  have hgreeted : ((after endpoint config before).step a).1.client.sentOn link =
      if a.takes then (after endpoint config before).client.greeting else [] := by
    rw [(hands_of_opens hs hopens).self, Client.sentOn_length, List.nil_append]
  refine ⟨fun cols rows hlast => ?_, fun hlast hset => ?_, fun hout haccepts => ?_⟩
  · cases htakes : a.takes with
    | true =>
      obtain ⟨rest, hrest⟩ := sentOn_prefix_run (hs.step a) later link
      rw [hgreeted, htakes, if_pos rfl, ← hrun, Client.greeting, hnew, hlast] at hrest
      exact hrest ▸ rfl
    | false =>
      have hborn : ((after endpoint config before).step a).1.client.links[link]? =
          some ⟨[], false⟩ := by
        simp [link, client_of_opens hs hopens, Client.connected, htakes, Link.offered]
      have hkept := refused_run (hs.step a) hborn rfl later
      rw [← hrun] at hkept
      simp [s, Client.sentOn, hkept]
  · have hunsized : Unsized later := hsends.mono (by simp)
    have hthere : link < ((after endpoint config before).step a).1.client.links.length := by
      simp [link, client_of_opens hs hopens, Client.connected]
    have hquiet := viewportsOn_run (hs.step a) hunsized hthere fun pre cols rows post hsplit => by
      rw [← hrun]
      exact hset pre cols rows post hsplit
    have hungreeted : ((after endpoint config before).step a).1.client.viewportsOn link = [] := by
      rw [Client.viewportsOn, hgreeted]
      split
      · rw [Client.filterMap_greeting, hnew, hlast]
        rfl
      · rfl
    rw [← hrun, hungreeted] at hquiet
    exact List.filterMap_eq_nil_iff.1 hquiet
  · have hlast := (Informed.new endpoint config).run (Sound.new ..) hsends link hout haccepts
    have hset : lastViewport? (a :: later) = lastViewport? later := by
      rw [← List.singleton_append, lastViewport?_append, lastViewport?_singleton,
        viewport?_of_opens hopens, Option.or_none]
    calc (s.client.viewportsOn link).getLast? = s.client.viewport := hlast
      _ = lastViewport? (before ++ a :: later) := hnew _
      _ = lastViewport? (before ++ later) := by
        rw [lastViewport?_append, hset, lastViewport?_append]

/-- The size of the terminal is set before a connection opens, and once more after it; or only
when the connection has ended. -/
theorem informed_of_opens_twice :
    let endpoint : Endpoint := ⟨⟨.http, "", none, .name "localhost", none, [""], none, none⟩, none⟩
    let unset : List Action := [.attach "s1" 0, .wake 1 .start, .wake 1 (.ticket (.ok "t"))]
    let opened : Action := .wake 1 (.opened (.ok true))
    let later : List Action := [.send (.input "x"), .setViewport 120 50]
    let late : List Action := [.send (.input "x"), .stop, .setViewport 120 50]
    let s := after endpoint .default (.setViewport 80 24 :: unset ++ opened :: later)
    Unsized (.setViewport 80 24 :: unset ++ opened :: later) ∧
      (after endpoint .default (.setViewport 80 24 :: unset)).opens opened = true ∧
      (s.client.sentOn 0).head? = some (.ofMessage (.resize 80 24)) ∧
      (s.client.viewportsOn 0).getLast? = some (120, 50) ∧
      ∀ frame ∈ (after endpoint .default (unset ++ opened :: late)).client.sentOn 0,
        frame.viewport? = none := by
  intro endpoint unset opened later late s
  have hsends : Unsized (.setViewport 80 24 :: unset ++ opened :: later) :=
    fun _ _ => by simp [unset, opened, later]
  obtain ⟨hfirst, -, hlast⟩ := informed_of_opens endpoint .default _ later opened hsends rfl
  obtain ⟨-, hnone, -⟩ := informed_of_opens endpoint .default unset late opened
    (fun _ _ => by simp [unset, opened, late]) rfl
  have hopens : (after endpoint .default (.setViewport 80 24 :: unset)).opens opened = true := by
    decide +kernel
  have hout : s.client.outbound = some 0 := by decide +kernel
  have haccepts : s.client.accepts 0 = true := by decide +kernel
  refine ⟨hsends, hopens, hfirst 80 24 rfl, hlast hout haccepts, hnone rfl ?_⟩
  rintro (_ | ⟨_, _ | ⟨_, _ | ⟨_, pre⟩⟩⟩) cols rows post hsplit <;> simp [late] at hsplit
  obtain ⟨rfl, rfl, -⟩ := hsplit
  decide +kernel

end System

end RemoteSession
