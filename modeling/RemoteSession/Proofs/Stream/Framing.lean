import RemoteSession.Proofs.Stream.Reports

/-!
# What is handed to connections

Three places end a connection: a call that begins a generation, the last event of a
session, and a connection that opens for a run of another generation. Each finds it
without an end, since the first two take it from the client and the third has just
opened it. Texts go to the connection of the client only.

A step hands over at most one frame (`System.Handed`) : a text to the connection that is
then the client's, the end of one that is then not, or nothing. So the frames of every
connection are texts and after them at most one end, and those of the client's
connection have no end (`System.Framing`). The texts are those of the calls that
returned true and the sizes told to connections that opened, each once and in their
order (`System.saidAll`); what a call could not hand over is nowhere among them
(`System.framed_of_run`).
-/

namespace RemoteSession

/-- Some texts, and after them at most the end of a connection whose work is done. -/
def Outgoing.Framed (contents : List String) (frames : List Outgoing) : Prop :=
  ∃ ends, frames = contents.map .text ++ ends ∧
    (ends = [] ∨ ∃ reason, ends = [.normalClose reason])

/-! ## Offers -/

/-- What is offered to a client in one of five calls. -/
inductive Offer where
  | message (m : Message)
  | input (text : String)
  | keystrokes (octets : List UInt8)
  | control (signal : Composer.Control)
  | viewport (cols rows : UInt16)

namespace Offer

/-- The message of an offer. Only no keys at all make none. -/
def message? : Offer → Option Message
  | .message m => some m
  | .input text => some (.input text)
  | .keystrokes octets => Composer.keystrokes? octets
  | .control signal => some signal.message
  | .viewport cols rows => some (.resize cols rows)

/-- The size that an offer makes known. -/
def viewport? : Offer → Option (UInt16 × UInt16)
  | .viewport cols rows => some (cols, rows)
  | _ => none

/-- The action that an offer is, unless it is none. -/
def action? : Offer → Option Action
  | .viewport cols rows => some (.setViewport cols rows)
  | o => o.message?.map .send

end Offer

namespace Client

variable (c : Client)

/-- The frames handed to a connection so far, none to one that was not opened. -/
def sentOn (link : Nat) : List Outgoing :=
  (c.links[link]?.map Link.sent).getD []

/-- Some frames were handed to one connection, and none to any other. -/
def Hands (c' : Client) (link : Nat) (frames : List Outgoing) : Prop :=
  ∀ other, c'.sentOn other = c.sentOn other ++ if other = link then frames else []

/-- The call of an offer. -/
def offer : Offer → Client × Bool
  | .message m => c.send m
  | .input text => c.sendInput text
  | .keystrokes octets => c.sendKeystrokes octets
  | .control signal => c.sendControl signal
  | .viewport cols rows => c.setViewport cols rows

/-- What the call of an offer does, and what it returns. -/
structure Answers (o : Offer) (out : Client × Bool) : Prop where
  /-- True exactly when the message was handed once to the current connection. -/
  taken : out.2 = true ↔ ∃ link m, c.outbound = some link ∧ o.message? = some m ∧
    c.Hands out.1 link [.ofMessage m]
  /-- False leaves the client as it was, but for the size to tell to later connections. -/
  refused : out.2 = false → out.1 = { c with viewport := o.viewport?.or c.viewport }

/-! ## What parts of steps hand over -/

theorem sentOn_length : c.sentOn c.links.length = [] := by
  simp [sentOn]

theorem hands_handOver (link : Nat) (frame : Outgoing) :
    c.Hands (c.handOver link frame) link (if c.accepts link then [frame] else []) := by
  intro other
  unfold handOver
  by_cases ha : c.accepts link = true
  · have hlt : link < c.links.length := by
      refine Nat.lt_of_not_le fun hge => ?_
      simp [accepts, List.getElem?_eq_none hge] at ha
    by_cases ho : other = link
    · subst ho
      simp [ha, sentOn, hlt]
    · simp [ha, ho, sentOn, Ne.symm ho]
  · simp [ha]

/-- A connection that opens is handed its own frames. -/
theorem hands_concat {c' : Client} {l : Link} (h : c'.links = c.links ++ [l]) :
    c.Hands c' c.links.length l.sent := by
  intro other
  unfold sentOn
  rw [h]
  rcases Nat.lt_trichotomy other c.links.length with hlt | rfl | hgt
  · simp [List.getElem?_append_left hlt, Nat.ne_of_lt hlt]
  · simp
  · have hnone : (c.links ++ [l])[other]? = none := by
      rw [List.getElem?_eq_none_iff, List.length_append, List.length_singleton]
      exact hgt
    simp [hnone, List.getElem?_eq_none (Nat.le_of_lt hgt), Nat.ne_of_gt hgt]

variable {c}

/-- What is handed over is told by the connections alone. -/
theorem Hands.congr {c' d d' : Client} {link : Nat} {frames : List Outgoing}
    (h : c.Hands c' link frames) (hd : d.links = c.links) (hd' : d'.links = c'.links) :
    d.Hands d' link frames := by
  have hsent : ∀ {x y : Client}, x.links = y.links → ∀ other, x.sentOn other = y.sentOn other :=
    fun heq other => by rw [sentOn, sentOn, heq]
  intro other
  rw [hsent hd, hsent hd', h other]

theorem Hands.sentOn_eq {c' : Client} {link : Nat} (h : c.Hands c' link []) (other : Nat) :
    c'.sentOn other = c.sentOn other := by
  rw [h other, ite_self, List.append_nil]

theorem Hands.self {c' : Client} {link : Nat} {frames : List Outgoing}
    (h : c.Hands c' link frames) : c'.sentOn link = c.sentOn link ++ frames := by
  rw [h link, if_pos rfl]

theorem Hands.other {c' : Client} {link other : Nat} {frames : List Outgoing}
    (h : c.Hands c' link frames) (hne : other ≠ link) : c'.sentOn other = c.sentOn other := by
  rw [h other, if_neg hne, List.append_nil]

/-- The two ways in which a message is sent: handed to the current connection, or to none. -/
inductive Sends (c : Client) (m : Message) : Client × Bool → Prop where
  | taken (link : Nat) (links : List Link) : c.outbound = some link → c.state = .connected →
    c.Hands { c with links := links } link [.ofMessage m] →
    Sends c m ({ c with links := links }, true)
  | refused : Sends c m (c, false)

variable (c) in
theorem sends (m : Message) : c.Sends m (c.send m) := by
  unfold send
  split
  · next link hstate hlink =>
    have hconnected : c.state = .connected := by
      unfold ConnectionState.isConnected at hstate
      split at hstate
      · assumption
      · cases hstate
    obtain ⟨links, -, heq⟩ := c.handOver_eq link (.ofMessage m)
    have hhands := c.hands_handOver link (.ofMessage m)
    cases ha : c.accepts link with
    | true =>
      rw [heq, ha, if_pos rfl] at hhands
      rw [heq]
      exact .taken link links hlink hconnected hhands
    | false =>
      have hsame : c.handOver link (.ofMessage m) = c := by simp [handOver, ha]
      rw [hsame]
      exact .refused
  · exact .refused

theorem Sends.answers {m : Message} {out : Client × Bool} (h : c.Sends m out) {o : Offer}
    (hm : o.message? = some m) (hv : o.viewport? = none) : c.Answers o out := by
  cases h with
  | taken link links hlink _ hhands =>
    exact ⟨⟨fun _ => ⟨link, m, hlink, hm, hhands⟩, fun _ => rfl⟩, nofun⟩
  | refused =>
    refine ⟨⟨nofun, ?_⟩, fun _ => by rw [hv, Option.none_or]⟩
    rintro ⟨link, m, -, -, hhands⟩
    simpa using hhands.self

theorem answers_keystrokes (c : Client) (octets : List UInt8) :
    c.Answers (.keystrokes octets) (c.sendKeystrokes octets) := by
  unfold sendKeystrokes
  split
  · next m hm => exact (c.sends m).answers hm rfl
  · next hm =>
    refine ⟨⟨nofun, ?_⟩, fun _ => rfl⟩
    rintro ⟨link, m, -, hsome, -⟩
    exact nomatch hm.symm.trans hsome

theorem answers_viewport (c : Client) (cols rows : UInt16) :
    c.Answers (.viewport cols rows) (c.setViewport cols rows) := by
  unfold setViewport
  have hsends := sends { c with viewport := some (cols, rows) } (.resize cols rows)
  generalize send { c with viewport := some (cols, rows) } (.resize cols rows) = out at hsends ⊢
  cases hsends with
  | taken link links hlink _ hhands =>
    exact ⟨⟨fun _ => ⟨link, _, hlink, rfl, hhands.congr rfl rfl⟩, fun _ => rfl⟩, nofun⟩
  | refused =>
    refine ⟨⟨nofun, ?_⟩, fun _ => rfl⟩
    rintro ⟨link, m, -, -, hhands⟩
    simpa using (hhands.congr rfl rfl : c.Hands c link [.ofMessage m]).self

theorem answers_offer (c : Client) (o : Offer) : c.Answers o (c.offer o) := by
  cases o with
  | message m => exact (c.sends m).answers rfl rfl
  | input text => exact (c.sends (.input text)).answers rfl rfl
  | keystrokes octets => exact c.answers_keystrokes octets
  | control signal => exact (c.sends signal.message).answers rfl rfl
  | viewport cols rows => exact c.answers_viewport cols rows

/-- A message on the current connection, if the call that offered it returned true. -/
def spoken (c : Client) (m : Message) (taken : Bool) : List (Nat × Message) :=
  if taken then (c.outbound.map fun link => (link, m)).toList else []

end Client

/-- Whether the connection that an action opens takes frames. -/
def Action.takes : Action → Bool
  | .wake _ (.opened (.ok accepts)) => accepts
  | _ => false

namespace System

variable {s : System} {a : Action}

/-- The messages that a step hands over, each with its connection: what a call that
returned true offers, and the size of the terminal, if it is known, to a connection that
opens and takes frames. -/
def said (s : System) (a : Action) : List (Nat × Message) :=
  match a with
  | .send m => s.client.spoken m (s.client.send m).2
  | .setViewport cols rows =>
    s.client.spoken (.resize cols rows) (s.client.setViewport cols rows).2
  | a =>
    if s.opens a && a.takes then
      (s.client.viewport.map fun (cols, rows) =>
        (s.client.links.length, Message.resize cols rows)).toList
    else []

/-- The messages that some steps hand over, in order. -/
def saidAll (s : System) : List Action → List (Nat × Message)
  | [] => []
  | a :: rest => s.said a ++ saidAll (s.step a).1 rest

/-- The texts of those messages that are handed to one connection. -/
def textsFor (link : Nat) (messages : List (Nat × Message)) : List String :=
  messages.filterMap fun (other, m) => if other = link then some m.encode else none

/-! ## What a step hands over -/

/-- A connection is the client's and connected, or becomes so. -/
def Speaks (s : System) (a : Action) (link : Nat) : Prop :=
  if s.opens a then link = s.client.links.length
  else s.client.outbound = some link ∧ s.client.state = .connected

/-- What a step hands over: nothing, a text to the connection that is then the client's, or
the end of one that is then not. -/
inductive Handed (s : System) (a : Action) (s' : System) : Prop where
  | nothing : (∀ link, s'.client.sentOn link = s.client.sentOn link) →
    (∀ link, s'.client.outbound = some link →
      s.client.outbound = some link ∨ link = s.client.links.length) →
    s.said a = [] → Handed s a s'
  | text (link : Nat) (m : Message) : s.client.Hands s'.client link [.ofMessage m] →
    s.Speaks a link → s'.client.outbound = some link → s'.client.state = .connected →
    s.said a = [(link, m)] → Handed s a s'
  | close (link : Nat) (reason : String) :
    s.client.Hands s'.client link [.normalClose reason] →
    s.client.outbound = some link ∨ link = s.client.links.length →
    (∀ other, s'.client.outbound = some other → s.client.outbound = some other ∧ other ≠ link) →
    s.said a = [] → Handed s a s'

/-- A connection that is handed its end, if it takes it, and is no longer the client's. -/
theorem Handed.of_handOver {s' : System} {c : Client} {link : Nat} {reason : String}
    (hc : s.client.links = c.links) (hlink : s.client.outbound = some link)
    (hout : s'.client.outbound = none)
    (hlinks : s'.client.links = (c.handOver link (.normalClose reason)).links)
    (hsaid : s.said a = []) : Handed s a s' := by
  have hhands := (c.hands_handOver link (.normalClose reason)).congr hc hlinks
  cases ha : c.accepts link with
  | true =>
    rw [ha, if_pos rfl] at hhands
    exact .close link reason hhands (.inl hlink) (by simp [hout]) hsaid
  | false =>
    rw [ha, if_neg Bool.false_ne_true] at hhands
    exact .nothing hhands.sentOn_eq (by simp [hout]) hsaid

/-- A call that begins a generation ends the connection of the client, if there is one. -/
theorem Handed.of_shutdown {s' : System} {c : Client} (reason : String)
    (hc : s.client.links = c.links) (hlink : s.client.outbound = c.outbound)
    (hout : s'.client.outbound = none) (hlinks : s'.client.links = (c.shutdown reason).links)
    (hsaid : s.said a = []) : Handed s a s' := by
  unfold Client.shutdown at hlinks
  cases ho : c.outbound with
  | none =>
    rw [ho] at hlinks
    have hkept : ∀ link, s'.client.sentOn link = s.client.sentOn link := fun link => by
      rw [Client.sentOn, Client.sentOn, hlinks, hc]
    exact .nothing hkept (by simp [hout]) hsaid
  | some link =>
    rw [ho] at hlinks
    exact .of_handOver hc (hlink.trans ho) hout hlinks hsaid

/-- The client has a connection while it is connected, and it is one that was opened. -/
theorem connected_of_outbound (hs : s.Sound) {link : Nat} (h : s.client.outbound = some link) :
    s.client.state = .connected ∧ link < s.client.links.length := by
  by_cases hrun : ∃ t ∈ s.tasks, t.run.generation = s.client.generation
  · obtain ⟨t, ht, hg⟩ := hrun
    obtain ⟨-, hf⟩ := hs.fits t ht hg
    cases hw : t.run.wait with
    | frames other =>
      rw [hw] at hf
      obtain rfl : other = link := Option.some.inj (hf.1.symm.trans h)
      exact ⟨hf.2.1, hf.2.2⟩
    | _ =>
      rw [hw] at hf
      exact nomatch hf.1.symm.trans h
  · have hnone := hs.idle fun t ht hg => hrun ⟨t, ht, hg⟩
    exact nomatch hnone.symm.trans h

/-- A connection that opens for the run of the current generation becomes the client's. -/
theorem client_of_opens (hs : s.Sound) (h : s.opens a = true) :
    (s.step a).1.client = s.client.connected a.takes := by
  obtain ⟨⟨accepts, rfl⟩, hwait⟩ := opens_iff.1 h
  obtain ⟨t, ht, hopening⟩ := task?_eq_of_wait? hwait
  obtain ⟨hmem, hg⟩ := mem_of_task? ht
  have hmove := Client.move_wake (by simp [Client.isCurrent, hg]) (hs.fits t hmem hg)
    (.opened (.ok accepts))
  simp only [step, ht]
  generalize s.client.wake t.run (.opened (.ok accepts)) = next at hmove ⊢
  cases hmove with
  | connect => rfl
  | rest _ hawaits => simp [Run.awaits, hopening] at hawaits
  | lose _ reason hfails => simp [Run.failure?, hopening] at hfails

theorem hands_of_opens (hs : s.Sound) (h : s.opens a = true) :
    s.client.Hands (s.step a).1.client s.client.links.length
      (if a.takes then s.client.greeting else []) :=
  s.client.hands_concat (l := Link.offered a.takes s.client.greeting)
    (by rw [client_of_opens hs h, Client.connected])

theorem handed_of_opens (hs : s.Sound) (h : s.opens a = true) : Handed s a (s.step a).1 := by
  have hclient := client_of_opens hs h
  have hhands := hands_of_opens hs h
  have hsaid : s.said a = if a.takes then (s.client.viewport.map fun (cols, rows) =>
      (s.client.links.length, Message.resize cols rows)).toList else [] := by
    obtain ⟨⟨accepts, rfl⟩, -⟩ := opens_iff.1 h
    simp only [said, h, Bool.true_and]
  have hnew : ∀ link, (s.step a).1.client.outbound = some link →
      s.client.outbound = some link ∨ link = s.client.links.length := fun link hlink => by
    rw [hclient] at hlink
    exact .inr (Option.some.inj hlink).symm
  cases htakes : a.takes with
  | false =>
    rw [htakes, if_neg Bool.false_ne_true] at hhands hsaid
    exact .nothing hhands.sentOn_eq hnew hsaid
  | true =>
    rw [htakes, if_pos rfl] at hhands hsaid
    cases hv : s.client.viewport with
    | none =>
      rw [Client.greeting, hv] at hhands
      exact .nothing hhands.sentOn_eq hnew (by rw [hsaid, hv]; rfl)
    | some size =>
      rw [Client.greeting, hv] at hhands
      refine .text _ (.resize size.1 size.2) hhands ?_ (by rw [hclient]; rfl)
        (by rw [hclient]; rfl) (by rw [hsaid, hv]; rfl)
      rw [Speaks, if_pos h]

theorem handed_wake (hs : s.Sound) (g : Nat) (w : Wake) :
    Handed s (.wake g w) (s.step (.wake g w)).1 := by
  cases hopens : s.opens (.wake g w) with
  | true => exact handed_of_opens hs hopens
  | false =>
  have hsaid : s.said (.wake g w) = [] := by simp [said, hopens]
  have hw := woken hs g w
  generalize s.step (.wake g w) = out at hw ⊢
  cases hw with
  | absent => exact .nothing (fun _ => rfl) (fun _ => .inl) hsaid
  | late => exact .nothing (fun _ => rfl) (fun _ => .inl) hsaid
  | @closed t accepts ht hne =>
    have hhands : s.client.Hands
        { s.client with
          links := s.client.links ++
            [Link.offered accepts [.normalClose Client.supersededReason]] }
        s.client.links.length
        (if accepts then [.normalClose Client.supersededReason] else []) :=
      s.client.hands_concat (l := Link.offered accepts _) rfl
    cases accepts with
    | false => exact .nothing hhands.sentOn_eq (fun _ => .inl) hsaid
    | true =>
      refine .close s.client.links.length Client.supersededReason hhands (.inr rfl)
        (fun other hother => ⟨hother, ?_⟩) hsaid
      exact Nat.ne_of_lt (connected_of_outbound hs hother).2
  | moved t next ht hcur _ hfits hmove =>
    subst hcur
    cases hmove with
    | connect accepts hwait =>
      rw [opens_of_task? ht hwait accepts] at hopens
      cases hopens
    | lose => exact .nothing (fun _ => rfl) (fun _ h => by cases h) hsaid
    | exit link content e hwait =>
      obtain ⟨-, hf⟩ := hfits
      rw [hwait] at hf
      have hout : (s.client.exited link e).outbound = none := by
        obtain ⟨links, -, heq⟩ := s.client.exited_eq link e
        rw [heq]
      exact .of_handOver
        (c := { s.client with
          gate := ⟨e.seq⟩, outbound := none, state := .closed Client.exitedReason })
        rfl hf.1 hout rfl hsaid
    | _ => exact .nothing (fun _ => rfl) (fun _ => .inl) hsaid

/-- A call that offers a message to the client, or to one that differs from it in the size
of the terminal only. -/
theorem Handed.of_send {s' : System} {c : Client} {m : Message} (hc : s.client.links = c.links)
    (hlink : s.client.outbound = c.outbound) (hstate : s.client.state = c.state)
    (hs' : s'.client = (c.send m).1) (hopens : s.opens a = false)
    (hsaid : s.said a = s.client.spoken m (c.send m).2) : Handed s a s' := by
  have hsends := c.sends m
  generalize c.send m = out at hs' hsaid hsends
  cases hsends with
  | taken link links hout hconnected hhands =>
    refine .text link m (hhands.congr hc (by rw [hs'])) ?_ (by rw [hs']; exact hout)
      (by rw [hs']; exact hconnected) ?_
    · simp only [Speaks, hopens]
      exact ⟨hlink.trans hout, hstate.trans hconnected⟩
    · rw [hsaid, Client.spoken, hlink, hout]
      rfl
  | refused =>
    have hkept : ∀ link, s'.client.sentOn link = s.client.sentOn link := fun link => by
      rw [Client.sentOn, Client.sentOn, hs', hc]
    exact .nothing hkept (fun link h => .inl (by rw [hlink, ← h, hs'])) hsaid

theorem handed_step (hs : s.Sound) (a : Action) : Handed s a (s.step a).1 := by
  cases a with
  | attach session cursor =>
    obtain ⟨links, -, hc, -⟩ := s.client.attach_eq session cursor
    refine .of_shutdown (c := { s.client with generation := s.client.generation + 1 })
      Client.reattachReason rfl rfl (by simp only [step, hc]) ?_ rfl
    simp only [step, Client.attach, Client.fst_setState]
  | stop =>
    obtain ⟨links, -, hc, -⟩ := s.client.stop_eq
    refine .of_shutdown (c := { s.client with generation := s.client.generation + 1 })
      Client.stopReason rfl rfl (by simp only [step, hc]) ?_ rfl
    simp only [step, Client.stop]
    split
    · rfl
    · rw [Client.fst_setState]
  | supersede =>
    obtain ⟨links, -, hc⟩ := s.client.supersede_eq
    exact .of_shutdown (c := { s.client with generation := s.client.generation + 1 })
      Client.reattachReason rfl rfl (by simp only [step, hc]) rfl rfl
  | send m =>
    exact .of_send (c := s.client) rfl rfl rfl rfl rfl rfl
  | setViewport cols rows =>
    exact .of_send (c := { s.client with viewport := some (cols, rows) }) rfl rfl rfl rfl rfl rfl
  | wake g w => exact handed_wake hs g w
  | drop g => exact .nothing (fun _ => rfl) (fun _ => .inl) rfl
  | refuse link =>
    refine .nothing (fun other => ?_) (fun _ => .inl) rfl
    simp only [step, Client.sentOn, List.getElem?_modify]
    split <;> cases s.client.links[other]? <;> rfl

/-! ## What a run hands over -/

theorem textsFor_append (link : Nat) (xs ys : List (Nat × Message)) :
    textsFor link (xs ++ ys) = textsFor link xs ++ textsFor link ys :=
  List.filterMap_append

theorem textsFor_self (link : Nat) (m : Message) : textsFor link [(link, m)] = [m.encode] := by
  simp [textsFor]

theorem textsFor_other {link other : Nat} (hne : other ≠ link) (m : Message) :
    textsFor other [(link, m)] = [] := by
  simp [textsFor, Ne.symm hne]

/-- The frames of every connection are the texts said to it and at most one end after them,
and those of the client's connection have no end. -/
structure Framing (s : System) (messages : List (Nat × Message)) : Prop where
  framed : ∀ link, Outgoing.Framed (textsFor link messages) (s.client.sentOn link)
  current : ∀ link, s.client.outbound = some link →
    s.client.sentOn link = (textsFor link messages).map .text

variable {messages : List (Nat × Message)}

theorem Framing.new (endpoint : Endpoint) (config : StreamConfig) :
    (new endpoint config).Framing [] where
  framed _ := ⟨[], rfl, .inl rfl⟩
  current _ h := nomatch h

/-- The client's connection and one that is about to open have no end. -/
theorem Framing.no_end (hf : s.Framing messages) {link : Nat}
    (h : s.client.outbound = some link ∨ link = s.client.links.length) :
    s.client.sentOn link = (textsFor link messages).map .text := by
  rcases h with h | rfl
  · exact hf.current link h
  · obtain ⟨ends, heq, -⟩ := hf.framed s.client.links.length
    rw [s.client.sentOn_length] at heq ⊢
    exact (List.append_eq_nil_iff.1 heq.symm).1.symm

theorem Speaks.or {link : Nat} (h : s.Speaks a link) :
    s.client.outbound = some link ∨ link = s.client.links.length := by
  unfold Speaks at h
  split at h
  · exact .inr h
  · exact .inl h.1

theorem Framing.nothing {s' : System} (hf : s.Framing messages)
    (hkept : ∀ link, s'.client.sentOn link = s.client.sentOn link)
    (hout : ∀ link, s'.client.outbound = some link →
      s.client.outbound = some link ∨ link = s.client.links.length) : s'.Framing messages where
  framed link := by
    rw [hkept]
    exact hf.framed link
  current link hlink := by
    rw [hkept]
    exact hf.no_end (hout link hlink)

theorem Framing.text {s' : System} (hf : s.Framing messages) {link : Nat} {m : Message}
    (hhands : s.client.Hands s'.client link [.ofMessage m])
    (hlink : s.client.outbound = some link ∨ link = s.client.links.length)
    (hout : s'.client.outbound = some link) : s'.Framing (messages ++ [(link, m)]) := by
  have hself : s'.client.sentOn link = (textsFor link (messages ++ [(link, m)])).map .text := by
    rw [hhands.self, hf.no_end hlink, textsFor_append, textsFor_self, List.map_append]
    rfl
  refine ⟨fun other => ?_, fun other hother => ?_⟩
  · by_cases heq : other = link
    · subst heq
      exact ⟨[], by rw [hself, List.append_nil], .inl rfl⟩
    · rw [hhands.other heq, textsFor_append, textsFor_other heq, List.append_nil]
      exact hf.framed other
  · obtain rfl : link = other := Option.some.inj (hout.symm.trans hother)
    exact hself

theorem Framing.close {s' : System} (hf : s.Framing messages) {link : Nat} {reason : String}
    (hhands : s.client.Hands s'.client link [.normalClose reason])
    (hlink : s.client.outbound = some link ∨ link = s.client.links.length)
    (hout : ∀ other, s'.client.outbound = some other →
      s.client.outbound = some other ∧ other ≠ link) : s'.Framing messages := by
  refine ⟨fun other => ?_, fun other hother => ?_⟩
  · by_cases heq : other = link
    · subst heq
      exact ⟨_, by rw [hhands.self, hf.no_end hlink], .inr ⟨reason, rfl⟩⟩
    · rw [hhands.other heq]
      exact hf.framed other
  · obtain ⟨hold, hne⟩ := hout other hother
    rw [hhands.other hne]
    exact hf.current other hold

theorem Framing.handed {s' : System} (hf : s.Framing messages) (h : Handed s a s') :
    s'.Framing (messages ++ s.said a) := by
  cases h with
  | nothing hkept hout hsaid =>
    rw [hsaid, List.append_nil]
    exact hf.nothing hkept hout
  | text link m hhands hspeaks hout _ hsaid =>
    rw [hsaid]
    exact hf.text hhands hspeaks.or hout
  | close link reason hhands hlink hout hsaid =>
    rw [hsaid, List.append_nil]
    exact hf.close hhands hlink hout

theorem Framing.run (hs : s.Sound) (hf : s.Framing messages) (actions : List Action) :
    (s.run actions).1.Framing (messages ++ s.saidAll actions) := by
  induction actions generalizing s messages with
  | nil =>
    rw [saidAll, List.append_nil]
    exact hf
  | cons a rest ih =>
    have hrest := ih (hs.step a) (hf.handed (handed_step hs a))
    rw [List.append_assoc] at hrest
    exact hrest

/-- What a step hands to a connection: one frame at most, and a text only while the
connection is the client's and the client is connected. -/
theorem Handed.frames {s' : System} (h : Handed s a s') (link : Nat) :
    ∃ frames, s'.client.sentOn link = s.client.sentOn link ++ frames ∧ frames.length ≤ 1 ∧
      ∀ content, Outgoing.text content ∈ frames →
        s'.client.outbound = some link ∧ s'.client.state = .connected ∧ s.Speaks a link := by
  cases h with
  | nothing hkept => exact ⟨[], by rw [hkept, List.append_nil], by simp, by simp⟩
  | text other m hhands hspeaks hout hstate =>
    refine ⟨_, hhands link, ?_, fun content hin => ?_⟩
    · split <;> simp
    · split at hin
      · next heq => exact heq ▸ ⟨hout, hstate, hspeaks⟩
      · cases hin
  | close other reason hhands =>
    refine ⟨_, hhands link, ?_, fun content hin => ?_⟩
    · split <;> simp
    · split at hin
      · simp [Outgoing.normalClose] at hin
      · cases hin

/-- The call of an offer is the action of its message or of its size, and no action without
a message. -/
theorem offer_eq_step (s : System) (o : Offer) :
    { s with client := (s.client.offer o).1 } = (o.action?.map fun a => (s.step a).1).getD s := by
  cases o with
  | keystrokes octets =>
    simp only [Client.offer, Client.sendKeystrokes, Offer.action?, Offer.message?]
    cases Composer.keystrokes? octets <;> rfl
  | _ => rfl

/-- Whatever happened, in any order : every connection was handed the texts that were said
to it, in order, and after them at most one end, a normal one. What happens next hands a
connection one frame at most, and a text only while the connection is the client's and the
client is connected, which a connection that opens becomes first. And a call returns true
exactly when it handed its message once to the client's connection, and otherwise leaves
the client as it was but for the size that it makes known, so that the message is not
handed over later either. -/
theorem framed_of_run (endpoint : Endpoint) (config : StreamConfig) (actions : List Action) :
    let s := after endpoint config actions
    (∀ link, Outgoing.Framed (textsFor link ((new endpoint config).saidAll actions))
      (s.client.sentOn link)) ∧
    (∀ a link, ∃ frames, (s.step a).1.client.sentOn link = s.client.sentOn link ++ frames ∧
      frames.length ≤ 1 ∧ ∀ content, Outgoing.text content ∈ frames →
        (s.step a).1.client.outbound = some link ∧ (s.step a).1.client.state = .connected ∧
          (s.opens a = false → s.client.outbound = some link ∧ s.client.state = .connected)) ∧
    ∀ o, s.client.Answers o (s.client.offer o) ∧
      { s with client := (s.client.offer o).1 } =
        (o.action?.map fun a => (s.step a).1).getD s := by
  have hs := sound_after endpoint config actions
  have hf := (Framing.new endpoint config).run (Sound.new endpoint config) actions
  refine ⟨hf.framed, fun a link => ?_, fun o => ⟨Client.answers_offer _ o, offer_eq_step _ o⟩⟩
  obtain ⟨frames, heq, hone, htexts⟩ := (handed_step hs a).frames link
  refine ⟨frames, heq, hone, fun content hin => ?_⟩
  obtain ⟨hout, hstate, hspeaks⟩ := htexts content hin
  refine ⟨hout, hstate, fun hopens => ?_⟩
  simpa [Speaks, hopens] using hspeaks

/-- A connection is told the size of the terminal, takes a message and ends; what is sent
after that goes nowhere. -/
example :
    let endpoint : Endpoint := ⟨⟨.http, "", none, .name "localhost", none, [""], none, none⟩, none⟩
    let actions : List Action :=
      [.setViewport 80 24, .attach "s1" 0, .wake 1 .start, .wake 1 (.ticket (.ok "t")),
        .wake 1 (.opened (.ok true)), .send (.input "x"), .stop, .send (.input "y"), .stop]
    (after endpoint .default actions).client.sentOn 0 =
      [.ofMessage (.resize 80 24), .ofMessage (.input "x"), .normalClose Client.stopReason] :=
  rfl

end System

end RemoteSession
