import RemoteSession.Proofs.Stream.Exchange

/-!
# Delivery without gaps

Whatever happens to a client and the server of the session that is attached, the events
that the client tells are a part of the log without a gap, in its order and each once
(`Hosted.delivered_of_run`). They begin after the cursor of the attachment, or, without
one, with the tail from which an event was received first; all that was received and is
after that cursor was told; and after the last event of the session nothing is.

What carries the proof is that the events told so far are those of the log from the
beginning up to the cursor of the gate, and that the others are still to come on the
connection that the run reads (`Hosted.Started`).
-/

namespace RemoteSession

namespace Hosted

/-- The cursor of the gate. -/
def gate (h : Hosted) : UInt64 :=
  h.system.client.gate.cursor

/-- What the run of the current generation waits for. -/
def wait? (h : Hosted) : Option Wait :=
  h.system.wait? h.system.client.generation

/-- The connection from which an event was received first. -/
def first? (h : Hosted) : Option Replay :=
  h.replays.find? fun p => 0 < p.sent

/-- What is delivered of a log after an attachment with a cursor. -/
structure Delivered (h : Hosted) (cursor : UInt64) (events : List Event) : Prop where
  /-- A part of the log without a gap, in its order. -/
  part : events <:+: h.log
  /-- Each event once. -/
  once : events.Pairwise fun a b => a.seq < b.seq
  /-- With a cursor it begins with the first event after it. -/
  after : 0 < cursor → events <+: Log.after h.log cursor
  /-- Without one it begins with the tail from which an event was received first. -/
  tail : cursor = 0 →
    match h.first? with
    | none => events = []
    | some p => (∃ count, p.resume = .lastN count) ∧ events <+: p.answer h.log
  /-- What was received after the cursor is told. -/
  received : ∀ p ∈ h.replays, ∀ e ∈ p.carried h.log, cursor < e.seq → e ∈ events
  /-- Nothing is told after the status that the session has exited. -/
  last : ∀ e ∈ events.dropLast, ∀ exitCode, e.body ≠ .status "exited" exitCode
  /-- The server finds in an address where to begin. -/
  answered : h.wait? = some .opening → ∃ url r, h.asked = some url ∧ Resume.ofUrl? url = some r
  /-- A run that reads has a connection of the server. -/
  reading : ∀ link, h.wait? = some (.frames link) → h.replays ≠ []

/-! ## What is kept -/

/-- Without a cursor and before any event was received. -/
structure Fresh (h : Hosted) (events : List Event) : Prop where
  told : events = []
  gate : h.gate = 0
  replays : ∀ p ∈ h.replays, p.sent = 0 ∧ ∃ count, p.resume = .lastN count

/-- Where what is delivered begins : after the cursor, or with the tail from which an
event was received first. -/
inductive Origin (h : Hosted) (cursor base : UInt64) : Prop where
  | cursor : 0 < cursor → base = cursor → Origin h cursor base
  | tail (p : Replay) (count : UInt32) : cursor = 0 → base < h.gate → h.first? = some p →
    p.resume = .lastN count → Log.after h.log base = p.answer h.log → Origin h cursor base

/-- With a cursor, or after an event was received : what was told are the events after
the base up to the cursor of the gate, and the later ones are still to come. -/
structure Started (h : Hosted) (cursor base : UInt64) (events : List Event) : Prop where
  le : base ≤ h.gate
  told : events = Log.upTo (Log.after h.log base) h.gate
  mark : h.gate = cursor ∨ ∃ e ∈ h.log, e.seq = h.gate
  origin : h.Origin cursor base
  carried : ∀ p ∈ h.replays, ∀ e ∈ p.carried h.log, e.seq ≤ cursor ∨ e ∈ events
  serves : ∀ link, h.wait? = some (.frames link) →
    ∃ before p, h.replays = before ++ [p] ∧ p.Serves h.log cursor base h.gate

/-- What holds of a client and its server after whatever happened. -/
structure Kept (h : Hosted) (cursor : UInt64) (events : List Event) : Prop where
  sound : h.system.Sound
  ordered : Log.Ordered h.log
  valid : ∀ p ∈ h.replays, p.Valid h.log
  asked : h.wait? = some .opening → ∃ url tailLen, h.asked = some url ∧
    Resume.ofUrl? url = some (.ofCursor h.gate tailLen)
  reading : ∀ link, h.wait? = some (.frames link) → h.replays ≠ []
  alive : ∀ wait, h.wait? = some wait → ∀ e ∈ events, e.body.isTerminal = false
  last : ∀ e ∈ events.dropLast, e.body.isTerminal = false
  stage : cursor = 0 ∧ h.Fresh events ∨ ∃ base, h.Started cursor base events

variable {h : Hosted} {cursor base : UInt64} {events : List Event} {e : Event}

theorem Origin.base_le (ho : h.Origin cursor base) : cursor ≤ base := by
  cases ho with
  | cursor _ hbase => exact UInt64.le_of_eq hbase.symm
  | tail _ _ hzero =>
    rw [hzero]
    exact UInt64.zero_le

theorem Origin.eq_or_lt (ho : h.Origin cursor base) : base = cursor ∨ base < h.gate := by
  cases ho with
  | cursor _ hbase => exact .inl hbase
  | tail _ _ _ hlt => exact .inr hlt

theorem Started.gate_pos (hs : h.Started cursor base events) : 0 < h.gate := by
  cases hs.origin with
  | cursor hpos hbase => exact UInt64.lt_of_lt_of_le hpos (hbase ▸ hs.le)
  | tail _ _ _ hlt => exact UInt64.lt_of_le_of_lt UInt64.zero_le hlt

theorem Started.mem_events (hs : h.Started cursor base events) :
    e ∈ events ↔ e ∈ h.log ∧ base < e.seq ∧ e.seq ≤ h.gate := by
  rw [hs.told, Log.mem_upTo, Log.mem_after, and_assoc]

/-- What was told is the beginning of what comes after the base. -/
theorem Started.prefix_after (hs : h.Started cursor base events) (hordered : Log.Ordered h.log) :
    events <+: Log.after h.log base := by
  rw [hs.told]
  exact Log.upTo_prefix (hordered.after base) h.gate

/-- What a connection has carried is not after the cursor of the gate. -/
theorem Started.le_of_carried (hs : h.Started cursor base events) {p : Replay}
    (hp : p ∈ h.replays) (he : e ∈ p.carried h.log) : e.seq ≤ h.gate := by
  rcases hs.carried p hp e he with hle | hin
  · exact UInt64.le_trans hle (UInt64.le_trans hs.origin.base_le hs.le)
  · exact (hs.mem_events.1 hin).2.2

/-! ## The log grows -/

theorem Started.after_of_grow (hs : h.Started cursor base events)
    (hlt : ∀ x ∈ h.log, x.seq < e.seq) :
    h.gate = cursor ∧ base = cursor ∨ h.gate < e.seq := by
  rcases hs.mark with hgate | ⟨x, hx, hxg⟩
  · rcases hs.origin.eq_or_lt with hbase | hbase
    · exact .inl ⟨hgate, hbase⟩
    · exact absurd (UInt64.lt_of_le_of_lt hs.origin.base_le hbase) (hgate ▸ UInt64.lt_irrefl _)
  · exact .inr (hxg ▸ hlt x hx)

theorem Started.grow (hs : h.Started cursor base events) (hvalid : ∀ p ∈ h.replays, p.Valid h.log)
    (hordered : Log.Ordered (h.log ++ [e])) :
    Started { h with log := h.log ++ [e] } cursor base events := by
  have hnew := hs.after_of_grow hordered.lt_last
  have hout : Log.upTo (Log.after [e] base) h.gate = [] := by
    refine Log.upTo_eq_nil fun x hx => ?_
    obtain ⟨hx, hlt⟩ := Log.mem_after.1 hx
    obtain rfl := List.mem_singleton.1 hx
    rcases hnew with ⟨hgate, hbase⟩ | hafter
    · rw [hgate, ← hbase]
      exact hlt
    · exact hafter
  have hin : e.seq ≤ cursor ∨ base < e.seq := by
    rcases hnew with ⟨-, hbase⟩ | hafter
    · rw [hbase]
      exact UInt64.le_or_lt _ _
    · exact .inr (UInt64.lt_of_le_of_lt hs.le hafter)
  refine ⟨hs.le, ?_, ?_, ?_, ?_, ?_⟩
  · simp only [Log.after_append, Log.upTo_append]
    rw [show Log.upTo (Log.after [e] base) (Hosted.gate { h with log := h.log ++ [e] }) = []
      from hout, List.append_nil]
    exact hs.told
  · rcases hs.mark with hgate | ⟨x, hx, hxg⟩
    · exact .inl hgate
    · exact .inr ⟨x, List.mem_append.2 (.inl hx), hxg⟩
  · cases hs.origin with
    | cursor hpos hbase => exact .cursor hpos hbase
    | tail p count hzero hlt hfirst hresume hlog =>
      refine .tail p count hzero hlt hfirst hresume ?_
      have hp := hvalid p (List.mem_of_find?_eq_some hfirst)
      have hone : Log.after [e] base = [e] := by
        refine Log.after_eq_self fun x hx => ?_
        obtain rfl := List.mem_singleton.1 hx
        rcases hin with hle | hafter
        · have hpos := hordered.pos x (List.mem_append.2 (.inr hx))
          rw [hzero] at hle
          exact absurd (UInt64.lt_of_lt_of_le hpos hle) (UInt64.lt_irrefl _)
        · exact hafter
      rcases Replay.answer_append hp.known e with heq | ⟨-, seq, hseq, -⟩
      · simp only [Log.after_append]
        rw [heq, hone, hlog]
      · rw [hresume] at hseq
        cases hseq
  · intro p hp x hx
    rw [(hvalid p hp).carried_grow e] at hx
    exact hs.carried p hp x hx
  · intro link hlink
    obtain ⟨before, p, hreplays, hserves⟩ := hs.serves link hlink
    have hp : p ∈ h.replays := by
      rw [hreplays]
      exact List.mem_append.2 (.inr List.mem_cons_self)
    exact ⟨before, p, hreplays, hserves.grow (hvalid p hp) hin⟩

theorem Kept.grow (hk : h.Kept cursor events) (hordered : Log.Ordered (h.log ++ [e])) :
    Kept { h with log := h.log ++ [e] } cursor events := by
  refine ⟨hk.sound, hordered, fun p hp => (hk.valid p hp).grow e, hk.asked, hk.reading, hk.alive,
    hk.last, ?_⟩
  rcases hk.stage with ⟨hzero, hfresh⟩ | ⟨base, hs⟩
  · exact .inl ⟨hzero, hfresh.told, hfresh.gate, hfresh.replays⟩
  · exact .inr ⟨base, hs.grow hk.valid hordered⟩

variable {h' : Hosted}

/-- What is delivered goes on from where it began while the log is as it was. -/
theorem Origin.keep (ho : h.Origin cursor base) (hlog : h'.log = h.log) (hle : h.gate ≤ h'.gate)
    (hfirst : ∀ p, h.first? = some p → ∃ q, h'.first? = some q ∧ q.resume = p.resume ∧
      q.answer h.log = p.answer h.log) : h'.Origin cursor base := by
  cases ho with
  | cursor hpos hbase => exact .cursor hpos hbase
  | tail p count hzero hlt hp hresume hanswer =>
    obtain ⟨q, hq, hqr, hqa⟩ := hfirst p hp
    refine .tail q count hzero (UInt64.lt_of_lt_of_le hlt hle) hq (hqr.trans hresume) ?_
    rw [hlog, hqa, hanswer]

/-- What was told stays so while the log, the cursor and the connections do. -/
theorem Started.keep (hs : h.Started cursor base events) (hlog : h'.log = h.log)
    (hgate : h'.gate = h.gate) (hreplays : h'.replays = h.replays)
    (hreading : ∀ link, h'.wait? = some (.frames link) → h.wait? = some (.frames link)) :
    h'.Started cursor base events := by
  refine ⟨hgate ▸ hs.le, ?_, ?_, ?_, ?_, ?_⟩
  · rw [hlog, hgate]
    exact hs.told
  · rw [hlog, hgate]
    exact hs.mark
  · refine hs.origin.keep hlog (UInt64.le_of_eq hgate.symm) fun p hp => ⟨p, ?_, rfl, rfl⟩
    rw [first?, hreplays]
    exact hp
  · rw [hlog, hreplays]
    exact hs.carried
  · rw [hlog, hreplays, hgate]
    exact fun link hlink => hs.serves link (hreading link hlink)

/-! ## A connection opens -/

theorem Started.accept (hs : h.Started cursor base events) {tailLen : UInt32}
    (hlog : h'.log = h.log) (hgate : h'.gate = h.gate)
    (hreplays : h'.replays = h.replays ++ [⟨.ofCursor h.gate tailLen, h.log.length, 0⟩]) :
    h'.Started cursor base events := by
  refine ⟨hgate ▸ hs.le, ?_, ?_, ?_, ?_, ?_⟩
  · rw [hlog, hgate]
    exact hs.told
  · rw [hlog, hgate]
    exact hs.mark
  · refine hs.origin.keep hlog (UInt64.le_of_eq hgate.symm) fun p hp => ⟨p, ?_, rfl, rfl⟩
    rw [first?] at hp
    rw [first?, hreplays, List.find?_append, hp]
    rfl
  · intro p hp x hx
    rw [hreplays] at hp
    rw [hlog] at hx
    rcases List.mem_append.1 hp with hp | hp
    · exact hs.carried p hp x hx
    · rw [List.mem_singleton.1 hp] at hx
      simp [Replay.carried] at hx
  · intro link _
    rw [hlog, hgate]
    exact ⟨h.replays, _, hreplays, Replay.serves_ofCursor hs.gate_pos hs.origin.eq_or_lt⟩

theorem Kept.accept (hk : h.Kept cursor events) {a : Action} {url : Url} {r : Resume}
    (hopens : h.system.opens a = true) (hasked : h.asked = some url)
    (hr : Resume.ofUrl? url = some r) :
    Kept
      { h with
        system := (h.system.step a).1, replays := h.replays ++ [⟨r, h.log.length, 0⟩] }
      cursor (events ++ Notice.events (h.system.step a).2) := by
  have hopened := System.opened hk.sound hopens
  obtain ⟨url', tailLen, hasked', hr'⟩ := hk.asked hopened.was
  rw [hasked] at hasked'
  cases hasked'
  rw [hr] at hr'
  cases hr'
  rw [hopened.events, List.append_nil]
  have hgate : (h.system.step a).1.client.gate.cursor = h.gate := by rw [hopened.gate]; rfl
  refine ⟨hk.sound.step a, hk.ordered, ?_, ?_, ?_, ?_, hk.last, ?_⟩
  · intro p hp
    rcases List.mem_append.1 hp with hp | hp
    · exact hk.valid p hp
    · rw [List.mem_singleton.1 hp]
      exact ⟨Nat.le_refl _, Nat.zero_le _⟩
  · intro hwait
    obtain ⟨link, hlink⟩ := hopened.waits _ hwait
    cases hlink
  · exact fun _ _ => List.append_ne_nil_of_right_ne_nil _ (List.cons_ne_nil _ _)
  · exact fun _ _ => hk.alive _ hopened.was
  · rcases hk.stage with ⟨hzero, hfresh⟩ | ⟨base, hs⟩
    · refine .inl ⟨hzero, hfresh.told, hgate.trans hfresh.gate, fun p hp => ?_⟩
      rcases List.mem_append.1 hp with hp | hp
      · exact hfresh.replays p hp
      · rw [List.mem_singleton.1 hp, hfresh.gate]
        exact ⟨rfl, tailLen, rfl⟩
    · exact .inr ⟨base, hs.accept rfl hgate rfl⟩

/-! ## Something else happens -/

theorem Kept.other (hk : h.Kept cursor events) {a : Action}
    (haside : System.Aside h.system (h.system.step a)) :
    Kept
      { h with
        system := (h.system.step a).1
        asked := (Notice.asked? (h.system.step a).2).or h.asked }
      cursor (events ++ Notice.events (h.system.step a).2) := by
  rw [haside.events, List.append_nil]
  have hgate : (h.system.step a).1.client.gate.cursor = h.gate := by rw [haside.gate]; rfl
  refine ⟨hk.sound.step a, hk.ordered, hk.valid, ?_,
    fun link hlink => hk.reading link (haside.reading link hlink), ?_, hk.last, ?_⟩
  · intro hwait
    simp only [gate, hgate]
    rcases haside.opening hwait with ⟨hold, hnone⟩ | ⟨url, hurl, hr⟩
    · rw [hnone, Option.none_or]
      exact hk.asked hold
    · rw [hurl, Option.some_or]
      exact ⟨url, _, rfl, hr⟩
  · intro wait hwait
    obtain ⟨old, hold⟩ := haside.alive wait hwait
    exact hk.alive old hold
  · rcases hk.stage with ⟨hzero, hfresh⟩ | ⟨base, hs⟩
    · exact .inl ⟨hzero, hfresh.told, hgate.trans hfresh.gate, hfresh.replays⟩
    · exact .inr ⟨base, hs.keep rfl hgate rfl haside.reading⟩

/-! ## A frame is read -/

section Advance

variable {before : List Replay} {p : Replay}

/-- The connection from which an event was received first stays the same one. -/
theorem first?_advance (hreplays : h.replays = before ++ [p])
    (hreplays' : h'.replays = before ++ [{ p with sent := p.sent + 1 }]) {q : Replay}
    (hfirst : h.first? = some q) : ∃ q', h'.first? = some q' ∧ q'.resume = q.resume ∧
      q'.answer h.log = q.answer h.log := by
  rw [first?, hreplays, List.find?_append] at hfirst
  rw [first?, hreplays', List.find?_append]
  cases hb : before.find? fun p => 0 < p.sent with
  | some x =>
    rw [hb] at hfirst
    cases hfirst
    exact ⟨_, rfl, rfl, rfl⟩
  | none =>
    rw [hb, Option.none_or] at hfirst
    obtain rfl := List.mem_singleton.1 (List.mem_of_find?_eq_some hfirst)
    exact ⟨{ q with sent := q.sent + 1 }, by simp, rfl, rfl⟩

/-- What was carried was told, with the event that was carried now. -/
theorem Started.carried_advance (hs : h.Started cursor base events)
    (hreplays : h.replays = before ++ [p]) (he : (p.answer h.log)[p.sent]? = some e)
    {events' : List Event} (hevents : events ⊆ events') (hin : e.seq ≤ cursor ∨ e ∈ events') :
    ∀ q ∈ before ++ [{ p with sent := p.sent + 1 }], ∀ x ∈ q.carried h.log,
      x.seq ≤ cursor ∨ x ∈ events' := by
  have hold : ∀ q ∈ h.replays, ∀ x ∈ q.carried h.log, x.seq ≤ cursor ∨ x ∈ events' :=
    fun q hq x hx => (hs.carried q hq x hx).imp_right (hevents ·)
  rw [hreplays] at hold
  intro q hq x hx
  rcases List.mem_append.1 hq with hq | hq
  · exact hold q (List.mem_append.2 (.inl hq)) x hx
  · rw [List.mem_singleton.1 hq, Replay.carried_next he] at hx
    rcases List.mem_append.1 hx with hx | hx
    · exact hold p (List.mem_append.2 (.inr List.mem_cons_self)) x hx
    · rw [List.mem_singleton.1 hx]
      exact hin

/-- An event of the answer that the client has seen comes again. -/
theorem Started.skip (hs : h.Started cursor base events) (hreplays : h.replays = before ++ [p])
    (hserves : p.Serves h.log cursor base h.gate) (he : (p.answer h.log)[p.sent]? = some e)
    (hle : e.seq ≤ h.gate) (hlog : h'.log = h.log) (hgate : h'.gate = h.gate)
    (hreplays' : h'.replays = before ++ [{ p with sent := p.sent + 1 }]) :
    h'.Started cursor base events := by
  have hin : e.seq ≤ cursor ∨ e ∈ events := by
    have hmem := List.mem_of_getElem? he
    refine (hserves.inside e hmem).imp_right fun hbase => ?_
    exact hs.mem_events.2 ⟨Replay.mem_answer hmem, hbase, hle⟩
  refine ⟨hgate ▸ hs.le, ?_, ?_, ?_, ?_, ?_⟩
  · rw [hlog, hgate]
    exact hs.told
  · rw [hlog, hgate]
    exact hs.mark
  · exact hs.origin.keep hlog (UInt64.le_of_eq hgate.symm) fun q =>
      first?_advance hreplays hreplays'
  · rw [hlog, hreplays']
    exact hs.carried_advance hreplays he (fun _ hx => hx) hin
  · intro link _
    rw [hlog, hgate]
    exact ⟨before, _, hreplays', hserves.skip he hle⟩

/-- A new event is told. -/
theorem Started.tell (hs : h.Started cursor base events) (hordered : Log.Ordered h.log)
    (hreplays : h.replays = before ++ [p]) (hserves : p.Serves h.log cursor base h.gate)
    (he : (p.answer h.log)[p.sent]? = some e) (hlt : h.gate < e.seq) (hlog : h'.log = h.log)
    (hgate : h'.gate = e.seq)
    (hreplays' : h'.replays = before ++ [{ p with sent := p.sent + 1 }]) :
    h'.Started cursor base (events ++ [e]) := by
  obtain ⟨⟨rest, hnext⟩, hserves'⟩ := hserves.first he hlt
  have hmem : e ∈ h.log := Replay.mem_answer (List.mem_of_getElem? he)
  have hle : h.gate ≤ h'.gate := hgate ▸ UInt64.le_of_lt hlt
  refine ⟨UInt64.le_trans hs.le hle, ?_, ?_, ?_, ?_, ?_⟩
  · have hnext' : Log.after (Log.after h.log base) h.gate = e :: rest := by
      rw [Log.after_after hs.le, hnext]
    rw [hlog, hgate, (Log.upTo_next (hordered.after base) hnext').1, hs.told]
  · rw [hlog, hgate]
    exact .inr ⟨e, hmem, rfl⟩
  · exact hs.origin.keep hlog hle fun q => first?_advance hreplays hreplays'
  · rw [hlog, hreplays']
    exact hs.carried_advance hreplays he (List.subset_append_left _ _)
      (.inr (List.mem_append.2 (.inr List.mem_cons_self)))
  · intro link _
    rw [hlog, hgate]
    exact ⟨before, _, hreplays', hserves'⟩

/-- The first event after an attachment without a cursor is told. -/
theorem Fresh.tell (hf : h.Fresh events) (hordered : Log.Ordered h.log)
    (hreplays : h.replays = before ++ [p]) (he : (p.answer h.log)[p.sent]? = some e)
    (hlog : h'.log = h.log) (hgate : h'.gate = e.seq)
    (hreplays' : h'.replays = before ++ [{ p with sent := p.sent + 1 }]) :
    h'.Started 0 (e.seq - 1) (events ++ [e]) := by
  obtain ⟨hzero, count, hresume⟩ :=
    hf.replays p (hreplays ▸ List.mem_append.2 (.inr List.mem_cons_self))
  have hmem : e ∈ h.log := Replay.mem_answer (List.mem_of_getElem? he)
  have hpred : ∀ n, e.seq - 1 < n ↔ e.seq ≤ n := fun n => Log.pred_lt_iff (hordered.pos e hmem)
  have hbase : e.seq - 1 < e.seq := (hpred _).2 (UInt64.le_refl _)
  -- The connection has carried nothing, so this event is the first of its tail.
  have htail : p.answer h.log = e :: (p.answer h.log).drop 1 := by
    have hdrop := Replay.drop_next he
    rwa [hzero, List.drop_zero] at hdrop
  have hafter : Log.after h.log (e.seq - 1) = p.answer h.log := by
    have hsplit : h.log = h.log.take (p.known - count.toNat) ++ e :: (p.answer h.log).drop 1 := by
      rw [← htail, Replay.answer_lastN hresume, List.take_append_drop]
    obtain ⟨hbefore, hrest⟩ := hordered.split hsplit
    have hnot : ∀ x ∈ h.log.take (p.known - count.toNat), x.seq ≤ e.seq - 1 := fun x hx =>
      UInt64.not_lt.1 fun hlt => UInt64.not_le.2 (hbefore x hx) ((hpred _).1 hlt)
    have hall : ∀ x ∈ e :: (p.answer h.log).drop 1, e.seq - 1 < x.seq := by
      intro x hx
      rcases List.mem_cons.1 hx with rfl | hx
      · exact hbase
      · exact UInt64.lt_trans hbase (hrest x hx)
    calc Log.after h.log (e.seq - 1)
        = Log.after (h.log.take (p.known - count.toNat) ++ e :: (p.answer h.log).drop 1)
            (e.seq - 1) := congrArg (Log.after · (e.seq - 1)) hsplit
      _ = e :: (p.answer h.log).drop 1 := by
          rw [Log.after_append, Log.after_eq_nil hnot, Log.after_eq_self hall, List.nil_append]
      _ = p.answer h.log := htail.symm
  have hserves : p.Serves h.log 0 (e.seq - 1) (e.seq - 1) := by
    refine ⟨?_, ?_, ?_⟩
    · rw [hzero, List.drop_zero, ← hafter, Log.after_after (UInt64.le_refl _)]
    · intro seq hseq
      rw [hresume] at hseq
      cases hseq
    · intro x hx
      rw [← hafter] at hx
      exact .inr (Log.mem_after.1 hx).2
  obtain ⟨⟨rest, hnext⟩, hserves'⟩ := hserves.first he hbase
  have hcarried : p.carried h.log = [] := by rw [Replay.carried, hzero, List.take_zero]
  rw [hf.told, List.nil_append]
  have hle : e.seq - 1 ≤ h'.gate := by
    rw [hgate]
    exact UInt64.le_of_lt hbase
  refine ⟨hle, ?_, ?_, ?_, ?_, ?_⟩
  · have hnone : Log.upTo (Log.after h.log (e.seq - 1)) (e.seq - 1) = [] :=
      Log.upTo_eq_nil fun x hx => (Log.mem_after.1 hx).2
    have hnext' : Log.after (Log.after h.log (e.seq - 1)) (e.seq - 1) = e :: rest := by
      rw [Log.after_after (UInt64.le_refl _), hnext]
    rw [hlog, hgate, (Log.upTo_next (hordered.after _) hnext').1, hnone, List.nil_append]
  · rw [hlog, hgate]
    exact .inr ⟨e, hmem, rfl⟩
  · refine .tail { p with sent := p.sent + 1 } count rfl (by rw [hgate]; exact hbase) ?_ hresume ?_
    · have hbefore : (before.find? fun p => 0 < p.sent) = none := by
        refine List.find?_eq_none.2 fun q hq => ?_
        have := (hf.replays q (hreplays ▸ List.mem_append.2 (.inl hq))).1
        simp [this]
      rw [first?, hreplays', List.find?_append, hbefore]
      simp
    · rw [hlog, hafter]
      rfl
  · rw [hlog, hreplays']
    intro q hq x hx
    rcases List.mem_append.1 hq with hq | hq
    · have := (hf.replays q (hreplays ▸ List.mem_append.2 (.inl hq))).1
      rw [Replay.carried, this, List.take_zero] at hx
      cases hx
    · rw [List.mem_singleton.1 hq, Replay.carried_next he, hcarried, List.nil_append] at hx
      exact .inr hx
  · intro link _
    rw [hlog, hgate]
    exact ⟨before, _, hreplays', hserves'⟩

end Advance

/-- A text that is passed over : the connection may have carried more of its answer, but
nothing that is new. -/
theorem Kept.passed (hk : h.Kept cursor events) {before : List Replay} {p p' : Replay}
    {content : String} (hreplays : h.replays = before ++ [p])
    (hcarries : p.Carries h.log content p')
    (hold : ∀ e, Event.decode? content = some e → e.seq ≤ h.gate)
    (hreads : ∃ link, h.wait? = some (.frames link)) (hlog : h'.log = h.log)
    (hgate : h'.gate = h.gate) (hreplays' : h'.replays = before ++ [p'])
    (hwaits : ∀ wait, h'.wait? = some wait → h.wait? = some wait) :
    cursor = 0 ∧ h'.Fresh events ∨ ∃ base, h'.Started cursor base events := by
  by_cases hsame : p' = p
  · subst hsame
    have heq : h'.replays = h.replays := hreplays'.trans hreplays.symm
    rcases hk.stage with ⟨hzero, hfresh⟩ | ⟨base, hs⟩
    · exact .inl ⟨hzero, hfresh.told, hgate.trans hfresh.gate, heq ▸ hfresh.replays⟩
    · exact .inr ⟨base, hs.keep hlog hgate heq fun link => hwaits _⟩
  · cases hcarries with
    | next e hd he =>
      rcases hk.stage with ⟨hzero, hfresh⟩ | ⟨base, hs⟩
      · have hpos := hk.ordered.pos e (Replay.mem_answer (List.mem_of_getElem? he))
        have hle := hold e hd
        rw [hfresh.gate] at hle
        exact absurd (UInt64.lt_of_lt_of_le hpos hle) (UInt64.lt_irrefl _)
      · obtain ⟨link, hlink⟩ := hreads
        obtain ⟨before', q, hreplaysq, hserves⟩ := hs.serves link hlink
        rw [hreplays] at hreplaysq
        obtain ⟨rfl, hq⟩ := List.append_inj' hreplaysq rfl
        obtain rfl := List.singleton_inj.1 hq
        exact .inr ⟨base, hs.skip hreplays hserves he (hold e hd) hlog hgate hreplays'⟩
    | again => exact absurd rfl hsame
    | old => exact absurd rfl hsame
    | malformed => exact absurd rfl hsame

/-- A new event is the next one of the answer. -/
theorem Kept.told (hk : h.Kept cursor events) {before : List Replay} {p p' : Replay}
    {content : String} (hreplays : h.replays = before ++ [p])
    (hcarries : p.Carries h.log content p') (hd : Event.decode? content = some e)
    (hlt : h.gate < e.seq) (hreads : ∃ link, h.wait? = some (.frames link)) (hlog : h'.log = h.log)
    (hgate : h'.gate = e.seq) (hreplays' : h'.replays = before ++ [p']) :
    ∃ base, h'.Started cursor base (events ++ [e]) := by
  have hp : p ∈ h.replays := hreplays ▸ List.mem_append.2 (.inr List.mem_cons_self)
  obtain ⟨link, hlink⟩ := hreads
  have hserves : ∀ base, h.Started cursor base events → p.Serves h.log cursor base h.gate := by
    intro base hs
    obtain ⟨before', q, hreplaysq, hserves⟩ := hs.serves link hlink
    rw [hreplays] at hreplaysq
    obtain ⟨-, hq⟩ := List.append_inj' hreplaysq rfl
    obtain rfl := List.singleton_inj.1 hq
    exact hserves
  cases hcarries with
  | next e' hd' he =>
    rw [hd] at hd'
    cases hd'
    rcases hk.stage with ⟨rfl, hfresh⟩ | ⟨base, hs⟩
    · exact ⟨_, hfresh.tell hk.ordered hreplays he hlog hgate hreplays'⟩
    · exact ⟨base, hs.tell hk.ordered hreplays (hserves base hs) he hlt hlog hgate hreplays'⟩
  | again e' hd' hin =>
    rw [hd] at hd'
    cases hd'
    rcases hk.stage with ⟨-, hfresh⟩ | ⟨base, hs⟩
    · rw [Replay.carried, (hfresh.replays p hp).1, List.take_zero] at hin
      cases hin
    · exact absurd (hs.le_of_carried hp hin) (UInt64.not_le.2 hlt)
  | old e' seq hd' hresume hseq =>
    rw [hd] at hd'
    cases hd'
    rcases hk.stage with ⟨-, hfresh⟩ | ⟨base, hs⟩
    · obtain ⟨-, count, hcount⟩ := hfresh.replays p hp
      rw [hcount] at hresume
      cases hresume
    · exact absurd ((hserves base hs).floor seq hresume e.seq hseq) (UInt64.not_le.2 hlt)
  | malformed hd' =>
    rw [hd] at hd'
    cases hd'

theorem Kept.frame (hk : h.Kept cursor events) {a : Action} {content : String}
    {before : List Replay} {p p' : Replay} (hreads : reads h.system content a)
    (hreplays : h.replays = before ++ [p]) (hcarries : p.Carries h.log content p') :
    Kept { h with system := (h.system.step a).1, replays := before ++ [p'] } cursor
      (events ++ Notice.events (h.system.step a).2) := by
  have hread := System.read hk.sound hreads
  have hlink : ∃ link, h.wait? = some (.frames link) := hreads.2
  have hvalid : ∀ q ∈ before ++ [p'], q.Valid h.log := by
    intro q hq
    rcases List.mem_append.1 hq with hq | hq
    · exact hk.valid q (hreplays ▸ List.mem_append.2 (.inl hq))
    · rw [List.mem_singleton.1 hq]
      exact hcarries.valid (hk.valid p (hreplays ▸ List.mem_append.2 (.inr List.mem_cons_self)))
  have hne : before ++ [p'] ≠ [] :=
    List.append_ne_nil_of_right_ne_nil _ (List.cons_ne_nil _ _)
  have hsound := hk.sound.step a
  generalize h.system.step a = out at hread hsound ⊢
  cases hread with
  | passed hold hevents hgate hwaits =>
    rw [hevents, List.append_nil]
    have hsame : out.1.client.gate.cursor = h.gate := by rw [hgate]; rfl
    refine ⟨hsound, hk.ordered, hvalid, ?_, fun _ _ => hne,
      fun wait hwait => hk.alive wait (hwaits wait hwait), hk.last,
      hk.passed hreplays hcarries hold hlink rfl hsame rfl hwaits⟩
    intro hopening
    obtain ⟨link, hframes⟩ := hlink
    have hwas : h.wait? = some .opening := hwaits _ hopening
    rw [hframes] at hwas
    cases hwas
  | told e hd hlt hevents hgate hwaits =>
    rw [hevents]
    have hnew : out.1.client.gate.cursor = e.seq := by rw [hgate]
    have halive : ∀ x ∈ events, x.body.isTerminal = false := by
      obtain ⟨link, hframes⟩ := hlink
      exact hk.alive _ hframes
    refine ⟨hsound, hk.ordered, hvalid, ?_, fun _ _ => hne, ?_, ?_,
      .inr (hk.told hreplays hcarries hd hlt hlink rfl hnew rfl)⟩
    · intro hopening
      obtain ⟨-, link, hframes⟩ := hwaits _ hopening
      cases hframes
    · intro wait hwait x hx
      rcases List.mem_append.1 hx with hx | hx
      · exact halive x hx
      · rw [List.mem_singleton.1 hx]
        exact (hwaits wait hwait).1
    · rw [List.dropLast_concat]
      exact halive

/-! ## Whatever happens -/

theorem Kept.step (hk : h.Kept cursor events) {now : List Notice} (hstep : Step h now h') :
    h'.Kept cursor (events ++ Notice.events now) := by
  cases hstep with
  | grow e hordered =>
    rw [show Notice.events [] = [] from rfl, List.append_nil]
    exact hk.grow hordered
  | accept a url r hopens hasked hr => exact hk.accept hopens hasked hr
  | frame a content before p p' hreads hreplays hcarries => exact hk.frame hreads hreplays hcarries
  | other a hattach hopens hreads => exact hk.other (System.aside hk.sound hattach hopens hreads)

theorem Kept.run (hk : h.Kept cursor []) {notices : List Notice} (hrun : Run h notices h') :
    h'.Kept cursor (Notice.events notices) := by
  induction hrun with
  | refl => exact hk
  | step _ hstep ih =>
    rw [Notice.events, List.filterMap_append]
    exact ih.step hstep

theorem kept_attach {s : System} (hs : s.Sound) (session : String) (cursor : UInt64)
    {log : List Event} (hordered : Log.Ordered log) :
    (attach s session cursor log).Kept cursor [] := by
  obtain ⟨links, -, hc, -⟩ := s.client.attach_eq session cursor
  have hgate : (attach s session cursor log).gate = cursor := by
    simp [gate, attach, System.step, hc]
  have hstart : ∀ wait, (attach s session cursor log).wait? = some wait → wait = .start := by
    intro wait hwait
    obtain ⟨t, ht, rfl⟩ := System.task?_eq_of_wait? hwait
    rw [System.task_of_attach hs ht]
  refine ⟨hs.step _, hordered, List.forall_mem_nil _, fun hopening => ?_, fun link hlink => ?_,
    fun _ _ => List.forall_mem_nil _, List.forall_mem_nil _, ?_⟩
  · cases hstart _ hopening
  · cases hstart _ hlink
  by_cases hzero : cursor = 0
  · exact .inl ⟨hzero, rfl, hgate.trans hzero, List.forall_mem_nil _⟩
  · have hpos : 0 < cursor := UInt64.pos_iff_ne_zero.2 hzero
    refine .inr ⟨cursor, UInt64.le_of_eq hgate.symm, ?_, .inl hgate, .cursor hpos rfl,
      List.forall_mem_nil _, fun link hlink => ?_⟩
    · rw [hgate, Log.upTo_eq_nil fun x hx => (Log.mem_after.1 hx).2]
    · cases hstart _ hlink

theorem ne_exited_of_isTerminal {body : Event.Body} (h : body.isTerminal = false)
    (exitCode : Option Int64) : body ≠ .status "exited" exitCode := by
  rintro rfl
  cases h

theorem Kept.delivered (hk : h.Kept cursor events) : h.Delivered cursor events := by
  have hlast : ∀ e ∈ events.dropLast, ∀ exitCode, e.body ≠ .status "exited" exitCode :=
    fun e he => ne_exited_of_isTerminal (hk.last e he)
  have hanswered : h.wait? = some .opening →
      ∃ url r, h.asked = some url ∧ Resume.ofUrl? url = some r := by
    intro hopening
    obtain ⟨url, tailLen, hasked, hr⟩ := hk.asked hopening
    exact ⟨url, _, hasked, hr⟩
  rcases hk.stage with ⟨rfl, hf⟩ | ⟨base, hs⟩
  · have hnone : h.first? = none := by
      refine List.find?_eq_none.2 fun p hp => ?_
      simp [(hf.replays p hp).1]
    rw [hf.told]
    refine ⟨List.nil_infix, List.Pairwise.nil, fun hpos => absurd hpos (UInt64.lt_irrefl _), ?_, ?_,
      List.forall_mem_nil _, hanswered, hk.reading⟩
    · intro _
      rw [hnone]
    · intro p hp e he
      rw [Replay.carried, (hf.replays p hp).1, List.take_zero] at he
      cases he
  · have hprefix := hs.prefix_after hk.ordered
    have hpart : events <:+: h.log :=
      hprefix.isInfix.trans (Log.after_suffix hk.ordered base).isInfix
    refine ⟨hpart, hk.ordered.pairwise.sublist hpart.sublist, fun hpos => ?_, fun hzero => ?_, ?_,
      hlast, hanswered, hk.reading⟩
    · cases hs.origin with
      | cursor _ hbase => exact hbase ▸ hprefix
      | tail _ _ hzero =>
        rw [hzero] at hpos
        exact absurd hpos (UInt64.lt_irrefl _)
    · cases hs.origin with
      | cursor hpos _ =>
        rw [hzero] at hpos
        exact absurd hpos (UInt64.lt_irrefl _)
      | tail p count _ _ hfirst hresume hanswer =>
        rw [hfirst]
        exact ⟨⟨count, hresume⟩, hanswer ▸ hprefix⟩
    · intro p hp e he hlt
      rcases hs.carried p hp e he with hle | hin
      · exact absurd hle (UInt64.not_le.2 hlt)
      · exact hin

/-- Whatever happened before an attachment, whatever log its server holds and whatever
happens then, what is delivered is a part of the log without a gap. -/
theorem delivered_of_run (endpoint : Endpoint) (config : StreamConfig) (before : List Action)
    (session : String) (cursor : UInt64) (log : List Event) (hordered : Log.Ordered log)
    (h : Hosted) (notices : List Notice)
    (hrun : Run (attach (System.after endpoint config before) session cursor log) notices h) :
    h.Delivered cursor (Notice.events notices) :=
  ((kept_attach (System.sound_after endpoint config before) session cursor hordered).run
    hrun).delivered

set_option maxRecDepth 2000 in
/-- An attachment without a cursor receives two events and a frame that is none, loses its
connection while the log grows, and goes on from its cursor with an old event and the new one. -/
theorem delivered_of_run_resumed :
    let endpoint : Endpoint := ⟨⟨.http, "", none, .name "localhost", none, [""], none, none⟩, none⟩
    let user : UInt64 → Event := fun seq => ⟨"", "", 0, seq, "user", none⟩
    Log.Ordered [user 3, user 5] ∧ ∃ notices h,
      Run (attach (System.after endpoint .default []) "a" 0 [user 3, user 5]) notices h ∧
        h.replays.map Replay.resume = [.lastN 256, .fromSeq 6] ∧
          Notice.events notices = [user 3, user 5, user 6] ∧
            h.Delivered 0 (Notice.events notices) := by
  intro endpoint user
  have hordered : Log.Ordered [user 3, user 5] := ⟨by simp [user], by simp [user]⟩
  have hgrown : Log.Ordered [user 3, user 5, user 6] := ⟨by simp [user], by simp [user]⟩
  have hfirst : Event.decode? "\x7b\"seq\":3,\"kind\":\"user\"\x7d" = some (user 3) := rfl
  have hsecond : Event.decode? "\x7b\"seq\":5,\"kind\":\"user\"\x7d" = some (user 5) := rfl
  have hlate : Event.decode? "\x7b\"seq\":6,\"kind\":\"user\"\x7d" = some (user 6) := rfl
  have hmalformed : Event.decode? "x" = none := rfl
  let start := attach (System.after endpoint .default []) "a" 0 [user 3, user 5]
  let opening : List Notice :=
    [.ticketRequest, .opening (endpoint.streamUrl "a" "t" (.lastN 256)), .state .connected]
  let again : List Notice :=
    [.state (.reconnecting 1), .ticketRequest,
      .opening (endpoint.streamUrl "a" "u" (.fromSeq 6)), .state .connected]
  let told : UInt64 → List Notice := fun seq => [.persist "a" seq, .event (user seq)]
  let reading : UInt64 → Nat → Hosted := fun cursor sent =>
    ⟨⟨⟨endpoint, .default, 1, some "a", ⟨cursor⟩, .connected, some 0, none, none, [⟨[], true⟩]⟩,
      [⟨⟨1, "a", 0, .frames 0⟩, false⟩]⟩, [user 3, user 5],
      some (endpoint.streamUrl "a" "t" (.lastN 256)), [⟨.lastN 256, 2, sent⟩]⟩
  let resumed : Hosted :=
    ⟨⟨⟨endpoint, .default, 1, some "a", ⟨5⟩, .connected, some 1, none, none,
      [⟨[], true⟩, ⟨[], true⟩]⟩, [⟨⟨1, "a", 1, .frames 1⟩, false⟩]⟩, [user 3, user 5, user 6],
      some (endpoint.streamUrl "a" "u" (.fromSeq 6)), [⟨.lastN 256, 2, 2⟩, ⟨.fromSeq 6, 3, 0⟩]⟩
  have hopened : Run start opening (reading 0 0) := by
    have hstart := Run.refl (h := start)
    have hticket := hstart.step (.other (.wake 1 .start) nofun rfl fun _ h => nomatch h.1)
    have hasked := hticket.step
      (.other (.wake 1 (.ticket (.ok "t"))) nofun rfl fun _ h => nomatch h.1)
    exact hasked.step (.accept (.wake 1 (.opened (.ok true))) _ _ rfl rfl
      (Resume.ofUrl?_streamUrl endpoint "a" "t" (.lastN 256)))
  have hone : Run start (opening ++ told 3) (reading 3 1) := by
    have hread := hopened.step (.frame (.wake 1 (.incoming (some (.text _)))) _ [] _ _
      ⟨rfl, 0, rfl⟩ rfl (.next _ hfirst rfl))
    exact hread
  have hnoise : Run start (opening ++ told 3) (reading 3 1) := by
    have hread := hone.step (.frame (.wake 1 (.incoming (some (.text _)))) _ [] _ _
      ⟨rfl, 0, rfl⟩ rfl (.malformed hmalformed))
    exact hread
  have htwo : Run start (opening ++ told 3 ++ told 5) (reading 5 2) := by
    have hread := hnoise.step (.frame (.wake 1 (.incoming (some (.text _)))) _ [] _ _
      ⟨rfl, 0, rfl⟩ rfl (.next _ hsecond rfl))
    exact hread
  have hagain : Run start (opening ++ told 3 ++ told 5 ++ again) resumed := by
    have hlost := htwo.step (.other (.wake 1 (.incoming none)) nofun rfl fun _ h => nomatch h.1)
    have hgrew := hlost.step (.grow (user 6) hgrown)
    have hretry := hgrew.step (.other (.wake 1 .elapsed) nofun rfl fun _ h => nomatch h.1)
    have hasked := hretry.step
      (.other (.wake 1 (.ticket (.ok "u"))) nofun rfl fun _ h => nomatch h.1)
    have haccepted := hasked.step (.accept (.wake 1 (.opened (.ok true))) _ _ rfl rfl
      (Resume.ofUrl?_streamUrl endpoint "a" "u" (.fromSeq 6)))
    exact haccepted
  have hold : Run start (opening ++ told 3 ++ told 5 ++ again) resumed := by
    have hread := hagain.step (.frame (.wake 1 (.incoming (some (.text _)))) _ [_] _ _
      ⟨rfl, 1, rfl⟩ rfl (.old _ 6 hsecond rfl (by decide)))
    exact hread
  have hthree := hold.step (.frame (.wake 1 (.incoming (some (.text _)))) _ [_] _ _
    ⟨rfl, 1, rfl⟩ rfl (.next _ hlate rfl))
  exact ⟨hordered, _, _, hthree, rfl, rfl,
    delivered_of_run endpoint .default [] "a" 0 _ hordered _ _ hthree⟩

end Hosted

end RemoteSession
