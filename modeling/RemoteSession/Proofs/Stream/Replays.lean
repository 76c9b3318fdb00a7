import RemoteSession.Proofs.Stream.Server

/-!
# Answers of a server

Facts about logs in order and what a connection carries of them. A cursor splits a log
into the events up to it and those after it (`Log.upTo_append_after`). A connection
serves a client at a cursor when all later events of the log are still to come on it
(`Replay.Serves`); the one that opens at the cursor does (`serves_ofCursor`), it goes on
doing so while the log grows (`Serves.grow`) and while it carries frames, and the next
event that is new to the client is the first one after its cursor (`Serves.first`).
-/

namespace RemoteSession

/-! ## Logs in order -/

namespace Log

variable {log : List Event} {base g : UInt64} {e : Event}

theorem mem_upTo : e ∈ upTo log g ↔ e ∈ log ∧ e.seq ≤ g := by
  simp [upTo]

theorem mem_after : e ∈ after log g ↔ e ∈ log ∧ g < e.seq := by
  simp [after]

theorem upTo_append (xs ys : List Event) : upTo (xs ++ ys) g = upTo xs g ++ upTo ys g :=
  List.filter_append ..

theorem after_append (xs ys : List Event) : after (xs ++ ys) g = after xs g ++ after ys g :=
  List.filter_append ..

theorem upTo_eq_nil (h : ∀ x ∈ log, g < x.seq) : upTo log g = [] :=
  List.filter_eq_nil_iff.2 fun x hx => by simpa using h x hx

theorem upTo_eq_self (h : ∀ x ∈ log, x.seq ≤ g) : upTo log g = log :=
  List.filter_eq_self.2 fun x hx => by simpa using h x hx

theorem after_eq_nil (h : ∀ x ∈ log, x.seq ≤ g) : after log g = [] :=
  List.filter_eq_nil_iff.2 fun x hx => by simpa using h x hx

theorem after_eq_self (h : ∀ x ∈ log, g < x.seq) : after log g = log :=
  List.filter_eq_self.2 fun x hx => by simpa using h x hx

theorem after_after (h : base ≤ g) : after (after log base) g = after log g := by
  unfold after
  rw [List.filter_filter]
  refine List.filter_congr fun x _ => ?_
  by_cases hx : g < x.seq
  · simp [hx, UInt64.lt_of_le_of_lt h hx]
  · simp [hx]

theorem Ordered.after (h : Ordered log) (g : UInt64) : Ordered (after log g) :=
  ⟨fun e he => h.pos e (mem_after.1 he).1, h.pairwise.filter _⟩

/-- A cursor splits a log. -/
theorem upTo_append_after (h : Ordered log) (g : UInt64) : upTo log g ++ Log.after log g = log := by
  induction log with
  | nil => rfl
  | cons x rest ih =>
    obtain ⟨hlt, hrest⟩ := List.pairwise_cons.1 h.pairwise
    have hih := ih ⟨fun e he => h.pos e (List.mem_cons_of_mem x he), hrest⟩
    by_cases hx : x.seq ≤ g
    · rw [upTo, Log.after, List.filter_cons_of_pos (by simpa using hx),
        List.filter_cons_of_neg (by simpa using hx)]
      exact congrArg (x :: ·) hih
    · have hall : ∀ y ∈ x :: rest, g < y.seq := by
        intro y hy
        rcases List.mem_cons.1 hy with rfl | hy
        · exact UInt64.not_le.1 hx
        · exact UInt64.lt_trans (UInt64.not_le.1 hx) (hlt y hy)
      rw [upTo_eq_nil hall, after_eq_self hall, List.nil_append]

/-- The events up to a cursor are the beginning of a log. -/
theorem upTo_prefix (h : Ordered log) (g : UInt64) : upTo log g <+: log :=
  ⟨_, upTo_append_after h g⟩

/-- The events after a cursor are the end of a log. -/
theorem after_suffix (h : Ordered log) (g : UInt64) : Log.after log g <:+ log :=
  ⟨_, upTo_append_after h g⟩

/-- The events before and after the first one of a rest. -/
theorem Ordered.split (h : Ordered log) {before rest : List Event}
    (hlog : log = before ++ e :: rest) :
    (∀ x ∈ before, x.seq < e.seq) ∧ ∀ x ∈ rest, e.seq < x.seq := by
  have hp := h.pairwise
  rw [hlog, List.pairwise_append, List.pairwise_cons] at hp
  exact ⟨fun x hx => hp.2.2 x hx e List.mem_cons_self, hp.2.1.1⟩

/-- A cursor that moves to the next event takes in just this one. -/
theorem upTo_next (h : Ordered log) {rest : List Event} (hnext : Log.after log g = e :: rest) :
    upTo log e.seq = upTo log g ++ [e] ∧ Log.after log e.seq = rest := by
  have hlog : log = upTo log g ++ e :: rest := by
    rw [← hnext, upTo_append_after h]
  obtain ⟨hbefore, hafter⟩ := h.split hlog
  have hself : upTo [e] e.seq = [e] := by simp [upTo]
  have hnone : Log.after [e] e.seq = [] := by simp [Log.after]
  have hsplit : log = upTo log g ++ ([e] ++ rest) := hlog
  constructor
  · calc upTo log e.seq = upTo (upTo log g ++ ([e] ++ rest)) e.seq := congrArg (upTo · e.seq) hsplit
      _ = upTo log g ++ ([e] ++ []) := by
          rw [upTo_append, upTo_append, hself, upTo_eq_nil hafter,
            upTo_eq_self fun x hx => UInt64.le_of_lt (hbefore x hx)]
      _ = upTo log g ++ [e] := by rw [List.append_nil]
  · calc Log.after log e.seq = Log.after (upTo log g ++ ([e] ++ rest)) e.seq :=
          congrArg (Log.after · e.seq) hsplit
      _ = [] ++ ([] ++ rest) := by
          rw [after_append, after_append, hnone, after_eq_self hafter,
            after_eq_nil fun x hx => UInt64.le_of_lt (hbefore x hx)]
      _ = rest := rfl

theorem pred_lt_iff {n m : UInt64} (h : 0 < n) : n - 1 < m ↔ n ≤ m := by
  rw [UInt64.lt_iff_toNat_lt] at h ⊢
  have hle : 1 ≤ n := by
    rw [UInt64.le_iff_toNat_le]
    exact h
  rw [UInt64.le_iff_toNat_le, UInt64.toNat_sub_of_le _ _ hle]
  have hone : (1 : UInt64).toNat = 1 := rfl
  have hzero : (0 : UInt64).toNat = 0 := rfl
  omega

/-- The last event of a log that has grown is after all others. -/
theorem Ordered.lt_last (h : Ordered (log ++ [e])) : ∀ x ∈ log, x.seq < e.seq :=
  (h.split rfl).1

end Log

/-! ## Cursors and addresses -/

namespace Resume

theorem successor_eq (n : UInt64) :
    n.toNat = 18446744073709551615 ∧ successor n = n ∨
      n.toNat < 18446744073709551615 ∧ (successor n).toNat = n.toNat + 1 := by
  unfold successor
  split
  · next h => exact .inl ⟨by rw [h]; rfl, rfl⟩
  · next h =>
    have hne : n.toNat ≠ 18446744073709551615 := fun hn => h (UInt64.toNat_inj.1 hn)
    have hlt := n.toNat_lt
    have hadd : (n + 1).toNat = n.toNat + 1 := by
      rw [UInt64.toNat_add, show (1 : UInt64).toNat = 1 from rfl, Nat.mod_eq_of_lt (by omega)]
    exact .inr ⟨by omega, hadd⟩

theorem le_successor (n : UInt64) : n ≤ successor n := by
  rw [UInt64.le_iff_toNat_le]
  rcases successor_eq n with ⟨-, h⟩ | ⟨-, h⟩
  · exact Nat.le_of_eq (congrArg UInt64.toNat h.symm)
  · omega

/-- What comes after a number is its successor or comes after that. -/
theorem successor_le {n m : UInt64} (h : n < m) : successor n ≤ m := by
  rw [UInt64.lt_iff_toNat_lt] at h
  have := m.toNat_lt
  rw [UInt64.le_iff_toNat_le]
  rcases successor_eq n with ⟨hn, -⟩ | ⟨-, heq⟩ <;> omega

/-- What comes before the successor of a number does not come after the number. -/
theorem le_of_lt_successor {n m : UInt64} (h : m < successor n) : m ≤ n := by
  rw [UInt64.lt_iff_toNat_lt] at h
  rw [UInt64.le_iff_toNat_le]
  rcases successor_eq n with ⟨-, heq⟩ | ⟨-, heq⟩
  · rw [heq] at h
    omega
  · omega

end Resume

/-! ## What connections carry -/

namespace Replay

variable {log : List Event} {p : Replay} {g base cursor : UInt64} {e : Event}

/-- A connection knows no more of the log and has carried no more of it than there is. -/
structure Valid (p : Replay) (log : List Event) : Prop where
  known : p.known ≤ log.length
  sent : p.sent ≤ (p.answer log).length

/-- A connection on which all events after a cursor are still to come. -/
structure Serves (p : Replay) (log : List Event) (cursor base g : UInt64) : Prop where
  missing : Log.after ((p.answer log).drop p.sent) g = Log.after log g
  /-- What the client did not ask for is not after its cursor. -/
  floor : ∀ seq, p.resume = .fromSeq seq → ∀ n < seq, n ≤ g
  inside : ∀ x ∈ p.answer log, x.seq ≤ cursor ∨ base < x.seq

theorem answer_fromSeq {seq : UInt64} (hp : p.resume = .fromSeq seq) (log : List Event) :
    p.answer log = log.filter fun e => seq ≤ e.seq := by
  rw [answer, hp]
  rfl

theorem answer_lastN {count : UInt32} (hp : p.resume = .lastN count) (log : List Event) :
    p.answer log = log.drop (p.known - count.toNat) := by
  rw [answer, hp]
  rfl

/-- What a connection carries of a log that has grown. -/
theorem answer_append (hp : p.known ≤ log.length) (e : Event) :
    p.answer (log ++ [e]) = p.answer log ++ [e] ∨
      p.answer (log ++ [e]) = p.answer log ∧ ∃ seq, p.resume = .fromSeq seq ∧ e.seq < seq := by
  cases hr : p.resume with
  | fromSeq seq =>
    rw [answer_fromSeq hr, answer_fromSeq hr, List.filter_append]
    by_cases he : seq ≤ e.seq
    · exact .inl (by simp [he])
    · exact .inr ⟨by simp [he], seq, rfl, UInt64.not_le.1 he⟩
  | lastN count =>
    rw [answer_lastN hr, answer_lastN hr]
    exact .inl (List.drop_append_of_le_length (by omega))

theorem mem_answer (he : e ∈ p.answer log) : e ∈ log := by
  cases hr : p.resume with
  | fromSeq seq =>
    rw [answer_fromSeq hr] at he
    exact (List.mem_filter.1 he).1
  | lastN count =>
    rw [answer_lastN hr] at he
    exact List.mem_of_mem_drop he

theorem Valid.grow (hp : p.Valid log) (e : Event) : p.Valid (log ++ [e]) := by
  refine ⟨?_, ?_⟩
  · have := hp.known
    simp only [List.length_append, List.length_singleton]
    omega
  · have := hp.sent
    rcases answer_append hp.known e with h | ⟨h, -⟩
    · rw [h]
      simp only [List.length_append, List.length_singleton]
      omega
    · rw [h]
      exact this

theorem Carries.valid {p' : Replay} {content : String} (hcarries : p.Carries log content p')
    (hp : p.Valid log) : p'.Valid log := by
  cases hcarries with
  | next e hd he => exact ⟨hp.known, (List.getElem?_eq_some_iff.1 he).1⟩
  | again => exact hp
  | old => exact hp
  | malformed => exact hp

/-- What a connection has carried does not change when the log grows. -/
theorem Valid.carried_grow (hp : p.Valid log) (e : Event) :
    p.carried (log ++ [e]) = p.carried log := by
  rcases answer_append hp.known e with h | ⟨h, -⟩
  · rw [carried, carried, h, List.take_append_of_le_length hp.sent]
  · rw [carried, carried, h]

theorem carried_next (he : (p.answer log)[p.sent]? = some e) :
    Replay.carried { p with sent := p.sent + 1 } log = p.carried log ++ [e] := by
  have hcons : (p.answer log).take (p.sent + 1) = (p.answer log).take p.sent ++ [e] := by
    rw [List.take_add_one, he]
    rfl
  exact hcons

theorem drop_next (he : (p.answer log)[p.sent]? = some e) :
    (p.answer log).drop p.sent = e :: (p.answer log).drop (p.sent + 1) := by
  obtain ⟨hlt, rfl⟩ := List.getElem?_eq_some_iff.1 he
  exact List.drop_eq_getElem_cons hlt

/-- A connection that opens at a cursor serves a client there. -/
theorem serves_ofCursor {tailLen : UInt32} {known : Nat} (hg : 0 < g)
    (hbase : base = cursor ∨ base < g) :
    Serves ⟨.ofCursor g tailLen, known, 0⟩ log cursor base g := by
  have hr : Resume.ofCursor g tailLen = .fromSeq (Resume.successor g) := if_pos hg
  rw [hr]
  refine ⟨?_, ?_, ?_⟩
  · rw [answer_fromSeq rfl, List.drop_zero, Log.after, List.filter_filter]
    refine List.filter_congr fun x _ => ?_
    by_cases hx : g < x.seq
    · simp [hx, Resume.successor_le hx]
    · simp [hx]
  · intro seq hseq n hn
    cases hseq
    exact Resume.le_of_lt_successor hn
  · intro x hx
    rw [answer_fromSeq rfl] at hx
    have hle : Resume.successor g ≤ x.seq := by simpa using (List.mem_filter.1 hx).2
    rcases hbase with rfl | hlt
    · exact (UInt64.le_or_lt x.seq base)
    · exact .inr (UInt64.lt_of_lt_of_le hlt (UInt64.le_trans (Resume.le_successor g) hle))

/-- A connection goes on serving a client while the log grows. -/
theorem Serves.grow (h : p.Serves log cursor base g) (hp : p.Valid log)
    (he : e.seq ≤ cursor ∨ base < e.seq) : p.Serves (log ++ [e]) cursor base g := by
  refine ⟨?_, h.floor, ?_⟩
  · rcases answer_append hp.known e with heq | ⟨heq, seq, hseq, hlt⟩
    · rw [heq, List.drop_append_of_le_length hp.sent, Log.after_append, Log.after_append, h.missing]
    · have hle := h.floor seq hseq e.seq hlt
      have hnone : Log.after [e] g = [] := Log.after_eq_nil (by simpa using hle)
      rw [heq, Log.after_append, h.missing, hnone, List.append_nil]
  · intro x hx
    rcases answer_append hp.known e with heq | ⟨heq, -⟩
    · rw [heq] at hx
      rcases List.mem_append.1 hx with hx | hx
      · exact h.inside x hx
      · rw [List.mem_singleton.1 hx]
        exact he
    · exact h.inside x (heq ▸ hx)

/-- The next event, when the client has seen it. -/
theorem Serves.skip (h : p.Serves log cursor base g) (he : (p.answer log)[p.sent]? = some e)
    (hle : e.seq ≤ g) : Serves { p with sent := p.sent + 1 } log cursor base g := by
  refine ⟨?_, h.floor, h.inside⟩
  have hmissing := h.missing
  have hnone : Log.after [e] g = [] := Log.after_eq_nil (by simpa using hle)
  rw [drop_next he, ← List.singleton_append, Log.after_append, hnone] at hmissing
  exact hmissing

/-- The next event, when it is new to the client : it is the first one after the
cursor, and the connection serves the client there. -/
theorem Serves.first (h : p.Serves log cursor base g)
    (he : (p.answer log)[p.sent]? = some e) (hlt : g < e.seq) :
    (∃ rest, Log.after log g = e :: rest) ∧
      Serves { p with sent := p.sent + 1 } log cursor base e.seq := by
  have hmissing := h.missing
  have hone : Log.after [e] g = [e] := Log.after_eq_self (by simpa using hlt)
  rw [drop_next he, ← List.singleton_append, Log.after_append, hone, List.singleton_append]
    at hmissing
  have hle := UInt64.le_of_lt hlt
  refine ⟨⟨_, hmissing.symm⟩, ?_, ?_, h.inside⟩
  · calc Log.after ((p.answer log).drop (p.sent + 1)) e.seq
        = Log.after (Log.after ((p.answer log).drop (p.sent + 1)) g) e.seq :=
          (Log.after_after hle).symm
      _ = Log.after (e :: Log.after ((p.answer log).drop (p.sent + 1)) g) e.seq := by
          simp [Log.after]
      _ = Log.after log e.seq := by rw [hmissing, Log.after_after hle]
  · intro seq hseq n hn
    exact UInt64.le_trans (h.floor seq hseq n hn) hle

end Replay

end RemoteSession
