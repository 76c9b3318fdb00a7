import RemoteSession.Proofs.Stream.Reports
import RemoteSession.Proofs.Url.Forms

/-!
# A server of events

A server holds the events of a session in the order of their numbers, and its log may
grow. It answers an address by what the address asks for (`Resume.ofUrl?`) : the events
from a number on, or the last of those it then has, and all that follow them
(`Resume.answer`). A connection carries them in order, and between them frames that are
no events, events it has carried before, and, after an address that names a number, any
with a lower one (`Replay.Carries`).

`Hosted` is a client with such a server, and `Hosted.Step` all that may happen to the
two of them while a session is attached : the client reads what the server sends to the
run of the current generation, the connections of that run open as the server answers,
and everything else is as it may be, losses and failures at any time and late wakes of
earlier runs among it.
-/

namespace RemoteSession

/-! ## Addresses -/

namespace Resume

/-- The number that digits stand for, below a bound. -/
def number? (bound : Nat) (digits : List Char) : Option Nat :=
  if digits ≠ [] ∧ digits.all Char.isDigit ∧ Nat.ofDigitChars 10 digits 0 < bound then
    some (Nat.ofDigitChars 10 digits 0)
  else none

/-- What a pair of a query asks for. -/
def ofPair? (pair : List Char) : Option Resume :=
  match Endpoint.afterStart? "from_seq=".toList pair,
    Endpoint.afterStart? "last_n=".toList pair with
  | some digits, _ => (number? UInt64.size digits).map fun n => .fromSeq (.ofNat n)
  | none, some digits => (number? UInt32.size digits).map fun n => .lastN (.ofNat n)
  | none, none => none

/-- What an address asks for : the first pair of its query that asks for anything. -/
def ofUrl? (url : Url) : Option Resume :=
  (Url.splitAt (· == '&') (url.query.getD "").toList).findSome? ofPair?

theorem number?_toDigits {bound n : Nat} (h : n < bound) :
    number? bound (Nat.toDigits 10 n) = some n := by
  have hall : (Nat.toDigits 10 n).all Char.isDigit = true :=
    List.all_eq_true.2 fun c hc => Nat.isDigit_of_mem_toDigits (by decide) (by decide) hc
  unfold number?
  rw [Nat.ofDigitChars_ten_toDigits, if_pos ⟨Nat.toDigits_ne_nil, hall, h⟩]

/-- Digits stand for themselves in a form. -/
theorem formChar_of_isDigit {c : Char} (h : c.isDigit = true) : Url.Percent.formChar c = [c] := by
  have hlt : c.toNat < 0x80 := by
    have := (Char.isDigit_iff_toNat.1 h).2
    have hnine : '9'.toNat = 57 := rfl
    omega
  have hsafe : Url.Percent.isFormSafe c = true := by
    simp [Url.Percent.isFormSafe, Char.isAlphanum, h]
  have hblank : c ≠ ' ' := by
    rintro rfl
    cases h
  simp [Url.Percent.formChar, hblank, Url.Percent.encodeChar, hlt, hsafe]

theorem formEncode_toString (n : Nat) :
    Url.Percent.formEncode (toString n) = Nat.toDigits 10 n := by
  have hdigits : ∀ c ∈ Nat.toDigits 10 n, Url.Percent.formChar c = [c] := fun c hc =>
    formChar_of_isDigit (Nat.isDigit_of_mem_toDigits (by decide) (by decide) hc)
  unfold Url.Percent.formEncode
  rw [Nat.toString_eq_repr, Nat.toList_repr]
  generalize Nat.toDigits 10 n = digits at hdigits ⊢
  induction digits with
  | nil => rfl
  | cons c rest ih =>
    rw [List.flatMap_cons, hdigits c List.mem_cons_self,
      ih fun d hd => hdigits d (List.mem_cons_of_mem c hd)]
    rfl

/-- A server finds in a pair what the client put there. -/
theorem ofPair?_pair (r : Resume) :
    ofPair? (Url.formPair r.pair.1 r.pair.2).toList = some r := by
  cases r with
  | fromSeq seq =>
    have hname : Url.Percent.formEncode "from_seq" = "from_seq".toList := by decide
    have hpair : ofPair? ("from_seq".toList ++ '=' :: Nat.toDigits 10 seq.toNat) =
        (number? UInt64.size (Nat.toDigits 10 seq.toNat)).map fun n => .fromSeq (.ofNat n) := rfl
    simp only [pair]
    rw [Url.toList_formPair, formEncode_toString, hname, hpair, number?_toDigits seq.toNat_lt,
      Option.map_some, UInt64.ofNat_toNat]
  | lastN count =>
    have hname : Url.Percent.formEncode "last_n" = "last_n".toList := by decide
    have hpair : ofPair? ("last_n".toList ++ '=' :: Nat.toDigits 10 count.toNat) =
        (number? UInt32.size (Nat.toDigits 10 count.toNat)).map fun n => .lastN (.ofNat n) := rfl
    simp only [pair]
    rw [Url.toList_formPair, formEncode_toString, hname, hpair, number?_toDigits count.toNat_lt,
      Option.map_some, UInt32.ofNat_toNat]

end Resume

/-- The query of the address of a stream says where it resumes, and its ticket. -/
theorem Endpoint.splitAt_streamUrl (e : Endpoint) (session ticket : String) (r : Resume) :
    Url.splitAt (· == '&') ((e.streamUrl session ticket r).query.getD "").toList =
      [(Url.formPair r.pair.1 r.pair.2).toList, (Url.formPair "ticket" ticket).toList] := by
  have hquery : ((e.streamUrl session ticket r).query.getD "").toList =
      (Url.formPair r.pair.1 r.pair.2).toList ++ '&' :: (Url.formPair "ticket" ticket).toList := by
    simp [streamUrl, String.toList_append]
  have hpair : ∀ name value, ∀ c ∈ (Url.formPair name value).toList, (c == '&') = false :=
    fun name value c hc => beq_eq_false_iff_ne.2 (Url.ne_of_mem_formPair hc rfl (by decide))
  rw [hquery, Url.splitAt_append _ (hpair _ _) rfl, Url.splitAt_of_forall (hpair _ _)]

/-- A server reads from the address of a stream where the client resumes. -/
theorem Resume.ofUrl?_streamUrl (endpoint : Endpoint) (session ticket : String) (r : Resume) :
    Resume.ofUrl? (endpoint.streamUrl session ticket r) = some r := by
  rw [Resume.ofUrl?, Endpoint.splitAt_streamUrl, List.findSome?_cons, Resume.ofPair?_pair]

/-! ## Logs -/

namespace Log

/-- The events of a log have numbers from one on, each greater than the one before. -/
structure Ordered (log : List Event) : Prop where
  pos : ∀ e ∈ log, 0 < e.seq
  pairwise : log.Pairwise fun a b => a.seq < b.seq

/-- The events up to a cursor. -/
def upTo (log : List Event) (cursor : UInt64) : List Event :=
  log.filter fun e => e.seq ≤ cursor

/-- The events after a cursor. -/
def after (log : List Event) (cursor : UInt64) : List Event :=
  log.filter fun e => cursor < e.seq

end Log

/-! ## Connections -/

/-- The events for who resumes here, of a log that had so many when the connection
opened. -/
def Resume.answer (r : Resume) (known : Nat) (log : List Event) : List Event :=
  match r with
  | .fromSeq seq => log.filter fun e => seq ≤ e.seq
  | .lastN count => log.drop (known - count.toNat)

/-- A connection as the server keeps it. -/
structure Replay where
  resume : Resume
  /-- The events of the log when it opened. -/
  known : Nat
  /-- The events of its answer that it has carried. -/
  sent : Nat

namespace Replay

/-- The events that a connection carries, in order. -/
def answer (p : Replay) (log : List Event) : List Event :=
  p.resume.answer p.known log

/-- What a connection has carried of its answer. -/
def carried (p : Replay) (log : List Event) : List Event :=
  (p.answer log).take p.sent

/-- A frame that a connection may carry next. -/
inductive Carries (log : List Event) (p : Replay) (content : String) : Replay → Prop where
  | next (e : Event) : Event.decode? content = some e → (p.answer log)[p.sent]? = some e →
    Carries log p content { p with sent := p.sent + 1 }
  | again (e : Event) : Event.decode? content = some e → e ∈ p.carried log →
    Carries log p content p
  | old (e : Event) (seq : UInt64) : Event.decode? content = some e → p.resume = .fromSeq seq →
    e.seq < seq → Carries log p content p
  | malformed : Event.decode? content = none → Carries log p content p

end Replay

/-! ## A client with a server -/

/-- The address that is asked for last. -/
def Notice.asked? (notices : List Notice) : Option Url :=
  notices.reverse.findSome? fun
    | .opening url => some url
    | _ => none

/-- The events that are told, in order. -/
def Notice.events (notices : List Notice) : List Event :=
  notices.filterMap fun
    | .event e => some e
    | _ => none

/-- A client and the server of the session that is attached. -/
structure Hosted where
  system : System
  log : List Event
  /-- The address that the run of the current generation asked for last. -/
  asked : Option Url
  /-- The connections of that run, in order. -/
  replays : List Replay

namespace Hosted

/-- An attachment, before any connection. -/
def attach (s : System) (session : String) (cursor : UInt64) (log : List Event) : Hosted :=
  ⟨(s.step (.attach session cursor)).1, log, none, []⟩

/-- Whether an action is a text for the run of the current generation, which reads its
connection. -/
def reads (s : System) (content : String) (a : Action) : Prop :=
  a = .wake s.client.generation (.incoming (some (.text content))) ∧
    ∃ link, s.wait? s.client.generation = some (.frames link)

/-- What happens to a client and its server while a session is attached, with what the
client then lets others know. -/
inductive Step (h : Hosted) : List Notice → Hosted → Prop where
  /-- The log grows. -/
  | grow (e : Event) : Log.Ordered (h.log ++ [e]) → Step h [] { h with log := h.log ++ [e] }
  /-- The server answers the address that was asked for, and the connection opens. -/
  | accept (a : Action) (url : Url) (r : Resume) : h.system.opens a = true →
    h.asked = some url → Resume.ofUrl? url = some r →
    Step h (h.system.step a).2
      { h with
        system := (h.system.step a).1, replays := h.replays ++ [⟨r, h.log.length, 0⟩] }
  /-- The connection carries a frame to its run. -/
  | frame (a : Action) (content : String) (before : List Replay) (p p' : Replay) :
    reads h.system content a → h.replays = before ++ [p] → p.Carries h.log content p' →
    Step h (h.system.step a).2
      { h with system := (h.system.step a).1, replays := before ++ [p'] }
  /-- Anything else but another attachment. -/
  | other (a : Action) : (∀ session cursor, a ≠ .attach session cursor) →
    h.system.opens a = false → (∀ content, ¬reads h.system content a) →
    Step h (h.system.step a).2
      { h with
        system := (h.system.step a).1
        asked := (Notice.asked? (h.system.step a).2).or h.asked }

/-- What happens over time, with what the client lets others know. -/
inductive Run (h : Hosted) : List Notice → Hosted → Prop where
  | refl : Run h [] h
  | step {notices now : List Notice} {h' h'' : Hosted} : Run h notices h' → Step h' now h'' →
    Run h (notices ++ now) h''

end Hosted

end RemoteSession
