/-!
# Octets as text

Reading octets as UTF-8 by the table of well-formed sequences. `scan` yields
one entry per character and one `none` per maximal ill-formed prefix, so that
strict reading (`decode?`) and reading with a replacement character
(`decodeLossy`) are two views of one scan. `scan_append` says that the scan is
a left fold: what follows never changes an entry already given.
-/

namespace RemoteSession.Text.Utf8

/-- A sequence that has begun: the scalar bits read so far, how many octets
must still come, and the least and greatest value of the next one. -/
structure Pending where
  value : Nat
  more : Nat
  least : Nat
  most : Nat
deriving DecidableEq, Repr

/-- The state between two octets: what is pending, if anything. -/
abbrev State := Option Pending

/-- An octet at the start of a sequence, by the first column of the table of
well-formed sequences. Four leads narrow the octet that follows them, which
rules out spellings longer than needed, surrogates and values past the last
plane. -/
def start (b : UInt8) : List (Option Char) × State :=
  let n := b.toNat
  if n < 0x80 then ([some (Char.ofNat n)], none)
  else if n < 0xC2 then ([none], none)
  else if n < 0xE0 then ([], some ⟨n - 0xC0, 1, 0x80, 0xBF⟩)
  else if n < 0xF0 then
    ([], some ⟨n - 0xE0, 2, if n = 0xE0 then 0xA0 else 0x80, if n = 0xED then 0x9F else 0xBF⟩)
  else if n < 0xF5 then
    ([], some ⟨n - 0xF0, 3, if n = 0xF0 then 0x90 else 0x80, if n = 0xF4 then 0x8F else 0xBF⟩)
  else ([none], none)

/-- Whether the octet continues the sequence. -/
def Pending.accepts (p : Pending) (b : UInt8) : Bool :=
  p.least ≤ b.toNat && b.toNat ≤ p.most

/-- One octet more of a sequence that has begun. -/
def Pending.extend (p : Pending) (b : UInt8) : List (Option Char) × State :=
  let value := p.value * 64 + (b.toNat - 0x80)
  if p.more ≤ 1 then ([some (Char.ofNat value)], none)
  else ([], some ⟨value, p.more - 1, 0x80, 0xBF⟩)

/-- The entries that one octet completes. An octet that does not continue the
pending sequence ends it as ill-formed and starts anew. -/
def step : State → UInt8 → List (Option Char) × State
  | none, b => start b
  | some p, b =>
    if p.accepts b then p.extend b
    else (none :: (start b).1, (start b).2)

/-- The entries of the octets, begun in the given state and not yet ended. -/
def feed : State → List UInt8 → List (Option Char) × State
  | s, [] => ([], s)
  | s, b :: rest =>
    let (now, t) := step s b
    let (later, u) := feed t rest
    (now ++ later, u)

/-- A sequence still pending at the end is ill-formed. -/
def finish : State → List (Option Char)
  | none => []
  | some _ => [none]

/-- One entry per character, and `none` per maximal ill-formed prefix. -/
def scan (octets : List UInt8) : List (Option Char) :=
  (feed none octets).1 ++ finish (feed none octets).2

/-- Feeding octets in two parts is feeding them at once. -/
theorem feed_append (s : State) (xs ys : List UInt8) :
    feed s (xs ++ ys) =
      ((feed s xs).1 ++ (feed (feed s xs).2 ys).1, (feed (feed s xs).2 ys).2) := by
  induction xs generalizing s with
  | nil => simp [feed]
  | cons b rest ih => simp [feed, ih]

/-- Octets that end between two characters do not touch what follows. -/
theorem scan_append (xs ys : List UInt8) (h : (feed none xs).2 = none) :
    scan (xs ++ ys) = scan xs ++ scan ys := by
  simp [scan, feed_append, h, finish]

/-- The character that stands for octets that are no text. -/
def replacement : Char :=
  Char.ofNat 0xFFFD

/-- The octets as text, `U+FFFD` in place of each maximal ill-formed prefix. -/
def decodeLossy (octets : List UInt8) : String :=
  String.ofList ((scan octets).map (·.getD replacement))

/-- The octets as text, if they are well-formed. -/
def decode? (octets : List UInt8) : Option String :=
  ((scan octets).mapM id).map String.ofList

/-- The octets of a text. -/
def encode (s : String) : List UInt8 :=
  s.toList.flatMap String.utf8EncodeChar

end RemoteSession.Text.Utf8
