import RemoteSession.Text.Utf8

/-!
# Lines of the input

The input comes in chunks that end anywhere, also within a character. A line
ends at a line feed; that and one carriage return before it do not belong to
its text. What follows the last line feed is a line too, unless it is empty.
The first line that is no text ends the input.
-/

namespace RemoteSession.Terminal

/-- The octet that ends a line. -/
def lineFeed : UInt8 := 10

/-- The octet that may stand before the end of a line. -/
def carriageReturn : UInt8 := 13

/-- A line without its end, which is a line feed with or without a carriage
return, or a carriage return alone where the input ends. -/
def withoutEnd (octets : List UInt8) : List UInt8 :=
  let line := if octets.getLast? = some lineFeed then octets.dropLast else octets
  if line.getLast? = some carriageReturn then line.dropLast else line

/-- The reader of lines: the octets of the line that has not ended, and whether
an earlier one was no text. -/
structure LineReader where
  rest : List UInt8
  failed : Bool
deriving DecidableEq, Repr

namespace LineReader

/-- The reader before any input. -/
def start : LineReader := ⟨[], false⟩

/-- A line with its end, and whether it is text. -/
def complete (line : List UInt8) : LineReader × List String :=
  match Text.Utf8.decode? line with
  | some _ => (start, ((Text.Utf8.decode? (withoutEnd line)).toList))
  | none => (⟨[], true⟩, [])

/-- One octet of the input. -/
def take (r : LineReader) (octet : UInt8) : LineReader × List String :=
  if r.failed then (r, [])
  else if octet = lineFeed then complete (r.rest ++ [octet])
  else ({ r with rest := r.rest ++ [octet] }, [])

/-- A chunk of the input, and the lines that ended in it. -/
def feed (r : LineReader) : List UInt8 → LineReader × List String
  | [] => (r, [])
  | octet :: rest =>
    let (r, now) := r.take octet
    let (r, later) := r.feed rest
    (r, now ++ later)

/-- Some chunks one after another. -/
def feedAll (r : LineReader) : List (List UInt8) → LineReader × List String
  | [] => (r, [])
  | chunk :: rest =>
    let (r, now) := r.feed chunk
    let (r, later) := r.feedAll rest
    (r, now ++ later)

/-- The last line, where the input ends without a line feed. -/
def finish (r : LineReader) : List String :=
  if r.failed || r.rest.isEmpty then [] else (complete r.rest).2

/-- All lines of an input that comes in chunks. -/
def lines (chunks : List (List UInt8)) : List String :=
  let (r, found) := start.feedAll chunks
  found ++ r.finish

/-- A chunk may be cut anywhere. -/
theorem feed_append (r : LineReader) (a b : List UInt8) :
    r.feed (a ++ b) =
      (((r.feed a).1.feed b).1, (r.feed a).2 ++ ((r.feed a).1.feed b).2) := by
  induction a generalizing r with
  | nil => simp [feed]
  | cons octet rest ih => simp [feed, ih, List.append_assoc]

end LineReader

end RemoteSession.Terminal
