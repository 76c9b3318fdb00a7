import RemoteSession.Terminal.Calendar

/-!
# The clock

The time of day of an instant, in hours, minutes and seconds at an offset from
universal time. The calendar has the years from -9999 to 9999: an instant
outside has no time of day, and one that only the offset moves outside cannot
be shown at all.
-/

namespace RemoteSession.Clock

/-- Two digits. -/
def twoDigits (n : Nat) : String :=
  if n < 10 then "0" ++ toString n else toString n

/-- The time of day of a moment. -/
def Moment.time (m : Moment) : String :=
  twoDigits m.hour.toNat ++ ":" ++ twoDigits m.minute.toNat ++ ":" ++ twoDigits m.second.toNat

/-- What is shown for an instant without a time of day. -/
def unknown : String := "--:--:--"

/-- An instant inside the calendar whose local time is outside. -/
structure Overflow where
  tsMs : Int64
  offset : Int
deriving DecidableEq, Repr

/-- The moment of universal time of an instant in milliseconds. -/
def universal (tsMs : Int64) : Moment :=
  .ofNanos (tsMs.toInt * 1000000)

/-- The moment of an instant at an offset in seconds. -/
def localTo (offset : Int) (tsMs : Int64) : Moment :=
  (universal tsMs).shift (.ofSeconds offset)

/-- The time of day of an instant in milliseconds, at an offset in seconds. -/
def read (tsMs : Int64) (offset : Int) : Except Overflow String :=
  if !(universal tsMs).day.inCalendar then .ok unknown
  else if !(localTo offset tsMs).day.inCalendar then .error ⟨tsMs, offset⟩
  else .ok (localTo offset tsMs).time

end RemoteSession.Clock
