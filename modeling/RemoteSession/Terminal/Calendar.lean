/-!
# The calendar

Days and times of day, counted in all years as they are today. An instant in seconds from the
start of 1970 is a moment of universal time, and the moment at an offset from it is found by
carrying: what is too much or too little for the seconds goes to the minutes, then to the
hours, and from there to the day, which may then be in another year.
-/

namespace RemoteSession.Clock

/-! ## Days -/

/-- Every fourth year has a day more, but of those that begin a century only every fourth. -/
def isLeap (year : Int) : Bool :=
  year % 4 == 0 && (year % 100 != 0 || year % 400 == 0)

/-- How many days a year has. -/
def yearLength (year : Int) : Int :=
  if isLeap year then 366 else 365

/-- How many days after the first day of 1970 a year begins. -/
def yearStart (year : Int) : Int :=
  let before := year - 1
  365 * before + before / 4 - before / 100 + before / 400 - 719162

/-- A day: its year, and its place there from 1. -/
structure Day where
  year : Int
  place : Int
deriving DecidableEq, Repr

namespace Day

/-- How many days after the first day of 1970 a day is. -/
def count (d : Day) : Int :=
  yearStart d.year + d.place - 1

/-- The day so many days after the first day of 1970. The years are in groups of four hundred
from the year 1 on, these in centuries, and these in groups of four; the last century and the
last year of a group have a day more than the others, which is theirs and begins no new one. -/
@[irreducible] def ofCount (n : Int) : Day :=
  let days := n + 719162
  let group := days / 146097
  let century := min (days % 146097 / 36524) 3
  let ofCentury := days % 146097 - 36524 * century
  let four := ofCentury / 1461
  let year := min (ofCentury % 1461 / 365) 3
  ⟨400 * group + 100 * century + 4 * four + year + 1, ofCentury % 1461 - 365 * year + 1⟩

/-- The day some days later, or earlier if there are less than none. -/
def add (d : Day) (days : Int) : Day :=
  ofCount (d.count + days)

/-- The first year of the calendar. -/
def firstYear : Int := -9999

/-- The last year of the calendar. -/
def lastYear : Int := 9999

/-- Whether the year of a day belongs to the calendar. -/
def inCalendar (d : Day) : Bool :=
  firstYear ≤ d.year && d.year ≤ lastYear

end Day

/-! ## Moments -/

/-- How many seconds a day has. -/
def dayLength : Nat := 86400

/-- A distance from universal time. Its hours, minutes and seconds have the same sign. -/
structure Offset where
  hours : Int
  minutes : Int
  seconds : Int
deriving DecidableEq, Repr

/-- The offset of so many seconds to the east. -/
def Offset.ofSeconds (n : Int) : Offset :=
  ⟨n.tdiv 3600, (n.tmod 3600).tdiv 60, n.tmod 60⟩

/-- A day and a time of it. -/
structure Moment where
  day : Day
  hour : Int
  minute : Int
  second : Int
deriving DecidableEq, Repr

namespace Moment

/-- The moment of universal time so many seconds after the start of 1970. -/
def ofSeconds (n : Int) : Moment :=
  let rest := n % dayLength
  ⟨.ofCount (n / dayLength), rest / 3600, rest % 3600 / 60, rest % 60⟩

/-- The moment of universal time so many nanoseconds after the start of 1970. -/
def ofNanos (n : Int) : Moment :=
  ofSeconds (n / 1000000000)

/-- What a moment of universal time is at an offset. -/
def shift (m : Moment) (o : Offset) : Moment :=
  let second := m.second + o.seconds
  let minute := m.minute + o.minutes + second / 60
  let hour := m.hour + o.hours + minute / 60
  ⟨m.day.add (hour / 24), hour % 24, minute % 60, second % 60⟩

end Moment

end RemoteSession.Clock
