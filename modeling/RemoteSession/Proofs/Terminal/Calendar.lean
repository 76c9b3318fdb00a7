import Mathlib.Tactic.ByContra
import RemoteSession.Terminal.Clock

/-!
# Times of day by the calendar

The day of a count has this count and is a day of its year (`Clock.Day.count_ofCount`,
`Clock.Day.valid_ofCount`), for years with and without a leap day and before the year 1 as well.
So a moment of universal time is the instant it was made of, and the moment at an offset is the
instant that much later, however far seconds, minutes and hours were carried
(`Clock.Moment.seconds_ofSeconds`, `Clock.Moment.seconds_shift`). The calendar is a span of
seconds (`Clock.Moment.Valid.inCalendar_eq`), and a time of day is what is left of an instant
when all whole days are taken away (`Clock.Moment.Valid.time_eq`). Hence the clock shows what
floor division gives (`Clock.read_eq`, `Clock.read_of_inCalendar`).
-/

namespace RemoteSession.Clock

variable {year a b : Int} {d : Day} {m : Moment}

/-! ## Years -/

/-- A year has the leap day that is before the next year and not before it. -/
theorem yearLength_eq (year : Int) : yearLength year =
    365 + (year / 4 - (year - 1) / 4) - (year / 100 - (year - 1) / 100) +
      (year / 400 - (year - 1) / 400) := by
  unfold yearLength isLeap
  split
  · next h => simp at h; omega
  · next h => simp at h; omega

theorem yearStart_add_one (year : Int) :
    yearStart (year + 1) = yearStart year + yearLength year := by
  rw [yearLength_eq, yearStart, yearStart, Int.add_sub_cancel]
  omega

theorem yearStart_mono (h : a ≤ b) : yearStart a ≤ yearStart b := by
  unfold yearStart
  dsimp only
  omega

/-- How many whole groups of years came before a year in its group of four hundred. -/
structure Grouped (century four year : Int) : Prop where
  century : 0 ≤ century ∧ century ≤ 3
  four : 0 ≤ four ∧ four ≤ 24
  year : 0 ≤ year ∧ year ≤ 3

section

variable {century four : Int}

theorem yearStart_grouped (h : Grouped century four year) (group : Int) :
    yearStart (400 * group + 100 * century + 4 * four + year + 1) =
      146097 * group + 36524 * century + 1461 * four + 365 * year - 719162 := by
  obtain ⟨hcentury, hfour, hyear⟩ := h
  have h4 : (400 * group + 100 * century + 4 * four + year) / 4 =
      100 * group + 25 * century + four := by omega
  have h100 : (400 * group + 100 * century + 4 * four + year) / 100 = 4 * group + century := by
    omega
  have h400 : (400 * group + 100 * century + 4 * four + year) / 400 = group := by omega
  rw [yearStart, Int.add_sub_cancel, h4, h100, h400]
  omega

/-- The last of four years has a day more, unless it is the last of one of the first three
centuries. -/
theorem yearLength_grouped (h : Grouped century four year) (group : Int) :
    yearLength (400 * group + 100 * century + 4 * four + year + 1) =
      if year = 3 ∧ (four < 24 ∨ century = 3) then 366 else 365 := by
  obtain ⟨hcentury, hfour, hyear⟩ := h
  have hleap : isLeap (400 * group + 100 * century + 4 * four + year + 1) = true ↔
      year = 3 ∧ (four < 24 ∨ century = 3) := by
    simp [isLeap]
    omega
  simp only [yearLength, hleap]

end

/-! ## Days -/

namespace Day

/-- A day that its year has. -/
structure Valid (d : Day) : Prop where
  one_le : 1 ≤ d.place
  le_length : d.place ≤ yearLength d.year

/-- The day of a count, by its groups of years. -/
theorem exists_grouped (n : Int) : ∃ group century four year place,
    Grouped century four year ∧ 0 ≤ place ∧
      (place < 365 ∨ place = 365 ∧ year = 3 ∧ (four < 24 ∨ century = 3)) ∧
      n + 719162 = 146097 * group + 36524 * century + 1461 * four + 365 * year + place ∧
      ofCount n = ⟨400 * group + 100 * century + 4 * four + year + 1, place + 1⟩ := by
  let days := n + 719162
  let century := min (days % 146097 / 36524) 3
  let ofCentury := days % 146097 - 36524 * century
  let year := min (ofCentury % 1461 / 365) 3
  have hcentury : 0 ≤ century ∧ century ≤ 3 := by omega
  -- Only the last century reaches the day that is one too many for its groups of four years.
  have hrest : 0 ≤ ofCentury ∧ (ofCentury < 36524 ∨ ofCentury = 36524 ∧ century = 3) := by omega
  have hfour : 0 ≤ ofCentury / 1461 ∧ ofCentury / 1461 ≤ 24 := by omega
  have hyear : 0 ≤ year ∧ year ≤ 3 := by omega
  refine ⟨days / 146097, century, ofCentury / 1461, year, ofCentury % 1461 - 365 * year,
    ⟨hcentury, hfour, hyear⟩, by omega, by omega, by omega, ?_⟩
  rw [ofCount]

/-- The day of a count has this count. -/
theorem count_ofCount (n : Int) : (ofCount n).count = n := by
  obtain ⟨group, century, four, year, place, hgrouped, -, -, hn, hday⟩ := exists_grouped n
  rw [hday, count, yearStart_grouped hgrouped]
  dsimp only
  omega

theorem valid_ofCount (n : Int) : (ofCount n).Valid := by
  obtain ⟨group, century, four, year, place, hgrouped, hfirst, hlast, -, hday⟩ := exists_grouped n
  rw [hday]
  constructor
  · dsimp only
    omega
  · rw [yearLength_grouped hgrouped]
    dsimp only
    split <;> omega

theorem count_add (d : Day) (days : Int) : (d.add days).count = d.count + days :=
  count_ofCount _

theorem Valid.le_year_iff (h : d.Valid) : a ≤ d.year ↔ yearStart a ≤ d.count := by
  have hfirst := h.one_le
  have hlast := h.le_length
  have hnext := yearStart_add_one d.year
  unfold count
  constructor
  · intro hle
    have := yearStart_mono hle
    omega
  · intro hle
    by_contra hlt
    have := yearStart_mono (show d.year + 1 ≤ a by omega)
    omega

/-- The calendar goes from the start of its first year to the end of its last. -/
theorem Valid.inCalendar_iff (h : d.Valid) :
    d.inCalendar = true ↔ yearStart firstYear ≤ d.count ∧ d.count < yearStart (lastYear + 1) := by
  have hlast : d.year ≤ lastYear ↔ ¬lastYear + 1 ≤ d.year := by omega
  rw [inCalendar, Bool.and_eq_true, decide_eq_true_iff, decide_eq_true_iff, hlast, h.le_year_iff,
    h.le_year_iff, Int.not_le]

end Day

/-! ## Moments -/

/-- How many seconds an offset is. -/
def Offset.total (o : Offset) : Int :=
  o.hours * 3600 + o.minutes * 60 + o.seconds

theorem Offset.total_ofSeconds (n : Int) : (ofSeconds n).total = n := by
  have hhours := Int.mul_tdiv_add_tmod n 3600
  have hminutes := Int.mul_tdiv_add_tmod (n.tmod 3600) 60
  have hseconds : (n.tmod 3600).tmod 60 = n.tmod 60 := Int.tmod_tmod_of_dvd n (by decide)
  unfold total ofSeconds
  dsimp only
  omega

/-- The first second of the calendar. -/
def firstSecond : Int := -377705116800

/-- The last second of the calendar. -/
def lastSecond : Int := 253402300799

/-- Whether a second belongs to the calendar. -/
def inCalendar (second : Int) : Bool :=
  firstSecond ≤ second && second ≤ lastSecond

/-- The time of day of a second of the day. -/
def timeOfDay (second : Nat) : String :=
  twoDigits (second / 3600) ++ ":" ++ twoDigits (second / 60 % 60) ++ ":" ++ twoDigits (second % 60)

namespace Moment

/-- How many seconds after the start of 1970 a moment of universal time is. -/
def seconds (m : Moment) : Int :=
  m.day.count * dayLength + m.hour * 3600 + m.minute * 60 + m.second

/-- A moment that its day has. -/
structure Valid (m : Moment) : Prop where
  day : m.day.Valid
  hour : 0 ≤ m.hour ∧ m.hour < 24
  minute : 0 ≤ m.minute ∧ m.minute < 60
  second : 0 ≤ m.second ∧ m.second < 60

theorem seconds_ofSeconds (n : Int) : (ofSeconds n).seconds = n := by
  unfold seconds ofSeconds dayLength
  dsimp only
  rw [Day.count_ofCount]
  omega

theorem valid_ofSeconds (n : Int) : (ofSeconds n).Valid := by
  constructor
  · exact Day.valid_ofCount _
  all_goals
    unfold ofSeconds dayLength
    dsimp only
    omega

/-- What is carried is not lost. -/
theorem seconds_shift (m : Moment) (o : Offset) : (m.shift o).seconds = m.seconds + o.total := by
  unfold seconds shift Offset.total dayLength
  dsimp only
  rw [Day.count_add]
  omega

theorem valid_shift (m : Moment) (o : Offset) : (m.shift o).Valid := by
  constructor
  · exact Day.valid_ofCount _
  all_goals
    unfold shift
    dsimp only
    omega

/-- The calendar is a span of seconds. -/
theorem Valid.inCalendar_eq (h : m.Valid) : m.day.inCalendar = Clock.inCalendar m.seconds := by
  obtain ⟨hday, hhour, hminute, hsecond⟩ := h
  have hfirst : yearStart Day.firstYear = -4371587 := by decide
  have hlast : yearStart (Day.lastYear + 1) = 2932897 := by decide
  rw [Bool.eq_iff_iff, hday.inCalendar_iff, hfirst, hlast, Clock.inCalendar, Bool.and_eq_true,
    decide_eq_true_iff, decide_eq_true_iff]
  unfold seconds firstSecond lastSecond dayLength
  omega

/-- The hour, minute and second of a moment are all that is left without the whole days. -/
theorem Valid.emod_seconds (h : m.Valid) :
    m.seconds % dayLength = m.hour * 3600 + m.minute * 60 + m.second := by
  obtain ⟨-, hhour, hminute, hsecond⟩ := h
  unfold seconds dayLength
  omega

theorem Valid.time_eq (h : m.Valid) : m.time = timeOfDay (m.seconds % dayLength).toNat := by
  have hrest := h.emod_seconds
  obtain ⟨-, hhour, hminute, hsecond⟩ := h
  have h3600 : (m.seconds % dayLength).toNat / 3600 = m.hour.toNat := by omega
  have h60 : (m.seconds % dayLength).toNat / 60 % 60 = m.minute.toNat := by omega
  have h1 : (m.seconds % dayLength).toNat % 60 = m.second.toNat := by omega
  rw [time, timeOfDay, h3600, h60, h1]

end Moment

/-! ## The clock -/

theorem seconds_universal (tsMs : Int64) : (universal tsMs).seconds = tsMs.toInt.fdiv 1000 := by
  rw [universal, Moment.ofNanos, Moment.seconds_ofSeconds,
    Int.fdiv_eq_ediv_of_nonneg _ (by decide)]
  omega

theorem seconds_localTo (offset : Int) (tsMs : Int64) :
    (localTo offset tsMs).seconds = tsMs.toInt.fdiv 1000 + offset := by
  rw [localTo, Moment.seconds_shift, seconds_universal, Offset.total_ofSeconds]

/-- The clock reads what floor division and the span of the calendar in seconds give. -/
theorem read_eq (tsMs : Int64) (offset : Int) : read tsMs offset =
    let second := tsMs.toInt.fdiv 1000
    if !inCalendar second then .ok unknown
    else if !inCalendar (second + offset) then .error ⟨tsMs, offset⟩
    else .ok (timeOfDay ((second + offset).emod dayLength).toNat) := by
  have hlocal : (localTo offset tsMs).Valid := Moment.valid_shift _ _
  have huniversal : (universal tsMs).Valid := Moment.valid_ofSeconds _
  rw [read, huniversal.inCalendar_eq, hlocal.inCalendar_eq, hlocal.time_eq, seconds_universal,
    seconds_localTo]
  rfl

/-- Where an instant and its local moment are both in the calendar, the local moment is one of a
day of its year and is the second of the instant and the offset, and the clock reads the hour,
minute and second that are left of it when the whole days are taken away. -/
theorem read_of_inCalendar {tsMs : Int64} {offset : Int}
    (hinstant : (universal tsMs).day.inCalendar = true)
    (hlocal : (localTo offset tsMs).day.inCalendar = true) :
    (localTo offset tsMs).Valid ∧
      (localTo offset tsMs).seconds = tsMs.toInt.fdiv 1000 + offset ∧
      ∃ hour minute second : Nat, hour < 24 ∧ minute < 60 ∧ second < 60 ∧
        (hour * 3600 + minute * 60 + second : Int) = (tsMs.toInt.fdiv 1000 + offset) % 86400 ∧
        read tsMs offset =
          .ok (twoDigits hour ++ ":" ++ twoDigits minute ++ ":" ++ twoDigits second) := by
  have hvalid : (localTo offset tsMs).Valid := Moment.valid_shift _ _
  have hseconds := seconds_localTo offset tsMs
  have hrest := hvalid.emod_seconds
  obtain ⟨-, hhour, hminute, hsecond⟩ := id hvalid
  refine ⟨hvalid, hseconds, (localTo offset tsMs).hour.toNat, (localTo offset tsMs).minute.toNat,
    (localTo offset tsMs).second.toNat, by omega, by omega, by omega, ?_, ?_⟩
  · rw [← hseconds, Int.toNat_of_nonneg hhour.1, Int.toNat_of_nonneg hminute.1,
      Int.toNat_of_nonneg hsecond.1]
    exact hrest.symm
  · rw [read, hinstant, hlocal]
    rfl

/-- The first second of 1969, a thousandth of it gone, a second west of universal time : the day
before is the last of a leap year. -/
theorem read_of_inCalendar_new_year :
    (universal (-31535999999)).day = ⟨1969, 1⟩ ∧
      (localTo (-1) (-31535999999)).day = ⟨1968, 366⟩ ∧
      (localTo (-1) (-31535999999)).seconds = -31536001 ∧
      read (-31535999999) (-1) = .ok "23:59:59" := by
  have hfloor : Int.fdiv (-31535999999 : Int64).toInt 1000 = -31536000 := by decide
  obtain ⟨-, hseconds, hour, minute, second, hhour, hminute, hsecond, hrest, hread⟩ :=
    @read_of_inCalendar (-31535999999) (-1) (by decide +kernel) (by decide +kernel)
  rw [hfloor] at hseconds hrest
  obtain rfl : hour = 23 := by omega
  obtain rfl : minute = 59 := by omega
  obtain rfl : second = 59 := by omega
  exact ⟨by decide +kernel, by decide +kernel, hseconds, hread⟩

end RemoteSession.Clock
