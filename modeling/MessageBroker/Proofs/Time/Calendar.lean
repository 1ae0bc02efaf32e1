import Mathlib.Tactic.IntervalCases
import MessageBroker.Time.Instant

/-!
# Dates and day numbers

A cycle of 400 years consists of centuries, these of spans of four years, and these of years. Of all
of these the last one may be a day longer or shorter than the others, and `Parts` says which days
there are. `Parts.year_eq` is the step of `Date.ofDayNumber` that is not plain division: the days
that leap years are longer are taken off before it divides by 365.

From there on the date of a day number is a `View`: it is a date of the calendar (`View.valid`), and
its day number is the one it was made from (`dayNumber_ofDayNumber`).
-/

namespace MessageBroker.Date

/-! ## The year of a cycle -/

/-- A day of a cycle of 400 years, by its century, the span of four years in it, the year of that
span and the day of the year. A year of 366 days ends a span, and not the last one of a century,
unless that is the last of the cycle. -/
structure Parts (dayOfCycle century span year day : Nat) : Prop where
  century_le : century ≤ 3
  span_le : span ≤ 24
  year_le : year ≤ 3
  day_le : day ≤ 364 ∨ day = 365 ∧ year = 3 ∧ (span < 24 ∨ century = 3)
  sum : dayOfCycle = 36524 * century + 1461 * span + 365 * year + day

/-- Every day of a cycle has its parts. -/
theorem exists_parts {dayOfCycle : Nat} (h : dayOfCycle < 146097) :
    ∃ century span year day, Parts dayOfCycle century span year day := by
  obtain ⟨century, hcentury⟩ : ∃ c, c = min (dayOfCycle / 36524) 3 := ⟨_, rfl⟩
  obtain ⟨rest, hrest⟩ : ∃ r, r = dayOfCycle - 36524 * century := ⟨_, rfl⟩
  obtain ⟨days, hdays⟩ : ∃ d, d = rest - 1461 * (rest / 1461) := ⟨_, rfl⟩
  have hlong : rest ≤ 36524 ∧ (rest = 36524 → century = 3) := by omega
  refine ⟨century, rest / 1461, min (days / 365) 3, days - 365 * min (days / 365) 3, ?_⟩
  constructor <;> omega

namespace Parts

variable {dayOfCycle century span year day : Nat} (h : Parts dayOfCycle century span year day)
include h

/-- The year of the cycle: without the days by which leap years are longer, all years have 365. -/
theorem year_eq :
    (dayOfCycle - dayOfCycle / 1460 + dayOfCycle / 36524 - dayOfCycle / 146096) / 365 =
      100 * century + 4 * span + year := by
  obtain ⟨hcentury, hspan, hyear, hday, hsum⟩ := h
  obtain ⟨rest, hrest⟩ : ∃ r, r = 1461 * span + 365 * year + day := ⟨_, rfl⟩
  have hshort : rest ≤ 36523 ∨ rest = 36524 ∧ century = 3 := by omega
  have hcenturies : dayOfCycle / 36524 = century + dayOfCycle / 146096 := by omega
  -- Only the last days of a span can be in the next group of 1460 days.
  have hspans : dayOfCycle / 1460 = 25 * century + span ∨
      dayOfCycle / 1460 = 25 * century + span + 1 ∧ year = 3 ∧ 1 ≤ day := by omega
  omega

/-- The days of the cycle before that year. -/
theorem before_year :
    365 * (100 * century + 4 * span + year) + (100 * century + 4 * span + year) / 4 -
      (100 * century + 4 * span + year) / 100 + day = dayOfCycle := by
  obtain ⟨hcentury, hspan, hyear, hday, rfl⟩ := h
  omega

/-- A year of 366 days ends in a leap year. -/
theorem isLeapYear_of_day (cycle : Int) (hlast : day = 365) :
    isLeapYear ((100 * century + 4 * span + year : Nat) + cycle * 400 + 1) = true := by
  obtain ⟨hcentury, hspan, hyear, hday, -⟩ := h
  unfold isLeapYear
  rw [decide_eq_true_iff]
  omega

end Parts

/-! ## Months -/

/-- The months from March on, by the days of the year before each of them. -/
theorem month_of_day {day : Nat} (h : day ≤ 365) :
    (5 * day + 2) / 153 ≤ 11 ∧ (153 * ((5 * day + 2) / 153) + 2) / 5 ≤ day ∧
      day < (153 * ((5 * day + 2) / 153 + 1) + 2) / 5 := by
  omega

/-- A month that is not the last of a year from March on has the days of the linear rule. -/
theorem daysInMonth_of_le {month : Nat} (h : month ≤ 10) (year : Int) :
    daysInMonth year (if month < 10 then month + 3 else month - 9) =
      (153 * (month + 1) + 2) / 5 - (153 * month + 2) / 5 := by
  interval_cases month <;> rfl

/-- The date of a day number, in the terms in which it is computed: a cycle, a year of the cycle
that begins in March, a month counted from March and a day of that year. -/
structure View (n : Int) (date : Date) (cycle : Int) (year month day : Nat) : Prop where
  number : n = cycle * 146097 + (365 * year + year / 4 - year / 100 + day : Nat) - epochOffset
  year_lt : year < 400
  day_le : day ≤ 365
  leap : day = 365 → isLeapYear (year + cycle * 400 + 1) = true
  month_le : month ≤ 11
  le_day : (153 * month + 2) / 5 ≤ day
  day_lt : day < (153 * (month + 1) + 2) / 5
  month_eq : date.month = if month < 10 then month + 3 else month - 9
  year_eq : date.year = if date.month ≤ 2 then year + cycle * 400 + 1 else year + cycle * 400
  day_eq : date.day = day - (153 * month + 2) / 5 + 1

/-- Every date of a day number has such a view. -/
theorem exists_view (n : Int) :
    ∃ cycle year month day, View n (ofDayNumber n) cycle year month day := by
  obtain ⟨shifted, hshifted⟩ : ∃ s, s = n + epochOffset := ⟨_, rfl⟩
  obtain ⟨dayOfCycle, hday⟩ : ∃ d, d = (shifted % 146097).toNat := ⟨_, rfl⟩
  have hlt : dayOfCycle < 146097 := by omega
  obtain ⟨century, span, year, day, hparts⟩ := exists_parts hlt
  have hyear := hparts.year_eq
  have hbefore := hparts.before_year
  have hdayle : day ≤ 365 := by
    have hd := hparts.day_le
    omega
  have hrest : dayOfCycle - (365 * (100 * century + 4 * span + year) +
      (100 * century + 4 * span + year) / 4 - (100 * century + 4 * span + year) / 100) = day := by
    omega
  obtain ⟨hmonth, hfirst, hlast⟩ := month_of_day hdayle
  refine ⟨shifted / 146097, 100 * century + 4 * span + year, (5 * day + 2) / 153, day, ?_⟩
  unfold ofDayNumber
  simp only [← hshifted, ← hday, hyear, hrest]
  refine ⟨?_, ?_, hdayle, hparts.isLeapYear_of_day _, hmonth, hfirst, hlast, rfl, rfl, rfl⟩
  · rw [hbefore]
    omega
  · have hcentury := hparts.century_le
    have hspan := hparts.span_le
    have hy := hparts.year_le
    omega

namespace View

variable {n : Int} {date : Date} {cycle : Int} {year month day : Nat}
  (h : View n date cycle year month day)
include h

/-- The day number of the date is the one it was made from. -/
theorem dayNumber_eq : date.dayNumber = n := by
  obtain ⟨hnumber, hyearlt, -, -, hmonth, hfirst, -, hmontheq, hyeareq, hdayeq⟩ := h
  have hmarch : (date.month + 9) % 12 = month := by
    rw [hmontheq]
    split <;> omega
  have hshifted : (if date.month ≤ 2 then date.year - 1 else date.year) = year + cycle * 400 := by
    rw [hyeareq]
    split <;> omega
  have hcycle : ((year : Int) + cycle * 400) / 400 = cycle := by omega
  have hrest : ((year : Int) + cycle * 400) % 400 = year := by omega
  have hday : (((153 * month + 2) / 5 : Nat) : Int) + (date.day : Int) - 1 = day := by
    rw [hdayeq]
    omega
  unfold dayNumber
  simp only [hshifted, hmarch, hcycle, hrest]
  omega

/-- The date is one of the calendar. -/
theorem valid : date.Valid := by
  obtain ⟨-, -, hdayle, hleap, hmonth, hfirst, hlast, hmontheq, hyeareq, hdayeq⟩ := h
  have hlen : date.day ≤ daysInMonth date.year date.month := by
    rw [hdayeq, hmontheq]
    obtain rfl | hother : month = 11 ∨ month ≤ 10 := by omega
    · -- The last month is February, with a day more in a leap year.
      have hfebruary : date.month = 2 := by rw [hmontheq]; rfl
      rw [hfebruary, if_pos (by decide)] at hyeareq
      show day - 337 + 1 ≤ if isLeapYear date.year then 29 else 28
      rw [hyeareq]
      split
      · omega
      · rename_i hnot
        have hshort : day ≠ 365 := fun he => hnot (hleap he)
        omega
    · rw [daysInMonth_of_le hother]
      omega
  exact ⟨by omega, hlen⟩

/-- No day of the time line lies before the year -262143. -/
theorem le_year (hn : -96465292 ≤ n) : -262143 ≤ date.year := by
  obtain ⟨hnumber, hyearlt, hdayle, -, hmonth, -, hlast, hmontheq, hyeareq, -⟩ := h
  unfold epochOffset at hnumber
  have hcycle : cycle = -656 ∨ -655 ≤ cycle := by omega
  rcases hcycle with rfl | hlater
  · have hyear : year = 256 ∧ 306 ≤ day ∨ 257 ≤ year := by omega
    rcases hyear with ⟨rfl, hday⟩ | hlater
    · -- The first day is the first of January.
      have hjanuary : 10 ≤ month := by omega
      rw [if_neg (by omega)] at hmontheq
      rw [hyeareq, if_pos (by omega)]
      omega
    · rw [hyeareq]
      split <;> omega
  · rw [hyeareq]
    split <;> omega

/-- No day of the time line lies behind the year 262142. -/
theorem year_le (hn : n ≤ 95026236) : date.year ≤ 262142 := by
  obtain ⟨hnumber, hyearlt, hdayle, -, hmonth, hfirst, -, hmontheq, hyeareq, -⟩ := h
  unfold epochOffset at hnumber
  have hcycle : cycle = 655 ∨ cycle ≤ 654 := by omega
  rcases hcycle with rfl | hearlier
  · have hyear : year = 142 ∧ day ≤ 305 ∨ year ≤ 141 := by omega
    rcases hyear with ⟨rfl, hday⟩ | hearlier
    · -- The last day is the last of December.
      have hdecember : month ≤ 9 := by omega
      rw [if_pos (by omega)] at hmontheq
      rw [hyeareq, if_neg (by omega)]
      omega
    · rw [hyeareq]
      split <;> omega
  · rw [hyeareq]
    split <;> omega

end View

/-- The date of a day number has that number. -/
theorem dayNumber_ofDayNumber (n : Int) : (ofDayNumber n).dayNumber = n := by
  obtain ⟨cycle, year, month, day, h⟩ := exists_view n
  exact h.dayNumber_eq

/-- The date of a day number is one of the calendar. -/
theorem valid_ofDayNumber (n : Int) : (ofDayNumber n).Valid := by
  obtain ⟨cycle, year, month, day, h⟩ := exists_view n
  exact h.valid

/-- The month of a day number is one of the twelve. -/
theorem month_ofDayNumber (n : Int) : 1 ≤ (ofDayNumber n).month ∧ (ofDayNumber n).month ≤ 12 := by
  obtain ⟨cycle, year, month, day, h⟩ := exists_view n
  have hmonth := h.month_le
  rw [h.month_eq]
  split <;> omega

/-- The day of a day number is one of at most 31. -/
theorem day_ofDayNumber (n : Int) : 1 ≤ (ofDayNumber n).day ∧ (ofDayNumber n).day ≤ 31 := by
  obtain ⟨cycle, year, month, day, h⟩ := exists_view n
  have hfirst := h.le_day
  have hlast := h.day_lt
  rw [h.day_eq]
  omega

/-- The days of all instants lie in the years that the time line holds. -/
theorem year_ofDayNumber (t : Instant) : -262143 ≤ (ofDayNumber (t.seconds / 86400)).year ∧
    (ofDayNumber (t.seconds / 86400)).year ≤ 262142 := by
  obtain ⟨cycle, year, month, day, h⟩ := exists_view (t.seconds / 86400)
  have hfirst := t.first_le
  have hlast := t.le_last
  exact ⟨h.le_year (by omega), h.year_le (by omega)⟩

end MessageBroker.Date
