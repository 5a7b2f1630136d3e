import Dashboard.Instant.Calendar
import Mathlib

/-!
# Days Have Numbers and Numbers Have Days

The day with a number exists, and it has that number. Between the two stands the place of a day:
the cycle of four hundred years that it lies in, the century of the cycle, the span of four years
of the century, the year of the span, and the day of the year, which begins in March. A year has
a day with the number 365 only if it ends in a leap day.

## Main results

* `exists_place` — every number is that of a place, and its day is the day there.
* `dayNumber_ofDayNumber` — the day with a number has that number.
* `exists_ofDayNumber` — the day with a number exists.
-/

namespace Dashboard.Calendar

/-- Where a day lies, in years that begin in March. Everything is counted from zero. -/
structure Place where
  cycle : ℤ
  century : ℤ
  span : ℤ
  year : ℤ
  day : ℤ
  century_bounds : 0 ≤ century ∧ century ≤ 3
  span_bounds : 0 ≤ span ∧ span ≤ 24
  year_bounds : 0 ≤ year ∧ year ≤ 3
  day_bounds : 0 ≤ day ∧ day ≤ 365
  /-- The last year of a span has a leap day, unless a century ends with it that is not the last
  one of its cycle. -/
  leap : day = 365 → year = 3 ∧ (span = 24 → century = 3)

namespace Place

/-- The number of the day. -/
def number (p : Place) : ℤ :=
  origin + 146097 * p.cycle + 36524 * p.century + 1461 * p.span + 365 * p.year + p.day

/-- The year that begins in March. -/
def yearNumber (p : Place) : ℤ :=
  400 * p.cycle + 100 * p.century + 4 * p.span + p.year

/-- The month of that year, counted from March. -/
def month (p : Place) : ℤ :=
  (5 * p.day + 2) / 153

/-- The day of the calendar, whose years begin in January. -/
def date (p : Place) : Date where
  year := if p.month < 10 then p.yearNumber else p.yearNumber + 1
  month := if p.month < 10 then p.month + 3 else p.month - 9
  day := p.day - daysBefore p.month + 1

/-! ### From a number to its place -/

/-- **Every number is that of a place**, and the day with the number is the day there. -/
theorem exists_place (n : ℤ) : ∃ p : Place, p.number = n ∧ p.date = Date.ofDayNumber n := by
  obtain ⟨inCycle, hcycle⟩ : ∃ k, k = (n - origin) % 146097 := ⟨_, rfl⟩
  obtain ⟨century, hcentury⟩ : ∃ k, k = min (inCycle / 36524) 3 := ⟨_, rfl⟩
  obtain ⟨span, hspan⟩ : ∃ k, k = (inCycle - 36524 * century) / 1461 := ⟨_, rfl⟩
  obtain ⟨inSpan, hinSpan⟩ : ∃ k, k = (inCycle - 36524 * century) % 1461 := ⟨_, rfl⟩
  obtain ⟨year, hyear⟩ : ∃ k, k = min (inSpan / 365) 3 := ⟨_, rfl⟩
  refine ⟨⟨(n - origin) / 146097, century, span, year, inSpan - 365 * year, ?_, ?_, ?_, ?_, ?_⟩,
    ?_, ?_⟩
  · omega
  · omega
  · omega
  · omega
  · omega
  · dsimp only [number]
    omega
  · subst hyear hinSpan hspan hcentury hcycle
    rfl

/-! ### From a place to its day -/

variable (p : Place)

/-- There are twelve months. -/
theorem month_bounds : 0 ≤ p.month ∧ p.month ≤ 11 := by
  have := p.day_bounds
  rw [month]
  omega

/-- A day lies between the beginnings of its month and of the next one. -/
theorem day_mem_month : daysBefore p.month ≤ p.day ∧ p.day < daysBefore (p.month + 1) := by
  rw [daysBefore, daysBefore, month]
  omega

/-- **The day at a place has its number.** -/
theorem dayNumber_date : p.date.dayNumber = p.number := by
  have hcentury := p.century_bounds
  have hspan := p.span_bounds
  have hyear := p.year_bounds
  have hmonth := p.month_bounds
  have hparts : p.yearNumber / 400 = p.cycle ∧ p.yearNumber % 400 / 100 = p.century ∧
      p.yearNumber % 100 / 4 = p.span ∧ p.yearNumber % 4 = p.year := by
    rw [yearNumber]
    omega
  have hdate : p.date.dayNumber = origin + 146097 * (p.yearNumber / 400) +
      36524 * (p.yearNumber % 400 / 100) + 1461 * (p.yearNumber % 100 / 4) +
        365 * (p.yearNumber % 4) + daysBefore p.month + (p.date.day - 1) := by
    unfold date Date.dayNumber
    dsimp only
    split
    · rw [if_neg (by omega), if_neg (by omega), add_sub_cancel_right]
    · rw [if_pos (by omega), if_pos (by omega), add_sub_cancel_right, sub_add_cancel]
  obtain ⟨hc, hcent, hs, hy⟩ := hparts
  rw [hdate, hc, hcent, hs, hy, date, number]
  ring

/-- A month other than February is as long as it takes to the beginning of the next one. -/
theorem length_month {m : ℤ} (hlow : 0 ≤ m) (hhigh : m ≤ 10) (year : ℤ) :
    daysBefore (m + 1) - daysBefore m = daysInMonth year (if m < 10 then m + 3 else m - 9) := by
  interval_cases m
  all_goals rfl

/-- The year of a leap day is a leap year. -/
theorem isLeapYear_of_day_eq (h : p.day = 365) : isLeapYear (p.yearNumber + 1) = true := by
  have hcentury := p.century_bounds
  have hspan := p.span_bounds
  obtain ⟨hyear, hleap⟩ := p.leap h
  have hrule : (p.yearNumber + 1) % 4 = 0 ∧
      ((p.yearNumber + 1) % 100 ≠ 0 ∨ (p.yearNumber + 1) % 400 = 0) := by
    rw [yearNumber, hyear]
    omega
  simpa [isLeapYear] using hrule

/-- **The day at a place exists.** -/
theorem exists_date : p.date.exists = true := by
  obtain ⟨hlow, hhigh⟩ := p.month_bounds
  obtain ⟨hfirst, hlast⟩ := p.day_mem_month
  suffices hdays : p.date.day ≤ daysInMonth p.date.year p.date.month by
    have hmonth : 1 ≤ p.date.month ∧ p.date.month ≤ 12 := by
      dsimp only [date]
      split <;> omega
    have hday : 1 ≤ p.date.day := by
      dsimp only [date]
      omega
    simp [Date.exists, hmonth, hday, hdays]
  dsimp only [date]
  rcases lt_or_ge 10 p.month with hfebruary | hother
  · obtain hmonth : p.month = 11 := by omega
    have hbefore : daysBefore 11 = 337 := rfl
    have hdays : daysInMonth (p.yearNumber + 1) 2 =
        if isLeapYear (p.yearNumber + 1) then 29 else 28 := rfl
    have hcalendar : (11 - 9 : ℤ) = 2 := rfl
    rw [hmonth, hbefore, if_neg (by decide), if_neg (by decide), hcalendar, hdays]
    have hbounds := p.day_bounds
    split
    · omega
    · next hcommon =>
      have hne : p.day ≠ 365 := fun h => hcommon (p.isLeapYear_of_day_eq h)
      omega
  · rw [← length_month hlow hother]
    omega

end Place

/-- A day that exists is one of at most thirty-one in one of twelve months. -/
theorem bounds_of_exists {d : Date} (h : d.exists = true) :
    (1 ≤ d.month ∧ d.month ≤ 12) ∧ 1 ≤ d.day ∧ d.day ≤ 31 := by
  simp only [Date.exists, Bool.and_eq_true, decide_eq_true_eq] at h
  obtain ⟨⟨hmonth, hfirst⟩, hlast⟩ := h
  have hlength : daysInMonth d.year d.month ≤ 31 := by
    unfold daysInMonth
    split
    · split <;> decide
    · split <;> decide
  exact ⟨hmonth, hfirst, hlast.trans hlength⟩

/-- **The day with a number has that number.** -/
theorem dayNumber_ofDayNumber (n : ℤ) : (Date.ofDayNumber n).dayNumber = n := by
  obtain ⟨p, hnumber, hdate⟩ := Place.exists_place n
  rw [← hdate, p.dayNumber_date, hnumber]

/-- **The day with a number exists.** -/
theorem exists_ofDayNumber (n : ℤ) : (Date.ofDayNumber n).exists = true := by
  obtain ⟨p, -, hdate⟩ := Place.exists_place n
  rw [← hdate, p.exists_date]

end Dashboard.Calendar
