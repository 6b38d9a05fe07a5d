import Mathlib.Algebra.BigOperators.Group.List.Basic
import Mathlib.Algebra.GroupWithZero.Nat
import Mathlib.Order.Monotone.Basic
import Mathlib.Tactic.ByContra
import PodPlacement.Calendar

/-! # The order of dates

A later day has a later date: the year counts first, then the month, then the day of the month. Every date has a month
of the year and a day of that month.

* `sum_monthLengths` — the months of a year fill it.
* `splitMonths_before` — of two days of a year the later one falls in a later month, or later in the same one.
* `Date.before_ofDay` — of two days the later one has the later date.
* `Date.proper_ofDay`, `Date.year_ofDay_lt` — how large the parts of a date are. -/

namespace PodPlacement

namespace Calendar

/-! ### Years -/

/-- A year has 366 days if it is divisible by four, and by four hundred if by a hundred. -/
theorem isLeapYear_iff {year : Nat} : isLeapYear year = true ↔ 4 ∣ year ∧ (100 ∣ year → 400 ∣ year) := by
  simp only [isLeapYear, Bool.and_eq_true, Bool.or_eq_true, beq_iff_eq, bne_iff_ne]
  omega

/-- The months of a year have as many days as the year. -/
theorem sum_monthLengths_eq (year : Nat) : (monthLengths year).sum = if isLeapYear year then 366 else 365 := by
  rw [monthLengths]
  split <;> rfl

/-- The months of a year fill it. -/
theorem sum_monthLengths {year : Nat} (h : 0 < year) :
    daysBefore year + (monthLengths year).sum = daysBefore (year + 1) := by
  obtain ⟨n, rfl⟩ : ∃ n, year = n + 1 := ⟨year - 1, (Nat.sub_add_cancel h).symm⟩
  have h100 : 100 ∣ n + 1 → 4 ∣ n + 1 := Nat.dvd_trans (by decide)
  have h400 : 400 ∣ n + 1 → 100 ∣ n + 1 := Nat.dvd_trans (by decide)
  have hle : n / 100 ≤ n / 4 := Nat.div_le_div_left (by decide) (by decide)
  -- A quotient grows with the year only where the divisor divides the year.
  simp only [sum_monthLengths_eq, isLeapYear_iff, daysBefore, Nat.add_sub_cancel, Nat.succ_div]
  grind

/-- A later year begins no earlier. -/
theorem daysBefore_mono : Monotone daysBefore := by
  refine monotone_nat_of_le_succ fun year => ?_
  rcases Nat.eq_zero_or_pos year with rfl | hpos
  · exact Nat.le_refl 0
  · rw [← sum_monthLengths hpos]
    exact Nat.le_add_right _ _

/-- The year of a later day is no earlier. -/
theorem yearOf_mono : Monotone yearOf := by
  intro a b h
  by_contra hlt
  have hyears : daysBefore (yearOf b + 1) ≤ daysBefore (yearOf a) := daysBefore_mono (not_le.1 hlt)
  have hstart := daysBefore_yearOf_le a
  have hend := lt_daysBefore_yearOf_succ b
  omega

/-- Years count from one. -/
theorem yearOf_pos (day : Nat) : 0 < yearOf day := by
  by_contra hzero
  have hend := lt_daysBefore_yearOf_succ day
  rw [Nat.eq_zero_of_not_pos hzero] at hend
  exact absurd hend (Nat.not_lt_zero day)

/-- A day before the first one of a year falls in an earlier year. -/
theorem yearOf_lt {day year : Nat} (h : day < daysBefore year) : yearOf day < year := by
  by_contra hge
  have hyears := daysBefore_mono (not_lt.1 hge)
  have hstart := daysBefore_yearOf_le day
  omega

/-! ### Months -/

/-- A year has twelve months. -/
theorem length_monthLengths (year : Nat) : (monthLengths year).length = 12 := rfl

/-- No month has more than 31 days. -/
theorem le_of_mem_monthLengths {year length : Nat} (h : length ∈ monthLengths year) : length ≤ 31 := by
  simp only [monthLengths, List.mem_cons, List.not_mem_nil, or_false] at h
  split at h <;> omega

/-- The month of a day is none of those before the first one counted. -/
theorem le_splitMonths (month : Nat) (lengths : List Nat) (day : Nat) :
    month ≤ (splitMonths month lengths day).1 := by
  induction lengths generalizing month day with
  | nil => exact Nat.le_refl month
  | cons length lengths ih =>
    rw [splitMonths]
    split
    · exact Nat.le_refl month
    · exact Nat.le_trans (Nat.le_succ month) (ih (month + 1) (day - length))

/-- A day of the year falls in one of its months, and is a day of that month. -/
theorem splitMonths_lt {lengths : List Nat} {longest : Nat} (hlongest : ∀ length ∈ lengths, length ≤ longest)
    (month day : Nat) (h : day < lengths.sum) :
    (splitMonths month lengths day).1 < month + lengths.length ∧ (splitMonths month lengths day).2 < longest := by
  induction lengths generalizing month day with
  | nil => exact absurd h (Nat.not_lt_zero day)
  | cons length lengths ih =>
    obtain ⟨hfirst, hrest⟩ := List.forall_mem_cons.1 hlongest
    rw [List.sum_cons] at h
    rw [splitMonths, List.length_cons]
    split
    · exact ⟨by omega, by omega⟩
    · have hnext := ih hrest (month + 1) (day - length) (by omega)
      exact ⟨by omega, hnext.2⟩

/-- Of two days of a year the later one falls in a later month, or later in the same one. -/
theorem splitMonths_before (month : Nat) (lengths : List Nat) {a b : Nat} (h : a < b) :
    (splitMonths month lengths a).1 < (splitMonths month lengths b).1 ∨
      (splitMonths month lengths a).1 = (splitMonths month lengths b).1 ∧
        (splitMonths month lengths a).2 < (splitMonths month lengths b).2 := by
  induction lengths generalizing month a b with
  | nil => exact .inr ⟨rfl, h⟩
  | cons length lengths ih =>
    rw [splitMonths, splitMonths]
    by_cases hb : b < length
    · rw [if_pos hb, if_pos (by omega)]
      exact .inr ⟨rfl, h⟩
    · rw [if_neg hb]
      by_cases ha : a < length
      · -- Only the later day lies behind the month.
        rw [if_pos ha]
        exact .inl (le_splitMonths (month + 1) lengths (b - length))
      · rw [if_neg ha]
        exact ih (month + 1) (by omega)

end Calendar

namespace Date

/-- The year counts first, then the month, then the day. -/
def Before (d e : Date) : Prop :=
  d.year < e.year ∨ d.year = e.year ∧ (d.month < e.month ∨ d.month = e.month ∧ d.day < e.day)

/-- The month of a date is that of the day of its year. -/
theorem month_ofDay (day : Nat) : (ofDay day).month =
    (Calendar.splitMonths 1 (Calendar.monthLengths (Calendar.yearOf day))
      (day - Calendar.daysBefore (Calendar.yearOf day))).1 := rfl

/-- The day of a date is that of its month, counted from one. -/
theorem day_ofDay (day : Nat) : (ofDay day).day =
    (Calendar.splitMonths 1 (Calendar.monthLengths (Calendar.yearOf day))
      (day - Calendar.daysBefore (Calendar.yearOf day))).2 + 1 := rfl

/-- Of two days the later one has the later date. -/
theorem before_ofDay {a b : Nat} (h : a < b) : (ofDay a).Before (ofDay b) := by
  rcases Nat.lt_or_eq_of_le (Calendar.yearOf_mono h.le) with hlt | heq
  · exact .inl hlt
  · -- In one year the days are counted from the same day on.
    have hstart := Calendar.daysBefore_yearOf_le a
    have hdays : a - Calendar.daysBefore (Calendar.yearOf a) < b - Calendar.daysBefore (Calendar.yearOf a) := by
      omega
    have hsplit := Calendar.splitMonths_before 1 (Calendar.monthLengths (Calendar.yearOf a)) hdays
    refine .inr ⟨heq, ?_⟩
    rw [month_ofDay, month_ofDay, day_ofDay, day_ofDay, ← heq, Nat.add_lt_add_iff_right]
    exact hsplit

/-- A date has one of twelve months and at most 31 days. -/
theorem proper_ofDay (day : Nat) : (ofDay day).month ≤ 12 ∧ (ofDay day).day ≤ 31 := by
  have hstart := Calendar.daysBefore_yearOf_le day
  have hend := Calendar.lt_daysBefore_yearOf_succ day
  have hfill := Calendar.sum_monthLengths (Calendar.yearOf_pos day)
  have hlt : day - Calendar.daysBefore (Calendar.yearOf day) < (Calendar.monthLengths (Calendar.yearOf day)).sum := by
    omega
  obtain ⟨hmonth, hday⟩ := Calendar.splitMonths_lt (fun _ => Calendar.le_of_mem_monthLengths) 1 _ hlt
  rw [Calendar.length_monthLengths] at hmonth
  rw [month_ofDay, day_ofDay]
  exact ⟨Nat.le_of_lt_succ hmonth, hday⟩

/-- The days before the first one of a year have earlier dates. -/
theorem year_ofDay_lt {day year : Nat} (h : day < Calendar.daysBefore year) : (ofDay day).year < year :=
  Calendar.yearOf_lt h

end Date

end PodPlacement
