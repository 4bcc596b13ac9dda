import Mathlib
import Tidings.Instant.Calendar
/-!
Days and dates. Every day has a date of the calendar, and the date stands as many days after 1970-01-01 as
the day it was made from.
-/
namespace Tidings.Date

section Cycle

/-- The days of a cycle of 400 years before its year `y`. -/
def yearStart (y : Int) : Int := 365 * y + y / 4 - y / 100 + y / 400

/-- The year of a cycle to which a day of the cycle belongs. -/
def yearOfDay (n : Int) : Int := (n - n / 1460 + n / 36524 - n / 146096) / 365

theorem yearOfDay_mono : Monotone yearOfDay := by
  refine monotone_int_of_le_succ fun n => ?_
  -- A step to a multiple of 146096 takes away two, but it is one to a multiple of 36524 as well.
  have hstep : n - n / 1460 + n / 36524 - n / 146096 ≤
      n + 1 - (n + 1) / 1460 + (n + 1) / 36524 - (n + 1) / 146096 := by omega
  exact Int.ediv_le_ediv (by decide) hstep

theorem yearOfDay_ends {y : Int} (h0 : 0 ≤ y) (h1 : y < 400) :
    yearOfDay (yearStart y) = y ∧ yearOfDay (yearStart (y + 1) - 1) = y := by
  have hall : ∀ y : Fin 400,
      yearOfDay (yearStart y) = y ∧ yearOfDay (yearStart (y + 1) - 1) = y := by decide +kernel
  have hy : ((⟨y.toNat, by omega⟩ : Fin 400) : Int) = y := Int.toNat_of_nonneg h0
  simpa only [hy] using hall ⟨y.toNat, by omega⟩

/-- Every day of a cycle lies in its year. -/
theorem mem_yearOfDay {n : Int} (h0 : 0 ≤ n) (h1 : n < 146097) :
    0 ≤ yearOfDay n ∧ yearOfDay n < 400 ∧
      yearStart (yearOfDay n) ≤ n ∧ n < yearStart (yearOfDay n + 1) := by
  have hfirst : 0 ≤ yearOfDay n := yearOfDay_mono h0
  have hlast : yearOfDay n ≤ 399 := yearOfDay_mono (Int.le_sub_one_of_lt h1)
  refine ⟨hfirst, Int.lt_of_le_sub_one hlast, ?_, ?_⟩
  · -- A day before its year would belong to the year before, or to none.
    by_contra hbefore
    rcases eq_or_lt_of_le hfirst with hzero | hpos
    · rw [← hzero] at hbefore
      exact hbefore h0
    · have hends := (yearOfDay_ends (y := yearOfDay n - 1) (by omega) (by omega)).2
      rw [Int.sub_add_cancel] at hends
      have hle := yearOfDay_mono (show n ≤ yearStart (yearOfDay n) - 1 by omega)
      omega
  · by_contra hafter
    rcases eq_or_lt_of_le hlast with hend | hlt
    · rw [hend] at hafter
      exact hafter h1
    · have hends := (yearOfDay_ends (y := yearOfDay n + 1) (by omega) (by omega)).1
      have hle := yearOfDay_mono (Int.not_lt.1 hafter)
      omega

theorem yearStart_succ_le (y : Int) : yearStart (y + 1) ≤ yearStart y + 366 := by
  have hfour : (y + 1) / 4 ≤ y / 4 + 1 := by omega
  have hhundred : (y + 1) / 400 + y / 100 ≤ y / 400 + (y + 1) / 100 := by omega
  unfold yearStart
  omega

theorem yearStart_mono : Monotone yearStart := by
  refine monotone_int_of_le_succ fun y => ?_
  unfold yearStart
  omega

theorem yearStart_add_cycles (y cycle : Int) :
    yearStart (y + 400 * cycle) = yearStart y + 146097 * cycle := by
  unfold yearStart
  omega

/-- Only a year that ends with a leap day has 366 days. -/
theorem isLeapYear_of_long {y : Int} (h : yearStart y + 365 < yearStart (y + 1)) (cycle : Int) :
    isLeapYear (y + 400 * cycle + 1) := by
  unfold yearStart at h
  simp only [isLeapYear, Bool.and_eq_true, Bool.or_eq_true, decide_eq_true_eq]
  omega

end Cycle

section March

/-- Days of a year before one of its months, both counted from March. -/
def monthStart (march : Int) : Int := (153 * march + 2) / 5

/-- A day by its cycle of 400 years, its year in the cycle and its month, all counted from March. -/
structure MarchDate where
  cycle : Int
  year : Int
  march : Int
  day : Int
  year_mem : 0 ≤ year ∧ year < 400
  march_mem : 0 ≤ march ∧ march < 12
  day_nonneg : 0 ≤ day
  month_end : monthStart march + day < monthStart (march + 1)
  year_end : yearStart year + monthStart march + day < yearStart (year + 1)

variable (m : MarchDate)

def MarchDate.days : Int :=
  146097 * m.cycle + yearStart m.year + monthStart m.march + m.day - 719468

/-- January and February belong to the next year of the calendar. -/
def MarchDate.date : Date :=
  if m.march < 10 then ⟨m.year + 400 * m.cycle, (m.march + 3).toNat, (m.day + 1).toNat⟩
  else ⟨m.year + 400 * m.cycle + 1, (m.march - 9).toNat, (m.day + 1).toNat⟩

theorem MarchDate.toDays_date : m.date.toDays = m.days := by
  have hyear := m.year_mem
  have hmarch := m.march_mem
  have hday := m.day_nonneg
  have hzero : m.year / 400 = 0 := Int.ediv_eq_zero_of_lt hyear.1 hyear.2
  have hcycle : (m.year + 400 * m.cycle) / 400 = m.cycle := by omega
  have hmod : (m.year + 400 * m.cycle) % 400 = m.year := by omega
  have hdayNat : ((m.day + 1).toNat : Int) = m.day + 1 := Int.toNat_of_nonneg (by omega)
  unfold MarchDate.date MarchDate.days toDays yearStart monthStart
  split
  · have hmonth : ((m.march + 3).toNat : Int) = m.march + 3 := Int.toNat_of_nonneg (by omega)
    have hlate : 2 < (m.march + 3).toNat := by omega
    simp only [if_neg (Nat.not_le.2 hlate), if_pos hlate, hcycle, hmod, hdayNat, hmonth, hzero,
      Int.add_sub_cancel]
    omega
  · have hmonth : ((m.march - 9).toNat : Int) = m.march - 9 := Int.toNat_of_nonneg (by omega)
    have hearly : (m.march - 9).toNat ≤ 2 := by omega
    simp only [if_pos hearly, if_neg (Nat.not_lt.2 hearly), Int.add_sub_cancel, hcycle, hmod, hdayNat,
      hmonth, hzero, Int.sub_add_cancel]
    omega

theorem MarchDate.date_isValid : m.date.IsValid := by
  obtain ⟨cycle, year, march, day, hyear, ⟨h0, h1⟩, hday, hmonth, hend⟩ := m
  -- In February alone the length of the month depends on the year.
  have hfebruary : march = 11 → day < if isLeapYear (year + 400 * cycle + 1) then 29 else 28 := by
    rintro rfl
    have hlong : yearStart (year + 1) ≤ yearStart year + 366 := yearStart_succ_le year
    have hstart : monthStart 11 = 337 := rfl
    split
    · omega
    next hnot =>
      by_contra hlast
      exact hnot (isLeapYear_of_long (by omega) cycle)
  unfold monthStart at hmonth
  simp only [IsValid, MarchDate.date]
  interval_cases march <;> simp [daysInMonth]
  case «11» => exact ⟨by omega, hfebruary rfl⟩
  all_goals omega

/-- The date that a day is counted to, by its month counted from March. -/
theorem ofDays_eq {days cycle ofCycle year ofYear march : Int}
    (hcycle : (days + 719468) / 146097 = cycle) (hofCycle : (days + 719468) % 146097 = ofCycle)
    (hyear : yearOfDay ofCycle = year) (hofYear : ofCycle - (365 * year + year / 4 - year / 100) = ofYear)
    (hmarch : (5 * ofYear + 2) / 153 = march) (hbound : 0 ≤ march ∧ march < 12) :
    ofDays days =
      if march < 10 then
        ⟨year + 400 * cycle, (march + 3).toNat, (ofYear - monthStart march + 1).toNat⟩
      else ⟨year + 400 * cycle + 1, (march - 9).toNat, (ofYear - monthStart march + 1).toNat⟩ := by
  have hdate : ofDays days =
      ⟨year + 400 * cycle + (if (if march < 10 then march + 3 else march - 9) ≤ 2 then 1 else 0),
        (if march < 10 then march + 3 else march - 9).toNat, (ofYear - monthStart march + 1).toNat⟩ := by
    subst hcycle hofCycle hyear hofYear hmarch
    rfl
  rw [hdate]
  split
  · rw [if_neg (by omega), Int.add_zero]
  · rw [if_pos (by omega)]

theorem exists_marchDate (days : Int) : ∃ m : MarchDate, m.days = days ∧ m.date = ofDays days := by
  obtain ⟨cycle, hcycle⟩ : ∃ c, (days + 719468) / 146097 = c := ⟨_, rfl⟩
  obtain ⟨ofCycle, hofCycle⟩ : ∃ n, (days + 719468) % 146097 = n := ⟨_, rfl⟩
  obtain ⟨year, hyear⟩ : ∃ y, yearOfDay ofCycle = y := ⟨_, rfl⟩
  obtain ⟨ofYear, hofYear⟩ : ∃ n, ofCycle - (365 * year + year / 4 - year / 100) = n := ⟨_, rfl⟩
  obtain ⟨march, hmarch⟩ : ∃ n, (5 * ofYear + 2) / 153 = n := ⟨_, rfl⟩
  have hsplit : days + 719468 = 146097 * cycle + ofCycle := by omega
  obtain ⟨hyear0, hyear1, hstart, hend⟩ := mem_yearOfDay (n := ofCycle) (by omega) (by omega)
  rw [hyear] at hyear0 hyear1 hstart hend
  have hsum : yearStart year + ofYear = ofCycle := by unfold yearStart; omega
  have hlong : yearStart (year + 1) ≤ yearStart year + 366 := yearStart_succ_le year
  have hbound : 0 ≤ march ∧ march < 12 := by omega
  have hmonth : monthStart march ≤ ofYear ∧ ofYear < monthStart (march + 1) := by
    unfold monthStart
    omega
  refine ⟨⟨cycle, year, march, ofYear - monthStart march, ⟨hyear0, hyear1⟩, hbound, by omega, by omega,
    by omega⟩, ?_, (ofDays_eq hcycle hofCycle hyear hofYear hmarch hbound).symm⟩
  show 146097 * cycle + yearStart year + monthStart march + (ofYear - monthStart march) - 719468 = days
  omega

end March

/-- The days that have points in time lie in the years -262143 to 262142, from the first day of the one to
the last day of the other. -/
theorem ofDays_year {days : Int} (h : -96465292 ≤ days ∧ days ≤ 95026236) :
    -262143 ≤ (ofDays days).year ∧ (ofDays days).year ≤ 262142 := by
  obtain ⟨m, hdays, hdate⟩ := exists_marchDate days
  have hday := m.day_nonneg
  have hmonth := m.month_end
  have hend := m.year_end
  have hstart := yearStart_add_cycles m.year m.cycle
  have hnext := yearStart_add_cycles (m.year + 1) m.cycle
  have hfirst : days = yearStart (m.year + 400 * m.cycle) + monthStart m.march + m.day - 719468 := by
    rw [← hdays, MarchDate.days]
    omega
  rw [← hdate, MarchDate.date]
  unfold monthStart at hmonth hfirst hend
  split
  next hearly =>
    show -262143 ≤ m.year + 400 * m.cycle ∧ m.year + 400 * m.cycle ≤ 262142
    constructor
    · by_contra hlt
      have hyear : yearStart (m.year + 400 * m.cycle) ≤ -95746130 :=
        yearStart_mono (show m.year + 400 * m.cycle ≤ -262144 by omega)
      omega
    · by_contra hgt
      have hyear : 95745764 ≤ yearStart (m.year + 400 * m.cycle) :=
        yearStart_mono (show 262143 ≤ m.year + 400 * m.cycle by omega)
      have hmarch := m.march_mem
      omega
  next hlate =>
    show -262143 ≤ m.year + 400 * m.cycle + 1 ∧ m.year + 400 * m.cycle + 1 ≤ 262142
    constructor
    · by_contra hlt
      have hyear : yearStart (m.year + 1 + 400 * m.cycle) ≤ -95746130 :=
        yearStart_mono (show m.year + 1 + 400 * m.cycle ≤ -262144 by omega)
      omega
    · by_contra hgt
      have hyear : 95745399 ≤ yearStart (m.year + 400 * m.cycle) :=
        yearStart_mono (show 262142 ≤ m.year + 400 * m.cycle by omega)
      omega

theorem IsValid.day_le {d : Date} (h : d.IsValid) : d.day ≤ 31 := by
  refine h.2.2.2.trans ?_
  unfold daysInMonth
  split
  · split <;> decide
  all_goals decide

theorem toDays_ofDays (days : Int) : (ofDays days).toDays = days := by
  obtain ⟨m, hdays, hdate⟩ := exists_marchDate days
  rw [← hdate, m.toDays_date, hdays]

theorem ofDays_isValid (days : Int) : (ofDays days).IsValid := by
  obtain ⟨m, _, hdate⟩ := exists_marchDate days
  exact hdate ▸ m.date_isValid

end Tidings.Date
