import Mathlib.Data.Int.Basic
import Mathlib.Tactic.IntervalCases

/-! The Gregorian calendar: days as numbers from 1970-01-01 and as year, month and date. Numbers
and valid days correspond, and the numbers keep the order of year, month and date. -/
namespace Calendar

def isLeap (year : ℤ) : Bool := year % 4 == 0 && (year % 100 != 0 || year % 400 == 0)

def leapDay (year : ℤ) : ℤ := if isLeap year then 1 else 0

def dayFromYear (year : ℤ) : ℤ :=
  365 * (year - 1970) + (year - 1969) / 4 - (year - 1901) / 100 + (year - 1601) / 400

def daysInMonth (leap month : ℤ) : ℤ :=
  if month = 2 then 28 + leap
  else if month = 4 ∨ month = 6 ∨ month = 9 ∨ month = 11 then 30
  else 31

/-- The days of a year before a month, in months of 153 days to five from March on. -/
def monthStart (leap month : ℤ) : ℤ :=
  if month ≤ 2 then 31 * (month - 1) else (153 * month - 457) / 5 + 59 + leap

structure Day where
  year : ℤ
  month : ℤ
  date : ℤ
  month_range : 1 ≤ month ∧ month ≤ 12
  date_range : 1 ≤ date ∧ date ≤ daysInMonth (leapDay year) month
  deriving DecidableEq

def Day.number (d : Day) : ℤ :=
  dayFromYear d.year + monthStart (leapDay d.year) d.month + (d.date - 1)

/-- The year of a day: the estimate by the mean length is at most one off. -/
def yearOf (n : ℤ) : ℤ :=
  let year := 400 * n / 146097 + 1970
  if n < dayFromYear year then year - 1
  else if dayFromYear (year + 1) ≤ n then year + 1
  else year

/-- The month of a day of the year. -/
def monthOf (leap k : ℤ) : ℤ :=
  if k < 31 then 1 else if k < 59 + leap then 2 else (5 * (k - 59 - leap) + 2) / 153 + 3

theorem leapDay_range (year : ℤ) : 0 ≤ leapDay year ∧ leapDay year ≤ 1 := by
  unfold leapDay
  split <;> omega

theorem dayFromYear_succ (year : ℤ) :
    dayFromYear (year + 1) = dayFromYear year + 365 + leapDay year := by
  unfold dayFromYear leapDay isLeap
  simp only [Bool.and_eq_true, Bool.or_eq_true, beq_iff_eq, bne_iff_ne]
  split <;> omega

theorem dayFromYear_mono {year year' : ℤ} (h : year ≤ year') :
    dayFromYear year ≤ dayFromYear year' := by
  unfold dayFromYear
  omega

theorem yearOf_spec (n : ℤ) : dayFromYear (yearOf n) ≤ n ∧ n < dayFromYear (yearOf n + 1) := by
  unfold yearOf
  dsimp only
  split
  · next hbefore =>
    rw [Int.sub_add_cancel]
    refine ⟨?_, hbefore⟩
    unfold dayFromYear at *
    omega
  · next hfrom =>
    split
    · next hafter =>
      refine ⟨hafter, ?_⟩
      unfold dayFromYear at *
      omega
    · next hbefore => exact ⟨not_lt.mp hfrom, not_le.mp hbefore⟩

theorem monthStart_succ {leap month : ℤ} (h : 1 ≤ month ∧ month ≤ 12) :
    monthStart leap (month + 1) = monthStart leap month + daysInMonth leap month := by
  obtain ⟨hlow, hhigh⟩ := h
  unfold monthStart daysInMonth
  interval_cases month <;> simp <;> omega

theorem monthStart_mono {leap month month' : ℤ} (hleap : 0 ≤ leap) (h : month ≤ month') :
    monthStart leap month ≤ monthStart leap month' := by
  unfold monthStart
  split <;> split <;> omega

theorem monthOf_spec {leap k : ℤ} (hleap : 0 ≤ leap ∧ leap ≤ 1) (hk : 0 ≤ k ∧ k < 365 + leap) :
    (1 ≤ monthOf leap k ∧ monthOf leap k ≤ 12) ∧ monthStart leap (monthOf leap k) ≤ k ∧
      k < monthStart leap (monthOf leap k + 1) := by
  unfold monthOf monthStart
  split
  · omega
  · split
    · omega
    · refine ⟨by omega, ?_, ?_⟩
      · rw [if_neg (by omega)]
        omega
      · rw [if_neg (by omega)]
        omega

def dayOfYear (n : ℤ) : ℤ := n - dayFromYear (yearOf n)

theorem dayOfYear_range (n : ℤ) : 0 ≤ dayOfYear n ∧ dayOfYear n < 365 + leapDay (yearOf n) := by
  have hyear := yearOf_spec n
  rw [dayFromYear_succ] at hyear
  unfold dayOfYear
  omega

def ofNumber (n : ℤ) : Day where
  year := yearOf n
  month := monthOf (leapDay (yearOf n)) (dayOfYear n)
  date := dayOfYear n -
    monthStart (leapDay (yearOf n)) (monthOf (leapDay (yearOf n)) (dayOfYear n)) + 1
  month_range := (monthOf_spec (leapDay_range _) (dayOfYear_range n)).1
  date_range := by
    obtain ⟨hmonth, hlow, hhigh⟩ := monthOf_spec (leapDay_range _) (dayOfYear_range n)
    rw [monthStart_succ hmonth] at hhigh
    omega

theorem number_ofNumber (n : ℤ) : (ofNumber n).number = n := by
  unfold Day.number ofNumber dayOfYear
  dsimp only
  omega

namespace Day

theorem number_range (d : Day) :
    dayFromYear d.year ≤ d.number ∧ d.number < dayFromYear (d.year + 1) := by
  have hleap := leapDay_range d.year
  have hmonth := d.month_range
  have hdate := d.date_range
  have hfirst := monthStart_mono hleap.1 hmonth.1
  have hend := @monthStart_mono (leapDay d.year) (d.month + 1) 13 hleap.1 (by omega)
  rw [monthStart_succ hmonth] at hend
  have hstart : monthStart (leapDay d.year) 1 = 0 := rfl
  have hwhole : monthStart (leapDay d.year) 13 = 365 + leapDay d.year := by
    unfold monthStart
    omega
  rw [dayFromYear_succ]
  unfold number
  omega

/-- A smaller number is an earlier year, an earlier month of the year or an earlier date. -/
theorem number_lt {d e : Day} (h : d.number < e.number) :
    d.year < e.year ∨ (d.year = e.year ∧
      (d.month < e.month ∨ (d.month = e.month ∧ d.date < e.date))) := by
  have hd := d.number_range
  have he := e.number_range
  rcases lt_trichotomy d.year e.year with hlt | heq | hgt
  · exact .inl hlt
  · refine .inr ⟨heq, ?_⟩
    rcases lt_trichotomy d.month e.month with hmlt | hmeq | hmgt
    · exact .inl hmlt
    · refine .inr ⟨hmeq, ?_⟩
      unfold number at h
      rw [heq, hmeq] at h
      omega
    · exfalso
      have hleap := leapDay_range e.year
      have hmono := @monthStart_mono (leapDay e.year) (e.month + 1) d.month hleap.1 (by omega)
      rw [monthStart_succ e.month_range] at hmono
      have hdate := e.date_range
      have hdate' := d.date_range
      unfold number at h
      rw [heq] at h
      omega
  · have hmono := @dayFromYear_mono (e.year + 1) d.year (by omega)
    omega

theorem ext_parts {d e : Day} (hyear : d.year = e.year) (hmonth : d.month = e.month)
    (hdate : d.date = e.date) : d = e := by
  cases d
  cases e
  simp_all

theorem number_injective {d e : Day} (h : d.number = e.number) : d = e := by
  have hd := d.number_range
  have he := e.number_range
  have hyear : d.year = e.year := by
    rcases lt_trichotomy d.year e.year with hlt | heq | hgt
    · have hmono := @dayFromYear_mono (d.year + 1) e.year (by omega)
      omega
    · exact heq
    · have hmono := @dayFromYear_mono (e.year + 1) d.year (by omega)
      omega
  have hleap := leapDay_range e.year
  have hmonth : d.month = e.month := by
    have hdate := d.date_range
    have hdate' := e.date_range
    unfold number at h
    rw [hyear] at h hdate
    rcases lt_trichotomy d.month e.month with hlt | heq | hgt
    · have hmono := @monthStart_mono (leapDay e.year) (d.month + 1) e.month hleap.1 (by omega)
      rw [monthStart_succ d.month_range] at hmono
      omega
    · exact heq
    · have hmono := @monthStart_mono (leapDay e.year) (e.month + 1) d.month hleap.1 (by omega)
      rw [monthStart_succ e.month_range] at hmono
      omega
  unfold number at h
  rw [hyear, hmonth] at h
  exact ext_parts hyear hmonth (by omega)

theorem ofNumber_number (d : Day) : ofNumber d.number = d :=
  number_injective (number_ofNumber d.number)

end Day

end Calendar
