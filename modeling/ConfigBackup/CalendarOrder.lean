import ConfigBackup.Calendar
import Mathlib

/-!
Dates, ISO weeks and civil months in the order of time. Months are counted
from the civil date; within an era of 400 years they count up from a March,
and each era has 4800 of them. Two dates share their ISO week exactly when
their weeks start on the same Monday.
-/

namespace ConfigBackup.CalendarOrder

open Calendar

theorem date_mono {s t : Instant} (h : s ≤ t) : date s ≤ date t := by
  unfold date microsecondsPerSecond
  exact Int.ediv_le_ediv (by omega) h

theorem weekStart_mono {d e : Date} (h : d ≤ e) : weekStart d ≤ weekStart e := by
  have hlinear : ∀ a b : ℤ, a ≤ b → a - (a + 3) % 7 ≤ b - (b + 3) % 7 := by
    intro a b hab
    omega
  exact hlinear d e h

/-- The days of one ISO week share their Monday. -/
theorem weekStart_eq_of_isoWeek_eq {d e : Date} (h : isoWeek d = isoWeek e) :
    weekStart d = weekStart e := by
  unfold isoWeek at h
  simp only [Prod.mk.injEq] at h
  obtain ⟨hyear, hweek⟩ := h
  rw [hyear] at hweek
  have hmonday : ∀ a b c : ℤ, (a - (a + 3) % 7 + 3 - c) / 7 + 1 = (b - (b + 3) % 7 + 3 - c) / 7 + 1 →
      a - (a + 3) % 7 = b - (b + 3) % 7 := by
    intro a b c habc
    omega
  exact hmonday d e _ hweek

/-- Day of the year that `yearOfEra` leaves, counted from 1 March. -/
def dayOfYear (doe : ℤ) : ℤ :=
  doe - (365 * yearOfEra doe + yearOfEra doe / 4 - yearOfEra doe / 100)

/-- Months of an era before the month of its day `doe`. -/
def eraMonth (doe : ℤ) : ℤ := 12 * yearOfEra doe + (5 * dayOfYear doe + 2) / 153

/-- Months of the civil calendar, in the order of time. -/
def monthIndex (d : Date) : ℤ := year d * 12 + month d

theorem yearOfEra_range {doe : ℤ} (hlow : 0 ≤ doe) (hhigh : doe < 146097) :
    0 ≤ yearOfEra doe ∧ yearOfEra doe ≤ 399 := by
  unfold yearOfEra
  omega

theorem yearOfEra_succ {doe : ℤ} (hlow : 0 ≤ doe) (hhigh : doe < 146096) :
    yearOfEra doe ≤ yearOfEra (doe + 1) := by
  unfold yearOfEra
  omega

/-- A year has at most 366 days, whatever century its leap days fall in. -/
theorem dayOfYear_range {doe : ℤ} (hlow : 0 ≤ doe) (hhigh : doe < 146097) :
    0 ≤ dayOfYear doe ∧ dayOfYear doe ≤ 365 := by
  have hcentury : doe / 36524 = 0 ∨ doe / 36524 = 1 ∨ doe / 36524 = 2 ∨ doe / 36524 = 3 ∨
      doe / 36524 = 4 := by omega
  have hyears := yearOfEra_range hlow hhigh
  unfold dayOfYear
  generalize hyear : yearOfEra doe = y at hyears ⊢
  have hhundred : y / 100 = 0 ∨ y / 100 = 1 ∨ y / 100 = 2 ∨ y / 100 = 3 := by omega
  unfold yearOfEra at hyear
  rcases hcentury with h | h | h | h | h <;> rw [h] at hyear <;>
    rcases hhundred with h' | h' | h' | h' <;> rw [h'] <;> omega

theorem eraMonth_range {doe : ℤ} (hlow : 0 ≤ doe) (hhigh : doe < 146097) :
    0 ≤ eraMonth doe ∧ eraMonth doe < 4800 := by
  have hyear := yearOfEra_range hlow hhigh
  have hday := dayOfYear_range hlow hhigh
  unfold eraMonth
  omega

theorem eraMonth_succ {doe : ℤ} (hlow : 0 ≤ doe) (hhigh : doe < 146096) :
    eraMonth doe ≤ eraMonth (doe + 1) := by
  have hyear := yearOfEra_succ hlow hhigh
  have hday := dayOfYear_range hlow (by omega)
  have hnext : 0 ≤ dayOfYear (doe + 1) ∧ dayOfYear (doe + 1) ≤ 365 :=
    dayOfYear_range (by omega) (by omega)
  unfold eraMonth
  by_cases hsame : yearOfEra (doe + 1) = yearOfEra doe
  · -- one more day of the same year
    have hday' : dayOfYear (doe + 1) = dayOfYear doe + 1 := by
      unfold dayOfYear
      rw [hsame]
      omega
    rw [hsame, hday']
    omega
  · omega

/-- January and February belong to the year that began in the last March. -/
theorem months_from_march (era yoe doy : ℤ) (h : 0 ≤ doy ∧ doy ≤ 365) :
    (yoe + era * 400 + (if (if (5 * doy + 2) / 153 < 10 then (5 * doy + 2) / 153 + 3
        else (5 * doy + 2) / 153 - 9) ≤ 2 then 1 else 0)) * 12 +
      (if (5 * doy + 2) / 153 < 10 then (5 * doy + 2) / 153 + 3 else (5 * doy + 2) / 153 - 9) =
    4800 * era + (12 * yoe + (5 * doy + 2) / 153) + 3 := by
  have hmonth : 0 ≤ (5 * doy + 2) / 153 ∧ (5 * doy + 2) / 153 ≤ 11 := by omega
  generalize (5 * doy + 2) / 153 = mp at hmonth ⊢
  by_cases hmp : mp < 10
  · rw [if_pos hmp, if_neg (by omega)]
    omega
  · rw [if_neg hmp, if_pos (by omega)]
    omega

theorem monthIndex_eq (d : Date) :
    monthIndex d = 4800 * ((d + 719468) / 146097) + eraMonth ((d + 719468) % 146097) + 3 := by
  have hday : 0 ≤ dayOfYear ((d + 719468) % 146097) ∧ dayOfYear ((d + 719468) % 146097) ≤ 365 :=
    dayOfYear_range (Int.emod_nonneg _ (by omega)) (Int.emod_lt_of_pos _ (by omega))
  exact months_from_march _ _ _ hday

theorem monthIndex_mono : Monotone monthIndex := by
  apply monotone_int_of_le_succ
  intro d
  have hlow : 0 ≤ (d + 719468) % 146097 := Int.emod_nonneg _ (by omega)
  have hhigh : (d + 719468) % 146097 < 146097 := Int.emod_lt_of_pos _ (by omega)
  rw [monthIndex_eq, monthIndex_eq]
  by_cases hlast : (d + 719468) % 146097 = 146096
  · -- the era ends with this day
    have hera : (d + 1 + 719468) / 146097 = (d + 719468) / 146097 + 1 := by omega
    have hdoe : (d + 1 + 719468) % 146097 = 0 := by omega
    have hmonth := eraMonth_range hlow hhigh
    have hfirst : 0 ≤ eraMonth 0 := by decide
    rw [hera, hdoe]
    omega
  · have hera : (d + 1 + 719468) / 146097 = (d + 719468) / 146097 := by omega
    have hdoe : (d + 1 + 719468) % 146097 = (d + 719468) % 146097 + 1 := by omega
    have hmonth := eraMonth_succ hlow (by omega)
    rw [hera, hdoe]
    omega

end ConfigBackup.CalendarOrder
