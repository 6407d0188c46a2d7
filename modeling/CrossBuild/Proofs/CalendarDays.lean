import CrossBuild.Calendar.Date
import Mathlib.Tactic.IntervalCases
import Mathlib.Tactic.Lemma

/-!
# Days and their counts

Every count of days is that of the day it stands for, and that day is one of the calendar. An era is 400
years of 146097 days, counted from a March, so that what is to be shown is about one era: its days fall into
centuries, these into years, and these into months that begin at fixed days.
-/

namespace CrossBuild.Proofs
open Date

/-! ### Years of an era -/

def yearOfEra (dayOfEra : Int) : Int :=
  (dayOfEra - dayOfEra / 1460 + dayOfEra / 36524 - dayOfEra / 146096) / 365

def dayOfYear (dayOfEra : Int) : Int :=
  dayOfEra - (365 * yearOfEra dayOfEra + yearOfEra dayOfEra / 4 - yearOfEra dayOfEra / 100)

/-- The day is one of a year of an era, and the last one only of a year that ends with a leap day. -/
structure InYear (year day : Int) : Prop where
  year_nonneg : 0 ≤ year
  year_lt : year < 400
  day_nonneg : 0 ≤ day
  day_le : day ≤ 365
  leap : day = 365 → isLeap (year + 1) = true

/-- Within a century the years are of 365 days but for each fourth, and the last day of a fourth year of
each is missing at its end. -/
lemma inYear_of_century {century day : Int} (hcentury : 0 ≤ century ∧ century ≤ 3) (hday : 0 ≤ day ∧ day ≤ 36523) :
    InYear (yearOfEra (36524 * century + day)) (dayOfYear (36524 * century + day)) := by
  obtain ⟨year, hyear⟩ : ∃ year, year = (day - (24 * century + day) / 1460) / 365 := ⟨_, rfl⟩
  have hbounds : 0 ≤ year ∧ year ≤ 99 := by omega
  have hrest : 0 ≤ day - 365 * year - year / 4 ∧ day - 365 * year - year / 4 ≤ 365 := by omega
  have hleap : day - 365 * year - year / 4 = 365 → year % 4 = 3 ∧ year ≠ 99 := by omega
  have hera : yearOfEra (36524 * century + day) = 100 * century + year := by
    unfold yearOfEra
    omega
  have hown : dayOfYear (36524 * century + day) = day - 365 * year - year / 4 := by
    have hfour : (100 * century + year) / 4 = 25 * century + year / 4 := by omega
    have hhundred : (100 * century + year) / 100 = century := by omega
    rw [dayOfYear, hera, hfour, hhundred]
    omega
  rw [hera, hown]
  constructor
  case year_nonneg => omega
  case year_lt => omega
  case day_nonneg => exact hrest.1
  case day_le => exact hrest.2
  case leap =>
    intro hlast
    obtain ⟨hmod, hne⟩ := hleap hlast
    have hfourth : (100 * century + year + 1) % 4 = 0 := by omega
    have hcommon : (100 * century + year + 1) % 100 ≠ 0 := by omega
    simp [isLeap, hfourth, hcommon]

lemma isLeap_of_era (year era : Int) : isLeap (year + era * 400) = isLeap year := by
  have hfour : (year + era * 400) % 4 = year % 4 := by omega
  have hhundred : (year + era * 400) % 100 = year % 100 := by omega
  have hera : (year + era * 400) % 400 = year % 400 := by omega
  simp only [isLeap, hfour, hhundred, hera]

lemma inYear {day : Int} (h : 0 ≤ day ∧ day < 146097) : InYear (yearOfEra day) (dayOfYear day) := by
  by_cases hlast : day = 146096
  · rw [hlast]
    exact ⟨by decide, by decide, by decide, by decide, fun _ => by decide⟩
  · have hsplit : day = 36524 * (day / 36524) + day % 36524 := by omega
    rw [hsplit]
    exact inYear_of_century (by omega) (by omega)

/-! ### Months of a year -/

def monthOfDay (day : Int) : Int := (5 * day + 2) / 153

def dayOfMonth (day : Int) : Int := day - (153 * monthOfDay day + 2) / 5 + 1

def calendarMonth (month : Int) : Int := if month < 10 then month + 3 else month - 9

def eraOf (days : Int) : Int := (days + 719468).fdiv 146097

def dayOfEra (days : Int) : Int := days + 719468 - eraOf days * 146097

lemma ofDays_eq (days : Int) : ofDays days =
    ⟨yearOfEra (dayOfEra days) + eraOf days * 400 +
        (if calendarMonth (monthOfDay (dayOfYear (dayOfEra days))) ≤ 2 then 1 else 0),
      (calendarMonth (monthOfDay (dayOfYear (dayOfEra days)))).toNat,
      (dayOfMonth (dayOfYear (dayOfEra days))).toNat⟩ := rfl

lemma dayOfEra_bounds (days : Int) : 0 ≤ dayOfEra days ∧ dayOfEra days < 146097 := by
  unfold dayOfEra eraOf
  rw [Int.fdiv_eq_ediv_of_nonneg _ (by decide)]
  omega

section Days

variable {year day : Int} (h : InYear year day)

include h

lemma monthOfDay_bounds : 0 ≤ monthOfDay day ∧ monthOfDay day ≤ 11 := by
  have hnonneg := h.day_nonneg
  have hle := h.day_le
  unfold monthOfDay
  omega

lemma dayOfMonth_pos : 1 ≤ dayOfMonth day := by
  have hnonneg := h.day_nonneg
  unfold dayOfMonth monthOfDay
  omega

/-- The count of a day in an era gives the day back. -/
lemma toDays_of_inYear (era : Int) :
    toDays ⟨year + era * 400 + (if calendarMonth (monthOfDay day) ≤ 2 then 1 else 0),
      (calendarMonth (monthOfDay day)).toNat, (dayOfMonth day).toNat⟩ =
      era * 146097 + (year * 365 + year / 4 - year / 100 + day) - 719468 := by
  have hmonth := monthOfDay_bounds h
  have hday := dayOfMonth_pos h
  have hyear := h.year_nonneg
  have hlt := h.year_lt
  have hback : (153 * monthOfDay day + 2) / 5 + dayOfMonth day - 1 = day := by
    unfold dayOfMonth
    omega
  generalize monthOfDay day = month at *
  generalize dayOfMonth day = own at *
  have hcalendar : 1 ≤ calendarMonth month ∧ calendarMonth month ≤ 12 ∧ (calendarMonth month + 9) % 12 = month := by
    unfold calendarMonth
    split <;> omega
  generalize calendarMonth month = calendar at *
  unfold toDays
  dsimp only
  have hcast : ((calendar.toNat : Nat) : Int) = calendar := Int.toNat_of_nonneg (by omega)
  have hcastDay : ((own.toNat : Nat) : Int) = own := Int.toNat_of_nonneg (by omega)
  have hmarch : (if calendar.toNat ≤ 2 then year + era * 400 + (if calendar ≤ 2 then 1 else 0) - 1
      else year + era * 400 + (if calendar ≤ 2 then 1 else 0)) = year + era * 400 := by
    by_cases hfirst : calendar ≤ 2
    · rw [if_pos hfirst, if_pos (by omega)]
      omega
    · rw [if_neg hfirst, if_neg (by omega)]
      omega
  have hera : (year + era * 400).fdiv 400 = era := by
    rw [Int.fdiv_eq_ediv_of_nonneg _ (by decide)]
    omega
  have hmonthBack : ((calendar.toNat : Int) + 9) % 12 = month := by
    rw [hcast]
    exact hcalendar.2.2
  rw [hmarch, hera, hcastDay, hmonthBack, hback]
  omega

/-- A month has as many days as come before the next one. -/
lemma dayOfMonth_le (era : Int) : dayOfMonth day ≤
    daysInMonth (year + era * 400 + (if calendarMonth (monthOfDay day) ≤ 2 then 1 else 0))
      (calendarMonth (monthOfDay day)).toNat := by
  have hmonth := monthOfDay_bounds h
  have hday := h.day_le
  have hown : 153 * monthOfDay day ≤ 5 * day + 2 ∧ 5 * day + 2 < 153 * (monthOfDay day + 1) := by
    unfold monthOfDay
    omega
  have hleap : day = 365 → isLeap (year + era * 400 + 1) = true := by
    intro hlast
    rw [add_right_comm, isLeap_of_era]
    exact h.leap hlast
  unfold dayOfMonth
  generalize monthOfDay day = month at *
  obtain ⟨hnonneg, hle⟩ := hmonth
  interval_cases month
  case «11» =>
    -- only February ends with the year, and its last day is there in leap years alone
    simp only [calendarMonth, daysInMonth]
    by_cases hlast : day = 365
    · simp [hleap hlast]
      omega
    · simp
      split <;> omega
  all_goals
    simp [calendarMonth, daysInMonth]
    omega

end Days

theorem isValid_ofDays {days : Int} (hfirst : firstYear ≤ (ofDays days).year) (hlast : (ofDays days).year ≤ lastYear) :
    (ofDays days).isValid = true := by
  have hyear := inYear (dayOfEra_bounds days)
  have hmonth := monthOfDay_bounds hyear
  have hday := dayOfMonth_pos hyear
  have hle := dayOfMonth_le hyear (eraOf days)
  rw [ofDays_eq] at hfirst hlast ⊢
  dsimp only at hfirst hlast
  have hcalendar : 1 ≤ calendarMonth (monthOfDay (dayOfYear (dayOfEra days))) ∧
      calendarMonth (monthOfDay (dayOfYear (dayOfEra days))) ≤ 12 := by
    unfold calendarMonth
    split <;> omega
  simp only [isValid, Bool.and_eq_true, decide_eq_true_eq]
  refine ⟨⟨⟨⟨⟨hfirst, hlast⟩, ?_⟩, ?_⟩, ?_⟩, ?_⟩
  · omega
  · omega
  · omega
  · omega

theorem toDays_ofDays (days : Int) : (ofDays days).toDays = days := by
  have hyear := inYear (dayOfEra_bounds days)
  rw [ofDays_eq, toDays_of_inYear hyear]
  unfold dayOfYear dayOfEra
  omega

lemma yearOfEra_mono {day day' : Int} (hle : day ≤ day') : yearOfEra day ≤ yearOfEra day' := by
  have hyears : day - day / 1460 ≤ day' - day' / 1460 := by omega
  have hcenturies : day / 36524 - day / 146096 ≤ day' / 36524 - day' / 146096 := by omega
  unfold yearOfEra
  omega

/-- A later day is not one of an earlier year. -/
theorem year_mono {days days' : Int} (hle : days ≤ days') : (ofDays days).year ≤ (ofDays days').year := by
  have hera : eraOf days ≤ eraOf days' := by
    unfold eraOf
    rw [Int.fdiv_eq_ediv_of_nonneg _ (by decide), Int.fdiv_eq_ediv_of_nonneg _ (by decide)]
    omega
  have h := inYear (dayOfEra_bounds days)
  have h' := inYear (dayOfEra_bounds days')
  have hyear := h.year_lt
  have hyear' := h'.year_nonneg
  rw [ofDays_eq, ofDays_eq]
  dsimp only
  by_cases hsame : eraOf days = eraOf days'
  · have hday : dayOfEra days ≤ dayOfEra days' := by
      unfold dayOfEra
      omega
    have hmono := yearOfEra_mono hday
    rw [hsame]
    by_cases hown : yearOfEra (dayOfEra days) = yearOfEra (dayOfEra days')
    · have hrest : dayOfYear (dayOfEra days) ≤ dayOfYear (dayOfEra days') := by
        unfold dayOfYear
        rw [hown]
        omega
      have hmonth : calendarMonth (monthOfDay (dayOfYear (dayOfEra days))) ≤ 2 →
          calendarMonth (monthOfDay (dayOfYear (dayOfEra days'))) ≤ 2 := by
        have hnonneg := h.day_nonneg
        have hle' := h'.day_le
        unfold calendarMonth monthOfDay
        omega
      rw [hown]
      split
      · rename_i hfirst
        rw [if_pos (hmonth hfirst)]
      · split <;> omega
    · split <;> split <;> omega
  · split <;> split <;> omega

end CrossBuild.Proofs
