import BlockTransfer.Time.Calendar
import Mathlib.Tactic.IntervalCases

/-!
# Days and dates

Every day has a date that exists in the calendar, and counting the days up to that date gives the
day again.

An era of 400 years, which begins in March, is cut into three centuries of 36524 days and a longer
one, a century into cycles of four years with 1461 days, of which the last one of a century may
lack its leap day, and a cycle into years of 365 days, of which the last one has the leap day at
its end. Where a day stands in this division determines its date.

## Main results

* `Date.toDays_ofDays`: the date of a day is that day.
* `Date.isValid_ofDays`: the date of a day exists.
-/

namespace BlockTransfer.Calendar

/-! ## The division of an era -/

/-- The year of an era in which a day of the era lies. -/
def yearOfEra (day : Int) : Int :=
  (day - day / 1460 + day / 36524 - day / 146096) / 365

/-- The number of days since the year began in which a day of the era lies. -/
def dayOfYear (day : Int) : Int :=
  day - (365 * yearOfEra day + yearOfEra day / 4 - yearOfEra day / 100)

/-- Where a day stands in its era: how many whole centuries of the era, cycles of the century,
years of the cycle and days of the year lie before it. -/
structure Place where
  /-- The whole centuries. -/
  century : Int
  /-- The whole cycles of four years. -/
  cycle : Int
  /-- The whole years. -/
  year : Int
  /-- The whole days. -/
  day : Int

namespace Place

/-- The number of days before a place. -/
def total (p : Place) : Int :=
  36524 * p.century + 1461 * p.cycle + 365 * p.year + p.day

/-- The number of years before a place. -/
def years (p : Place) : Int :=
  100 * p.century + 4 * p.cycle + p.year

/-- An era has a place like this. -/
structure Fits (p : Place) : Prop where
  century : 0 ≤ p.century ∧ p.century ≤ 3
  cycle : 0 ≤ p.cycle ∧ p.cycle ≤ 24
  year : 0 ≤ p.year ∧ p.year ≤ 3
  day : 0 ≤ p.day ∧ p.day ≤ 365
  /-- A leap day ends a cycle, and the last cycle of a century only if the era ends as well. -/
  leap : p.day = 365 → p.year = 3 ∧ (p.cycle = 24 → p.century = 3)

/-- Every day of an era has a place. -/
theorem exists_total_eq {day : Int} (h : 0 ≤ day ∧ day < 146097) :
    ∃ p : Place, p.Fits ∧ p.total = day := by
  -- The last century takes in the last day of the era, and the last year that of a cycle.
  obtain ⟨century, rest, hcentury, hrest, rfl⟩ : ∃ century rest : Int,
      (0 ≤ century ∧ century ≤ 3) ∧ (0 ≤ rest ∧ (rest < 36524 ∨ rest = 36524 ∧ century = 3)) ∧
        day = 36524 * century + rest := by
    rcases Int.lt_or_le day 146096 with h | h
    · exact ⟨day / 36524, day % 36524, by omega, by omega, by omega⟩
    · exact ⟨3, 36524, by omega, by omega, by omega⟩
  obtain ⟨year, last, hyear, hlast, hcycle⟩ : ∃ year last : Int,
      (0 ≤ year ∧ year ≤ 3) ∧ (0 ≤ last ∧ (last < 365 ∨ last = 365 ∧ year = 3)) ∧
        rest % 1461 = 365 * year + last := by
    rcases Int.lt_or_le (rest % 1461) 1460 with h | h
    · exact ⟨rest % 1461 / 365, rest % 1461 % 365, by omega, by omega, by omega⟩
    · exact ⟨3, 365, by omega, by omega, by omega⟩
  refine ⟨⟨century, rest / 1461, year, last⟩, ⟨hcentury, ?_, hyear, ?_, ?_⟩, ?_⟩ <;>
    simp only [total] <;> omega

namespace Fits

variable {p : Place}

/-- No century reaches into the next one, but the day that ends the era is its own. -/
theorem total_div (h : p.Fits) : p.total / 36524 - p.total / 146096 = p.century := by
  obtain ⟨hcentury, hcycle, hyear, hday, hleap⟩ := h
  obtain ⟨rest, hrest⟩ : ∃ rest, rest = 1461 * p.cycle + 365 * p.year + p.day := ⟨_, rfl⟩
  have htotal : p.total = 36524 * p.century + rest := by
    rw [total]
    omega
  have hbound : 0 ≤ rest ∧ (rest < 36524 ∨ rest = 36524 ∧ p.century = 3) := by omega
  clear hrest
  rw [htotal]
  rcases hbound with ⟨hnonneg, hlt | ⟨rfl, hlast⟩⟩
  · have hera : (36524 * p.century + rest) / 146096 = 0 := by omega
    have hdiv : (36524 * p.century + rest) / 36524 = p.century := by omega
    omega
  · rw [hlast]
    decide

/-- The year of a day is that of its place. -/
theorem yearOfEra_total (h : p.Fits) : yearOfEra p.total = p.years := by
  have hcenturies := h.total_div
  obtain ⟨hcentury, hcycle, hyear, hday, hleap⟩ := h
  -- Of the leap days before the day, only that of its own cycle may be counted too early.
  have hcycles : p.total / 1460 = 25 * p.century + p.cycle ∨
      p.total / 1460 = 25 * p.century + p.cycle + 1 ∧ p.year = 3 ∧ 1 ≤ p.day := by
    rw [total]
    omega
  rw [yearOfEra, years]
  have htotal : p.total = 36524 * p.century + 1461 * p.cycle + 365 * p.year + p.day := rfl
  omega

/-- The years before a place and the days of its own year make up the days before it. -/
theorem total_eq (h : p.Fits) :
    p.total = 365 * p.years + p.years / 4 - p.years / 100 + p.day := by
  obtain ⟨hcentury, hcycle, hyear, hday, hleap⟩ := h
  rw [total, years]
  omega

/-- The day of the year is that of its place. -/
theorem dayOfYear_total (h : p.Fits) : dayOfYear p.total = p.day := by
  have htotal := h.total_eq
  rw [dayOfYear, h.yearOfEra_total]
  omega

/-- The years before a place are those of one era. -/
theorem years_mem (h : p.Fits) : 0 ≤ p.years ∧ p.years < 400 := by
  obtain ⟨hcentury, hcycle, hyear, hday, hleap⟩ := h
  rw [years]
  omega

/-- A leap day is the last day of February in a leap year. -/
theorem isLeap_of_day_eq (h : p.Fits) (hday : p.day = 365) (era : Int) :
    isLeap (era * 400 + p.years + 1) = true := by
  obtain ⟨hcentury, hcycle, hyear, -, hleap⟩ := h
  obtain ⟨hlast, hend⟩ := hleap hday
  simp only [isLeap, years, Bool.and_eq_true, Bool.or_eq_true, beq_iff_eq, bne_iff_ne, ne_eq]
  omega

/-- A place is one of an era. -/
theorem total_mem (h : p.Fits) : 0 ≤ p.total ∧ p.total < 146097 := by
  obtain ⟨hcentury, hcycle, hyear, hday, -⟩ := h
  rw [total]
  omega

/-- A place behind another one is in no earlier year. -/
theorem years_le (h : p.Fits) {q : Place} (hq : q.Fits) (hle : p.total ≤ q.total) :
    p.years ≤ q.years := by
  obtain ⟨hcentury, hcycle, hyear, hday, hleap⟩ := h
  obtain ⟨hcentury', hcycle', hyear', hday', hleap'⟩ := hq
  simp only [total] at hle
  simp only [years]
  omega

end Fits

end Place

/-! ## Dates -/

namespace Date

/-- The date that many days after the first of March of a year. -/
def ofMarch (year days : Int) : Date :=
  let month := (5 * days + 2) / 153
  { year := if month < 10 then year else year + 1
    month := (if month < 10 then month + 3 else month - 9).toNat
    day := (days - (153 * month + 2) / 5 + 1).toNat }

/-- A date is counted from the March before it. -/
theorem toDays_ofMarch (year : Int) {days : Int} (h : 0 ≤ days ∧ days ≤ 365) :
    (ofMarch year days).toDays =
      year / 400 * 146097 + (365 * (year % 400) + year % 400 / 4 - year % 400 / 100 + days) -
        719468 := by
  obtain ⟨month, hmonth⟩ : ∃ month, month = (5 * days + 2) / 153 := ⟨_, rfl⟩
  have hbound : 0 ≤ month ∧ month ≤ 11 := by omega
  have hday : 1 ≤ days - (153 * month + 2) / 5 + 1 := by omega
  simp only [ofMarch, toDays, ← hmonth]
  rcases Int.lt_or_le month 10 with hlt | hge
  · have hnumber : ¬ (month + 3).toNat ≤ 2 := by omega
    simp only [if_pos hlt, if_neg hnumber]
    omega
  · have hnumber : (month - 9).toNat ≤ 2 := by omega
    have hnot : ¬ month < 10 := by omega
    simp only [if_neg hnot, if_pos hnumber, Int.add_sub_cancel]
    omega

/-- A date exists if its day is in a year, the leap day in a leap year. -/
theorem isValid_ofMarch {year days : Int} (h : 0 ≤ days ∧ days ≤ 365)
    (hleap : days = 365 → isLeap (year + 1) = true) : (ofMarch year days).isValid = true := by
  obtain ⟨month, hmonth⟩ : ∃ month, month = (5 * days + 2) / 153 := ⟨_, rfl⟩
  have hfirst : 0 ≤ month := by omega
  have hlast : month ≤ 11 := by omega
  simp only [ofMarch, isValid, ← hmonth, Bool.and_eq_true, decide_eq_true_iff]
  -- The lengths of the months are known one by one; only February depends on the year.
  interval_cases month
  case «11» =>
    refine ⟨⟨⟨by decide, by decide⟩, by omega⟩, ?_⟩
    rcases eq_or_ne days 365 with rfl | hne
    · simp [daysInMonth, hleap rfl]
    · simp only [daysInMonth, Int.reduceLT, Int.reduceSub, Int.reduceToNat, if_true, if_false]
      split <;> omega
  all_goals
    refine ⟨⟨⟨by decide, by decide⟩, by omega⟩, ?_⟩
    simp only [daysInMonth, Int.reduceLT, Int.reduceAdd, Int.reduceSub, Int.reduceToNat,
      Nat.reduceEqDiff, or_true, or_false, if_true, if_false]
    omega

/-- Months and days of a date that exists have two digits. -/
theorem lt_of_isValid {date : Date} (h : date.isValid = true) :
    date.month < 100 ∧ date.day < 100 := by
  have hlength : daysInMonth date.year date.month ≤ 31 := by
    rw [daysInMonth]
    repeat' split
    all_goals decide
  simp only [isValid, Bool.and_eq_true, decide_eq_true_iff] at h
  omega

/-- The date of a day is determined by the place of the day in its era. -/
theorem exists_ofDays_eq (days : Int) : ∃ (era : Int) (p : Place), p.Fits ∧
    days = era * 146097 + p.total - 719468 ∧ ofDays days = ofMarch (era * 400 + p.years) p.day := by
  have hday : 0 ≤ (days + 719468) % 146097 ∧ (days + 719468) % 146097 < 146097 := by omega
  obtain ⟨p, hfits, htotal⟩ := Place.exists_total_eq hday
  refine ⟨(days + 719468) / 146097, p, hfits, by omega, ?_⟩
  rw [← hfits.yearOfEra_total, ← hfits.dayOfYear_total, htotal]
  rfl

/-- January and February are in the next year. -/
theorem year_ofMarch (year days : Int) :
    (ofMarch year days).year = if days < 306 then year else year + 1 := by
  simp only [ofMarch]
  split <;> split <;> omega

/-- A later day is in no earlier year. -/
theorem year_ofDays_le {first last : Int} (h : first ≤ last) :
    (ofDays first).year ≤ (ofDays last).year := by
  obtain ⟨era, p, hp, rfl, hfirst⟩ := exists_ofDays_eq first
  obtain ⟨era', q, hq, rfl, hlast⟩ := exists_ofDays_eq last
  have hyears := hp.years_mem
  have hyears' := hq.years_mem
  have hmem := hp.total_mem
  have hmem' := hq.total_mem
  rw [hfirst, hlast, year_ofMarch, year_ofMarch]
  have hera : era ≤ era' := by omega
  rcases Int.lt_or_eq_of_le hera with hlt | rfl
  · split <;> split <;> omega
  · have hle := hp.years_le hq (by omega)
    rcases Int.lt_or_eq_of_le hle with hlt | heq
    · split <;> split <;> omega
    · have htotal := hp.total_eq
      have htotal' := hq.total_eq
      rw [heq] at htotal ⊢
      split <;> split <;> omega

/-- The date of a day is that day. -/
theorem toDays_ofDays (days : Int) : (ofDays days).toDays = days := by
  obtain ⟨era, p, hfits, hdays, hdate⟩ := exists_ofDays_eq days
  have hyears := hfits.years_mem
  have htotal := hfits.total_eq
  have hera : (era * 400 + p.years) / 400 = era := by omega
  have hyear : (era * 400 + p.years) % 400 = p.years := by omega
  rw [hdate, toDays_ofMarch _ hfits.day, hera, hyear]
  omega

/-- The date of a day exists. -/
theorem isValid_ofDays (days : Int) : (ofDays days).isValid = true := by
  obtain ⟨era, p, hfits, -, hdate⟩ := exists_ofDays_eq days
  rw [hdate]
  exact isValid_ofMarch hfits.day fun h => hfits.isLeap_of_day_eq h era

end Date

end BlockTransfer.Calendar
