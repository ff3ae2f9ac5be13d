/-
  O2Fabric.Lib.Calendar

  The Gregorian calendar, carried back over all years: the day a year and a
  month start on, and the year, month and date of a day.  Days are counted from
  1 January 1970, and months and days of a year from zero.
-/

import Mathlib.Data.Int.Basic
import Mathlib.Data.List.Range

namespace O2Fabric.Calendar

def isLeap (year : ℤ) : Bool := decide (year % 4 = 0 ∧ (year % 100 ≠ 0 ∨ year % 400 = 0))

def dayFromYear (year : ℤ) : ℤ :=
  365 * (year - 1970) + (year - 1969) / 4 - (year - 1901) / 100 + (year - 1601) / 400

/-- The day of a common year that a month starts on. -/
def MONTH_STARTS : List Nat := [0, 31, 59, 90, 120, 151, 181, 212, 243, 273, 304, 334]

/-- The day of a year that a month starts on. -/
def monthStart (leap : Bool) (month : Nat) : Nat :=
  MONTH_STARTS.getD month 0 + if leap ∧ 2 ≤ month then 1 else 0

/-- The year of a day, by its place in the 400 years from a year after a multiple of 400. -/
def yearOfDay (day : ℤ) : ℤ :=
  let since := day + 719162
  let rest := since % 146097
  let centuries := min (rest / 36524) 3
  let rest := rest - 36524 * centuries
  let fours := rest / 1461
  let years := min (rest % 1461 / 365) 3
  400 * (since / 146097) + 100 * centuries + 4 * fours + years + 1

def dayInYear (day : ℤ) : ℤ := day - dayFromYear (yearOfDay day)

/-- The month a day of a year is in: the last that has started. -/
def monthOf (leap : Bool) (dayInYear : Nat) : Nat :=
  ((List.range 12).filter fun month => decide (monthStart leap month ≤ dayInYear)).length - 1

/-! ## A day is in its year and its month -/

/-- The day a year starts on, by the same places. -/
theorem dayFromYear_places {eras centuries fours years : ℤ} (hcenturies : 0 ≤ centuries ∧ centuries ≤ 3)
    (hfours : 0 ≤ fours ∧ fours ≤ 24) (hyears : 0 ≤ years ∧ years ≤ 3) :
    dayFromYear (400 * eras + 100 * centuries + 4 * fours + years + 1)
      = 146097 * eras + 36524 * centuries + 1461 * fours + 365 * years - 719162 := by
  have hfourth : (400 * eras + 100 * centuries + 4 * fours + years + 1 - 1969) / 4
      = 100 * eras + 25 * centuries + fours - 492 := by omega
  have hhundredth : (400 * eras + 100 * centuries + 4 * fours + years + 1 - 1901) / 100
      = 4 * eras + centuries - 19 := by omega
  have hlast : (400 * eras + 100 * centuries + 4 * fours + years + 1 - 1601) / 400
      = eras - 4 := by omega
  unfold dayFromYear
  rw [hfourth, hhundredth, hlast]
  omega

/-- The places of a day, and what is left of its year. -/
theorem places_of_day (day : ℤ) : ∃ eras centuries fours years rest : ℤ,
    (0 ≤ centuries ∧ centuries ≤ 3) ∧ (0 ≤ fours ∧ fours ≤ 24) ∧ (0 ≤ years ∧ years ≤ 3) ∧
    yearOfDay day = 400 * eras + 100 * centuries + 4 * fours + years + 1 ∧
    day = 146097 * eras + 36524 * centuries + 1461 * fours + 365 * years + rest - 719162 ∧
    0 ≤ rest ∧ (rest < 365 ∨ rest = 365 ∧ years = 3 ∧ (fours < 24 ∨ centuries = 3)) := by
  obtain ⟨eras, heras⟩ : ∃ eras, eras = (day + 719162) / 146097 := ⟨_, rfl⟩
  obtain ⟨a, ha⟩ : ∃ a, a = (day + 719162) % 146097 := ⟨_, rfl⟩
  obtain ⟨centuries, hcenturies⟩ : ∃ c, c = min (a / 36524) 3 := ⟨_, rfl⟩
  obtain ⟨fours, hfours⟩ : ∃ f, f = (a - 36524 * centuries) / 1461 := ⟨_, rfl⟩
  obtain ⟨c, hc⟩ : ∃ c, c = (a - 36524 * centuries) % 1461 := ⟨_, rfl⟩
  obtain ⟨years, hyears⟩ : ∃ y, y = min (c / 365) 3 := ⟨_, rfl⟩
  have hyear : yearOfDay day = 400 * eras + 100 * centuries + 4 * fours + years + 1 := by
    simp only [yearOfDay, heras, ha, hcenturies, hfours, hc, hyears]
  have hday : day = 146097 * eras + a - 719162 := by omega
  have hcenturyRange : 0 ≤ centuries ∧ centuries ≤ 3 := by omega
  -- a century has 36524 days, and the last of four one more
  have hb : 0 ≤ a - 36524 * centuries ∧
      (a - 36524 * centuries < 36524 ∨ a - 36524 * centuries = 36524 ∧ centuries = 3) := by omega
  have hsplit : a - 36524 * centuries = 1461 * fours + c := by omega
  have hfourRange : 0 ≤ fours ∧ fours ≤ 24 := by omega
  have hyearRange : 0 ≤ years ∧ years ≤ 3 := by omega
  refine ⟨eras, centuries, fours, years, c - 365 * years, hcenturyRange, hfourRange, hyearRange,
    hyear, by omega, by omega, ?_⟩
  have hrest : c - 365 * years < 365 ∨ c = 1460 ∧ years = 3 := by omega
  rcases hrest with hrest | ⟨hlast, hthree⟩
  · exact Or.inl hrest
  · right
    refine ⟨by omega, hthree, ?_⟩
    omega

theorem dayInYear_nonneg (day : ℤ) : 0 ≤ dayInYear day := by
  obtain ⟨eras, centuries, fours, years, rest, hcenturies, hfours, hyears, hyear, hday, hrest, -⟩ :=
    places_of_day day
  unfold dayInYear
  rw [hyear, dayFromYear_places hcenturies hfours hyears]
  omega

theorem dayInYear_lt (day : ℤ) :
    dayInYear day < if isLeap (yearOfDay day) then 366 else 365 := by
  obtain ⟨eras, centuries, fours, years, rest, hcenturies, hfours, hyears, hyear, hday, -, hrest⟩ :=
    places_of_day day
  have hin : dayInYear day = rest := by
    unfold dayInYear
    rw [hyear, dayFromYear_places hcenturies hfours hyears]
    omega
  rw [hin]
  rcases hrest with hrest | ⟨hrest, hthree, hleast⟩
  · split <;> omega
  · -- the day a leap year has more
    have hleap : isLeap (yearOfDay day) = true := by
      rw [hyear, isLeap, decide_eq_true_eq]
      omega
    rw [if_pos hleap]
    omega

/-- A day of a year is in the month found for it, and before its thirty-second. -/
theorem monthOf_spec {leap : Bool} {day : Nat} (hday : day < if leap then 366 else 365) :
    monthOf leap day < 12 ∧ monthStart leap (monthOf leap day) ≤ day ∧
      day < monthStart leap (monthOf leap day) + 31 := by
  have hall : ∀ leap : Bool, ∀ day : Fin 366, (day.val < if leap then 366 else 365) →
      monthOf leap day < 12 ∧ monthStart leap (monthOf leap day) ≤ day.val ∧
      day.val < monthStart leap (monthOf leap day) + 31 := by decide +kernel
  have hfits : day < 366 := by split at hday <;> omega
  exact hall leap ⟨day, hfits⟩ hday

end O2Fabric.Calendar
