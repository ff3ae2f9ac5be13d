/-
  O2Fabric.Js.Date

  `Date.UTC`, and the fields of a time in UTC.  Times are whole milliseconds.
-/

import O2Fabric.Lib.Calendar

namespace O2Fabric

open Calendar

/-- The latest time there is; its negation is the earliest. -/
def MAX_TIME : ℤ := 8640000000000000

/-- A `Date` holds this time, and is not invalid. -/
def isTime (t : ℤ) : Bool := decide (-MAX_TIME ≤ t ∧ t ≤ MAX_TIME)

/-- `Date.UTC(year, month, date, hours, minutes, seconds)`, months from zero.  Fields that are out
    of range carry over. -/
def dateUTC (year month date hours minutes seconds : ℤ) : ℤ :=
  let carried := year + month / 12
  (dayFromYear carried + monthStart (isLeap carried) (month % 12).toNat + (date - 1)) * 86400000
    + hours * 3600000 + minutes * 60000 + seconds * 1000

def dayOfTime (t : ℤ) : ℤ := t / 86400000

def getUTCFullYear (t : ℤ) : ℤ := yearOfDay (dayOfTime t)

def getUTCMonth (t : ℤ) : Nat :=
  monthOf (isLeap (getUTCFullYear t)) (dayInYear (dayOfTime t)).toNat

def getUTCDate (t : ℤ) : Nat :=
  (dayInYear (dayOfTime t)).toNat - monthStart (isLeap (getUTCFullYear t)) (getUTCMonth t) + 1

def getUTCHours (t : ℤ) : Nat := (t % 86400000 / 3600000).toNat

def getUTCMinutes (t : ℤ) : Nat := (t % 3600000 / 60000).toNat

def getUTCSeconds (t : ℤ) : Nat := (t % 60000 / 1000).toNat

/-- The day of its year, as the months count it. -/
theorem dayInYear_toNat_lt (day : ℤ) :
    (dayInYear day).toNat < if isLeap (yearOfDay day) then 366 else 365 := by
  have hnonneg := dayInYear_nonneg day
  have hlt := dayInYear_lt day
  by_cases hleap : isLeap (yearOfDay day) = true
  · rw [if_pos hleap] at hlt ⊢
    omega
  · rw [if_neg hleap] at hlt ⊢
    omega

theorem getUTCMonth_lt (t : ℤ) : getUTCMonth t < 12 :=
  (monthOf_spec (dayInYear_toNat_lt (dayOfTime t))).1

theorem getUTCDate_le (t : ℤ) : 1 ≤ getUTCDate t ∧ getUTCDate t ≤ 31 := by
  have hspec := monthOf_spec (dayInYear_toNat_lt (dayOfTime t))
  unfold getUTCDate getUTCMonth getUTCFullYear
  omega

theorem getUTCHours_lt (t : ℤ) : getUTCHours t < 24 := by
  unfold getUTCHours
  omega

theorem getUTCMinutes_lt (t : ℤ) : getUTCMinutes t < 60 := by
  unfold getUTCMinutes
  omega

theorem getUTCSeconds_lt (t : ℤ) : getUTCSeconds t < 60 := by
  unfold getUTCSeconds
  omega

/-- The fields of a time on a whole second name it again. -/
theorem dateUTC_fields {t : ℤ} (hsecond : t % 1000 = 0) :
    dateUTC (getUTCFullYear t) (getUTCMonth t) (getUTCDate t) (getUTCHours t) (getUTCMinutes t)
      (getUTCSeconds t) = t := by
  have hmonth := getUTCMonth_lt t
  have hcarried : getUTCFullYear t + (getUTCMonth t : ℤ) / 12 = getUTCFullYear t := by omega
  have hmod : ((getUTCMonth t : ℤ) % 12).toNat = getUTCMonth t := by omega
  have hnonneg := dayInYear_nonneg (dayOfTime t)
  have hstart := (monthOf_spec (dayInYear_toNat_lt (dayOfTime t))).2.1
  -- the date counts from where the month starts
  have hday : dayFromYear (getUTCFullYear t)
      + monthStart (isLeap (getUTCFullYear t)) (getUTCMonth t) + ((getUTCDate t : ℤ) - 1)
      = dayOfTime t := by
    have hinYear : dayInYear (dayOfTime t) = dayOfTime t - dayFromYear (getUTCFullYear t) := rfl
    have hstart' : monthStart (isLeap (getUTCFullYear t)) (getUTCMonth t)
        ≤ (dayInYear (dayOfTime t)).toNat := hstart
    have hdate : getUTCDate t = (dayInYear (dayOfTime t)).toNat
        - monthStart (isLeap (getUTCFullYear t)) (getUTCMonth t) + 1 := rfl
    omega
  simp only [dateUTC, hcarried, hmod]
  rw [hday]
  unfold dayOfTime getUTCHours getUTCMinutes getUTCSeconds
  omega

end O2Fabric
