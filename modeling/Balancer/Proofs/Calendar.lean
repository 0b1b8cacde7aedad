import Balancer.Calendar

/-!
# The Gregorian calendar

The calendar is given by its rules: a year divisible by four is a leap year, unless it is divisible
by a hundred and not by four hundred; a leap year has 366 days and its February 29. Days are counted
by adding up the years and months before them. The division by which a moment is found agrees with
that count, before 1970 as well as after.

* `Balancer.Calendar.isLeap`, `Balancer.Calendar.yearLength`, `Balancer.Calendar.monthLength` –
  **the rules of the calendar.**
* `Balancer.Calendar.firstDay` – the first day of a year, counted from that of 1970.
* `Balancer.Calendar.Moment.Valid` – a date and a time of day that there are.
* `Balancer.Calendar.Moment.seconds` – **the seconds from the beginning of 1970 to a moment.**
* `Balancer.Calendar.Moment.ofSeconds_spec` – **the moment found for a number of seconds is one
  that there is, and it is that many seconds away.**
-/

namespace Balancer.Calendar

/-! ### The rules -/

/-- **A leap year**: every fourth year, of those that end a century every fourth only. -/
def isLeap (year : Int) : Bool := year % 4 == 0 && (year % 100 != 0 || year % 400 == 0)

/-- The days of a year. -/
def yearLength (year : Int) : Nat := if isLeap year then 366 else 365

/-- The days of a month, in a leap year or not. -/
def monthLength (leap : Bool) : Nat → Nat
  | 2 => if leap then 29 else 28
  | 4 | 6 | 9 | 11 => 30
  | _ => 31

/-- The days of a number of years, beginning with some year. -/
def daysOfYears (first : Int) : Nat → Int
  | 0 => 0
  | n + 1 => daysOfYears first n + yearLength (first + n)

/-- **The first day of a year**, counted from that of 1970. -/
def firstDay (year : Int) : Int :=
  if 1970 ≤ year then daysOfYears 1970 (year - 1970).toNat
  else -daysOfYears year (1970 - year).toNat

/-- The days of a number of months, beginning with January. -/
def daysOfMonths (leap : Bool) : Nat → Nat
  | 0 => 0
  | n + 1 => daysOfMonths leap n + monthLength leap (n + 1)

namespace Moment

/-- **A date and a time of day that there are.** -/
structure Valid (m : Moment) : Prop where
  /-- There are twelve months. -/
  month : 1 ≤ m.month ∧ m.month ≤ 12
  /-- A month has the days of its length. -/
  day : 1 ≤ m.day ∧ m.day ≤ monthLength (isLeap m.year) m.month
  /-- A day has 24 hours. -/
  hour : m.hour < 24
  /-- An hour has 60 minutes. -/
  minute : m.minute < 60
  /-- A minute has 60 seconds. -/
  second : m.second < 60

/-- The day of a moment, counted from the first of 1970. -/
def dayNumber (m : Moment) : Int :=
  firstDay m.year + daysOfMonths (isLeap m.year) (m.month - 1) + (m.day - 1 : Nat)

/-- **The seconds from the beginning of 1970 to a moment.** -/
def seconds (m : Moment) : Int := ((m.dayNumber * 24 + m.hour) * 60 + m.minute) * 60 + m.second

end Moment

/-! ### Counting years -/

theorem isLeap_iff {year : Int} :
    isLeap year = true ↔ year % 4 = 0 ∧ (year % 100 ≠ 0 ∨ year % 400 = 0) := by
  simp [isLeap]

/-- The leap day of a year, as it is counted by division. -/
theorem toNat_isLeap (year : Int) : ((isLeap year).toNat : Int) =
    ((year + 4) / 4 - (year + 3) / 4) - ((year + 100) / 100 - (year + 99) / 100) +
      ((year + 400) / 400 - (year + 399) / 400) := by
  rcases hleap : isLeap year with _ | _
  · have hnot : ¬ (year % 4 = 0 ∧ (year % 100 ≠ 0 ∨ year % 400 = 0)) := by
      rw [← isLeap_iff, hleap]
      exact Bool.false_ne_true
    rw [Bool.toNat_false]
    omega
  · have hrule := isLeap_iff.mp hleap
    rw [Bool.toNat_true]
    omega

theorem yearLength_eq (year : Int) : yearLength year = 365 + (isLeap year).toNat := by
  rw [yearLength]
  cases isLeap year <;> rfl

/-- A count of days by division, with the leap days of all years before. -/
def countedDays (year : Int) : Int :=
  365 * year + (year + 3) / 4 - (year + 99) / 100 + (year + 399) / 400

/-- **Adding up years is counting by division.** -/
theorem daysOfYears_eq (first : Int) (n : Nat) :
    daysOfYears first n = countedDays (first + n) - countedDays first := by
  induction n with
  | zero => simp [daysOfYears]
  | succ n ih =>
    have hleap := toNat_isLeap (first + n)
    rw [daysOfYears, ih, yearLength_eq, countedDays, countedDays, countedDays]
    omega

theorem firstDay_eq (year : Int) : firstDay year = countedDays year - 719528 := by
  have hstart : countedDays 1970 = 719528 := by decide
  rw [firstDay]
  split
  · have hyear : 1970 + ((year - 1970).toNat : Int) = year := by omega
    rw [daysOfYears_eq, hyear, hstart]
  · have hyear : year + ((1970 - year).toNat : Int) = 1970 := by omega
    rw [daysOfYears_eq, hyear, hstart]
    omega

/-- The days from the beginning of 1970 to the first of March of a year. -/
def firstOfMarch (year : Int) : Int :=
  365 * year + year / 4 - year / 100 + year / 400 - epochDay

/-- **Before the first of March** lie January and February, with the leap day of the year. -/
theorem firstDay_add (year : Int) :
    firstDay year + (59 + (isLeap year).toNat) = firstOfMarch year := by
  rw [firstDay_eq, toNat_isLeap, countedDays, firstOfMarch, epochDay]
  omega

/-- From there the next year is ten months away. -/
theorem firstDay_succ (year : Int) : firstDay (year + 1) = firstOfMarch year + 306 := by
  rw [firstDay_eq, countedDays, firstOfMarch, epochDay]
  omega

/-! ### Years and months by division -/

/-- A day of a stretch of equally long parts, of which the fourth one may have a day more. -/
theorem part_spec (day : Nat) {length : Nat} (hlength : 0 < length) (h : day ≤ 4 * length) :
    length * min 3 (day / length) ≤ day ∧ day - length * min 3 (day / length) ≤ length ∧
      (day - length * min 3 (day / length) = length → min 3 (day / length) = 3) := by
  have hsplit := Nat.div_add_mod day length
  have hmod := Nat.mod_lt day hlength
  rcases Nat.lt_or_ge (day / length) 3 with hlt | hge
  · rw [Nat.min_eq_right (by omega)]
    omega
  · have hthree : length * 3 ≤ length * (day / length) := Nat.mul_le_mul_left length hge
    rw [Nat.min_eq_left hge]
    omega

/-- **A day of an era, by division**: the year that begins with the first of March before it. Only
the year before a leap day has a day 365. -/
theorem yearOfEra_spec {day year dayOfYear : Nat} (h : day < daysPerEra)
    (heq : yearOfEra day = (year, dayOfYear)) :
    365 * year + year / 4 - year / 100 + dayOfYear = day ∧ year < 400 ∧ dayOfYear ≤ 365 ∧
      (dayOfYear = 365 → (year + 1) % 4 = 0 ∧ ((year + 1) % 100 ≠ 0 ∨ (year + 1) % 400 = 0)) := by
  simp only [yearOfEra, Prod.mk.injEq] at heq
  obtain ⟨rfl, rfl⟩ := heq
  simp only [daysPerEra, daysPerCentury, daysPerLeap] at h ⊢
  obtain ⟨hcentury, hlong, hlast⟩ := part_spec day (show 0 < 36524 by decide) (by omega)
  have hthree : min 3 (day / 36524) ≤ 3 := Nat.min_le_left ..
  generalize min 3 (day / 36524) = century at *
  generalize hrest : day - 36524 * century = rest at *
  obtain ⟨hyear, hlong', hlast'⟩ := part_spec (rest % 1461) (show 0 < 365 by decide) (by omega)
  have hthree' : min 3 (rest % 1461 / 365) ≤ 3 := Nat.min_le_left ..
  generalize min 3 (rest % 1461 / 365) = last at *
  have hleaps : rest / 1461 ≤ 24 := by omega
  generalize hleaps' : rest / 1461 = leaps at *
  have hfour : (100 * century + 4 * leaps + last) / 4 = 25 * century + leaps := by omega
  have hhundred : (100 * century + 4 * leaps + last) / 100 = century := by omega
  rw [hfour, hhundred]
  omega

/-- **The months from March on**, in a leap year or not: the days before them since the first of
January, and their length. -/
theorem months_from_march : ∀ leap : Bool, ∀ month < 10,
    daysOfMonths leap (month + 2) = 59 + leap.toNat + (153 * month + 2) / 5 ∧
      monthLength leap (month + 3) = (153 * (month + 1) + 2) / 5 - (153 * month + 2) / 5 := by
  decide

/-- **A day of a year that begins with March, by division**: the month, counted from March, and the
days before it. -/
theorem monthOfYear_spec {day month dayOfMonth : Nat} (h : day ≤ 365)
    (heq : monthOfYear day = (month, dayOfMonth)) :
    (153 * month + 2) / 5 + dayOfMonth = day ∧ month ≤ 11 ∧
      dayOfMonth < (153 * (month + 1) + 2) / 5 - (153 * month + 2) / 5 := by
  simp only [monthOfYear, Prod.mk.injEq] at heq
  obtain ⟨rfl, rfl⟩ := heq
  omega

/-! ### The moment found by division -/

namespace Moment

/-- The moment of a day in a year that begins with March. -/
def fromMarch (year : Int) (month dayOfMonth secondOfDay : Nat) : Moment where
  year := if month < 10 then year else year + 1
  month := if month < 10 then month + 3 else month - 9
  day := dayOfMonth + 1
  hour := secondOfDay / 3600
  minute := secondOfDay / 60 % 60
  second := secondOfDay % 60

section FromMarch

variable {year : Int} {dayOfYear month dayOfMonth : Nat} (hlong : dayOfYear ≤ 365)
  (hlast : dayOfYear = 365 → isLeap (year + 1) = true)
  (hmonth : monthOfYear dayOfYear = (month, dayOfMonth)) (secondOfDay : Nat)
include hlong hlast hmonth

/-- **Its date is one that there is**, as many days behind the first of March. -/
theorem date_fromMarch :
    (fromMarch year month dayOfMonth secondOfDay).dayNumber = firstOfMarch year + dayOfYear ∧
      (1 ≤ (fromMarch year month dayOfMonth secondOfDay).month ∧
        (fromMarch year month dayOfMonth secondOfDay).month ≤ 12) ∧
      dayOfMonth + 1 ≤ monthLength (isLeap (fromMarch year month dayOfMonth secondOfDay).year)
        (fromMarch year month dayOfMonth secondOfDay).month := by
  obtain ⟨hsum, hbound, hshort⟩ := monthOfYear_spec hlong hmonth
  rcases Nat.lt_or_ge month 10 with hlt | hge
  · -- the months up to December belong to the year in which the count begins
    obtain ⟨hbefore, hlength⟩ := months_from_march (isLeap year) month hlt
    have hmarch := firstDay_add year
    simp only [fromMarch, dayNumber, if_pos hlt, Nat.add_sub_cancel, hlength,
      show month + 3 - 1 = month + 2 from rfl, hbefore]
    omega
  · have hnext := firstDay_succ year
    obtain rfl | rfl : month = 10 ∨ month = 11 := by omega
    · have hbefore : daysOfMonths (isLeap (year + 1)) (10 - 9 - 1) = 0 := rfl
      have hlength : monthLength (isLeap (year + 1)) (10 - 9) = 31 := rfl
      simp only [fromMarch, dayNumber, if_neg (Nat.not_lt.mpr hge), Nat.add_sub_cancel, hbefore, hlength]
      omega
    · have hbefore : daysOfMonths (isLeap (year + 1)) (11 - 9 - 1) = 31 := rfl
      have hlength : monthLength (isLeap (year + 1)) (11 - 9) = 28 + (isLeap (year + 1)).toNat := by
        cases isLeap (year + 1) <;> rfl
      -- February has a day 29 in a leap year only
      have hfebruary : dayOfMonth ≤ 27 + (isLeap (year + 1)).toNat := by
        rcases Nat.lt_or_ge dayOfMonth 28 with hlt | hge
        · omega
        · rw [hlast (by omega), Bool.toNat_true]
          omega
      simp only [fromMarch, dayNumber, if_neg (Nat.not_lt.mpr hge), Nat.add_sub_cancel, hbefore, hlength]
      omega

/-- **With its time of day it is as many seconds away.** -/
theorem fromMarch_spec (htime : secondOfDay < 86400) :
    (fromMarch year month dayOfMonth secondOfDay).Valid ∧
      (fromMarch year month dayOfMonth secondOfDay).seconds =
        (firstOfMarch year + dayOfYear) * 86400 + secondOfDay := by
  obtain ⟨hnumber, hmonths, hday⟩ := date_fromMarch hlong hlast hmonth secondOfDay
  have hhour : (fromMarch year month dayOfMonth secondOfDay).hour = secondOfDay / 3600 := rfl
  have hminute : (fromMarch year month dayOfMonth secondOfDay).minute = secondOfDay / 60 % 60 := rfl
  have hsecond : (fromMarch year month dayOfMonth secondOfDay).second = secondOfDay % 60 := rfl
  constructor
  · exact ⟨hmonths, ⟨Nat.succ_pos dayOfMonth, hday⟩, by omega, by omega, by omega⟩
  · rw [seconds, hnumber, hhour, hminute, hsecond]
    omega

end FromMarch

/-- The first of March of a year within an era. -/
theorem firstOfMarch_era (era : Int) {year : Nat} (h : year < 400) :
    firstOfMarch (era * 400 + year) =
      era * 146097 + (365 * year + year / 4 - year / 100 : Nat) - epochDay := by
  rw [firstOfMarch]
  omega

/-- **The moment found for a number of seconds** is one that there is, and that many seconds away
from the beginning of 1970. -/
theorem ofSeconds_spec (seconds : Int) :
    (ofSeconds seconds).Valid ∧ (ofSeconds seconds).seconds = seconds := by
  have hlength : (daysPerEra : Int) = 146097 := rfl
  have hera := Int.emod_add_mul_ediv (seconds / 86400 + epochDay) daysPerEra
  have hnonneg := Int.emod_nonneg (seconds / 86400 + epochDay) (b := daysPerEra) (by omega)
  have hlt := Int.emod_lt_of_pos (seconds / 86400 + epochDay) (b := daysPerEra) (by omega)
  rcases hyear : yearOfEra ((seconds / 86400 + epochDay) % daysPerEra).toNat with ⟨year, dayOfYear⟩
  rcases hmonth : monthOfYear dayOfYear with ⟨month, dayOfMonth⟩
  have hfound : ofSeconds seconds = fromMarch ((seconds / 86400 + epochDay) / daysPerEra * 400 + year)
      month dayOfMonth (seconds % 86400).toNat := by
    simp only [ofSeconds, hyear, hmonth, fromMarch]
  obtain ⟨hsum, hshort, hlong, hleap⟩ := yearOfEra_spec (by omega) hyear
  rw [hfound]
  generalize (seconds / 86400 + epochDay) / daysPerEra = era at *
  generalize (seconds / 86400 + epochDay) % daysPerEra = rest at *
  have hlast : dayOfYear = 365 → isLeap (era * 400 + year + 1) = true := by
    intro h
    have hrule := hleap h
    rw [isLeap_iff]
    omega
  obtain ⟨hvalid, hseconds⟩ := fromMarch_spec hlong hlast hmonth (seconds % 86400).toNat (by omega)
  rw [hseconds, firstOfMarch_era _ hshort]
  refine ⟨hvalid, ?_⟩
  rw [hlength] at hera
  omega

/-- **A moment within a hundred million days** of the beginning of 1970 has a year of six digits at
most. -/
theorem Valid.natAbs_year_lt {m : Moment} (h : m.Valid) (hnear : m.seconds.natAbs ≤ 8640000000000) :
    m.year.natAbs < 10 ^ 6 := by
  have hmonths : ∀ leap : Bool, ∀ month ≤ 12,
      daysOfMonths leap (month - 1) ≤ 335 ∧ monthLength leap month ≤ 31 := by decide
  obtain ⟨hbefore, hlength⟩ := hmonths (isLeap m.year) m.month h.month.2
  have hday := h.day
  have hhour := h.hour
  have hminute := h.minute
  have hsecond := h.second
  simp only [seconds, dayNumber, firstDay_eq, countedDays] at hnear
  omega

end Moment

end Balancer.Calendar
