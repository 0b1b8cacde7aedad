import Balancer.Failure
import Balancer.Number.Arithmetic

/-!
# Clock readings as dates

A clock reading is a number of milliseconds since the beginning of 1970. It is shown as
a date and time of the proleptic Gregorian calendar, to the second.

* `Balancer.Calendar.Moment` – a date and a time of day; `Balancer.Calendar.Moment.ofSeconds`
  is **the moment a number of seconds after the beginning of 1970**, or before it.
* `Balancer.Calendar.Moment.text` – its text; years outside 0 to 9999 have a sign and
  six digits.
* `Balancer.Calendar.stamp` – the text of a clock reading; readings further than
  100 million days from 1970 are not dates.
-/

namespace Balancer.Calendar

/-- **A date and a time of day.** -/
structure Moment where
  /-- The year; the year before 1 is 0. -/
  year : Int
  /-- The month, from 1. -/
  month : Nat
  /-- The day of the month, from 1. -/
  day : Nat
  /-- The hour. -/
  hour : Nat
  /-- The minute. -/
  minute : Nat
  /-- The second. -/
  second : Nat
  deriving DecidableEq

/-! ### Counting days

Years are counted from March, so that a leap day is the last day of its year. -/

/-- The days from the first of March of the year 0 to the beginning of 1970. -/
def epochDay : Int := 719468

/-- The days of four hundred years. -/
def daysPerEra : Nat := 146097

/-- The days of a century without a leap day at its end. -/
def daysPerCentury : Nat := 36524

/-- The days of four years with a leap day at their end. -/
def daysPerLeap : Nat := 1461

/-- The year within an era, and the day within that year, of a day of the era. The last
century of an era and the last of four years are the long ones. -/
def yearOfEra (day : Nat) : Nat × Nat :=
  let century := min 3 (day / daysPerCentury)
  let dayOfCentury := day - daysPerCentury * century
  let leaps := dayOfCentury / daysPerLeap
  let dayOfLeap := dayOfCentury % daysPerLeap
  let years := min 3 (dayOfLeap / 365)
  (100 * century + 4 * leaps + years, dayOfLeap - 365 * years)

/-- The month counted from March, and the day within it, of a day of the year: five
months have 153 days. -/
def monthOfYear (day : Nat) : Nat × Nat :=
  let month := (5 * day + 2) / 153
  (month, day - (153 * month + 2) / 5)

/-- **The moment a number of seconds after the beginning of 1970.** -/
def Moment.ofSeconds (seconds : Int) : Moment :=
  let days := seconds / 86400 + epochDay
  let secondOfDay := (seconds % 86400).toNat
  let (year, dayOfYear) := yearOfEra (days % daysPerEra).toNat
  let (month, day) := monthOfYear dayOfYear
  let fromMarch : Int := days / daysPerEra * 400 + year
  { year := if month < 10 then fromMarch else fromMarch + 1
    month := if month < 10 then month + 3 else month - 9
    day := day + 1
    hour := secondOfDay / 3600
    minute := secondOfDay / 60 % 60
    second := secondOfDay % 60 }

/-! ### Text -/

/-- A number padded with zeros to a width. -/
def padded (width n : Nat) : String :=
  let ds := Nat.toDigits 10 n
  String.ofList (List.replicate (width - ds.length) '0' ++ ds)

/-- A year: four digits, or a sign and six. -/
def yearText (year : Int) : String :=
  if 0 ≤ year ∧ year ≤ 9999 then padded 4 year.toNat
  else (if year < 0 then "-" else "+") ++ padded 6 year.natAbs

/-- **The text of a moment.** -/
def Moment.text (m : Moment) : String :=
  yearText m.year ++ "-" ++ padded 2 m.month ++ "-" ++ padded 2 m.day ++ " " ++
    padded 2 m.hour ++ ":" ++ padded 2 m.minute ++ ":" ++ padded 2 m.second

/-- The milliseconds between 1970 and the last date, and back to the first. -/
def range : Int := 8640000000000000

/-- The whole milliseconds of a clock reading, if it is a date. -/
def milliseconds? (clock : Binary64) : Option Int :=
  clock.floor.toInt?.filter fun ms => ms.natAbs ≤ range

/-- **The text of a clock reading.** -/
def stamp (clock : Binary64) : Except Failure String :=
  match milliseconds? clock with
  | some ms => .ok (Moment.ofSeconds (ms / 1000)).text
  | none => .error .invalidTime

end Balancer.Calendar
