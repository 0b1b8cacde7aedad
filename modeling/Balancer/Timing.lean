import Balancer.Failure
import Balancer.Number.Literal

/-!
# Poll timings and the settings they come from

* `Balancer.Timings` – how long to wait before the first poll and between polls.
* `Balancer.Timings.check` – **a timing has to be a positive finite number**; the delay is
  checked first.
* `Balancer.Settings.timings` – **the timings that the settings ask for**: a setting that is
  missing or blank leaves the default, and any other has to denote a positive integer.
-/

namespace Balancer

/-- **Poll timings**, in milliseconds. -/
structure Timings where
  /-- The wait before the first poll. -/
  delay : Binary64
  /-- The time between polls. -/
  period : Binary64
  deriving DecidableEq

/-- The settings of a process, as far as they concern polling. -/
structure Settings where
  /-- The text of the delay, if it is set. -/
  delay : Option String
  /-- The text of the period, if it is set. -/
  period : Option String
  deriving DecidableEq

/-! ### Checking timings -/

/-- Fails unless a timing is a positive finite number. -/
def checkTiming (field : TimingField) (value : Binary64) : Except Failure Unit :=
  if value.isFinite && Binary64.zero.lt value then .ok () else .error (.invalidTiming field value)

/-- **Fails unless both timings are positive finite numbers**; the delay goes first. -/
def Timings.check (timings : Timings) : Except Failure Unit := do
  checkTiming .delay timings.delay
  checkTiming .period timings.period

/-! ### Reading settings -/

/-- The timing of an absent setting. -/
def defaultTiming : Binary64 := .ofNat 1000

/-- The timing that one setting asks for. -/
def readSetting (field : TimingField) : Option String → Except Failure Binary64
  | none => .ok defaultTiming
  | some raw =>
    if (Text.trim raw.toList).isEmpty then .ok defaultTiming
    else match Literal.read? raw with
      | some value =>
        if value.isInteger && Binary64.zero.lt value then .ok value
        else .error (.invalidSetting field raw)
      | none => .error (.invalidSetting field raw)

/-- **The timings that the settings ask for**; the delay is read first. -/
def Settings.timings (settings : Settings) : Except Failure Timings := do
  let delay ← readSetting .delay settings.delay
  let period ← readSetting .period settings.period
  return ⟨delay, period⟩

end Balancer
