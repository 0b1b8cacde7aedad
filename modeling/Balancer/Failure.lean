import Balancer.Number.Text

/-!
# Failures

What an operation can fail with. The balancer's own failures are named by their cause;
a naming service, a listener or a callback may fail with an error of some kind, or with
a bare value that is no error at all. There are values that cannot be written out: to
form their text fails as well.

* `Balancer.Failure` – **the causes**.
* `Balancer.Failure.name?`, `reason` – how a failure is shown: its kind, and the text that
  stands for it inside another failure, if it can be formed.
* `Balancer.Failure.ofLookup` – what a call fails with whose lookup has failed.
* `Balancer.Failure.kinds` – the kinds of the balancer's own that a failure is of.
-/

namespace Balancer

/-- The kinds of error that a collaborator raises. -/
inductive ErrorKind
  /-- An error of no special kind. -/
  | plain
  /-- A value of the wrong type. -/
  | type
  /-- A value out of its range. -/
  | range
  /-- Any error of the balancer's. -/
  | balancer
  /-- A bad configuration. -/
  | configuration
  deriving DecidableEq

/-- The timings of a refresher. -/
inductive TimingField
  /-- The wait before the first poll. -/
  | delay
  /-- The time between polls. -/
  | period
  deriving DecidableEq

/-- **What an operation can fail with.** -/
inductive Failure
  /-- There is no target to elect. -/
  | notInitialized
  /-- A timing is not a positive finite number. -/
  | invalidTiming (field : TimingField) (value : Binary64)
  /-- A setting does not denote a positive integer. -/
  | invalidSetting (field : TimingField) (raw : String)
  /-- The naming service failed while a strategy was being bound to a service. -/
  | lookup (service : String) (cause : Failure)
  /-- The clock is outside the range of dates. -/
  | invalidTime
  /-- A collaborator raised an error. -/
  | raised (kind : ErrorKind) (message : String)
  /-- An error that carries its cause. -/
  | raisedFrom (kind : ErrorKind) (message : String) (cause : Failure)
  /-- A text was thrown. -/
  | text (value : String)
  /-- A truth value was thrown. -/
  | flag (value : Bool)
  /-- A number was thrown. -/
  | number (value : Binary64)
  /-- A value was thrown that says there is nothing. -/
  | nothing
  /-- No value was thrown. -/
  | missing
  /-- Any other value was thrown, which is written out as a text. -/
  | other (written : String)
  /-- A value was thrown that has no text: to write it out fails in turn. -/
  | textless (thrown : Failure)
  deriving DecidableEq

/-- Outcomes that may be failures can be compared; this instance goes before any other. -/
instance (priority := high) Except.decidableEq {ε α : Type} [DecidableEq ε] [DecidableEq α] :
    DecidableEq (Except ε α)
  | .ok a, .ok b => decidable_of_iff (a = b) (by simp)
  | .error e, .error f => decidable_of_iff (e = f) (by simp)
  | .ok _, .error _ => isFalse (by simp)
  | .error _, .ok _ => isFalse (by simp)

/-! ### Names and texts -/

/-- The name of a kind of error. -/
def ErrorKind.name : ErrorKind → String
  | .plain => "Error"
  | .type => "TypeError"
  | .range => "RangeError"
  | .balancer => "LoadBalancerError"
  | .configuration => "ConfigurationError"

/-- The name of a timing. -/
def TimingField.name : TimingField → String
  | .delay => "delayMs"
  | .period => "periodMs"

/-- The name of the setting that a timing is read from. -/
def TimingField.setting : TimingField → String
  | .delay => "LB_REFRESH_DELAY_MS"
  | .period => "LB_REFRESH_PERIOD_MS"

namespace Failure

/-- **The name of an error**; a bare value has none. -/
def name? : Failure → Option String
  | notInitialized => some "NotInitializedError"
  | invalidTiming .. | invalidSetting .. => some ErrorKind.configuration.name
  | lookup .. => some "DiscoveryError"
  | invalidTime => some ErrorKind.range.name
  | raised kind _ | raisedFrom kind _ _ => some kind.name
  | text _ | flag _ | number _ | nothing | missing | other _ | textless _ => none

/-- **The text that stands for a failure inside another**: the message of an error, and
a bare value written out. Where there is none, to form it fails. -/
def reason : Failure → Except Failure String
  | notInitialized => .ok "Load balancer is not initialized: no target is available."
  | invalidTiming field value =>
    .ok (field.name ++ " must be a positive number of milliseconds, got " ++ value.text ++ ".")
  | invalidSetting field raw =>
    .ok (field.setting ++ " must be a positive integer, got \"" ++ raw ++ "\".")
  | lookup service cause =>
    cause.reason.map fun reason =>
      "Naming service lookup failed for \"" ++ service ++ "\": " ++ reason
  | invalidTime => .ok "Invalid time value"
  | raised _ message | raisedFrom _ message _ => .ok message
  | text value => .ok value
  | flag value => .ok (if value then "true" else "false")
  | number value => .ok value.text
  | nothing => .ok "null"
  | missing => .ok "undefined"
  | other written => .ok written
  | textless thrown => .error thrown

/-- **What a call fails with whose lookup has failed**: an error that names the service and carries
the cause. Its message has the text of the cause; where there is none, to form it is what fails. -/
def ofLookup (service : String) (cause : Failure) : Failure :=
  match cause.reason with
  | .ok _ => .lookup service cause
  | .error thrown => thrown

theorem ofLookup_of_ok {cause : Failure} {reason : String} (h : cause.reason = .ok reason)
    (service : String) : ofLookup service cause = lookup service cause := by
  rw [ofLookup, h]

theorem ofLookup_of_error {cause thrown : Failure} (h : cause.reason = .error thrown)
    (service : String) : ofLookup service cause = thrown := by
  rw [ofLookup, h]

/-- The cause that an error carries. -/
def cause? : Failure → Option Failure
  | lookup _ cause | raisedFrom _ _ cause => some cause
  | _ => none

/-- **The kinds of the balancer's own that a failure is of**, in alphabetical order. -/
def kinds : Failure → List String
  | notInitialized => ["LoadBalancerError", "NotInitializedError"]
  | invalidTiming .. | invalidSetting .. => ["ConfigurationError", "LoadBalancerError"]
  | lookup .. => ["DiscoveryError", "LoadBalancerError"]
  | raised kind _ | raisedFrom kind _ _ =>
    match kind with
    | .balancer => ["LoadBalancerError"]
    | .configuration => ["ConfigurationError", "LoadBalancerError"]
    | .plain | .type | .range => []
  | _ => []

end Failure

end Balancer
