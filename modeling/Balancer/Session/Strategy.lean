import Balancer.Session.Script

/-!
# Strategies

A strategy elects targets and may follow a service: then it is bound to the service of a
naming service, and a refresher of its own polls the endpoints.

* `Balancer.Session.Strategy` – the state of a strategy.
* `Balancer.Session.Strategy.chooseTimings` – **the timings to poll with**: each is the first
  given of argument, option and setting, and both are good
  (`Balancer.Session.Strategy.check_of_chooseTimings`).
* `Balancer.Session.Strategy.replaceTargets` – **all targets replaced** by the endpoints of a
  service.
-/

namespace Balancer.Session

/-- **The service that a strategy follows.** -/
structure Binding where
  /-- The service. -/
  service : String
  /-- The naming service that knows it. -/
  provider : String
  /-- The list that was applied last. -/
  endpoints : List Endpoint
  deriving DecidableEq

/-- The binding that remembers the endpoints of a service, if it is to that service. -/
def Binding.see (b : Binding) (service : String) (endpoints : List Endpoint) : Binding :=
  if b.service = service then { b with endpoints := endpoints } else b

/-- What a strategy is made with. -/
structure Options where
  /-- The wait before the first poll, if it is given. -/
  delay : Option Binary64
  /-- The time between polls, if it is given. -/
  period : Option Binary64
  /-- The reactions of the listener, if there is one. -/
  listener : Option (List Reaction)

/-- **The state of a strategy.** -/
structure Strategy where
  /-- The targets and the election. -/
  rotation : Rotation
  /-- The service it follows, if any. -/
  binding : Option Binding
  /-- Its latest refresher. -/
  refresher : Option Nat
  /-- The timings of its latest refresher. -/
  timings : Option Timings
  /-- Whether it waits for its first list; until then its listener is not called. -/
  building : Bool
  /-- The delay given with the strategy. -/
  delay : Option Binary64
  /-- The period given with the strategy. -/
  period : Option Binary64
  /-- The reactions to come of its listener, if it has one. -/
  listener : Option (List Reaction)

namespace Strategy

/-! ### Making a strategy -/

/-- The strategy of a table of weights. -/
def ofWeights (options : Options) (weights : Table Binary64) : Strategy where
  rotation := Rotation.ofWeights weights
  binding := none
  refresher := none
  timings := none
  building := false
  delay := options.delay
  period := options.period
  listener := options.listener

/-- The strategy that waits for its first list. -/
def awaiting (options : Options) : Strategy :=
  { ofWeights options Table.empty with building := true }

/-- The strategy that has its first list. -/
def built (s : Strategy) : Strategy := { s with building := false }

/-! ### Following a service -/

/-- The strategy that follows a service, of which it has seen no endpoint yet. -/
def bind (s : Strategy) (service provider : String) : Strategy :=
  { s with binding := some ⟨service, provider, []⟩ }

/-- **All targets replaced** by the endpoints of a service; the endpoints are remembered if it
is the service that the strategy follows. -/
def replaceTargets (s : Strategy) (service : String) (endpoints : List Endpoint) : Strategy :=
  { s with
    binding := s.binding.map fun b => b.see service endpoints
    rotation := Rotation.ofEndpoints endpoints }

/-! ### Polling -/

/-- The strategy with a new refresher. -/
def pollBy (s : Strategy) (refresher : Nat) (timings : Timings) : Strategy :=
  { s with refresher := some refresher, timings := some timings }

/-- **The timings to poll with.** The settings are read only where a timing is given neither as
an argument nor as an option, and then both of them have to be good. -/
def chooseTimings (s : Strategy) (settings : Settings) (delay period : Option Binary64) :
    Except Failure Timings := do
  let delay := delay <|> s.delay
  let period := period <|> s.period
  let timings ← match delay, period with
    | some delay, some period => pure ⟨delay, period⟩
    | _, _ => do
      let asked ← settings.timings
      pure ⟨delay.getD asked.delay, period.getD asked.period⟩
  timings.check
  return timings

/-- Timings that are returned after a check are good. -/
theorem check_of_checked {chosen timings : Timings}
    (h : (do chosen.check; return chosen : Except Failure Timings) = .ok timings) :
    timings.check = .ok () := by
  rcases hcheck : chosen.check with failure | u
  · rw [hcheck] at h
    cases h
  · rw [hcheck] at h
    cases h
    exact hcheck

/-- **Timings that are chosen are good**, wherever they come from. -/
theorem check_of_chooseTimings {s : Strategy} {settings : Settings}
    {delay period : Option Binary64} {timings : Timings}
    (h : s.chooseTimings settings delay period = .ok timings) : timings.check = .ok () := by
  unfold chooseTimings at h
  dsimp only at h
  split at h
  · exact check_of_checked h
  · rcases hask : settings.timings with failure | asked
    · rw [hask] at h
      cases h
    · rw [hask] at h
      exact check_of_checked h

/-- Good timings are chosen where they are given. -/
theorem chooseTimings_of_check {timings : Timings} (h : timings.check = .ok ())
    (s : Strategy) (settings : Settings) :
    s.chooseTimings settings (some timings.delay) (some timings.period) = .ok timings := by
  show (do timings.check; return timings : Except Failure Timings) = .ok timings
  rw [h]
  rfl

end Strategy

end Balancer.Session
