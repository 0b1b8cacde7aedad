import Balancer.Session.Run

/-!
# Beginning a session

* `Balancer.Session.openStrategy` – a session of a strategy of given weights.
* `Balancer.Session.openBound` – **a session of a strategy that follows a service**, which
  begins with a lookup.
* `Balancer.Session.openRefresher` – a session of a refresher that is driven directly.
-/

namespace Balancer.Session

/-- What a session begins with. -/
structure Setup where
  /-- The clock. -/
  clock : Binary64
  /-- The settings of the process. -/
  settings : Settings
  /-- Whether log calls go to the console. -/
  onConsole : Bool
  /-- The naming services. -/
  providers : Table Provider

/-- The scope of the log lines of a strategy. -/
def strategyScope : String := "load-balancer"

/-- The scope of the log lines of a refresher that is driven directly. -/
def refresherScope : String := "discovery"

/-- A world in which nothing has happened. -/
def Setup.world (setup : Setup) (scope : String) : World where
  clock := setup.clock
  timers := []
  timerCount := 0
  settings := setup.settings
  logging := if setup.onConsole then .console scope else .recording
  providers := setup.providers
  lookupCount := 0
  lookups := []
  jobs := []
  callCount := 0
  refreshers := []
  strategy := none
  deferred := 0
  callback := none
  trace := #[]

/-- **A session of a strategy with given weights.** -/
def openStrategy (setup : Setup) (options : Options) (weights : Table Binary64) : World :=
  { setup.world strategyScope with strategy := some (Strategy.ofWeights options weights) }

/-- The first lookup of a strategy that is to follow a service. -/
def boundMachine (setup : Setup) (options : Options) (service provider : String) : Machine :=
  let w := { setup.world strategyScope with strategy := some (Strategy.awaiting options) }
  Machine.lookup w [.settle none] provider [service] (.binding service)

/-- **A session of a strategy that follows a service** from the beginning. -/
def openBound (setup : Setup) (options : Options) (service provider : String) :
    World × Outcome :=
  (boundMachine setup options service provider).complete

/-- **A session of a refresher** that is driven directly; its timings have to be good. -/
def openRefresher (setup : Setup) (provider : Option String) (timings : Timings)
    (reactions : List Reaction) : Except Failure World := do
  timings.check
  return { setup.world refresherScope with
    refreshers := [Refresher.idle provider .callback timings]
    callback := some ⟨reactions, 0, [], []⟩ }

end Balancer.Session
