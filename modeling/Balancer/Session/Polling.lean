import Balancer.Session.World

/-!
# Polling

What refreshers and the strategy do to the world without calling a collaborator.

* `Balancer.Session.World.startRefresher`, `stopRefresher` – **a run of a refresher** begins with
  a new timer, and ends without the timers that the refresher knows of.
* `Balancer.Session.World.endCycle`, `logFailure`, `failCycle` – a cycle ends; a failure is logged.
* `Balancer.Session.World.startPolling`, `stopPolling` – **the polling of the strategy**; where
  the timings are bad, nothing changes.
* `Balancer.Session.World.endBinding` – a call that binds the strategy to a service ends.
-/

namespace Balancer.Session.World

/-! ### Runs of a refresher -/

/-- **A run of a refresher begins**, unless it runs already or has no naming service. -/
def startRefresher (w : World) (number : Nat) (services : Listing) : World :=
  match w.refreshers[number]? with
  | none => w
  | some r =>
    if r.provider.isNone || r.running then w
    else
      let w := w.setTimer r.timings.delay none (.delay number)
      w.modifyRefresher number fun r => r.begin services w.timerCount

/-- **A run of a refresher ends**; the timers that it knows of are cleared. -/
def stopRefresher (w : World) (number : Nat) : World :=
  match w.refreshers[number]? with
  | none => w
  | some r =>
    ((w.clearTimer r.delayTimer).clearTimer r.periodTimer).modifyRefresher number Refresher.halt

/-- **The later polls of a refresher begin**: a timer that fires again and again is set, and
the refresher knows of it. -/
def armPeriod (w : World) (number : Nat) : World :=
  match w.refreshers[number]? with
  | none => w
  | some r =>
    let w := w.setTimer r.timings.period (some r.timings.period) (.period number)
    w.modifyRefresher number fun r => { r with periodTimer := some w.timerCount }

/-! ### The end of a cycle -/

/-- **A cycle ends.** One that a timer began is in flight until the work that waits has been
done; one that a call began ends the call. -/
def endCycle (w : World) (refresher : Nat) (origin : Origin) (outcome : Except Failure Unit) :
    World :=
  match origin with
  | .timer => w.enqueue (.released refresher)
  | .call number => w.endCall number outcome

/-- **The failure of a cycle is logged**, with its text. Where it has none, to form it fails and
nothing is logged. -/
def logFailure (w : World) (failure : Failure) : World × Except Failure Unit :=
  match failure.reason with
  | .ok reason => w.log .warn ("Naming service refresh failed: " ++ reason) (some failure)
  | .error thrown => (w, .error thrown)

/-- **A cycle ends with a failure**, which is logged and goes no further, unless logging
fails as well. -/
def failCycle (w : World) (refresher : Nat) (origin : Origin) (failure : Failure) : World :=
  let (w, outcome) := w.logFailure failure
  w.endCycle refresher origin outcome

/-! ### Polling of the strategy -/

/-- The number of the strategy's latest refresher. -/
def poller? (w : World) : Option Nat := w.strategy.bind Strategy.refresher

/-- Whether the strategy polls. -/
def polling (w : World) : Bool :=
  match w.poller?.bind fun number => w.refreshers[number]? with
  | some r => r.running
  | none => false

/-- The timings of the strategy's polling, while it polls. -/
def runningTimings (w : World) : Option Timings :=
  if w.polling then w.strategy.bind Strategy.timings else none

/-- **Polling ends.** -/
def stopPolling (w : World) : World :=
  match w.poller? with
  | none => w
  | some number => w.stopRefresher number

/-- The strategy gets a new refresher for the service it follows, which is started. -/
def pollWith (w : World) (binding : Binding) (timings : Timings) : World :=
  let number := w.refreshers.length
  let refresher := Refresher.idle (some binding.provider) .strategy timings
  let w := { w with refreshers := w.refreshers ++ [refresher] }
  let w := w.modifyStrategy fun s => s.pollBy number timings
  w.startRefresher number (Table.empty.insert binding.service binding.endpoints)

/-- **Polling begins**, unless the strategy follows no service or polls already. -/
def startPolling (w : World) (delay period : Option Binary64) : World × Except Failure Unit :=
  match w.strategy with
  | none => (w, .ok ())
  | some s =>
    match s.binding with
    | none => (w, .ok ())
    | some binding =>
      if w.polling then (w, .ok ())
      else match s.chooseTimings w.settings delay period with
        | .error failure => (w, .error failure)
        | .ok timings =>
          (w.pollWith binding timings).log .info
            ("Refreshing \"" ++ binding.service ++ "\" from naming service") none

/-! ### Binding of the strategy -/

/-- **A call that binds the strategy ends.** A strategy that was waiting for its first list is
built then, or never. -/
def endBinding (w : World) (call : Nat) (outcome : Except Failure Unit) : World :=
  let strategy := match outcome with
    | .ok _ => w.strategy.map Strategy.built
    | .error _ => w.strategy.filter fun s => !s.building
  { w with strategy := strategy }.endCall call outcome

end Balancer.Session.World
