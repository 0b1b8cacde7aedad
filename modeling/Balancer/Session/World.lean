import Balancer.Refresher
import Balancer.Session.Event
import Balancer.Session.Strategy
import Balancer.Session.Timer

/-!
# The world of a session

A world holds the clock with its timers, the naming services, the strategy, the refreshers
and the work that waits to be done.

* `Balancer.Session.World` – **the state of a session**.
* `Balancer.Session.Job` – work that waits until the code that runs has ended; jobs are
  done in the order in which they came.
* `Balancer.Session.Cycle`, `Waiter` – calls that wait for something.
* `Balancer.Session.World.log` – a log call, which may fail on the console.
* `Balancer.Session.World.reach` – **the clock comes to a timer**.
-/

namespace Balancer.Session

/-! ### Suspended calls -/

/-- Who began a cycle of a refresher. -/
inductive Origin
  /-- A timer. -/
  | timer
  /-- A call made by a step. -/
  | call (number : Nat)
  deriving DecidableEq

/-- **A cycle of a refresher** after its lookup. -/
structure Cycle where
  /-- The refresher. -/
  refresher : Nat
  /-- Its generation when the cycle began. -/
  generation : Nat
  /-- Who began the cycle. -/
  origin : Origin
  /-- The services still to compare. -/
  remaining : List String
  /-- What the lookup returned. -/
  latest : Listing

/-- **A call that waits for a lookup.** -/
inductive Waiter
  /-- The call of a number binds the strategy to a service. -/
  | binding (call : Nat) (service provider : String)
  /-- A cycle compares the lists of services. -/
  | cycle (refresher generation : Nat) (origin : Origin) (services : List String)

/-- A lookup that is still open. -/
structure OpenLookup where
  /-- The number of the lookup. -/
  number : Nat
  /-- The naming service asked. -/
  provider : String
  /-- The services asked for. -/
  services : List String
  /-- Who waits for it. -/
  waiter : Waiter

/-- A callback that is still open. -/
structure OpenCallback where
  /-- The number of the callback. -/
  number : Nat
  /-- The cycle that waits for it. -/
  cycle : Cycle

/-- **Work that waits to be done.** -/
inductive Job
  /-- A lookup has ended, perhaps with nothing. -/
  | answered (waiter : Waiter) (answer : Except Failure (Option Listing))
  /-- A changed list has been taken, or refused. -/
  | taken (cycle : Cycle) (outcome : Except Failure Unit)
  /-- The listener has failed after it returned. -/
  | rejected (failure : Failure)
  /-- The cycle that a timer of a refresher began has ended. -/
  | released (refresher : Nat)

/-! ### Collaborators -/

/-- **A naming service**: what it knows, and how it answers. -/
structure Provider where
  /-- The endpoints it knows. -/
  registry : Registry
  /-- Its answers to come. -/
  script : List Response

/-- **The callback of a refresher** that is driven directly. -/
structure Callback where
  /-- Its reactions to come. -/
  reactions : List Reaction
  /-- How often it was called. -/
  count : Nat
  /-- Its calls that are still open. -/
  pending : List OpenCallback
  /-- The services that a start named, in the order of their first naming. -/
  watched : List String

/-- Where log calls go. -/
inductive Logging
  /-- To a logger that records them. -/
  | recording
  /-- To the console, under a scope. -/
  | console (scope : String)
  deriving DecidableEq

/-! ### The world -/

/-- **The state of a session.** -/
structure World where
  /-- The clock, in milliseconds. -/
  clock : Binary64
  /-- The registered timers, in the order of registration. -/
  timers : List Timer
  /-- The number of the latest timer. -/
  timerCount : Nat
  /-- The settings of the process. -/
  settings : Settings
  /-- Where log calls go. -/
  logging : Logging
  /-- The naming services. -/
  providers : Table Provider
  /-- The number of the latest lookup. -/
  lookupCount : Nat
  /-- The lookups that are still open. -/
  lookups : List OpenLookup
  /-- The work that waits, the oldest first. -/
  jobs : List Job
  /-- The number of the latest call that ends later. -/
  callCount : Nat
  /-- The refreshers, by number. -/
  refreshers : List Refresher
  /-- The strategy, from the beginning of its building. -/
  strategy : Option Strategy
  /-- How many calls of the listener are left to a step to end. -/
  deferred : Nat
  /-- The callback of the first refresher, if that is driven directly. -/
  callback : Option Callback
  /-- All that has happened. -/
  trace : Array Event

namespace World

/-! ### Single moves -/

/-- The world in which one more event has happened. -/
def emit (w : World) (event : Event) : World := { w with trace := w.trace.push event }

/-- The world with one more job. -/
def enqueue (w : World) (job : Job) : World := { w with jobs := w.jobs ++ [job] }

/-- The world with a refresher changed. -/
def modifyRefresher (w : World) (number : Nat) (f : Refresher → Refresher) : World :=
  { w with refreshers := w.refreshers.modify number f }

/-- The world with the strategy changed. -/
def modifyStrategy (w : World) (f : Strategy → Strategy) : World :=
  { w with strategy := w.strategy.map f }

/-- The world with a naming service changed. -/
def modifyProvider (w : World) (name : String) (f : Provider → Provider) : World :=
  { w with providers := match w.providers.get? name with
      | some provider => w.providers.insert name (f provider)
      | none => w.providers }

/-- What a naming service knows. -/
def registry (w : World) (name : String) : Registry :=
  (w.providers.get? name).elim Table.empty Provider.registry

/-- The world in which a call has ended. -/
def endCall (w : World) (call : Nat) (outcome : Except Failure Unit) : World :=
  w.emit (.ended call outcome)

/-- The strategy, once it is built. -/
def strategy? (w : World) : Option Strategy := w.strategy.filter fun s => !s.building

/-- **A log call.** On the console it fails where the clock shows no date. -/
def log (w : World) (level : Level) (message : String) (failure : Option Failure) :
    World × Except Failure Unit :=
  match w.logging with
  | .recording => (w.emit (.log level message failure), .ok ())
  | .console scope =>
    match Line.stamped scope w.clock level message failure with
    | .ok line => (w.emit (.console line), .ok ())
    | .error failure => (w, .error failure)

/-! ### Timers -/

/-- The world with one more timer, whose number is the count of timers then. -/
def setTimer (w : World) (wait : Binary64) (every : Option Binary64) (owner : TimerOwner) : World :=
  { w with
    timers := w.timers ++ [⟨w.timerCount + 1, w.clock + wait, every, owner⟩]
    timerCount := w.timerCount + 1 }

/-- The world without a timer. -/
def clearTimer (w : World) : Option Nat → World
  | none => w
  | some id => { w with timers := w.timers.filter fun t => t.id != id }

/-- **The world in which the clock has come to a timer**: one that fires again waits for its
next time, any other is gone. -/
def reach (w : World) (t : Timer) : World :=
  { w with
    clock := t.due
    timers := match t.every with
      | some ms => w.timers.map fun u => if u.id = t.id then { u with due := t.due + ms } else u
      | none => w.timers.filter fun u => u.id != t.id }

end World

end Balancer.Session
