import Balancer.Log
import Balancer.Session.Script

/-!
# Events of a session

All that a session shows besides the results of its steps is a trace of events, in the
order in which they happen.

* `Balancer.Session.Event` – **the events**.
* `Balancer.Session.Notice` – what the listener of a strategy is told.
* `Balancer.Session.Caller` – what a lookup is made for.
-/

namespace Balancer.Session

/-- A change of the membership. -/
inductive Membership
  /-- A target was taken out. -/
  | removed (target : String)
  /-- A target was put back. -/
  | recovered (target : String)
  /-- All targets were replaced by the endpoints of a service. -/
  | reset (service : String)
  deriving DecidableEq

/-- **What a listener is told.** -/
structure Notice where
  /-- What changed. -/
  change : Membership
  /-- The targets in service after the change. -/
  targets : List String
  /-- The clock, in whole milliseconds. -/
  timestamp : Binary64
  deriving DecidableEq

/-- **What a lookup is made for.** -/
inductive Caller
  /-- Binding the strategy to a service. -/
  | binding (service : String)
  /-- A cycle that a timer began, of one generation of a refresher. -/
  | poll (refresher generation : Nat)
  /-- A cycle that a step began. -/
  | refresh (refresher generation : Nat)
  deriving DecidableEq

/-- **An event of a session.** -/
inductive Event
  /-- A log call, as a recording logger sees it. -/
  | log (level : Level) (message : String) (failure : Option Failure)
  /-- A line of the console. -/
  | console (line : Line)
  /-- A call of the listener. -/
  | notice (notice : Notice)
  /-- The end of a call of the listener that was left to a step. -/
  | listenerEnded (outcome : Except Failure Unit)
  /-- A lookup at a naming service. -/
  | lookup (provider : String) (number : Nat) (services : List String) (caller : Caller)
  /-- A call of the callback, with the changed list of a service. -/
  | callback (number : Nat) (service : String) (endpoints : List Endpoint)
  /-- The end of a step inside a script. -/
  | nested (outcome : Outcome)
  /-- The end of a call that a step began. -/
  | ended (call : Nat) (outcome : Except Failure Unit)

end Balancer.Session
