import Balancer.Registry
import Balancer.Timing

/-!
# Refreshers

A refresher polls a naming service for the endpoint lists of the services that it tracks
and hands over the lists that changed. It remembers the list of each service that it saw
last, its timers, and a generation that every start and stop raises: a cycle that was
begun in one generation applies nothing in another.

* `Balancer.Refresher` – the state of a refresher.
* `Balancer.Refresher.nextChange?` – **the first service whose list differs from the one seen
  last**.
* `Balancer.Refresher.begin`, `halt` – a run begins with the lists to compare with and ends.
-/

namespace Balancer

/-- Who takes a changed list. -/
inductive Handler
  /-- The strategy that owns the refresher. -/
  | strategy
  /-- A callback given with the refresher. -/
  | callback
  deriving DecidableEq

/-- **The state of a refresher.** -/
structure Refresher where
  /-- The naming service to poll; without one the refresher never starts. -/
  provider : Option String
  /-- Who takes a changed list. -/
  handler : Handler
  /-- How often to poll. -/
  timings : Timings
  /-- The list of each tracked service that was seen last. -/
  snapshot : Listing
  /-- The timer of the first poll, while it waits. -/
  delayTimer : Option Nat
  /-- The timer of the later polls. -/
  periodTimer : Option Nat
  /-- Whether the refresher was started and not stopped since. -/
  running : Bool
  /-- Whether a cycle begun by a timer has not settled. -/
  inFlight : Bool
  /-- The number of starts and stops. -/
  generation : Nat

namespace Refresher

/-- A refresher that was never started. -/
def idle (provider : Option String) (handler : Handler) (timings : Timings) : Refresher where
  provider := provider
  handler := handler
  timings := timings
  snapshot := Table.empty
  delayTimer := none
  periodTimer := none
  running := false
  inFlight := false
  generation := 0

/-- **The refresher at the beginning of a run**: it tracks the services given, with their
lists, and waits on a timer. -/
def begin (r : Refresher) (services : Listing) (timer : Nat) : Refresher :=
  { r with
    snapshot := services
    running := true
    generation := r.generation + 1
    delayTimer := some timer }

/-- **The refresher at the end of a run**, with no timer left to know of. -/
def halt (r : Refresher) : Refresher :=
  { r with
    running := false
    generation := r.generation + 1
    delayTimer := none
    periodTimer := none }

/-- The list that was seen last for a service, or the empty one. -/
def seen (r : Refresher) (service : String) : List Endpoint :=
  (r.snapshot.get? service).getD []

/-- A service whose list changed. -/
structure Change where
  /-- The service. -/
  service : String
  /-- Its new list. -/
  endpoints : List Endpoint
  /-- The services still to compare. -/
  remaining : List String

/-- **The first service whose list differs from the one seen last**; a service that a lookup
left out has the empty list. -/
def nextChange? (r : Refresher) (latest : Listing) : List String → Option Change
  | [] => none
  | service :: remaining =>
    let endpoints := (latest.get? service).getD []
    if Endpoint.sameList (r.seen service) endpoints then r.nextChange? latest remaining
    else some ⟨service, endpoints, remaining⟩

/-- The refresher that has seen a list. -/
def see (r : Refresher) (service : String) (endpoints : List Endpoint) : Refresher :=
  { r with snapshot := r.snapshot.insert service endpoints }

end Refresher

end Balancer
