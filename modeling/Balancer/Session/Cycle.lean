import Balancer.Session.Collaborator

/-!
# Cycles of a refresher

A cycle asks the naming service for the lists of all tracked services, compares them with
the lists seen last, and hands over the changed ones, one after the other.

* `Balancer.Session.Machine.fire`, `tick` – a timer fires, and begins a cycle.
* `Balancer.Session.Machine.beginCycle` – **a cycle begins** with its lookup.
* `Balancer.Session.Machine.goOn` – **a cycle goes on** to the next changed list, or ends.
-/

namespace Balancer.Session.Machine

/-! ### Changed lists -/

/-- **The strategy is reset** to the endpoints of a service, and its listener is told. -/
def reset (w : World) (k : List Frame) (service : String) (endpoints : List Endpoint) : Machine :=
  notify (w.modifyStrategy fun s => s.replaceTargets service endpoints) k (.reset service)

/-- **A changed list is applied**: it is logged, remembered and handed over. -/
def applyChange (w : World) (k : List Frame) (cycle : Cycle) (handler : Handler)
    (change : Refresher.Change) : Machine :=
  let cycle := { cycle with remaining := change.remaining }
  match w.log .warn ("A new changed list getting from naming service name='" ++ change.service ++
      "' value=" ++ Endpoint.listText change.endpoints) none with
  | (w, .error failure) => done (w.failCycle cycle.refresher cycle.origin failure) k
  | (w, .ok _) =>
    let w := w.modifyRefresher cycle.refresher fun r => r.see change.service change.endpoints
    match handler, w.callback with
    | .strategy, _ => reset w (.taken cycle :: k) change.service change.endpoints
    | .callback, some c => callBack w k c cycle change.service change.endpoints
    | .callback, none => done (w.enqueue (.taken cycle (.ok ()))) k

/-- **A cycle goes on** to the next changed list. It ends where there is none, and where the
refresher was stopped or started since the cycle began. -/
def goOn (w : World) (k : List Frame) (cycle : Cycle) : Machine :=
  match w.refreshers[cycle.refresher]? with
  | none => done w k
  | some r =>
    if r.generation ≠ cycle.generation then
      done (w.endCycle cycle.refresher cycle.origin (.ok ())) k
    else match r.nextChange? cycle.latest cycle.remaining with
      | none => done (w.endCycle cycle.refresher cycle.origin (.ok ())) k
      | some change => applyChange w k cycle r.handler change

/-- A cycle that had nothing to do ends at once. -/
def skipCycle (w : World) (k : List Frame) (refresher : Nat) (timed : Bool) : Machine :=
  if timed then done (w.endCycle refresher .timer (.ok ())) k
  else
    let number := w.callCount + 1
    let w := { w with callCount := number }
    give (w.endCycle refresher (.call number) (.ok ())) k (.call number)

/-- **A cycle begins** with one lookup for all tracked services; a refresher that does not run
has none. -/
def beginCycle (w : World) (k : List Frame) (number : Nat) (timed : Bool) : Machine :=
  match w.refreshers[number]? with
  | none => done w k
  | some r =>
    match r.running, r.provider with
    | true, some provider =>
      lookup w k provider r.snapshot.keys
        (if timed then .poll number r.generation else .refresh number r.generation)
    | _, _ => skipCycle w k number timed

/-- **A timer of a refresher fires**: a cycle begins, unless the last one that a timer began
is still in flight. -/
def tick (w : World) (k : List Frame) (number : Nat) : Machine :=
  match w.refreshers[number]? with
  | none => done w k
  | some r =>
    if r.inFlight then done w k
    else beginCycle (w.modifyRefresher number fun r => { r with inFlight := true }) k number true

/-- **A timer fires.** -/
def fire (w : World) (k : List Frame) (t : Timer) : Machine :=
  let w := w.reach t
  match t.owner with
  | .delay number =>
    tick (w.modifyRefresher number fun r => { r with delayTimer := none }) (.arm number :: k) number
  | .period number => tick w k number
  | .alarm => done w k

end Balancer.Session.Machine
