import Balancer.Session.Opening

/-!
# Reports of a session

* `Balancer.Session.Report` – what a session shows of a step: its outcome, what has happened,
  the calls that have ended and the timers.
* `Balancer.Session.World.strategyState?`, `refresherState?` – what a session shows of its state.
-/

namespace Balancer.Session

/-- **What a session shows of a step.** -/
structure Report where
  /-- What the step yields. -/
  outcome : Outcome
  /-- What has happened, the ends of calls apart. -/
  events : List Event
  /-- The calls that have ended, by number. -/
  ended : List (Nat × Except Failure Unit)
  /-- The registered timers, in the order in which they fire. -/
  timers : List Timer

/-- The end of a call, if an event is one. -/
def Event.ending? : Event → Option (Nat × Except Failure Unit)
  | .ended call outcome => some (call, outcome)
  | _ => none

/-- The report of a world on what has happened after a number of events. -/
def World.report (w : World) (seen : Nat) (outcome : Outcome) : Report :=
  let new := (w.trace.extract seen w.trace.size).toList
  { outcome := outcome
    events := new.filter fun e => e.ending?.isNone
    ended := (new.filterMap Event.ending?).mergeSort fun a b => a.1 ≤ b.1
    timers := Timer.inOrder w.timers }

/-- The status and the targets of the strategy, once it is built. -/
def World.strategyState? (w : World) : Option (List TargetStatus × List String) :=
  w.strategy?.map fun s => (s.rotation.status, s.rotation.targets)

/-- Whether the refresher that is driven directly runs, and the list seen last of every
service that a start named. -/
def World.refresherState? (w : World) : Option (Bool × List (String × Option (List Endpoint))) := do
  let c ← w.callback
  let r ← w.refreshers[0]?
  return (r.running, c.watched.map fun service => (service, r.snapshot.get? service))

end Balancer.Session
