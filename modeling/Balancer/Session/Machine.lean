import Balancer.Session.Polling

/-!
# The machine of a session

A session runs in single transitions, so that the state is known at every point where a
collaborator – a naming service, a listener or a callback – may run steps of its own. What
remains to be done after such a point is a stack of frames.

* `Balancer.Session.Frame` – **what remains to be done** when something returns.
* `Balancer.Session.Machine` – a world, a stack, and what comes next: a step to perform or an
  outcome to deliver to the frame on top.
* `Balancer.Session.Machine.give`, `done`, `finish`, `refuse` – the ways to return.
-/

namespace Balancer.Session

/-- **What remains to be done** when something returns. -/
inductive Frame
  /-- The steps of a script that follow the one that runs. -/
  | script (rest : List Step)
  /-- A call of the listener ends. -/
  | listener (ending : Ending)
  /-- A naming service answers a lookup, whose waiter has no number yet. -/
  | lookup (provider : String) (number : Nat) (services : List String) (caller : Caller)
      (answer : Answer)
  /-- A call of the callback ends, for which a cycle waits. -/
  | callback (number : Nat) (cycle : Cycle) (ending : Ending)
  /-- The strategy has taken the list of a cycle. -/
  | taken (cycle : Cycle)
  /-- A call has bound the strategy, which is to poll again if it polled before. -/
  | bound (call : Nat) (timings : Option Timings)
  /-- The first poll of a refresher is done, and its later polls begin. -/
  | arm (refresher : Nat)
  /-- Time passes up to some time; outside any script all waiting work is done in between. -/
  | advance (time : Binary64) (settling : Bool)
  /-- The waiting work is done; the first outcome delivered is that of the step. -/
  | settle (outcome : Option Outcome)

/-- **What comes next.** -/
inductive Control
  /-- A step is performed. -/
  | perform (step : Step)
  /-- An outcome is delivered to the frame on top. -/
  | deliver (outcome : Outcome)

/-- **A session at one point of its run.** -/
structure Machine where
  /-- The world. -/
  world : World
  /-- What remains to be done, the innermost first. -/
  stack : List Frame
  /-- What comes next. -/
  control : Control

namespace Machine

/-! ### Returning -/

/-- A result is delivered. -/
def give (w : World) (k : List Frame) (result : Result) : Machine :=
  ⟨w, k, .deliver (.ok result)⟩

/-- Nothing is delivered. -/
def done (w : World) (k : List Frame) : Machine := give w k .nothing

/-- Nothing is delivered, or a failure. -/
def finish (w : World × Except Failure Unit) (k : List Frame) : Machine :=
  ⟨w.1, k, .deliver (w.2.map fun _ => .nothing)⟩

/-- A step is refused. -/
def refuse (w : World) (k : List Frame) (refusal : Refusal) : Machine :=
  give w k (.refused refusal)

end Machine

end Balancer.Session
