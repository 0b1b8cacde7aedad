import Balancer.Registry
import Balancer.Rotation
import Balancer.Timing

/-!
# Scripts of a session

A session drives a strategy or a refresher step by step. Its collaborators – the naming
services, the listener of the strategy, the callback of the refresher – follow scripts: each
of their calls takes the next entry, runs steps of its own and then ends in some way.

* `Balancer.Session.Step` – **what a step does**.
* `Balancer.Session.Response` – how a naming service answers a lookup.
* `Balancer.Session.Reaction` – how a listener or a callback ends.
* `Balancer.Session.Outcome` – what a step yields.
-/

namespace Balancer.Session

/-! ### Lookups -/

/-- How an open lookup ends. -/
inductive Settlement
  /-- With what the registry of the naming service holds now. -/
  | registry
  /-- With a listing. -/
  | listing (listing : Listing)
  /-- With nothing. -/
  | nothing
  /-- With a failure. -/
  | failure (failure : Failure)

/-- **How a naming service answers a lookup.** -/
inductive Answer
  /-- The lookup ends with the call. -/
  | settled (settlement : Settlement)
  /-- The call fails. -/
  | throws (failure : Failure)
  /-- The lookup stays open. -/
  | pending

/-- Which of several open things a step means. -/
inductive Which
  /-- The one with a number. -/
  | number (n : Nat)
  /-- The one with the least number. -/
  | oldest
  /-- The one with the greatest number. -/
  | newest

/-! ### Steps -/

/-- **A step of a session.** -/
inductive Step
  /-- Lets time pass. -/
  | advance (ms : Binary64)
  /-- Sets the settings of the process. -/
  | configure (settings : Settings)
  /-- Puts the endpoints of a service into the registry of a naming service. -/
  | register (provider service : String) (endpoints : List Endpoint)
  /-- Takes a service out of the registry of a naming service. -/
  | unregister (provider service : String)
  /-- Appends to the script of a naming service; an entry has its own steps. -/
  | prepare (provider : String) (responses : List (Answer × List Step))
  /-- Ends an open lookup. -/
  | settle (which : Which) (settlement : Settlement)
  /-- Elects a number of targets. -/
  | elect (times : Nat)
  /-- Reads the targets in service. -/
  | targets
  /-- Reads the targets taken out. -/
  | failedTargets
  /-- Reads whether there is a target to elect. -/
  | hasTargets
  /-- Reads the weights of the targets in service. -/
  | weights
  /-- Reads the weights of the targets taken out. -/
  | failedWeights
  /-- Reads the status of all known targets. -/
  | status
  /-- Reads everything and does nothing with it. -/
  | inspect
  /-- Takes a target out of service. -/
  | remove (target : String)
  /-- Puts a target back into service. -/
  | recover (target : String)
  /-- Replaces all targets by the endpoints of a service. -/
  | reset (service : String) (endpoints : List Endpoint)
  /-- Binds the strategy to a service of a naming service. -/
  | rebind (service provider : String)
  /-- Begins to poll the bound service. -/
  | startPolling (delay period : Option Binary64)
  /-- Ends polling. -/
  | stopPolling
  /-- Closes the strategy. -/
  | close
  /-- Starts the refresher. -/
  | start (services : Listing)
  /-- Stops the refresher. -/
  | stop
  /-- Reads whether the refresher runs. -/
  | isRunning
  /-- Runs one cycle of the refresher. -/
  | refresh
  /-- Reads the list that the refresher saw last. -/
  | snapshot (service : String)
  /-- Ends an open callback, with a failure if one is given. -/
  | settleCallback (which : Which) (rejection : Option Failure)
  /-- Ends a call of the listener that was left to a step, with a failure if one is given. -/
  | settleListener (rejection : Option Failure)

instance : Inhabited Step := ⟨.inspect⟩

/-- Whether a step drives a refresher directly. -/
def Step.drivesRefresher : Step → Bool
  | .start _ | .stop | .isRunning | .refresh | .snapshot _ | .settleCallback .. => true
  | _ => false

/-- **An entry in the script of a naming service**: its answer, after the steps it runs. -/
abbrev Response := Answer × List Step

/-- The answer where a script has run out. -/
def Response.default : Response := (.settled .registry, [])

/-! ### Reactions -/

/-- How a call of a listener or a callback ends. -/
inductive Ending
  /-- It returns. -/
  | returns
  /-- It fails. -/
  | throws (failure : Failure)
  /-- It returns, and fails later. -/
  | rejects (failure : Failure)
  /-- It returns, and stays open; a callback is ended by a step. -/
  | pending
  /-- It returns, and is ended by a step. -/
  | deferred

/-- **What a listener or a callback does when it is called.** -/
structure Reaction where
  /-- The steps it runs. -/
  steps : List Step
  /-- How it ends. -/
  ending : Ending

/-- The reaction where a script has run out. -/
def Reaction.default : Reaction := ⟨[], .returns⟩

/-! ### Outcomes -/

/-- Why a step does nothing. -/
inductive Refusal
  /-- There is no strategy. -/
  | noStrategy
  /-- There is no refresher to drive. -/
  | noRefresher
  /-- There is no such open lookup. -/
  | noLookup
  /-- There is no such open callback. -/
  | noCallback
  deriving DecidableEq

/-- **What a step that does not fail yields.** -/
inductive Result
  /-- Nothing. -/
  | nothing
  /-- Nothing yet: inside a script nobody waits for the time to pass. -/
  | unawaited
  /-- Targets. -/
  | targets (targets : List String)
  /-- A truth value. -/
  | flag (value : Bool)
  /-- Weights. -/
  | weights (weights : Table Nat)
  /-- The status of all known targets. -/
  | status (status : List TargetStatus)
  /-- The endpoints of a service, if it is known. -/
  | endpoints (endpoints : Option (List Endpoint))
  /-- The number of a call that ends later. -/
  | call (number : Nat)
  /-- The step was refused. -/
  | refused (refusal : Refusal)
  deriving DecidableEq

/-- **What a step yields**: a result or a failure. -/
abbrev Outcome := Except Failure Result

end Balancer.Session
