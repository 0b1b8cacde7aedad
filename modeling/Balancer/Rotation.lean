import Balancer.Endpoint
import Balancer.Failure
import Balancer.Weight

/-!
# The rotation

The rotation holds the targets in service and those taken out, with their weights, and
walks through the election sequence of the former.

* `Balancer.Rotation.ofWeights` – the rotation of a table of weights.
* `Balancer.Rotation.elect` – **the next target of the sequence**; behind the last comes the
  first.
* `Balancer.Rotation.remove?`, `recover?` – a target taken out, or put back at its weight; both
  come last in the table they move to, and **both begin a new pass**. There is no new
  rotation where the target is not in the table it would leave.
* `Balancer.Rotation.ofEndpoints` – the rotation that serves every endpoint once per pass.
-/

namespace Balancer

/-- **The state of an election.** -/
structure Rotation where
  /-- The weights of the targets in service. -/
  active : Table Nat
  /-- The weights of the targets taken out. -/
  failed : Table Nat
  /-- The election sequence of the active targets. -/
  sequence : Option (Array String)
  /-- The place in the sequence of the next election. -/
  cursor : Nat
  deriving DecidableEq

/-- A target with its weight and whether it is in service. -/
structure TargetStatus where
  /-- The target. -/
  target : String
  /-- Its weight. -/
  weight : Nat
  /-- Whether it is in service. -/
  healthy : Bool
  deriving DecidableEq

namespace Rotation

/-! ### Building -/

/-- The rotation at the beginning of a pass over the active targets. -/
def restart (active failed : Table Nat) : Rotation where
  active := active
  failed := failed
  sequence := Weight.expand active
  cursor := 0

/-- **The rotation of a table of weights.** -/
def ofWeights (weights : Table Binary64) : Rotation :=
  restart (weights.mapValues Weight.normalize) Table.empty

/-- The weight of a target that comes from an endpoint. -/
def endpointWeight : Binary64 := Weight.one

/-- **The rotation of a list of endpoints**, all of the same weight. -/
def ofEndpoints (endpoints : List Endpoint) : Rotation :=
  ofWeights (Table.ofList (endpoints.map fun e => (e.key, endpointWeight)))

/-! ### Electing -/

/-- **The next target, and the rotation behind it.** -/
def elect (r : Rotation) : Except Failure (String × Rotation) :=
  match r.sequence with
  | none => .error .notInitialized
  | some sequence =>
    let place := if r.cursor < sequence.size then r.cursor else 0
    match sequence[place]? with
    | some target => .ok (target, { r with cursor := place + 1 })
    | none => .error .notInitialized

/-! ### Changing the membership -/

/-- **The rotation without a target**, if the target is in service. -/
def remove? (r : Rotation) (target : String) : Option Rotation :=
  (r.active.get? target).map fun weight =>
    restart (r.active.erase target) (r.failed.insert target weight)

/-- **The rotation with a target back in service**, if the target was taken out. -/
def recover? (r : Rotation) (target : String) : Option Rotation :=
  (r.failed.get? target).map fun weight =>
    restart (r.active.insert target weight) (r.failed.erase target)

/-! ### Reading -/

/-- The distinct targets of the sequence, in the order of their first election. -/
def targets (r : Rotation) : List String :=
  match r.sequence with
  | none => []
  | some sequence => sequence.toList.eraseDups

/-- Whether there is a target to elect. -/
def hasTargets (r : Rotation) : Bool := !r.targets.isEmpty

/-- The targets that were taken out, the first one first. -/
def failedTargets (r : Rotation) : List String := r.failed.keys

/-- **All known targets**, first those in service. -/
def status (r : Rotation) : List TargetStatus :=
  r.active.entries.map (fun (target, weight) => ⟨target, weight, true⟩) ++
    r.failed.entries.map fun (target, weight) => ⟨target, weight, false⟩

end Rotation

end Balancer
