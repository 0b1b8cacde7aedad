import Balancer.Session.Machine

/-!
# Calls of collaborators

Each call of a collaborator takes the next entry of its script, leaves a frame for its end
and begins with the steps of the entry.

* `Balancer.Session.Machine.runScript` – the steps of a script.
* `Balancer.Session.Machine.notify` – **the listener of the strategy is told** of a change.
* `Balancer.Session.Machine.lookup` – **a naming service is asked**.
* `Balancer.Session.Machine.callBack` – **the callback of the refresher is called**.
-/

namespace Balancer.Session.Machine

/-! ### Scripts and the listener -/

/-- What is logged when a listener has failed. -/
def listenerFailed : String := "Error in targets changed callback:"

/-- **The steps of a script begin**, one after the other. -/
def runScript (w : World) (k : List Frame) : List Step → Machine
  | [] => done w k
  | step :: rest => ⟨w, .script rest :: k, .perform step⟩

/-- **The listener is told of a change.** It is not called while the strategy is building. -/
def notify (w : World) (k : List Frame) (change : Membership) : Machine :=
  match w.strategy with
  | none => done w k
  | some s =>
    match s.building, s.listener with
    | false, some reactions =>
      let reaction := reactions.headD Reaction.default
      let w := w.emit (.notice ⟨change, s.rotation.targets, w.clock.floor⟩)
      let w := w.modifyStrategy fun s => { s with listener := some reactions.tail }
      runScript w (.listener reaction.ending :: k) reaction.steps
    | _, _ => done w k

/-- **A naming service is asked**; it takes the next entry of its script. -/
def lookup (w : World) (k : List Frame) (provider : String) (services : List String)
    (caller : Caller) : Machine :=
  let number := w.lookupCount + 1
  let w := { w with lookupCount := number }.emit (.lookup provider number services caller)
  let script := (w.providers.get? provider).elim [] Provider.script
  let (answer, steps) := script.headD Response.default
  let w := w.modifyProvider provider fun p => { p with script := p.script.tail }
  runScript w (.lookup provider number services caller answer :: k) steps

/-- What a lookup ends with. -/
def settlementOf (w : World) (provider : String) (services : List String) :
    Settlement → Except Failure (Option Listing)
  | .registry => .ok (some (Registry.list (w.registry provider) services))
  | .listing listing => .ok (some listing)
  | .nothing => .ok none
  | .failure failure => .error failure

/-- **The callback is called** with the changed list of a service. -/
def callBack (w : World) (k : List Frame) (c : Callback) (cycle : Cycle) (service : String)
    (endpoints : List Endpoint) : Machine :=
  let number := c.count + 1
  let reaction := c.reactions.headD Reaction.default
  let w := { w with callback := some { c with reactions := c.reactions.tail, count := number } }
  let w := w.emit (.callback number service endpoints)
  runScript w (.callback number cycle reaction.ending :: k) reaction.steps

end Balancer.Session.Machine
