import Balancer.Session.Cycle

/-!
# Performing a step

* `Balancer.Session.Machine.perform` – **what a step does**, up to the first call of a
  collaborator.
-/

namespace Balancer.Session.Machine

/-! ### Steps that settle something -/

/-- The one of several numbered things that a step means. -/
def pick? {α : Type} (number : α → Nat) (xs : List α) : Which → Option α
  | .number n => xs.find? fun x => number x == n
  | .oldest => xs.find? fun x => xs.all fun y => number x ≤ number y
  | .newest => xs.find? fun x => xs.all fun y => number y ≤ number x

/-- An open lookup ends. -/
def settle (w : World) (k : List Frame) (which : Which) (settlement : Settlement) : Machine :=
  match pick? OpenLookup.number w.lookups which with
  | none => refuse w k .noLookup
  | some l =>
    let w := { w with lookups := w.lookups.filter fun m => m.number != l.number }
    done (w.enqueue (.answered l.waiter (settlementOf w l.provider l.services settlement))) k

/-- An open callback ends. -/
def settleCallback (w : World) (k : List Frame) (c : Callback) (which : Which)
    (outcome : Except Failure Unit) : Machine :=
  match pick? OpenCallback.number c.pending which with
  | none => refuse w k .noCallback
  | some o =>
    let pending := c.pending.filter fun p => p.number != o.number
    done ({ w with callback := some { c with pending := pending } }.enqueue
      (.taken o.cycle outcome)) k

/-- **A call of the listener that was left to a step ends**, if there is one; a failure is logged
when the code that runs has ended. -/
def settleListener (w : World) (k : List Frame) (outcome : Except Failure Unit) : Machine :=
  match w.deferred with
  | 0 => done w k
  | left + 1 =>
    let w := { w with deferred := left }.emit (.listenerEnded outcome)
    match outcome with
    | .ok _ => done w k
    | .error failure => done (w.enqueue (.rejected failure)) k

/-- Elects a number of targets, the ones elected before being given. -/
def electTimes : Nat → Array String → Rotation → Except Failure (Array String × Rotation)
  | 0, elected, r => .ok (elected, r)
  | n + 1, elected, r => do
    let (target, r) ← r.elect
    electTimes n (elected.push target) r

/-- **A target is taken out or put back**, if that changes anything, and the listener is
told. -/
def changeMembership (w : World) (k : List Frame) (rotation : Option Rotation)
    (change : Membership) : Machine :=
  match rotation with
  | none => done w k
  | some rotation => notify (w.modifyStrategy fun s => { s with rotation := rotation }) k change

/-- **A step that concerns the strategy.** -/
def performStrategy (w : World) (k : List Frame) (s : Strategy) : Step → Machine
  | .elect times =>
    match electTimes times #[] s.rotation with
    | .ok (elected, rotation) =>
      give (w.modifyStrategy fun s => { s with rotation := rotation }) k (.targets elected.toList)
    | .error failure => ⟨w, k, .deliver (.error failure)⟩
  | .targets => give w k (.targets s.rotation.targets)
  | .failedTargets => give w k (.targets s.rotation.failedTargets)
  | .hasTargets => give w k (.flag s.rotation.hasTargets)
  | .weights => give w k (.weights s.rotation.active)
  | .failedWeights => give w k (.weights s.rotation.failed)
  | .status => give w k (.status s.rotation.status)
  | .remove target => changeMembership w k (s.rotation.remove? target) (.removed target)
  | .recover target => changeMembership w k (s.rotation.recover? target) (.recovered target)
  | .reset service endpoints => reset w k service endpoints
  | .rebind service provider => lookup w k provider [service] (.binding service)
  | .startPolling delay period => finish (w.startPolling delay period) k
  | .stopPolling | .close => done w.stopPolling k
  | .settleListener rejection => settleListener w k (rejection.elim (.ok ()) .error)
  | _ => done w k

/-- **A step that concerns the refresher.** -/
def performRefresher (w : World) (k : List Frame) (c : Callback) (r : Refresher) : Step → Machine
  | .start services =>
    let watched := services.keys.filter fun service => !c.watched.contains service
    let w := { w with callback := some { c with watched := c.watched ++ watched } }
    done (w.startRefresher 0 services) k
  | .stop => done (w.stopRefresher 0) k
  | .isRunning => give w k (.flag r.running)
  | .refresh => beginCycle w k 0 false
  | .snapshot service => give w k (.endpoints (r.snapshot.get? service))
  | .settleCallback which rejection =>
    settleCallback w k c which (rejection.elim (.ok ()) .error)
  | _ => done w k

/-- Whether a step stands outside any script. -/
def outside : List Frame → Bool
  | [.settle none] => true
  | _ => false

/-- **A step is performed.** Time passes in its own frame; the steps of a strategy need one that
is built, and those of a refresher one that is driven directly. -/
def perform (w : World) (k : List Frame) : Step → Machine
  | .advance ms => done w (.advance (w.clock + ms) (outside k) :: k)
  | .configure settings => done { w with settings := settings } k
  | .register provider service endpoints =>
    done (w.modifyProvider provider fun p =>
      { p with registry := p.registry.insert service endpoints }) k
  | .unregister provider service =>
    done (w.modifyProvider provider fun p => { p with registry := p.registry.erase service }) k
  | .prepare provider responses =>
    done (w.modifyProvider provider fun p => { p with script := p.script ++ responses }) k
  | .settle which settlement => settle w k which settlement
  | step =>
    if step.drivesRefresher then
      match w.callback, w.refreshers[0]? with
      | some c, some r => performRefresher w k c r step
      | _, _ => refuse w k .noRefresher
    else
      match w.strategy? with
      | some s => performStrategy w k s step
      | none => refuse w k .noStrategy

end Balancer.Session.Machine
