import Balancer.Proofs.Session.Calm

/-!
# The acts of a session

What a transition does besides bookkeeping is one of nine acts. This file names them, and
says what each of them makes of the refreshers, of the strategy and of the cycles under way.

* `Balancer.Session.Machine.rotated`, `replaced`, `rebound` – acts on the strategy.
* `Balancer.Session.Machine.started`, `stopped`, `polled` – **acts on the run of a refresher.**
* `Balancer.Session.Machine.asked`, `took`, `calledBack` – **acts of a cycle**: its lookup, and
  the hand-over of a changed list.
* `Balancer.Session.World.Aside` – worlds with the same cycles under way.
-/

namespace Balancer.Session

/-! ### Acts that leave the cycles alone -/

namespace World

/-- **Worlds with the same cycles under way**, and the same calls made by cycles. -/
structure Aside (w w' : World) : Prop where
  /-- The same open lookups. -/
  lookups : w'.lookups = w.lookups
  /-- The same jobs. -/
  jobs : w'.jobs = w.jobs
  /-- The same callback. -/
  callback : w'.callback = w.callback
  /-- The same has happened. -/
  trace : w'.trace = w.trace

variable {w w' w'' : World}

theorem Aside.trans (h : w.Aside w') (h' : w'.Aside w'') : w.Aside w'' :=
  ⟨h'.lookups.trans h.lookups, h'.jobs.trans h.jobs, h'.callback.trans h.callback,
    h'.trace.trans h.trace⟩

theorem Aside.suspended_eq (h : w.Aside w') : w'.suspended = w.suspended := by
  simp only [suspended, h.lookups, h.jobs, h.callback]

theorem Aside.calls_eq (h : w.Aside w') : w'.calls = w.calls := by
  simp only [calls, h.trace]

theorem aside_modifyStrategy (w : World) (f : Strategy → Strategy) : w.Aside (w.modifyStrategy f) :=
  ⟨rfl, rfl, rfl, rfl⟩

theorem aside_startRefresher (w : World) (number : Nat) (services : Listing) :
    w.Aside (w.startRefresher number services) := by
  rw [startRefresher]
  dsimp only
  split
  · exact ⟨rfl, rfl, rfl, rfl⟩
  · split <;> exact ⟨rfl, rfl, rfl, rfl⟩

theorem aside_stopRefresher (w : World) (number : Nat) : w.Aside (w.stopRefresher number) := by
  have hclear : ∀ (v : World) (id : Option Nat), v.Aside (v.clearTimer id) := by
    intro v id
    cases id <;> exact ⟨rfl, rfl, rfl, rfl⟩
  rw [stopRefresher]
  split
  · exact ⟨rfl, rfl, rfl, rfl⟩
  · next r _ =>
    have hcleared := (hclear w r.delayTimer).trans (hclear _ r.periodTimer)
    exact hcleared.trans ⟨rfl, rfl, rfl, rfl⟩

theorem aside_stopPolling (w : World) : w.Aside w.stopPolling := by
  rw [stopPolling]
  split
  · exact ⟨rfl, rfl, rfl, rfl⟩
  · exact w.aside_stopRefresher _

theorem aside_pollWith (w : World) (binding : Binding) (timings : Timings) :
    w.Aside (w.pollWith binding timings) := by
  have hnew : w.Aside { w with refreshers := w.refreshers ++
      [Refresher.idle (some binding.provider) .strategy timings] } := ⟨rfl, rfl, rfl, rfl⟩
  exact hnew.trans ((aside_modifyStrategy _ _).trans (aside_startRefresher _ _ _))

/-! ### Runs and the strategy -/

@[simp]
theorem strategy_startRefresher (w : World) (number : Nat) (services : Listing) :
    (w.startRefresher number services).strategy = w.strategy := by
  rw [startRefresher]
  dsimp only
  split
  · rfl
  · split <;> rfl

@[simp]
theorem strategy_stopRefresher (w : World) (number : Nat) :
    (w.stopRefresher number).strategy = w.strategy := by
  have hclear : ∀ (v : World) (id : Option Nat), (v.clearTimer id).strategy = v.strategy := by
    intro v id
    cases id <;> rfl
  rw [stopRefresher]
  split
  · rfl
  · exact (hclear _ _).trans (hclear _ _)

@[simp]
theorem strategy_stopPolling (w : World) : w.stopPolling.strategy = w.strategy := by
  rw [stopPolling]
  split
  · rfl
  · exact w.strategy_stopRefresher _

@[simp]
theorem strategy_pollWith (w : World) (binding : Binding) (timings : Timings) :
    (w.pollWith binding timings).strategy =
      w.strategy.map fun s => s.pollBy w.refreshers.length timings := by
  simp only [pollWith, strategy_startRefresher]
  rfl

/-! ### Runs and the refreshers -/

/-- There is no refresher of a number from the count of refreshers on. -/
theorem core?_eq_none_iff {n : Nat} : w.core? n = none ↔ w.refreshers.length ≤ n := by
  rw [core?, Option.map_eq_none_iff, List.getElem?_eq_none_iff]

/-- **Polling ends** with the run of the latest refresher. -/
theorem core?_stopPolling (w : World) (n : Nat) :
    w.stopPolling.core? n =
      if w.poller? = some n then (w.core? n).map Refresher.halt else w.core? n := by
  rw [stopPolling]
  split
  · next hnone => rw [if_neg (by rw [hnone]; simp)]
  · next number hsome => simp only [hsome, Option.some.injEq, core?_stopRefresher]

/-- **Polling begins** with a run of a new refresher. -/
theorem core?_pollWith (w : World) (binding : Binding) (timings : Timings) (n : Nat) :
    (w.pollWith binding timings).core? n =
      if w.refreshers.length = n then
        some ((Refresher.idle (some binding.provider) .strategy timings).begun
          (Table.empty.insert binding.service binding.endpoints))
      else w.core? n := by
  simp only [pollWith, core?_startRefresher]
  split
  · next heq =>
    subst heq
    simp only [core?, modifyStrategy, List.getElem?_concat_length, Option.map_some]
    rfl
  · next hne =>
    simp only [core?, modifyStrategy]
    by_cases hlt : n < w.refreshers.length
    · rw [List.getElem?_append_left hlt]
    · rw [List.getElem?_eq_none (by simp; omega), List.getElem?_eq_none (by omega)]

end World

namespace Machine

/-! ### The acts -/

/-- The rotation changes. -/
def rotated (x : Machine) (rotation : Rotation) : Machine :=
  { x with world := x.world.modifyStrategy fun s => { s with rotation := rotation } }

/-- All targets are replaced. -/
def replaced (x : Machine) (service : String) (endpoints : List Endpoint) : Machine :=
  { x with world := x.world.modifyStrategy fun s => s.replaceTargets service endpoints }

/-- The endpoints of a service in what a lookup returned. -/
def listed (listing : Option Listing) (service : String) : List Endpoint :=
  (listing.bind fun l => l.get? service).getD []

/-- The strategy is bound to a service; its polling has ended. -/
def rebound (x : Machine) (call : Nat) (service provider : String) (listing : Option Listing) :
    Machine :=
  { x with
    world := (x.world.stopPolling.modifyStrategy fun s => s.bind service provider).modifyStrategy
      fun s => s.replaceTargets service (listed listing service)
    stack := .bound call x.world.runningTimings :: x.stack }

/-- A run of a refresher begins. -/
def started (x : Machine) (number : Nat) (services : Listing) : Machine :=
  { x with world := x.world.startRefresher number services }

/-- A run of a refresher ends. -/
def stopped (x : Machine) (number : Nat) : Machine :=
  { x with world := x.world.stopRefresher number }

/-- The strategy gets a new refresher, which is started. -/
def polled (x : Machine) (binding : Binding) (timings : Timings) : Machine :=
  { x with world := x.world.pollWith binding timings }

/-- A naming service is asked. -/
def asked (x : Machine) (provider : String) (services : List String) (caller : Caller)
    (answer : Answer) : Machine :=
  { x with
    world := ({ x.world with lookupCount := x.world.lookupCount + 1 } : World).emit
      (.lookup provider (x.world.lookupCount + 1) services caller)
    stack := .lookup provider (x.world.lookupCount + 1) services caller answer :: x.stack }

/-- A refresher has seen a list. -/
def seen (x : Machine) (number : Nat) (change : Refresher.Change) : Machine :=
  { x with world := x.world.modifyRefresher number fun r => r.see change.service change.endpoints }

/-- The strategy takes the changed list of a cycle. -/
def took (x : Machine) (cycle : Cycle) (change : Refresher.Change) : Machine :=
  let y := (x.seen cycle.refresher change).replaced change.service change.endpoints
  { y with stack := .taken { cycle with remaining := change.remaining } :: x.stack }

/-- The callback is called with the changed list of a cycle. -/
def calledBack (x : Machine) (callback : Callback) (cycle : Cycle) (change : Refresher.Change)
    (ending : Ending) : Machine :=
  let y := x.seen cycle.refresher change
  let after := { callback with reactions := callback.reactions.tail, count := callback.count + 1 }
  { y with
    world := ({ y.world with callback := some after } : World).emit
      (.callback (callback.count + 1) change.service change.endpoints)
    stack := .callback (callback.count + 1) { cycle with remaining := change.remaining } ending ::
      x.stack }

/-! ### What the acts make of the strategy and of the refreshers -/

theorem aside_rebound (x : Machine) (call : Nat) (service provider : String)
    (listing : Option Listing) :
    x.world.Aside (x.rebound call service provider listing).world := by
  have hbound := World.aside_modifyStrategy x.world.stopPolling fun s => s.bind service provider
  exact x.world.aside_stopPolling.trans (hbound.trans (World.aside_modifyStrategy _ _))

theorem strategy_rebound (x : Machine) (call : Nat) (service provider : String)
    (listing : Option Listing) :
    (x.rebound call service provider listing).world.strategy = x.world.strategy.map fun s =>
      (s.bind service provider).replaceTargets service (listed listing service) := by
  simp only [rebound, World.modifyStrategy, World.strategy_stopPolling, Option.map_map]
  rfl

theorem core?_rebound (x : Machine) (call : Nat) (service provider : String)
    (listing : Option Listing) (n : Nat) :
    (x.rebound call service provider listing).world.core? n =
      if x.world.poller? = some n then (x.world.core? n).map Refresher.halt
      else x.world.core? n :=
  x.world.core?_stopPolling n

theorem core?_seen (x : Machine) (number : Nat) (change : Refresher.Change) (n : Nat) :
    (x.seen number change).world.core? n =
      if number = n then (x.world.core? n).map fun r => r.see change.service change.endpoints
      else x.world.core? n :=
  x.world.core?_modifyRefresher (g := fun r => r.see change.service change.endpoints)
    (fun _ => rfl) number n

end Machine

end Balancer.Session
