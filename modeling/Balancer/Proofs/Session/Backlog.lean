import Balancer.Session.Transition

/-!
# What waits and what has happened

Lookups that are open, work that waits and events that have happened are only added to, except where
a lookup is ended or a piece of work is done. So a transition that does neither is the same whatever
else is open, waits or has happened before: it commutes with putting all of that underneath. The
same goes for the calls of the listener that are left to a step, unless there are none without the
ones underneath.

* `Balancer.Session.Backlog` – open lookups, waiting work, a trace, and calls left to a step.
* `Balancer.Session.World.atop` – **a world on top of a backlog.**
* `Balancer.Session.Machine.perform_atop`, `resume_atop`, `fire_atop` – **what is done on top of a
  backlog is done as without it.**
-/

namespace Balancer.Session

/-! ### Backlogs -/

/-- **Open lookups, waiting work, a trace, and calls left to a step.** -/
structure Backlog where
  /-- The lookups that are open. -/
  lookups : List OpenLookup
  /-- The work that waits, the oldest first. -/
  jobs : List Job
  /-- All that has happened. -/
  trace : Array Event
  /-- How many calls of the listener are left to a step to end. -/
  deferred : Nat

namespace World

/-- The backlog of a world, without the calls that are left to a step. -/
def backlog (w : World) : Backlog := ⟨w.lookups, w.jobs, w.trace, 0⟩

/-- A world without its backlog. -/
def bare (w : World) : World := { w with lookups := [], jobs := [], trace := #[] }

/-- **A world on top of a backlog**, which is older than its own. -/
def atop (w : World) (b : Backlog) : World :=
  { w with
    lookups := b.lookups ++ w.lookups
    jobs := b.jobs ++ w.jobs
    trace := b.trace ++ w.trace
    deferred := w.deferred + b.deferred }

variable (w : World) (b : Backlog)

@[simp]
theorem atop_bare : w.bare.atop w.backlog = w := by
  simp only [atop, bare, backlog, List.append_nil, Array.append_empty, Nat.add_zero]

/-! ### Single moves -/

@[simp]
theorem emit_atop (e : Event) : (w.atop b).emit e = (w.emit e).atop b := by
  simp only [emit, atop, Array.append_push]

@[simp]
theorem enqueue_atop (job : Job) : (w.atop b).enqueue job = (w.enqueue job).atop b := by
  simp only [enqueue, atop, List.append_assoc]

@[simp]
theorem modifyRefresher_atop (number : Nat) (f : Refresher → Refresher) :
    (w.atop b).modifyRefresher number f = (w.modifyRefresher number f).atop b := rfl

@[simp]
theorem modifyStrategy_atop (f : Strategy → Strategy) :
    (w.atop b).modifyStrategy f = (w.modifyStrategy f).atop b := rfl

@[simp]
theorem modifyProvider_atop (name : String) (f : Provider → Provider) :
    (w.atop b).modifyProvider name f = (w.modifyProvider name f).atop b := rfl

@[simp]
theorem clearTimer_atop (id : Option Nat) :
    (w.atop b).clearTimer id = (w.clearTimer id).atop b := by
  cases id <;> rfl

@[simp]
theorem reach_atop (t : Timer) : (w.atop b).reach t = (w.reach t).atop b := rfl

/-- A log call on top of a backlog. -/
theorem log_atop (level : Level) (message : String) (failure : Option Failure) :
    (w.atop b).log level message failure =
      ((w.log level message failure).1.atop b, (w.log level message failure).2) := by
  have hlogging : (w.atop b).logging = w.logging := rfl
  have hclock : (w.atop b).clock = w.clock := rfl
  simp only [log, hlogging, hclock]
  cases w.logging with
  | recording => simp only [emit_atop]
  | console scope =>
    dsimp only
    split <;> simp only [emit_atop]

/-- The failure of a cycle that is logged on top of a backlog. -/
theorem logFailure_atop (failure : Failure) :
    (w.atop b).logFailure failure =
      ((w.logFailure failure).1.atop b, (w.logFailure failure).2) := by
  rw [logFailure, logFailure]
  cases failure.reason with
  | ok reason => exact w.log_atop b _ _ _
  | error thrown => rfl

/-! ### Refreshers and the strategy -/

@[simp]
theorem startRefresher_atop (number : Nat) (services : Listing) :
    (w.atop b).startRefresher number services = (w.startRefresher number services).atop b := by
  have hrefreshers : (w.atop b).refreshers = w.refreshers := rfl
  simp only [startRefresher, hrefreshers]
  split
  · rfl
  · split <;> rfl

@[simp]
theorem stopRefresher_atop (number : Nat) :
    (w.atop b).stopRefresher number = (w.stopRefresher number).atop b := by
  have hrefreshers : (w.atop b).refreshers = w.refreshers := rfl
  simp only [stopRefresher, hrefreshers]
  split
  · rfl
  · simp only [clearTimer_atop, modifyRefresher_atop]

@[simp]
theorem armPeriod_atop (number : Nat) :
    (w.atop b).armPeriod number = (w.armPeriod number).atop b := by
  have hrefreshers : (w.atop b).refreshers = w.refreshers := rfl
  simp only [armPeriod, hrefreshers]
  split <;> rfl

@[simp]
theorem stopPolling_atop : (w.atop b).stopPolling = w.stopPolling.atop b := by
  have hpoller : (w.atop b).poller? = w.poller? := rfl
  simp only [stopPolling, hpoller]
  split
  · rfl
  · exact w.stopRefresher_atop b _

@[simp]
theorem pollWith_atop (binding : Binding) (timings : Timings) :
    (w.atop b).pollWith binding timings = (w.pollWith binding timings).atop b :=
  startRefresher_atop (({ w with refreshers := w.refreshers ++
    [Refresher.idle (some binding.provider) .strategy timings] } : World).modifyStrategy fun s =>
      s.pollBy w.refreshers.length timings) b _ _

/-- Polling that begins on top of a backlog. -/
theorem startPolling_atop (delay period : Option Binary64) :
    (w.atop b).startPolling delay period =
      ((w.startPolling delay period).1.atop b, (w.startPolling delay period).2) := by
  have hstrategy : (w.atop b).strategy = w.strategy := rfl
  have hpolling : (w.atop b).polling = w.polling := rfl
  have hsettings : (w.atop b).settings = w.settings := rfl
  simp only [startPolling, hstrategy, hpolling, hsettings]
  cases w.strategy with
  | none => rfl
  | some s =>
    dsimp only
    cases s.binding with
    | none => rfl
    | some binding =>
      dsimp only
      split
      · rfl
      · split
        · rfl
        · rw [pollWith_atop, log_atop]

@[simp]
theorem endCycle_atop (refresher : Nat) (origin : Origin) (outcome : Except Failure Unit) :
    (w.atop b).endCycle refresher origin outcome =
      (w.endCycle refresher origin outcome).atop b := by
  cases origin with
  | timer => exact w.enqueue_atop b _
  | call number => exact w.emit_atop b _

@[simp]
theorem failCycle_atop (refresher : Nat) (origin : Origin) (failure : Failure) :
    (w.atop b).failCycle refresher origin failure =
      (w.failCycle refresher origin failure).atop b := by
  simp only [failCycle, logFailure_atop, endCycle_atop]

@[simp]
theorem endBinding_atop (call : Nat) (outcome : Except Failure Unit) :
    (w.atop b).endBinding call outcome = (w.endBinding call outcome).atop b := by
  cases outcome with
  | ok => exact emit_atop { w with strategy := w.strategy.map Strategy.built } b _
  | error => exact emit_atop { w with strategy := w.strategy.filter fun s => !s.building } b _

end World

/-! ### The machine -/

/-- Whether a step ends a lookup. -/
def Step.settles : Step → Bool
  | .settle .. => true
  | _ => false

/-- Whether a step ends a call of the listener. -/
def Step.endsListener : Step → Bool
  | .settleListener _ => true
  | _ => false

namespace Machine

/-- A machine on top of a backlog. -/
def atop (m : Machine) (b : Backlog) : Machine := { m with world := m.world.atop b }

variable (w : World) (b : Backlog) (k : List Frame)

theorem give_atop (result : Result) : give (w.atop b) k result = (give w k result).atop b := rfl

theorem done_atop : done (w.atop b) k = (done w k).atop b := rfl

theorem runScript_atop (steps : List Step) :
    runScript (w.atop b) k steps = (runScript w k steps).atop b := by
  cases steps <;> rfl

theorem notify_atop (change : Membership) :
    notify (w.atop b) k change = (notify w k change).atop b := by
  have hstrategy : (w.atop b).strategy = w.strategy := rfl
  have hclock : (w.atop b).clock = w.clock := rfl
  simp only [notify, hstrategy, hclock]
  cases w.strategy with
  | none => rfl
  | some s =>
    dsimp only
    split
    · simp only [World.emit_atop, World.modifyStrategy_atop, runScript_atop]
    · rfl

theorem lookup_atop (provider : String) (services : List String) (caller : Caller) :
    lookup (w.atop b) k provider services caller =
      (lookup w k provider services caller).atop b := by
  have hcounted : ({ w.atop b with lookupCount := w.lookupCount + 1 } : World) =
      ({ w with lookupCount := w.lookupCount + 1 } : World).atop b := rfl
  have hproviders : (w.atop b).providers = w.providers := rfl
  have hcount : (w.atop b).lookupCount = w.lookupCount := rfl
  simp only [lookup, hcount, hcounted, World.emit_atop, World.modifyProvider_atop, runScript_atop]
  rfl

theorem callBack_atop (c : Callback) (cycle : Cycle) (service : String)
    (endpoints : List Endpoint) : callBack (w.atop b) k c cycle service endpoints =
      (callBack w k c cycle service endpoints).atop b := by
  have hcounted (callback : Option Callback) : ({ w.atop b with callback := callback } : World) =
      ({ w with callback := callback } : World).atop b := rfl
  simp only [callBack, hcounted, World.emit_atop, runScript_atop]

/-! ### Cycles and timers -/

theorem reset_atop (service : String) (endpoints : List Endpoint) :
    reset (w.atop b) k service endpoints = (reset w k service endpoints).atop b := by
  simp only [reset, World.modifyStrategy_atop, notify_atop]

theorem applyChange_atop (cycle : Cycle) (handler : Handler) (change : Refresher.Change) :
    applyChange (w.atop b) k cycle handler change =
      (applyChange w k cycle handler change).atop b := by
  simp only [applyChange, World.log_atop]
  generalize w.log .warn _ none = logged
  obtain ⟨v, _ | _⟩ := logged
  · simp only [World.failCycle_atop, done_atop]
  · have hcallback : ((v.modifyRefresher cycle.refresher fun r =>
        r.see change.service change.endpoints).atop b).callback = v.callback := rfl
    have hcallback' : (v.modifyRefresher cycle.refresher fun r =>
        r.see change.service change.endpoints).callback = v.callback := rfl
    dsimp only
    rw [World.modifyRefresher_atop, hcallback, hcallback']
    split
    · exact reset_atop _ b _ _ _
    · exact callBack_atop _ b k _ _ _ _
    · rw [World.enqueue_atop, done_atop]

theorem goOn_atop (cycle : Cycle) : goOn (w.atop b) k cycle = (goOn w k cycle).atop b := by
  have hrefreshers : (w.atop b).refreshers = w.refreshers := rfl
  simp only [goOn, hrefreshers]
  split
  · rfl
  · split
    · rw [World.endCycle_atop, done_atop]
    · split
      · rw [World.endCycle_atop, done_atop]
      · exact applyChange_atop w b k _ _ _

theorem skipCycle_atop (refresher : Nat) (timed : Bool) :
    skipCycle (w.atop b) k refresher timed = (skipCycle w k refresher timed).atop b := by
  have hcounted : ({ w.atop b with callCount := w.callCount + 1 } : World) =
      ({ w with callCount := w.callCount + 1 } : World).atop b := rfl
  have hcount : (w.atop b).callCount = w.callCount := rfl
  simp only [skipCycle, hcount, hcounted, World.endCycle_atop, done_atop, give_atop]
  split <;> rfl

theorem beginCycle_atop (number : Nat) (timed : Bool) :
    beginCycle (w.atop b) k number timed = (beginCycle w k number timed).atop b := by
  have hrefreshers : (w.atop b).refreshers = w.refreshers := rfl
  simp only [beginCycle, hrefreshers]
  split
  · rfl
  · split
    · exact lookup_atop w b k _ _ _
    · exact skipCycle_atop w b k _ _

theorem tick_atop (number : Nat) : tick (w.atop b) k number = (tick w k number).atop b := by
  have hrefreshers : (w.atop b).refreshers = w.refreshers := rfl
  simp only [tick, hrefreshers]
  split
  · rfl
  · split
    · rfl
    · rw [World.modifyRefresher_atop, beginCycle_atop]

/-- **A timer fires on top of a backlog as without it.** -/
theorem fire_atop (t : Timer) : fire (w.atop b) k t = (fire w k t).atop b := by
  simp only [fire, World.reach_atop]
  split
  · rw [World.modifyRefresher_atop, tick_atop]
  · exact tick_atop _ b k _
  · rfl

/-! ### Answers and waiting work -/

theorem answer_atop (provider : String) (number : Nat) (services : List String) (caller : Caller)
    (reply : Answer) :
    answer (w.atop b) k provider number services caller reply =
      (answer w k provider number services caller reply).atop b := by
  have hcount : (w.atop b).callCount = w.callCount := rfl
  have hcounted : ({ w.atop b with callCount := w.callCount + 1 } : World) =
      ({ w with callCount := w.callCount + 1 } : World).atop b := rfl
  have hsettlement (v : World) (settlement : Settlement) :
      settlementOf (v.atop b) provider services settlement =
        settlementOf v provider services settlement := by
    cases settlement <;> rfl
  have hopen (v : World) (l : OpenLookup) :
      ({ v.atop b with lookups := (v.atop b).lookups ++ [l] } : World) =
        ({ v with lookups := v.lookups ++ [l] } : World).atop b := by
    simp only [World.atop, List.append_assoc]
  cases reply with
  | pending =>
    cases caller with
    | poll => exact congrArg (done · k) (hopen w _)
    | binding | refresh =>
      exact congrArg (give · k _) (hopen { w with callCount := w.callCount + 1 } _)
  | settled settlement =>
    cases caller <;> simp only [answer, hcount, hcounted, hsettlement, World.enqueue_atop,
      give_atop, done_atop]
  | throws failure =>
    cases caller <;> simp only [answer, hcount, hcounted, World.endBinding_atop,
      World.failCycle_atop, give_atop, done_atop]

theorem work_atop (job : Job) : work (w.atop b) k job = (work w k job).atop b := by
  have htimings : (w.atop b).runningTimings = w.runningTimings := rfl
  unfold work
  split
  · rw [World.endBinding_atop, done_atop]
  · dsimp only
    rw [htimings, World.stopPolling_atop, World.modifyStrategy_atop, reset_atop]
  · rw [World.failCycle_atop, done_atop]
  · exact goOn_atop w b k _
  · exact goOn_atop w b k _
  · rw [World.failCycle_atop, done_atop]
  · rw [World.log_atop, done_atop]
  · rfl

/-! ### Steps -/

theorem changeMembership_atop (rotation : Option Rotation) (change : Membership) :
    changeMembership (w.atop b) k rotation change =
      (changeMembership w k rotation change).atop b := by
  cases rotation with
  | none => rfl
  | some rotation =>
    exact notify_atop (w.modifyStrategy fun s => { s with rotation := rotation }) b k change

/-- A call of the listener that ends on top of a backlog, if it is none of the backlog. -/
theorem settleListener_atop (outcome : Except Failure Unit)
    (hdeferred : b.deferred = 0 ∨ w.deferred ≠ 0) :
    settleListener (w.atop b) k outcome = (settleListener w k outcome).atop b := by
  cases hleft : w.deferred with
  | zero =>
    have hnone : (w.atop b).deferred = 0 := by
      show w.deferred + b.deferred = 0
      rw [hleft, hdeferred.resolve_right (not_not_intro hleft)]
    simp only [settleListener, hleft, hnone, done_atop]
  | succ left =>
    have hsome : (w.atop b).deferred = left + b.deferred + 1 := by
      show w.deferred + b.deferred = _
      rw [hleft, Nat.add_right_comm]
    have htaken : ({ w.atop b with deferred := left + b.deferred } : World) =
        ({ w with deferred := left } : World).atop b := rfl
    simp only [settleListener, hleft, hsome, htaken, World.emit_atop]
    cases outcome with
    | ok => rfl
    | error failure => exact congrArg (done · k) (World.enqueue_atop _ b _)

theorem performStrategy_atop (s : Strategy) (step : Step)
    (hlate : step.endsListener = true → b.deferred = 0 ∨ w.deferred ≠ 0) :
    performStrategy (w.atop b) k s step = (performStrategy w k s step).atop b := by
  cases step with
  | elect times =>
    rw [performStrategy, performStrategy]
    split <;> rfl
  | remove target => exact changeMembership_atop w b k _ _
  | recover target => exact changeMembership_atop w b k _ _
  | reset service endpoints => exact reset_atop w b k _ _
  | rebind service provider => exact lookup_atop w b k _ _ _
  | startPolling delay period =>
    rw [performStrategy, performStrategy, World.startPolling_atop]
    rfl
  | stopPolling => exact congrArg (done · k) (w.stopPolling_atop b)
  | close => exact congrArg (done · k) (w.stopPolling_atop b)
  | settleListener rejection => exact settleListener_atop w b k _ (hlate rfl)
  | _ => rfl

theorem settleCallback_atop (c : Callback) (which : Which) (outcome : Except Failure Unit) :
    settleCallback (w.atop b) k c which outcome = (settleCallback w k c which outcome).atop b := by
  have hclosed (c : Callback) (job : Job) :
      ({ w.atop b with callback := some c } : World).enqueue job =
        (({ w with callback := some c } : World).enqueue job).atop b :=
    World.enqueue_atop { w with callback := some c } b job
  rw [settleCallback, settleCallback]
  split
  · rfl
  · simp only [hclosed, done_atop]

theorem performRefresher_atop (c : Callback) (r : Refresher) (step : Step) :
    performRefresher (w.atop b) k c r step = (performRefresher w k c r step).atop b := by
  cases step with
  | start services =>
    have hwatched (c : Callback) : ({ w.atop b with callback := some c } : World).startRefresher 0
        services = (({ w with callback := some c } : World).startRefresher 0 services).atop b :=
      World.startRefresher_atop { w with callback := some c } b 0 services
    simp only [performRefresher, hwatched, done_atop]
  | stop => exact congrArg (done · k) (w.stopRefresher_atop b 0)
  | refresh => exact beginCycle_atop w b k 0 false
  | settleCallback which rejection => exact settleCallback_atop w b k c which _
  | _ => rfl

/-- **A step is performed on top of a backlog as without it**, unless it ends a lookup, or a call of
the listener where all that are left to a step are in the backlog. -/
theorem perform_atop {step : Step} (hstep : step.settles = false)
    (hlate : step.endsListener = true → b.deferred = 0 ∨ w.deferred ≠ 0) :
    perform (w.atop b) k step = (perform w k step).atop b := by
  unfold perform
  split
  · rfl
  · rfl
  · rfl
  · rfl
  · rfl
  · cases hstep
  · split
    · have hcallback : (w.atop b).callback = w.callback := rfl
      have hrefreshers : (w.atop b).refreshers = w.refreshers := rfl
      rw [hcallback, hrefreshers]
      split
      · exact performRefresher_atop w b k _ _ _
      · rfl
    · have hstrategy : (w.atop b).strategy? = w.strategy? := rfl
      rw [hstrategy]
      split
      · exact performStrategy_atop w b k _ _ hlate
      · rfl

/-! ### Resuming -/

/-- **What returned is taken up on top of a backlog as without it**, where no work is done. -/
theorem resume_atop (outcome : Outcome) {f : Frame}
    (hsettle : ∀ first, f ≠ .settle first) (hadvance : ∀ time, f ≠ .advance time true) :
    resume (w.atop b) k outcome f = (resume w k outcome f).atop b := by
  cases f with
  | script rest =>
    simp only [resume, World.emit_atop, runScript_atop]
  | listener ending =>
    cases ending with
    | returns => rfl
    | pending => rfl
    | deferred =>
      have hone : w.deferred + b.deferred + 1 = w.deferred + 1 + b.deferred :=
        Nat.add_right_comm ..
      show done { w.atop b with deferred := w.deferred + b.deferred + 1 } k = _
      rw [hone]
      rfl
    | rejects failure => exact congrArg (done · k) (w.enqueue_atop b _)
    | throws failure =>
      simp only [resume, World.log_atop]
      rfl
  | lookup provider number services caller reply => exact answer_atop w b k _ _ _ _ _
  | callback number cycle ending =>
    cases ending with
    | returns => exact congrArg (done · k) (w.enqueue_atop b _)
    | throws failure => exact congrArg (done · k) (w.failCycle_atop b _ _ _)
    | rejects failure => exact congrArg (done · k) (w.enqueue_atop b _)
    | pending => rfl
    | deferred => rfl
  | taken cycle =>
    cases outcome with
    | ok result => exact congrArg (done · k) (w.enqueue_atop b _)
    | error failure => exact congrArg (done · k) (w.failCycle_atop b _ _ _)
  | bound call timings =>
    cases outcome with
    | error failure => exact congrArg (done · k) (w.endBinding_atop b _ _)
    | ok result =>
      cases timings with
      | none => exact congrArg (done · k) (w.endBinding_atop b _ _)
      | some timings =>
        simp only [resume, World.startPolling_atop, World.endBinding_atop, done_atop]
  | arm refresher => exact congrArg (done · k) (w.armPeriod_atop b refresher)
  | advance time settling =>
    cases settling with
    | true => exact absurd rfl (hadvance time)
    | false =>
      have htimers : (w.atop b).timers = w.timers := rfl
      simp only [resume, htimers]
      split
      · exact fire_atop w b _ _
      · rfl
  | settle first => exact absurd rfl (hsettle first)

end Machine

end Balancer.Session
