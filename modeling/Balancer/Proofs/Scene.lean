import Balancer.Proofs.Stamp
import Balancer.Proofs.Session.Configuration
import Balancer.Proofs.Session.Sought
import Balancer.Demonstration

/-!
# Scenes of the demonstration program

In the course of the demonstration program most of the world stays as it is: there is one naming
service, which knows one service, one strategy, which follows it, and one refresher at the most.
A scene holds the rest. What the program does, and what the timers do while it waits, leads from
scenes to scenes, whatever the clock and the timings.

* `Balancer.Session.Machine.complete_of_run` – **a machine that finishes within the limit** has come
  to its end, so that each step is a run of a few transitions.
* `Balancer.Demonstration.lookup_of_providers`, `settlementOf_providers` – what the naming
  service answers.
* `Balancer.Demonstration.Scene`, `Balancer.Demonstration.Scene.world` – **a scene, and its world**.
* `Balancer.Demonstration.Scene.perform_elect`, `perform_remove`, `perform_recover`,
  `perform_register`, `perform_startPolling`, `perform_status`, `perform_close` – the steps.
* `Balancer.Demonstration.Scene.fire_polls` – **the first poll**: it asks for the service, sets the
  timer of the later polls, takes the changed list and ends.
* `Balancer.Demonstration.Scene.fire_alarm` – the alarm.
-/

namespace Balancer

/-! ### Runs from beginning to end -/

namespace Session.Machine

theorem run_of_finished {m : Machine} (h : m.finished = true) (n : Nat) : run n m = m := by
  induction n with
  | zero => rfl
  | succ n ih => rw [run_succ, next_of_finished h, ih]

theorem run_add (a b : Nat) (m : Machine) : run (a + b) m = run b (run a m) := by
  induction a generalizing m with
  | zero => rw [Nat.zero_add]; rfl
  | succ a ih => rw [Nat.succ_add, run_succ, run_succ, ih]

/-- **A machine that finishes within the limit** has come to its end. -/
theorem complete_of_run {m : Machine} {w : World} {outcome : Outcome} (n : Nat) (hn : n ≤ limit)
    (h : run n m = ⟨w, [], .deliver outcome⟩) : m.complete = (w, outcome) := by
  obtain ⟨rest, hrest⟩ := Nat.exists_eq_add_of_le hn
  rw [complete, hrest, run_add, h, run_of_finished rfl]

variable {w : World} {k : List Frame}

/-- A lookup that has ended waits to be worked on. -/
theorem next_lookup {provider service : String} {number : Nat} {settlement : Settlement} :
    (done w (.lookup provider number [service] (.binding service) (.settled settlement)
        :: k)).next =
      give ({ w with callCount := w.callCount + 1 }.enqueue (.answered
        (.binding (w.callCount + 1) service provider)
        (settlementOf { w with callCount := w.callCount + 1 } provider [service] settlement))) k
        (.call (w.callCount + 1)) := rfl

/-- A cycle goes on to a changed list. -/
theorem goOn_of_change {cycle : Cycle} {r : Refresher} {change : Refresher.Change}
    (hget : w.refreshers[cycle.refresher]? = some r) (hgeneration : r.generation = cycle.generation)
    (hchange : r.nextChange? cycle.latest cycle.remaining = some change) :
    goOn w k cycle = applyChange w k cycle r.handler change := by
  simp only [goOn, hget, hgeneration, hchange, ne_eq, not_true_eq_false, if_false]

/-- A changed list that can be logged resets the strategy. -/
theorem applyChange_of_log {w' : World} {cycle : Cycle} {change : Refresher.Change}
    (hlog : w.log .warn ("A new changed list getting from naming service name='" ++
      change.service ++ "' value=" ++ Endpoint.listText change.endpoints) none = (w', .ok ())) :
    applyChange w k cycle .strategy change =
      reset (w'.modifyRefresher cycle.refresher fun r => r.see change.service change.endpoints)
        (.taken { cycle with remaining := change.remaining } :: k) change.service
        change.endpoints := by
  simp only [applyChange, hlog]

end Session.Machine

namespace Table

variable {α : Type}

/-- A table of one entry. -/
theorem get?_single (key : String) (value : α) : (ofList [(key, value)]).get? key = some value := by
  simp [ofList]

theorem insert_single (key : String) (value value' : α) :
    (ofList [(key, value)]).insert key value' = ofList [(key, value')] := by
  ext1
  simp [ofList, insert, put, empty]

end Table

namespace Demonstration

open Session

/-! ### The naming service -/

/-- The naming services: one, which knows the endpoints of the service. -/
def providers (known : List Endpoint) : Table Provider :=
  Table.ofList [(registry, ⟨Table.ofList [(service, known)], []⟩)]

section Providers

variable {w : World} (known : List Endpoint) (h : w.providers = providers known)
include h

theorem modifyProvider_of_providers (f : Provider → Provider) : w.modifyProvider registry f =
    { w with providers := Table.ofList [(registry, f ⟨Table.ofList [(service, known)], []⟩)] } := by
  simp only [World.modifyProvider, h, providers, Table.get?_single, Table.insert_single]

theorem modifyProvider_script : w.modifyProvider registry
    (fun p => { p with script := p.script.tail }) = w := by
  rw [modifyProvider_of_providers known h]
  obtain ⟨⟩ := w
  obtain rfl := h
  rfl

/-- The naming service ends a lookup at once. -/
theorem lookup_of_providers (k : List Frame) (caller : Caller) :
    Machine.lookup w k registry [service] caller =
      Machine.done ({ w with lookupCount := w.lookupCount + 1 }.emit
        (.lookup registry (w.lookupCount + 1) [service] caller))
        (.lookup registry (w.lookupCount + 1) [service] caller (.settled .registry) :: k) := by
  have hscript : (w.providers.get? registry).elim [] Provider.script = [] := by
    rw [h, providers, Table.get?_single]
    rfl
  have hsame := modifyProvider_script known (w := { w with lookupCount := w.lookupCount + 1 }.emit
    (.lookup registry (w.lookupCount + 1) [service] caller)) h
  rw [Machine.lookup]
  simp only [World.emit, hscript] at hsame ⊢
  exact congrArg (Machine.done · _) hsame

/-- It ends it with the endpoints that it knows. -/
theorem settlementOf_providers : Machine.settlementOf w registry [service] .registry =
    .ok (some (Table.ofList [(service, known)])) := by
  have hlist : Registry.list (Table.ofList [(service, known)]) [service] =
      Table.ofList [(service, known)] := by
    simp [Registry.list, Table.get?_single]
  simp only [Machine.settlementOf, World.registry, h, providers, Table.get?_single,
    Option.elim_some, hlist]

end Providers

/-! ### Scenes -/

/-- The event in which the program prints a line of its own. -/
def printed (text : String) : Event := .console (Line.plain text)

/-- The event in which the strategy logs a line. -/
def logged (ts : String) (level : Level) (message : String) : Event :=
  .console (Line.dated ts strategyScope level message none)

/-- **A scene of the program**: what changes in its course. -/
structure Scene where
  /-- The clock. -/
  clock : Binary64
  /-- The timers. -/
  timers : List Timer
  /-- The number of the latest timer. -/
  timerCount : Nat
  /-- The endpoints that the naming service knows. -/
  known : List Endpoint
  /-- The number of the latest lookup. -/
  lookupCount : Nat
  /-- The refresher, once the strategy polls. -/
  refresher : Option Refresher
  /-- The targets and the election. -/
  rotation : Rotation
  /-- The endpoints that the strategy follows. -/
  followed : List Endpoint
  /-- All that has happened. -/
  trace : Array Event

namespace Scene

/-- The strategy. -/
def strategy (x : Scene) : Strategy where
  rotation := x.rotation
  binding := some ⟨service, registry, x.followed⟩
  refresher := x.refresher.map fun _ => 0
  timings := x.refresher.map Refresher.timings
  building := false
  delay := none
  period := none
  listener := some []

/-- **The world of a scene.** -/
def world (x : Scene) (settings : Settings) : World where
  clock := x.clock
  timers := x.timers
  timerCount := x.timerCount
  settings := settings
  logging := .console strategyScope
  providers := providers x.known
  lookupCount := x.lookupCount
  lookups := []
  jobs := []
  callCount := 1
  refreshers := x.refresher.toList
  strategy := some x.strategy
  deferred := 0
  callback := none
  trace := x.trace

variable (x : Scene) (settings : Settings)

/-- The scene in which the strategy has been built. -/
def opened (clock : Binary64) (known : List Endpoint) : Scene where
  clock := clock
  timers := []
  timerCount := 0
  known := known
  lookupCount := 1
  refresher := none
  rotation := Rotation.ofEndpoints known
  followed := known
  trace := #[.lookup registry 1 [service] (.binding service), .ended 1 (.ok ())]

/-- The world in which the strategy waits for its first list. -/
def founding (clock : Binary64) (known : List Endpoint) (lookupCount callCount : Nat)
    (jobs : List Job) (trace : Array Event) : World where
  clock := clock
  timers := []
  timerCount := 0
  settings := settings
  logging := .console strategyScope
  providers := providers known
  lookupCount := lookupCount
  lookups := []
  jobs := jobs
  callCount := callCount
  refreshers := []
  strategy := some (Strategy.awaiting ⟨none, none, some []⟩)
  deferred := 0
  callback := none
  trace := trace

/-- **The strategy is built** with what one lookup returns. -/
theorem openBound_eq (clock : Binary64) (known : List Endpoint) :
    openBound ⟨clock, settings, true, providers known⟩ ⟨none, none, some []⟩ service registry =
      ((opened clock known).world settings, .ok (.call 1)) := by
  refine Machine.complete_of_run 4 (by decide) ?_
  have hlookup : boundMachine ⟨clock, settings, true, providers known⟩ ⟨none, none, some []⟩ service
      registry = Machine.done (founding settings clock known 1 0 []
        #[.lookup registry 1 [service] (.binding service)])
        [.lookup registry 1 [service] (.binding service) (.settled .registry), .settle none] :=
    lookup_of_providers (w := founding settings clock known 0 0 [] #[]) known rfl _ _
  have hanswer : (Machine.done (founding settings clock known 1 0 []
      #[.lookup registry 1 [service] (.binding service)])
      [.lookup registry 1 [service] (.binding service) (.settled .registry), .settle none]).next =
    Machine.give (founding settings clock known 1 1 [.answered (.binding 1 service registry)
      (.ok (some (Table.ofList [(service, known)])))]
      #[.lookup registry 1 [service] (.binding service)]) [.settle none] (.call 1) := by
    rw [Machine.next_lookup, settlementOf_providers known rfl]
    rfl
  have hlisted : Machine.listed (some (Table.ofList [(service, known)])) service = known := by
    rw [Machine.listed, Option.bind_some, Table.get?_single, Option.getD_some]
  rw [hlookup, Machine.run_succ, hanswer, Machine.run_succ, Machine.give, Machine.next_settle rfl,
    Machine.work_binding (s := Strategy.awaiting ⟨none, none, some []⟩) rfl rfl, hlisted]
  rfl

/-- The scene with another rotation. -/
def turn (r : Rotation) : Scene := { x with rotation := r }

/-- The scene in which the naming service knows other endpoints. -/
def know (known : List Endpoint) : Scene := { x with known := known }

/-- The scene in which one more event has happened. -/
def emit (event : Event) : Scene := { x with trace := x.trace.push event }

/-- The scene after a change of the membership, of which the listener is told. -/
def change (r : Rotation) (change : Membership) : Scene :=
  (x.turn r).emit (.notice ⟨change, r.targets, x.clock.floor⟩)

/-- **A target is elected.** -/
theorem perform_elect {target : String} {r : Rotation} (h : x.rotation.elect = .ok (target, r)) :
    (x.world settings).perform (.elect 1) =
      ((x.turn r).world settings, .ok (.targets [target])) := by
  refine Machine.complete_of_run 3 (by decide) ?_
  have hone : Machine.electTimes 1 #[] x.rotation = .ok (#[target], r) := by
    simp only [Machine.electTimes, h]
    rfl
  have hstep : Machine.next ⟨x.world settings, [.settle none], .perform (.elect 1)⟩ =
      Machine.performStrategy (x.world settings) [.settle none] x.strategy (.elect 1) := rfl
  have hrotation : x.strategy.rotation = x.rotation := rfl
  rw [World.machine, Machine.run_succ, hstep, Machine.performStrategy, hrotation, hone]
  rfl

theorem change_eq {r : Rotation} {change : Membership} {targets : List String}
    (htargets : r.targets = targets) (hfloor : x.clock.floor = x.clock) :
    x.change r change = (x.turn r).emit (.notice ⟨change, targets, x.clock⟩) := by
  rw [Scene.change, htargets, hfloor]

theorem perform_of_changes {step : Step} {change : Membership} {r : Rotation}
    (hstep : Machine.perform (x.world settings) [.settle none] step =
      Machine.changeMembership (x.world settings) [.settle none] (some r) change) :
    (x.world settings).perform step = ((x.change r change).world settings, .ok .nothing) := by
  refine Machine.complete_of_run 3 (by decide) ?_
  have hfirst : ((x.world settings).machine step).next = _ := hstep
  rw [Machine.run_succ, hfirst]
  rfl

/-- **A target is taken out.** -/
theorem perform_remove {target : String} {r : Rotation} (h : x.rotation.remove? target = some r) :
    (x.world settings).perform (.remove target) =
      ((x.change r (.removed target)).world settings, .ok .nothing) :=
  x.perform_of_changes settings (h ▸ rfl)

/-- **It is put back.** -/
theorem perform_recover {target : String} {r : Rotation} (h : x.rotation.recover? target = some r) :
    (x.world settings).perform (.recover target) =
      ((x.change r (.recovered target)).world settings, .ok .nothing) :=
  x.perform_of_changes settings (h ▸ rfl)

/-- **The service gets other endpoints.** -/
theorem perform_register (endpoints : List Endpoint) :
    (x.world settings).perform (.register registry service endpoints) =
      ((x.know endpoints).world settings, .ok .nothing) := by
  refine Machine.complete_of_run 2 (by decide) ?_
  have hstep : ((x.world settings).machine (.register registry service endpoints)).next =
      Machine.done ((x.world settings).modifyProvider registry fun p =>
        { p with registry := p.registry.insert service endpoints }) [.settle none] := rfl
  rw [Machine.run_succ, hstep, modifyProvider_of_providers (w := x.world settings) x.known rfl,
    Table.insert_single]
  rfl

/-- **The status is read.** -/
theorem perform_status : (x.world settings).perform .status =
    (x.world settings, .ok (.status x.rotation.status)) :=
  Machine.complete_of_run 2 (by decide) rfl

theorem log_world {ts : String} (hstamp : Calendar.stamp x.clock = .ok ts) (level : Level)
    (message : String) : (x.world settings).log level message none =
      ((x.emit (logged ts level message)).world settings, .ok ()) :=
  World.log_eq_of_stamp (w := x.world settings) rfl level message none hstamp

/-- The refresher while it runs for the first time: its timings, the list that it has seen, its
timers, and whether a cycle is in flight. -/
def tracking (timings : Timings) (seen : List Endpoint) (delayTimer periodTimer : Option Nat)
    (inFlight : Bool) : Refresher where
  provider := some registry
  handler := .strategy
  timings := timings
  snapshot := Table.ofList [(service, seen)]
  delayTimer := delayTimer
  periodTimer := periodTimer
  running := true
  inFlight := inFlight
  generation := 1

/-- The scene in which the strategy has begun to poll. -/
def polling (timings : Timings) : Scene :=
  { x with
    timers := x.timers ++ [⟨x.timerCount + 1, x.clock + timings.delay, none, .delay 0⟩]
    timerCount := x.timerCount + 1
    refresher := some (tracking timings x.followed (some (x.timerCount + 1)) none false) }

theorem pollWith_world (timings : Timings) (hnone : x.refresher = none) :
    (x.world settings).pollWith ⟨service, registry, x.followed⟩ timings =
      (x.polling timings).world settings := by
  obtain ⟨clock, timers, timerCount, known, lookupCount, refresher, rotation, followed, trace⟩ := x
  obtain rfl : refresher = none := hnone
  rw [Machine.pollWith_eq]
  rfl

/-- What is logged when polling begins. -/
def refreshing : String := "Refreshing \"" ++ service ++ "\" from naming service"

/-- **The strategy begins to poll.** -/
theorem perform_startPolling {timings : Timings} {ts : String} (hnone : x.refresher = none)
    (hcheck : timings.check = .ok ()) (hstamp : Calendar.stamp x.clock = .ok ts) :
    (x.world settings).perform (.startPolling (some timings.delay) (some timings.period)) =
      (((x.polling timings).emit (logged ts .info refreshing)).world settings, .ok .nothing) := by
  refine Machine.complete_of_run 2 (by decide) ?_
  have hidle : (x.world settings).polling = false := by
    simp only [World.polling, World.poller?, world, strategy, hnone]
    rfl
  have hstart : (x.world settings).startPolling (some timings.delay) (some timings.period) =
      ((x.world settings).pollWith ⟨service, registry, x.followed⟩ timings).log .info refreshing
        none := by
    rw [Machine.startPolling_of_bound (s := x.strategy) (b := ⟨service, registry, x.followed⟩) rfl
      rfl hidle, Strategy.chooseTimings_of_check hcheck]
    rfl
  have hstep : ((x.world settings).machine
      (.startPolling (some timings.delay) (some timings.period))).next = Machine.finish
        ((x.world settings).startPolling (some timings.delay) (some timings.period))
        [.settle none] := rfl
  rw [Machine.run_succ, hstep, hstart, pollWith_world x settings timings hnone,
    log_world (x.polling timings) settings hstamp]
  rfl

/-- **Polling ends.** -/
theorem perform_close {r : Refresher} {timer : Nat} (h : x.refresher = some r)
    (hdelay : r.delayTimer = none) (hperiod : r.periodTimer = some timer) :
    (x.world settings).perform .close =
      ({ x with
        timers := x.timers.filter fun t => t.id != timer
        refresher := some r.halt }.world settings, .ok .nothing) := by
  refine Machine.complete_of_run 2 (by decide) ?_
  have hpoller : (x.world settings).stopPolling = (x.world settings).stopRefresher 0 := by
    simp [World.stopPolling, World.poller?, world, strategy, h]
  have hstep : ((x.world settings).machine .close).next =
      Machine.done (x.world settings).stopPolling [.settle none] := rfl
  have hhalts : (x.world settings).stopRefresher 0 = { x with
      timers := x.timers.filter fun t => t.id != timer
      refresher := some r.halt }.world settings := by
    simp only [World.stopRefresher, world, strategy, h, Option.toList_some,
      List.getElem?_cons_zero, hdelay, hperiod, World.clearTimer, World.modifyRefresher]
    rfl
  rw [Machine.run_succ, hstep, hpoller, hhalts]
  rfl

/-! ### The poll -/

/-- What is logged when a list has changed. -/
def changed (known : List Endpoint) : String :=
  "A new changed list getting from naming service name='" ++ service ++ "' value=" ++
    Endpoint.listText known

/-- The scene in which the first poll looks up the service. -/
def asking (timings : Timings) (timer : Nat) (due : Binary64) : Scene :=
  ({ x with
    clock := due
    timers := x.timers.filter fun t => t.id != timer
    lookupCount := x.lookupCount + 1
    refresher := some (tracking timings x.followed none none true) } : Scene).emit
    (.lookup registry (x.lookupCount + 1) [service] (.poll 0 1))

/-- The scene in which the later polls are to come. -/
def arming (timings : Timings) : Scene :=
  { x with
    timers := x.timers ++
      [⟨x.timerCount + 1, x.clock + timings.period, some timings.period, .period 0⟩]
    timerCount := x.timerCount + 1
    refresher := some (tracking timings x.followed none (some (x.timerCount + 1)) true) }

/-- The scene in which the changed list has been taken. -/
def taking (timings : Timings) (timer : Nat) (ts : String) : Scene :=
  (({ x with
    refresher := some (tracking timings x.known none (some timer) true)
    followed := x.known } : Scene).emit (logged ts .warn (changed x.known))).change
    (Rotation.ofEndpoints x.known) (.reset service)

/-- The scene in which the cycle has ended. -/
def releasing (timings : Timings) (timer : Nat) : Scene :=
  { x with refresher := some (tracking timings x.followed none (some timer) false) }

/-- The work that the answer to the first poll makes ready. -/
def answered (known : List Endpoint) : Job :=
  .answered (.cycle 0 1 .timer [service]) (.ok (some (Table.ofList [(service, known)])))

/-- The cycle of the first poll. -/
def cycle (known : List Endpoint) (remaining : List String) : Cycle where
  refresher := 0
  generation := 1
  origin := .timer
  remaining := remaining
  latest := Table.ofList [(service, known)]

/-- The world of a scene in which work waits. -/
def busy (jobs : List Job) : World := { x.world settings with jobs := jobs }

variable {timings : Timings}

/-- **The first poll asks for the service**, and later polls are to come. -/
theorem fire_asks {timer : Nat} {due : Binary64}
    (hr : x.refresher = some (tracking timings x.followed (some timer) none false)) :
    Machine.run 2 (Machine.fire (x.world settings) [.settle none] ⟨timer, due, none, .delay 0⟩) =
      Machine.done (((x.asking timings timer due).arming timings).busy settings
        [answered x.known]) [.settle none] := by
  obtain ⟨clock, timers, timerCount, known, lookupCount, refresher, rotation, followed, trace⟩ := x
  obtain rfl : refresher = some (tracking timings followed (some timer) none false) := hr
  let x : Scene := ⟨clock, timers, timerCount, known, lookupCount,
    some (tracking timings followed (some timer) none false), rotation, followed, trace⟩
  let w : World := { x.world settings with
    clock := due
    timers := timers.filter fun t => t.id != timer
    refreshers := [tracking timings followed none none true] }
  have hfire : Machine.fire (x.world settings) [.settle none] ⟨timer, due, none, .delay 0⟩ =
      Machine.lookup w [.arm 0, .settle none] registry [service] (.poll 0 1) := rfl
  have hlookup : Machine.fire (x.world settings) [.settle none] ⟨timer, due, none, .delay 0⟩ =
      Machine.done ((x.asking timings timer due).world settings)
        [.lookup registry (lookupCount + 1) [service] (.poll 0 1) (.settled .registry), .arm 0,
          .settle none] :=
    hfire.trans (lookup_of_providers (w := w) known rfl _ _)
  have hanswer : (Machine.done ((x.asking timings timer due).world settings)
      [.lookup registry (lookupCount + 1) [service] (.poll 0 1) (.settled .registry), .arm 0,
        .settle none]).next =
      Machine.done ((x.asking timings timer due).busy settings
        [.answered (.cycle 0 1 .timer [service]) (Machine.settlementOf
          ((x.asking timings timer due).world settings) registry [service] .registry)])
        [.arm 0, .settle none] := rfl
  rw [hlookup, Machine.run_succ, hanswer, Machine.run_succ, settlementOf_providers known rfl]
  rfl

theorem nextChange?_tracking {seen known : List Endpoint}
    (hchanged : Endpoint.sameList seen known = false) (periodTimer : Option Nat) (inFlight : Bool) :
    (tracking timings seen none periodTimer inFlight).nextChange?
      (Table.ofList [(service, known)]) [service] = some ⟨service, known, []⟩ := by
  have hseen : (tracking timings seen none periodTimer inFlight).seen service = seen := by
    rw [Refresher.seen, tracking, Table.get?_single, Option.getD_some]
  rw [Refresher.nextChange?]
  simp only [Table.get?_single, Option.getD_some, hseen, hchanged, Bool.false_eq_true, if_false]

/-- **The changed list is taken**: it is logged, remembered, and the listener is told. -/
theorem goOn_takes {timer : Nat} {ts : String}
    (hr : x.refresher = some (tracking timings x.followed none (some timer) true))
    (hchanged : Endpoint.sameList x.followed x.known = false)
    (hstamp : Calendar.stamp x.clock = .ok ts) (k : List Frame) :
    Machine.goOn (x.world settings) k (cycle x.known [service]) =
      Machine.done ((x.taking timings timer ts).world settings)
        (.listener .returns :: .taken (cycle x.known []) :: k) := by
  obtain ⟨clock, timers, timerCount, known, lookupCount, refresher, rotation, followed, trace⟩ := x
  obtain rfl : refresher = some (tracking timings followed none (some timer) true) := hr
  let x : Scene := ⟨clock, timers, timerCount, known, lookupCount,
    some (tracking timings followed none (some timer) true), rotation, followed, trace⟩
  let y := x.emit (logged ts .warn (changed known))
  have hlog : (x.world settings).log .warn (changed known) none = (y.world settings, .ok ()) :=
    x.log_world settings hstamp .warn (changed known)
  have hseen : (tracking timings followed none (some timer) true).see service known =
      tracking timings known none (some timer) true := by
    rw [Refresher.see, tracking, Table.insert_single, tracking]
  have hsees : (y.world settings).modifyRefresher 0 (fun r => r.see service known) =
      ({ y with refresher := some (tracking timings known none (some timer) true) } :
        Scene).world settings := by
    rw [← hseen]
    rfl
  have hgoes : Machine.goOn (x.world settings) k (cycle known [service]) =
      Machine.applyChange (x.world settings) k (cycle known [service]) .strategy
        ⟨service, known, []⟩ :=
    Machine.goOn_of_change (r := tracking timings followed none (some timer) true) rfl rfl
      (nextChange?_tracking hchanged _ _)
  have happlied : Machine.applyChange (x.world settings) k (cycle known [service]) .strategy
      ⟨service, known, []⟩ =
      Machine.reset ((y.world settings).modifyRefresher 0 fun r => r.see service known)
        (.taken (cycle known []) :: k) service known :=
    Machine.applyChange_of_log hlog
  rw [hgoes, happlied, hsees]
  rfl

/-- The scene after the first poll. -/
def polled (timings : Timings) (timer : Nat) (due : Binary64) (ts : String) : Scene :=
  ((((x.asking timings timer due).arming timings).taking timings (x.timerCount + 1) ts).releasing
    timings (x.timerCount + 1))

/-- **The first poll, from beginning to end.** -/
theorem fire_polls {timer : Nat} {due : Binary64} {ts : String}
    (hr : x.refresher = some (tracking timings x.followed (some timer) none false))
    (hchanged : Endpoint.sameList x.followed x.known = false)
    (hstamp : Calendar.stamp due = .ok ts) :
    (x.world settings).fire ⟨timer, due, none, .delay 0⟩ =
      (x.polled timings timer due ts).world settings := by
  let y := (x.asking timings timer due).arming timings
  let taken := y.taking timings (x.timerCount + 1) ts
  have hasks : Machine.run 2 (Machine.fire (x.world settings) [.settle none]
      ⟨timer, due, none, .delay 0⟩) =
      Machine.done (y.busy settings [answered x.known]) [.settle none] := x.fire_asks settings hr
  have hworks : (Machine.done (y.busy settings [answered x.known]) [.settle none]).next =
      Machine.goOn (y.world settings) [.settle (some (.ok .nothing))]
        (cycle x.known [service]) := rfl
  have htakes : Machine.goOn (y.world settings) [.settle (some (.ok .nothing))]
      (cycle x.known [service]) = Machine.done (taken.world settings)
        [.listener .returns, .taken (cycle x.known []), .settle (some (.ok .nothing))] :=
    y.goOn_takes settings rfl hchanged hstamp _
  have hends : Machine.run 5 (Machine.done (taken.world settings)
      [.listener .returns, .taken (cycle x.known []), .settle (some (.ok .nothing))]) =
      ⟨(x.polled timings timer due ts).world settings, [], .deliver (.ok .nothing)⟩ := rfl
  have hrun : Machine.run 8 (Machine.fire (x.world settings) [.settle none]
      ⟨timer, due, none, .delay 0⟩) =
      ⟨(x.polled timings timer due ts).world settings, [], .deliver (.ok .nothing)⟩ := by
    rw [Machine.run_add 2 6, hasks, Machine.run_succ, hworks, htakes, hends]
  rw [World.fire, Machine.complete_of_run 8 (by decide) hrun]

/-- **The alarm.** -/
theorem fire_alarm {timer : Nat} {due : Binary64} :
    (x.world settings).fire ⟨timer, due, none, .alarm⟩ =
      ({ x with
        clock := due
        timers := x.timers.filter fun t => t.id != timer } : Scene).world settings := by
  have hrun : Machine.run 1 (Machine.fire (x.world settings) [.settle none]
      ⟨timer, due, none, .alarm⟩) = ⟨({ x with
        clock := due
        timers := x.timers.filter fun t => t.id != timer } : Scene).world settings, [],
        .deliver (.ok .nothing)⟩ := rfl
  rw [World.fire, Machine.complete_of_run 1 (by decide) hrun]

end Scene

end Demonstration

end Balancer
