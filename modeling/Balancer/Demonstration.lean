import Balancer.Session.Report

/-!
# The demonstration program

A program that shows a strategy at work: it follows a service of two endpoints, elects four
targets, loses one of them and gets it back, changes the registry, waits until the change
has been polled, and shows the status of all targets.

* `Balancer.Demonstration.program` – **what it does**, on the world of a session.
* `Balancer.Demonstration.run` – its console, its exit code if it fails, the clock at its end
  and the number of timers that it leaves behind.
-/

namespace Balancer.Demonstration

open Session

/-! ### The service -/

/-- The service that the program follows. -/
def service : String := "echo"

/-- The naming service that knows it. -/
def registry : String := "registry"

/-- An endpoint of the service. -/
def endpoint (host : String) : Endpoint := ⟨host, .ofNat 8122⟩

/-- The endpoints at the beginning. -/
def before : List Endpoint := [endpoint "10.0.0.1", endpoint "10.0.0.2"]

/-- The endpoints after the change. -/
def after : List Endpoint := [endpoint "10.0.0.2", endpoint "10.0.0.3"]

/-- The target that fails for a while. -/
def unstable : String := (endpoint "10.0.0.1").key

/-! ### The program -/

/-- **A program on the world of a session**, which may fail. -/
abbrev Program := ExceptT Failure (StateM World)

/-- A step of the session. -/
def step (s : Step) : Program Result := do
  let (w, outcome) := (← get).perform s
  set w
  liftExcept outcome
where
  /-- What a step yields, or its failure. -/
  liftExcept (outcome : Outcome) : Program Result := ExceptT.mk (pure outcome)

/-- A line of the program's own. -/
def print (text : String) : Program Unit := modify fun w => w.emit (.console (Line.plain text))

/-- A target is elected and shown. -/
def showElection (label : String) : Program Unit := do
  match ← step (.elect 1) with
  | .targets targets => print (label ++ " → " ++ String.intercalate ", " targets)
  | _ => pure ()

/-- The line of a target in the final status. -/
def statusLine (s : TargetStatus) : String :=
  "  - " ++ s.target ++ " (weight: " ++ toString s.weight ++
    ", healthy: " ++ (if s.healthy then "true" else "false") ++ ")"

/-- **Timers fire, one after the other, while the program waits** for its own. -/
def wait : Nat → World → World
  | 0, w => w
  | n + 1, w =>
    if w.timers.all Timer.detached then w
    else match Timer.first? w.timers with
      | some t => wait n (w.fire t)
      | none => w

/-- **What the program does** once its strategy is built. -/
def program (timings : Timings) : Program Unit := do
  let _ ← step (.startPolling (some timings.delay) (some timings.period))
  for n in [1, 2, 3, 4] do
    showElection ("call " ++ toString n)
  let _ ← step (.remove unstable)
  showElection "after failure"
  let _ ← step (.recover unstable)
  let _ ← step (.register registry service after)
  modify fun w => wait Machine.limit (w.setTimer (timings.delay + timings.period) none .alarm)
  print "\nTargets status:"
  if let .status targets ← step .status then
    for s in targets do
      print (statusLine s)
  let _ ← step .close

/-! ### The run -/

/-- The listener's line for a change. -/
def noticeLine (n : Notice) : String :=
  let kind := match n.change with
    | .removed _ => "removed"
    | .recovered _ => "recovered"
    | .reset _ => "reinitialized"
  "targets " ++ kind ++ ": " ++ String.intercalate ", " n.targets

/-- The line of the console that an event is, or that the listener writes for it. -/
def lineOf? : Event → Option Line
  | .console line => some line
  | .notice notice => some (Line.plain (noticeLine notice))
  | _ => none

/-- **What a run shows.** -/
structure Run where
  /-- The lines of the console. -/
  lines : List Line
  /-- The exit code, if the program failed. -/
  exitCode : Option Nat
  /-- The clock at the end. -/
  clock : Binary64
  /-- The timers left behind. -/
  timers : Nat

/-- What the program begins with. -/
def setup (settings : Settings) (clock : Binary64) : Setup where
  clock := clock
  settings := settings
  onConsole := true
  providers := Table.ofList [(registry, ⟨Table.ofList [(service, before)], []⟩)]

/-- A failed run shows its failure last. -/
def failed (w : World) (failure : Failure) : Run where
  lines := w.trace.toList.filterMap lineOf? ++ [⟨.error, none, some failure⟩]
  exitCode := some 1
  clock := w.clock
  timers := w.timers.length

/-- A run that comes to its end. -/
def ended (w : World) : Run where
  lines := w.trace.toList.filterMap lineOf?
  exitCode := none
  clock := w.clock
  timers := w.timers.length

/-- **A run of the program**, with the settings of the process and the clock at its
beginning. -/
def run (settings : Settings) (clock : Binary64) : Run :=
  let setup := setup settings clock
  match settings.timings with
  | .error failure => failed (setup.world strategyScope) failure
  | .ok timings =>
    let (w, _) := openBound setup ⟨none, none, some []⟩ service registry
    match (program timings).run.run w with
    | (.error failure, w) => failed w failure
    | (.ok _, w) => ended w

end Balancer.Demonstration
