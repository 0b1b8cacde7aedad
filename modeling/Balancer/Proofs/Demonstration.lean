import Balancer.Proofs.Scene

/-!
# The demonstration program ends cleanly

The program is awake until it has set its alarm, sleeps while timers fire, and is awake again.
Each of the three parts leads from one scene to another, for every clock and all timings.

* `Balancer.Demonstration.Ends` – a program ends, and leads from one world to another;
  `Balancer.Demonstration.Waits` – **the timers that fire** while the program waits.
* `Balancer.Demonstration.Course` – **a run of the program in its three parts**.
* `Balancer.Demonstration.untilSleep`, `duringSleep`, `afterSleep` – all that happens in them.
* `Balancer.Session.Timer.first?_pair` – of two timers that are due at the same time, the one that
  was set first fires first. The alarm and the first of the later polls are such timers.
* `Balancer.Demonstration.ends_cleanly` – **the program ends cleanly**: with bad settings it
  shows the failure and does nothing else; otherwise it polls once, ends at the time of the alarm,
  and leaves no timer behind.
-/

namespace Balancer

/-! ### Instants -/

theorem Binary64.floor_of_toInt? {x : Binary64} {z : Int} (h : x.toInt? = some z) :
    x.floor = x := by
  obtain ⟨negative, n, hn, rfl, -⟩ := exists_of_toInt? h
  rw [floor, if_pos (Nat.mul_mod_left _ _)]

/-- A sum of integers that is the reading of a clock is not rounded. -/
theorem Binary64.toInt?_add {x y : Binary64} {a b : Int} (hx : x.toInt? = some a)
    (hy : y.toInt? = some b) (hlow : 0 ≤ a) (hpos : 0 < b) (hhigh : a + b ≤ Calendar.range) :
    x + y = .ofInt (a + b) ∧ (x + y).toInt? = some (a + b) := by
  have hbound : (a + b).natAbs ≤ 8640000000000000 := by
    rw [Calendar.range] at hhigh
    omega
  have hsum : x + y = .ofInt (a + b) := add_of_toInt? hx hy hpos
  exact ⟨hsum, hsum ▸ toInt?_ofInt (Nat.le_trans hbound (by decide))⟩

/-- The stamp of a number of milliseconds. -/
def Calendar.stampOf (ms : Int) : String := (Moment.ofSeconds (ms / 1000)).text

theorem Calendar.stamp_of_toInt? {x : Binary64} {z : Int} (h : x.toInt? = some z) (hlow : 0 ≤ z)
    (hhigh : z ≤ range) : stamp x = .ok (stampOf z) := by
  have hms : milliseconds? x = some z := by
    rw [milliseconds?, Binary64.floor_of_toInt? h, h, Option.filter_some, if_pos]
    rw [decide_eq_true_eq]
    omega
  rw [stamp, hms, stampOf]

/-- **Of two timers the earlier one fires first**, and the one that was set first where they are due
at the same time. -/
theorem Session.Timer.first?_pair {a b : Timer} {i j : Int} (ha : a.due.toInt? = some i)
    (hb : b.due.toInt? = some j) (hle : i ≤ j) (hid : a.id < b.id) : first? [a, b] = some a := by
  have hlater : b.earlier a = false := by
    rw [earlier, Binary64.lt_eq_of_toInt? hb ha, decide_eq_false (by omega), Bool.false_or,
      decide_eq_false (by omega), Bool.and_false]
  rw [first?, List.foldl_cons, List.foldl_nil, hlater]
  rfl

namespace Demonstration

open Session

/-! ### Programs -/

/-- **A program ends** with a result, and leads from one world to another. -/
def Ends {α : Type} (p : Program α) (w : World) (a : α) (w' : World) : Prop :=
  p.run.run w = (.ok a, w')

section Ends

variable {α β : Type} {w w' w'' : World}

theorem Ends.bind {p : Program α} {f : α → Program β} {a : α} {b : β} (h : Ends p w a w')
    (h' : Ends (f a) w' b w'') : Ends (p >>= f) w b w'' := by
  rw [Ends, ExceptT.run_bind, StateT.run_bind, h]
  exact h'

theorem ends_pure (a : α) : Ends (pure a) w a w := rfl

theorem ends_modify (f : World → World) : Ends (modify f) w ⟨⟩ (f w) := rfl

theorem modify_bind_modify (f g : World → World) (k : PUnit → Program α) :
    (modify f >>= fun _ => modify g >>= k) = modify (fun w => g (f w)) >>= k := rfl

/-- A step of the session ends with what it yields. -/
theorem ends_step {s : Step} {result : Result} (h : w.perform s = (w', .ok result)) :
    Ends (step s) w result w' := by
  have hrun : (step s).run.run w = ((w.perform s).2, (w.perform s).1) := rfl
  rw [Ends, hrun, h]

variable {f : α → Program Unit}

/-- A loop over no values. -/
theorem ends_forIn_nil :
    Ends (forIn [] PUnit.unit fun a _ => do f a; pure (.yield ⟨⟩)) w ⟨⟩ w := rfl

/-- A loop over one value more. -/
theorem Ends.forIn_cons {a : α} {as : List α} (h : Ends (f a) w () w')
    (h' : Ends (forIn as PUnit.unit fun a _ => do f a; pure (.yield ⟨⟩)) w' ⟨⟩ w'') :
    Ends (forIn (a :: as) PUnit.unit fun a _ => do f a; pure (.yield ⟨⟩)) w ⟨⟩ w'' := by
  rw [List.forIn_cons]
  have hfirst : Ends (do f a; pure (ForInStep.yield PUnit.unit)) w (.yield ⟨⟩) w' :=
    h.bind (ends_pure _)
  exact hfirst.bind h'

end Ends

/-! ### The parts of the program -/

/-- What the program does until it falls asleep. -/
def opening (timings : Timings) : Program Unit := do
  let _ ← step (.startPolling (some timings.delay) (some timings.period))
  for n in [1, 2, 3, 4] do
    showElection ("call " ++ toString n)
  let _ ← step (.remove unstable)
  showElection "after failure"
  let _ ← step (.recover unstable)
  let _ ← step (.register registry service after)
  modify fun w => w.setTimer (timings.delay + timings.period) none .alarm

/-- What it does when it has woken up. -/
def closing : Program Unit := do
  print "\nTargets status:"
  if let .status targets ← step .status then
    for s in targets do
      print (statusLine s)
  let _ ← step .close

/-- **The program is awake, sleeps, and is awake again.** -/
theorem program_eq (timings : Timings) : program timings =
    opening timings >>= fun _ => modify (wait Machine.limit) >>= fun _ => closing := by
  have hsleep (k : PUnit → Program Unit) :
      (modify (fun w => w.setTimer (timings.delay + timings.period) none .alarm) >>= fun _ =>
        modify (wait Machine.limit) >>= k) = (modify fun w => wait Machine.limit
          (w.setTimer (timings.delay + timings.period) none .alarm)) >>= k :=
    modify_bind_modify _ _ k
  simp only [program, opening, bind_assoc, hsleep]
  rfl

/-! ### Waiting -/

/-- **The timers that fire while the program waits**, one after the other, until only those are left
that let it end. -/
inductive Waits : World → List Timer → World → Prop
  /-- No timer holds the program any longer. -/
  | ends {w : World} (h : w.timers.all Timer.detached = true) : Waits w [] w
  /-- A timer fires. -/
  | fires {w w' : World} {t : Timer} {ts : List Timer} (h : w.timers.all Timer.detached = false)
      (hfirst : Timer.first? w.timers = some t) (hrest : Waits (w.fire t) ts w') :
      Waits w (t :: ts) w'

theorem Waits.wait_eq {w w' : World} {fired : List Timer} (h : Waits w fired w') {n : Nat}
    (hn : fired.length ≤ n) : wait n w = w' := by
  induction h generalizing n with
  | ends h =>
    cases n with
    | zero => rfl
    | succ n => rw [wait, if_pos h]
  | fires h hfirst _ ih =>
    cases n with
    | zero => exact absurd hn (Nat.not_succ_le_zero _)
    | succ n =>
      rw [wait, if_neg (by rw [h]; exact Bool.false_ne_true), hfirst]
      exact ih (Nat.le_of_succ_le_succ hn)

/-- **A run of the program**, cut where it falls asleep and where it has woken up. -/
structure Course (timings : Timings) (w asleep : World) (fired : List Timer) (awake final : World) :
    Prop where
  /-- What it does until it falls asleep. -/
  opens : Ends (opening timings) w () asleep
  /-- The timers that fire while it sleeps. -/
  waits : Waits asleep fired awake
  /-- What it does when it has woken up. -/
  closes : Ends closing awake () final

theorem Course.ends {timings : Timings} {w asleep awake final : World} {fired : List Timer}
    (h : Course timings w asleep fired awake final) (hn : fired.length ≤ Machine.limit) :
    Ends (program timings) w () final := by
  rw [program_eq]
  refine h.opens.bind (Ends.bind (a := ⟨⟩) ?_ h.closes)
  rw [← h.waits.wait_eq hn]
  exact ends_modify _

/-! ### What happens -/

/-- The first target. -/
def target₁ : String := "10.0.0.1:8122"

/-- The second one. -/
def target₂ : String := "10.0.0.2:8122"

/-- The one that comes with the change. -/
def target₃ : String := "10.0.0.3:8122"

/-- What happens until the program falls asleep. -/
def untilSleep (clock : Binary64) (ts : String) : List Event :=
  [.lookup "registry" 1 ["echo"] (.binding "echo"),
    .ended 1 (.ok ()),
    logged ts .info "Refreshing \"echo\" from naming service",
    printed "call 1 → 10.0.0.1:8122",
    printed "call 2 → 10.0.0.2:8122",
    printed "call 3 → 10.0.0.1:8122",
    printed "call 4 → 10.0.0.2:8122",
    .notice ⟨.removed target₁, [target₂], clock⟩,
    printed "after failure → 10.0.0.2:8122",
    .notice ⟨.recovered target₁, [target₂, target₁], clock⟩]

/-- What is logged about the changed list. -/
def listChanged : String :=
  "A new changed list getting from naming service name='echo' " ++
    "value=[10.0.0.2:8122, 10.0.0.3:8122]"

/-- What happens while it sleeps: one poll. -/
def duringSleep (due : Binary64) (ts : String) : List Event :=
  [.lookup "registry" 2 ["echo"] (.poll 0 1),
    logged ts .warn listChanged,
    .notice ⟨.reset "echo", [target₂, target₃], due⟩]

/-- What happens when it has woken up. -/
def afterSleep : List Event :=
  [printed "\nTargets status:",
    printed "  - 10.0.0.2:8122 (weight: 1, healthy: true)",
    printed "  - 10.0.0.3:8122 (weight: 1, healthy: true)"]

/-- **What a world shows** at some point of a run: the clock, the timers that wait, and all that has
happened. -/
structure Shows (w : World) (clock : Binary64) (timers : List Timer) (events : List Event) :
    Prop where
  /-- The clock. -/
  clock_eq : w.clock = clock
  /-- The timers that wait. -/
  timers_eq : w.timers = timers
  /-- What has happened. -/
  trace_eq : w.trace.toList = events

/-! ### The rotations -/

/-- The rotation over the endpoints at the beginning, at some place. -/
def wholeAt (cursor : Nat) : Rotation := { Rotation.ofEndpoints before with cursor := cursor }

/-- The rotation without the target that fails, at some place. -/
def aloneAt (cursor : Nat) : Rotation :=
  { Rotation.restart (Table.ofList [(target₂, 1)]) (Table.ofList [(target₁, 1)]) with
    cursor := cursor }

/-- The rotation to which it has come back. -/
def healed : Rotation :=
  Rotation.restart (Table.ofList [(target₂, 1), (target₁, 1)]) Table.empty

/-- The rotation over the endpoints after the change. -/
def renewed : Rotation := Rotation.ofEndpoints after

/-- The elections over all targets go round. -/
theorem elect_whole :
    (Rotation.ofEndpoints before).elect = .ok (target₁, wholeAt 1) ∧
      (wholeAt 1).elect = .ok (target₂, wholeAt 2) ∧
      (wholeAt 2).elect = .ok (target₁, wholeAt 1) := by
  decide +kernel

/-- The target that fails is the first one; the other one is elected without it. -/
theorem remove_unstable : unstable = target₁ ∧ (wholeAt 2).remove? unstable = some (aloneAt 0) ∧
    (aloneAt 0).targets = [target₂] ∧ (aloneAt 0).elect = .ok (target₂, aloneAt 1) := by
  decide +kernel

/-- It comes back as the last one. -/
theorem recover_unstable : (aloneAt 1).recover? unstable = some healed ∧
    healed.targets = [target₂, target₁] := by
  decide +kernel

/-- The change is one, and the rotation after it serves the endpoints of the new list. -/
theorem renewed_spec : Endpoint.sameList before after = false ∧ Scene.changed after = listChanged ∧
    renewed.targets = [target₂, target₃] ∧
    renewed.status = [⟨target₂, 1, true⟩, ⟨target₃, 1, true⟩] := by
  decide +kernel

/-! ### The way to sleep -/

section Opening

variable {clock due last : Binary64} {timings : Timings} {settings : Settings} {ts : String}

/-- The timer of the first poll. -/
def pollTimer (due : Binary64) : Timer := ⟨1, due, none, .delay 0⟩

/-- The timer for which the program waits. -/
def alarm (last : Binary64) : Timer := ⟨2, last, none, .alarm⟩

/-- The timer of the later polls. -/
def interval (last period : Binary64) : Timer := ⟨3, last, some period, .period 0⟩

/-- The scene in which the program has fallen asleep. -/
def sleeping (clock due last : Binary64) (timings : Timings) (ts : String) : Scene where
  clock := clock
  timers := [pollTimer due, alarm last]
  timerCount := 2
  known := after
  lookupCount := 1
  refresher := some (Scene.tracking timings before (some 1) none false)
  rotation := healed
  followed := before
  trace := (untilSleep clock ts).toArray

/-- The scene after an election and its line. -/
def electing (x : Scene) (r : Rotation) (line : String) : Scene := (x.turn r).emit (printed line)

theorem shows_sleeping : Shows ((sleeping clock due last timings ts).world settings) clock
    [pollTimer due, alarm last] (untilSleep clock ts) := ⟨rfl, rfl, rfl⟩

/-- The line of an election. -/
theorem ends_showElection {x : Scene} {label target line : String} {r : Rotation}
    (h : x.rotation.elect = .ok (target, r)) (hline : label ++ " → " ++ target = line) :
    Ends (showElection label) (x.world settings) () ((electing x r line).world settings) := by
  refine (ends_step (x.perform_elect settings h)).bind ?_
  rw [← hline]
  exact ends_modify _

/-- The scene after the first four elections. -/
def elected (x : Scene) : Scene :=
  electing (electing (electing (electing x (wholeAt 1) "call 1 → 10.0.0.1:8122")
    (wholeAt 2) "call 2 → 10.0.0.2:8122") (wholeAt 1) "call 3 → 10.0.0.1:8122")
    (wholeAt 2) "call 4 → 10.0.0.2:8122"

theorem ends_elections {x : Scene} (h : x.rotation = Rotation.ofEndpoints before) :
    Ends (forIn [1, 2, 3, 4] PUnit.unit fun n _ => do
        showElection ("call " ++ toString n)
        pure (.yield ⟨⟩)) (x.world settings) ⟨⟩ ((elected x).world settings) := by
  obtain ⟨hbefore, hone, htwo⟩ := elect_whole
  rw [← h] at hbefore
  let x₁ := electing x (wholeAt 1) "call 1 → 10.0.0.1:8122"
  let x₂ := electing x₁ (wholeAt 2) "call 2 → 10.0.0.2:8122"
  let x₃ := electing x₂ (wholeAt 1) "call 3 → 10.0.0.1:8122"
  have hfirst : Ends (showElection ("call " ++ toString 1)) (x.world settings) ()
      (x₁.world settings) := ends_showElection hbefore (by decide)
  have hsecond : Ends (showElection ("call " ++ toString 2)) (x₁.world settings) ()
      (x₂.world settings) := ends_showElection hone (by decide)
  have hthird : Ends (showElection ("call " ++ toString 3)) (x₂.world settings) ()
      (x₃.world settings) := ends_showElection htwo (by decide)
  have hfourth : Ends (showElection ("call " ++ toString 4)) (x₃.world settings) ()
      ((elected x).world settings) := ends_showElection hone (by decide)
  exact hfirst.forIn_cons <| hsecond.forIn_cons <| hthird.forIn_cons <|
    hfourth.forIn_cons ends_forIn_nil

/-- **The program falls asleep.** -/
theorem ends_opening (hcheck : timings.check = .ok ()) (hstamp : Calendar.stamp clock = .ok ts)
    (hfloor : clock.floor = clock) (hdue : clock + timings.delay = due)
    (hlast : clock + (timings.delay + timings.period) = last) :
    Ends (opening timings) ((Scene.opened clock before).world settings) ()
      ((sleeping clock due last timings ts).world settings) := by
  obtain ⟨hunstable, hremove, hleft, hagain⟩ := remove_unstable
  obtain ⟨hrecover, hback⟩ := recover_unstable
  let polling := ((Scene.opened clock before).polling timings).emit
    (logged ts .info "Refreshing \"echo\" from naming service")
  let removed := ((elected polling).turn (aloneAt 0)).emit
    (.notice ⟨.removed target₁, [target₂], clock⟩)
  let around := electing removed (aloneAt 1) "after failure → 10.0.0.2:8122"
  let recovered := (around.turn healed).emit
    (.notice ⟨.recovered target₁, [target₂, target₁], clock⟩)
  have hpolls : Ends (step (.startPolling (some timings.delay) (some timings.period)))
      ((Scene.opened clock before).world settings) .nothing (polling.world settings) := by
    have hline : Scene.refreshing = "Refreshing \"echo\" from naming service" := by decide
    refine ends_step ?_
    rw [Scene.perform_startPolling _ settings rfl hcheck hstamp, hline]
  have hremoves : Ends (step (.remove unstable)) ((elected polling).world settings) .nothing
      (removed.world settings) := by
    refine ends_step ?_
    rw [(elected polling).perform_remove settings hremove, hunstable,
      Scene.change_eq _ hleft hfloor]
    rfl
  have helects : Ends (showElection "after failure") (removed.world settings) ()
      (around.world settings) :=
    ends_showElection hagain (by decide)
  have hrecovers : Ends (step (.recover unstable)) (around.world settings) .nothing
      (recovered.world settings) := by
    refine ends_step ?_
    rw [around.perform_recover settings hrecover, hunstable, Scene.change_eq _ hback hfloor]
    rfl
  have hregisters : Ends (step (.register registry service after)) (recovered.world settings)
      .nothing ((recovered.know after).world settings) :=
    ends_step (recovered.perform_register settings after)
  have hsets : Ends (modify fun w => w.setTimer (timings.delay + timings.period) none .alarm)
      ((recovered.know after).world settings) ⟨⟩
      ((sleeping clock due last timings ts).world settings) := by
    rw [← hdue, ← hlast]
    exact ends_modify _
  exact hpolls.bind <| (ends_elections (x := polling) rfl).bind <| hremoves.bind <|
    helects.bind <| hrecovers.bind <| hregisters.bind hsets

end Opening

/-! ### The sleep -/

section Sleep

variable {clock due last : Binary64} {timings : Timings} {settings : Settings} {ts ts' : String}

/-- The scene after the poll, in which the program sleeps on. -/
def dozing (clock due last : Binary64) (timings : Timings) (ts ts' : String) : Scene where
  clock := due
  timers := [alarm last, interval last timings.period]
  timerCount := 3
  known := after
  lookupCount := 2
  refresher := some (Scene.tracking timings after none (some 3) false)
  rotation := renewed
  followed := after
  trace := (untilSleep clock ts ++ duringSleep due ts').toArray

/-- The poll finds the changed list. -/
theorem fire_pollTimer (hstamp : Calendar.stamp due = .ok ts') (hfloor : due.floor = due)
    (hlast : due + timings.period = last) :
    ((sleeping clock due last timings ts).world settings).fire (pollTimer due) =
      (dozing clock due last timings ts ts').world settings := by
  let asked := ((sleeping clock due last timings ts).asking timings 1 due).arming timings
  obtain ⟨hdiffer, hchanged, hrenewed, -⟩ := renewed_spec
  have hmessage : Scene.changed asked.known = listChanged := hchanged
  have htargets : (Rotation.ofEndpoints asked.known).targets = [target₂, target₃] := hrenewed
  rw [pollTimer, Scene.fire_polls _ settings rfl hdiffer hstamp, Scene.polled,
    Scene.taking, hmessage, Scene.change_eq _ htargets hfloor, dozing, interval, ← hlast]
  rfl

/-- The scene in which the program has woken up. -/
def waking (clock due last : Binary64) (timings : Timings) (ts ts' : String) : Scene :=
  { dozing clock due last timings ts ts' with
    clock := last
    timers := [interval last timings.period] }

theorem shows_waking : Shows ((waking clock due last timings ts ts').world settings) last
    [interval last timings.period] (untilSleep clock ts ++ duringSleep due ts') := ⟨rfl, rfl, rfl⟩

/-- The alarm wakes it up. -/
theorem fire_alarm : ((dozing clock due last timings ts ts').world settings).fire (alarm last) =
    (waking clock due last timings ts ts').world settings := by
  rw [alarm, Scene.fire_alarm]
  rfl

/-! ### The end -/

/-- The scene in which the program has come to its end. -/
def finished (clock due last : Binary64) (timings : Timings) (ts ts' : String) : Scene :=
  { waking clock due last timings ts ts' with
    timers := []
    refresher := some (Scene.tracking timings after none (some 3) false).halt
    trace := (untilSleep clock ts ++ duringSleep due ts' ++ afterSleep).toArray }

theorem shows_finished : Shows ((finished clock due last timings ts ts').world settings) last []
    (untilSleep clock ts ++ duringSleep due ts' ++ afterSleep) := ⟨rfl, rfl, rfl⟩

theorem ends_print {x : Scene} (text : String) : Ends (print text) (x.world settings) ()
    ((x.emit (printed text)).world settings) := ends_modify _

/-- **The program comes to its end.** -/
theorem ends_closing : Ends closing ((waking clock due last timings ts ts').world settings) ()
    ((finished clock due last timings ts ts').world settings) := by
  obtain ⟨-, -, -, hstatus⟩ := renewed_spec
  let x := (waking clock due last timings ts ts').emit (printed "\nTargets status:")
  let y := x.emit (printed "  - 10.0.0.2:8122 (weight: 1, healthy: true)")
  let z := y.emit (printed "  - 10.0.0.3:8122 (weight: 1, healthy: true)")
  have hheads : Ends (print "\nTargets status:")
      ((waking clock due last timings ts ts').world settings) () (x.world settings) := ends_print _
  have hreads : Ends (step .status) (x.world settings)
      (.status [⟨target₂, 1, true⟩, ⟨target₃, 1, true⟩]) (x.world settings) := by
    refine ends_step ?_
    rw [x.perform_status settings, ← hstatus]
    rfl
  have hsecond : Ends (print (statusLine ⟨target₂, 1, true⟩)) (x.world settings) ()
      (y.world settings) := by
    have hline : statusLine ⟨target₂, 1, true⟩ =
        "  - 10.0.0.2:8122 (weight: 1, healthy: true)" := by decide
    rw [hline]
    exact ends_print _
  have hthird : Ends (print (statusLine ⟨target₃, 1, true⟩)) (y.world settings) ()
      (z.world settings) := by
    have hline : statusLine ⟨target₃, 1, true⟩ =
        "  - 10.0.0.3:8122 (weight: 1, healthy: true)" := by decide
    rw [hline]
    exact ends_print _
  have hcloses : Ends (step .close) (z.world settings) .nothing
      ((finished clock due last timings ts ts').world settings) :=
    ends_step (z.perform_close settings rfl rfl rfl)
  exact hheads.bind <| hreads.bind <|
    (hsecond.forIn_cons <| hthird.forIn_cons ends_forIn_nil).bind <| hcloses.bind (ends_pure _)

end Sleep

/-! ### The run -/

theorem Shows.ended_eq {w : World} {clock : Binary64} {events : List Event}
    (h : Shows w clock [] events) : ended w = ⟨events.filterMap lineOf?, none, clock, 0⟩ := by
  obtain ⟨hclock, htimers, htrace⟩ := h
  rw [ended, hclock, htimers, htrace, List.length_nil]

theorem run_of_ends {settings : Settings} {timings : Timings} {clock : Binary64} {final : World}
    (h : settings.timings = .ok timings) (hends : Ends (program timings)
      (openBound (setup settings clock) ⟨none, none, some []⟩ service registry).1 () final) :
    run settings clock = ended final := by
  have hrun : (program timings).run.run (openBound (setup settings clock) ⟨none, none, some []⟩
      service registry).1 = (.ok (), final) := hends
  rw [run]
  simp only [h, hrun]

/-- **The course of a run** in which the first poll is due before the alarm, and the alarm with the
later polls. -/
theorem course_of_instants (settings : Settings) {timings : Timings} {clock due last : Binary64}
    {ts ts' : String} {i j : Int} (hcheck : timings.check = .ok ())
    (hstamp : Calendar.stamp clock = .ok ts) (hfloor : clock.floor = clock)
    (hstamp' : Calendar.stamp due = .ok ts') (hdueInt : due.toInt? = some i)
    (hlastInt : last.toInt? = some j) (hle : i ≤ j) (hdue : clock + timings.delay = due)
    (hlast : clock + (timings.delay + timings.period) = last)
    (hinterval : due + timings.period = last) :
    Course timings ((Scene.opened clock before).world settings)
      ((sleeping clock due last timings ts).world settings) [pollTimer due, alarm last]
      ((waking clock due last timings ts ts').world settings)
      ((finished clock due last timings ts ts').world settings) where
  opens := ends_opening hcheck hstamp hfloor hdue hlast
  waits := by
    refine .fires rfl (Timer.first?_pair hdueInt hlastInt hle (Nat.lt_succ_self 1)) ?_
    rw [fire_pollTimer hstamp' (Binary64.floor_of_toInt? hdueInt) hinterval]
    -- The alarm and the later polls are due at the same time, and the alarm was set first.
    refine .fires rfl (Timer.first?_pair hlastInt hlastInt (Int.le_refl j) (Nat.lt_succ_self 2)) ?_
    rw [fire_alarm]
    exact .ends rfl
  closes := ends_closing

/-- **The course of a run** with timings that can be read: nothing is rounded, and all that is
logged has a date. -/
theorem course_of_timings (settings : Settings) {timings : Timings} {clock : Binary64}
    {now delay period : Int} (hcheck : timings.check = .ok ()) (hclock : clock.toInt? = some now)
    (hnow : 0 ≤ now) (hdelay : timings.delay.toInt? = some delay) (hdelay_pos : 0 < delay)
    (hperiod : timings.period.toInt? = some period) (hperiod_pos : 0 < period)
    (hrange : now + delay + period ≤ Calendar.range) :
    let due := Binary64.ofInt (now + delay)
    let last := Binary64.ofInt (now + delay + period)
    let ts := Calendar.stampOf now
    let ts' := Calendar.stampOf (now + delay)
    Course timings ((Scene.opened clock before).world settings)
      ((sleeping clock due last timings ts).world settings) [pollTimer due, alarm last]
      ((waking clock due last timings ts ts').world settings)
      ((finished clock due last timings ts ts').world settings) := by
  intro due last ts ts'
  obtain ⟨hdue, hdueInt⟩ := Binary64.toInt?_add hclock hdelay hnow hdelay_pos (by omega)
  obtain ⟨hinterval, hlastInt⟩ :=
    Binary64.toInt?_add hdueInt hperiod (by omega) hperiod_pos hrange
  obtain ⟨-, hwaitInt⟩ := Binary64.toInt?_add hdelay hperiod (by omega) hperiod_pos (by omega)
  obtain ⟨hlast, -⟩ := Binary64.toInt?_add hclock hwaitInt hnow (by omega) (by omega)
  rw [hdue] at hdueInt hinterval hlastInt
  rw [hinterval] at hlastInt
  rw [← Int.add_assoc] at hlast
  have hstamp : Calendar.stamp clock = .ok ts := Calendar.stamp_of_toInt? hclock hnow (by omega)
  have hstamp' : Calendar.stamp due = .ok ts' :=
    Calendar.stamp_of_toInt? hdueInt (by omega) (by omega)
  exact course_of_instants settings hcheck hstamp (Binary64.floor_of_toInt? hclock) hstamp' hdueInt
    hlastInt (by omega) hdue hlast hinterval

/-- **The program ends cleanly**, whatever the environment and the time. Where the timings of the
process cannot be read it prints the failure and exits with 1; it has looked up nothing and set no
timer. Otherwise, if the time of the alarm is still a date, all that happens is what `untilSleep`,
`duringSleep` and `afterSleep` list: while it sleeps, the timer of the first poll fires, and then
the alarm. The timer of the later polls is due at the time of the alarm as well, but does not fire
any more, and is gone when the program ends at that time. -/
theorem ends_cleanly (env : Environment) {clock : Binary64} {now : Int}
    (hclock : clock.toInt? = some now) (hnow : 0 ≤ now) :
    let settings := Settings.ofEnvironment env
    (∀ failure, settings.timings = .error failure →
      let w := (setup settings clock).world strategyScope
      failure.name? = some "ConfigurationError" ∧ Shows w clock [] [] ∧ w.lookupCount = 0 ∧
        w.timerCount = 0 ∧ run settings clock = failed w failure ∧
        failed w failure = ⟨[⟨.error, none, some failure⟩], some 1, clock, 0⟩) ∧
    ∀ timings, settings.timings = .ok timings → ∃ delay period : Int,
      timings.delay.toInt? = some delay ∧ 0 < delay ∧
      timings.period.toInt? = some period ∧ 0 < period ∧
      (now + delay + period ≤ Calendar.range →
        let due := Binary64.ofInt (now + delay)
        let last := Binary64.ofInt (now + delay + period)
        let opened := (openBound (setup settings clock) ⟨none, none, some []⟩ service registry).1
        let evening := untilSleep clock (Calendar.stampOf now)
        let night := duringSleep due (Calendar.stampOf (now + delay))
        ∃ asleep awake final,
          Course timings opened asleep [pollTimer due, alarm last] awake final ∧
          Shows asleep clock [pollTimer due, alarm last] evening ∧
          Shows awake last [interval last timings.period] (evening ++ night) ∧
          Shows final last [] (evening ++ night ++ afterSleep) ∧
          run settings clock = ended final ∧
          ended final =
            ⟨(evening ++ night ++ afterSleep).filterMap lineOf?, none, last, 0⟩) := by
  intro settings
  constructor
  · intro failure hfails
    obtain ⟨field, raw, -, -, rfl⟩ := Environment.timings_eq_error_iff.mp hfails
    refine ⟨rfl, ⟨rfl, rfl, rfl⟩, rfl, rfl, ?_, rfl⟩
    rw [run]
    simp only [hfails]
  intro timings h
  have hread := Settings.timings_eq_ok_iff.mp h
  obtain ⟨delay, hdelay_pos, hdelay⟩ : timings.delay.Whole :=
    whole_of_readSetting (hread .delay)
  obtain ⟨period, hperiod_pos, hperiod⟩ : timings.period.Whole :=
    whole_of_readSetting (hread .period)
  refine ⟨delay, period, hdelay, hdelay_pos, hperiod, hperiod_pos, fun hrange => ?_⟩
  intro due last opened evening night
  have hopened : opened = (Scene.opened clock before).world settings :=
    congrArg Prod.fst (Scene.openBound_eq settings clock before)
  have hcourse := course_of_timings settings (Settings.check_of_timings h) hclock hnow hdelay
    hdelay_pos hperiod hperiod_pos hrange
  rw [← hopened] at hcourse
  have hends := hcourse.ends (show 2 ≤ Machine.limit by decide)
  exact ⟨_, _, _, hcourse, shows_sleeping, shows_waking, shows_finished, run_of_ends h hends,
    shows_finished.ended_eq⟩

/-- A run that begins with the year 1970, without any variable: the first poll is due after one
second, the alarm and the later polls after two. -/
theorem ends_cleanly_of_defaults :
    let settings := Settings.ofEnvironment fun _ => none
    let due := Binary64.ofNat 1000
    let last := Binary64.ofNat 2000
    let events := untilSleep .zero "1970-01-01 00:00:00" ++
      duringSleep due "1970-01-01 00:00:01" ++ afterSleep
    Binary64.zero.toInt? = some 0 ∧ settings.timings = .ok ⟨due, due⟩ ∧
      ∃ asleep awake final,
        Course ⟨due, due⟩
          (openBound (setup settings .zero) ⟨none, none, some []⟩ service registry).1
          asleep [pollTimer due, alarm last] awake final ∧
        awake.timers = [interval last due] ∧ Shows final last [] events ∧
        run settings .zero = ⟨events.filterMap lineOf?, none, last, 0⟩ := by
  intro settings due last events
  have hzero : Binary64.zero.toInt? = some 0 := by decide +kernel
  have htimings : settings.timings = .ok ⟨due, due⟩ :=
    (rfl : settings.timings = .ok ⟨defaultTiming, defaultTiming⟩)
  have hdue : due.toInt? = some 1000 := by decide +kernel
  have hdueEq : Binary64.ofInt (0 + 1000) = due := by decide +kernel
  have hlastEq : Binary64.ofInt (0 + 1000 + 1000) = last := by decide +kernel
  -- Neither number is to be evaluated from here on.
  clear_value due last
  obtain ⟨delay, period, hdelay, -, hperiod, -, hruns⟩ :=
    (ends_cleanly (fun _ => none) hzero (Int.le_refl 0)).2 ⟨due, due⟩ htimings
  obtain rfl : 1000 = delay := Option.some.inj (hdue.symm.trans hdelay)
  obtain rfl : 1000 = period := Option.some.inj (hdue.symm.trans hperiod)
  have hfirst : Calendar.stampOf 0 = "1970-01-01 00:00:00" := by decide +kernel
  have hnext : Calendar.stampOf (0 + 1000) = "1970-01-01 00:00:01" := by decide +kernel
  obtain ⟨asleep, awake, final, hcourse, -, hawake, hfinal, hrun, hended⟩ := hruns (by decide)
  simp only [hdueEq, hlastEq, hfirst, hnext] at hcourse hawake hfinal hended
  exact ⟨hzero, htimings, asleep, awake, final, hcourse, hawake.timers_eq, hfinal,
    hrun.trans hended⟩

end Demonstration

end Balancer
