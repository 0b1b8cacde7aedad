import Balancer.Proofs.Session.Flights
import Balancer.Proofs.Session.Snapshot
import Mathlib.Data.Multiset.Filter
import Mathlib.Tactic.Abel

/-!
# Cycles under way and what is shown of them

A cycle that has begun with its lookup hears what the lookup ended with, hands over a changed list,
waits until that has been taken, hands over the next one, and ends. What it has to do next it keeps
in one place: a frame, an open lookup or callback, or a job. This file says how far each cycle under
way is, and follows them, and the lookups and warnings that are shown of them, through every
function of the machine that no cycle acts in.

* `Balancer.Session.Errand` – **a cycle under way**, with its `Balancer.Session.Phase`;
  `Balancer.Session.Machine.errands` lists all of them.
* `Balancer.Session.Act` – **what a cycle does**; `Balancer.Session.World.warning` is the warning
  that an act is logged with.
* `Balancer.Session.World.shown` – the lookups that cycles made and the warnings that were logged.
* `Balancer.Session.Machine.Carries` – **certain cycles are under way, and certain events are
  shown**, with a lemma for every operation that moves a cycle and every function of the machine.
-/

namespace Balancer.Session

/-! ### Cycles and how far they are -/

/-- **How far a cycle is.** -/
inductive Phase
  /-- Its lookup for services has not ended. -/
  | asking (services : List String)
  /-- It is to compare the lists of services with those that were seen last. -/
  | comparing (remaining : List String) (latest : Listing)
  /-- A list that it handed over has not been taken. -/
  | handing (remaining : List String) (latest : Listing)
  /-- A collaborator has failed, and the cycle is to end. -/
  | failing (failure : Failure)
  deriving DecidableEq

/-- **A cycle under way.** -/
structure Errand where
  /-- The refresher. -/
  refresher : Nat
  /-- Its generation when the cycle began. -/
  generation : Nat
  /-- How far the cycle is. -/
  phase : Phase
  deriving DecidableEq

/-- How far a cycle is that has heard what its lookup ended with. -/
def Phase.told (services : List String) : Except Failure (Option Listing) → Phase
  | .ok listing => .comparing services (listing.getD Table.empty)
  | .error failure => .failing failure

/-- How far a cycle is whose list has been taken, or refused. -/
def Phase.after (remaining : List String) (latest : Listing) : Except Failure Unit → Phase
  | .ok _ => .comparing remaining latest
  | .error failure => .failing failure

/-- The cycle that waits for a lookup, if one does. -/
def Waiter.errands (phase : List String → Phase) : Waiter → List Errand
  | .binding .. => []
  | .cycle refresher generation _ services => [⟨refresher, generation, phase services⟩]

/-- The cycle that a lookup is made for, if a cycle makes it. -/
def Caller.errands (services : List String) (caller : Caller) : List Errand :=
  caller.run?.toList.map fun run => ⟨run.1, run.2, .asking services⟩

/-- A cycle whose changed list is being taken. -/
def Cycle.handing (cycle : Cycle) : Errand :=
  ⟨cycle.refresher, cycle.generation, .handing cycle.remaining cycle.latest⟩

/-- A cycle whose changed list has been taken, or refused. -/
def Cycle.after (cycle : Cycle) (outcome : Except Failure Unit) : Errand :=
  ⟨cycle.refresher, cycle.generation, .after cycle.remaining cycle.latest outcome⟩

/-- The cycle of an open lookup. -/
def OpenLookup.errands (l : OpenLookup) : List Errand := l.waiter.errands .asking

/-- The cycle of a job. -/
def Job.errands : Job → List Errand
  | .answered waiter answer => waiter.errands fun services => .told services answer
  | .taken cycle outcome => [cycle.after outcome]
  | .rejected _ | .released _ => []

/-- The cycle of a frame. -/
def Frame.errands : Frame → List Errand
  | .lookup _ _ services caller _ => caller.errands services
  | .callback _ cycle _ | .taken cycle => [cycle.handing]
  | _ => []

/-- The cycles that wait outside the stack. -/
def World.errands (w : World) : List Errand :=
  w.lookups.flatMap OpenLookup.errands ++ w.jobs.flatMap Job.errands ++
    w.callback.elim [] fun c => c.pending.map fun o => o.cycle.handing

/-- **All cycles under way**, with how far they are. -/
def Machine.errands (m : Machine) : List Errand := m.stack.flatMap Frame.errands ++ m.world.errands

/-- **The cycles of a refresher under way.** -/
def Machine.errandsOf (number : Nat) (m : Machine) : List Errand :=
  m.errands.filter fun e => e.refresher == number

/-! ### What cycles do -/

/-- **What a cycle does.** -/
inductive Act
  /-- It hears what its lookup ended with. -/
  | heard (answer : Except Failure (Option Listing))
  /-- It hands over the changed list of a service. -/
  | handed (service : String) (endpoints : List Endpoint)
  /-- The list has been taken, or refused. -/
  | took (outcome : Except Failure Unit)
  /-- It ends, perhaps with the failure of a collaborator. -/
  | ended (origin : Origin) (failure : Option Failure)
  deriving DecidableEq

/-- The list that is handed over, with its service. -/
def Act.handed? : Act → Option (String × List Endpoint)
  | .handed service endpoints => some (service, endpoints)
  | _ => none

/-! ### What is shown -/

/-- Whether an event is a warning. -/
def Event.warns : Event → Bool
  | .log level _ _ => level == .warn
  | .console line => line.level == .warn
  | _ => false

/-- Whether an event is a lookup of a cycle, or a warning. -/
def Event.shows : Event → Bool
  | .lookup _ _ _ caller => caller.run?.isSome
  | e => e.warns

/-- **What is shown of cycles**: the lookups that they made, and the warnings that were logged. -/
def World.shown (w : World) : List Event := w.trace.toList.filter Event.shows

/-- The line of a log call, if it goes through. -/
def World.line (w : World) (level : Level) (message : String) (failure : Option Failure) :
    List Event :=
  match w.logging with
  | .recording => [.log level message failure]
  | .console scope =>
    match Line.stamped scope w.clock level message failure with
    | .ok line => [.console line]
    | .error _ => []

/-- **The warning that an act is logged with**: a list that is handed over, or a failure that a
cycle ends with, if it has a text. -/
def World.warning (w : World) : Act → List Event
  | .handed service endpoints =>
    w.line .warn ("A new changed list getting from naming service name='" ++ service ++
      "' value=" ++ Endpoint.listText endpoints) none
  | .ended _ (some failure) =>
    match failure.reason with
    | .ok reason => w.line .warn ("Naming service refresh failed: " ++ reason) (some failure)
    | .error _ => []
  | _ => []

theorem World.shown_emit (w : World) (e : Event) :
    (w.emit e).shown = w.shown ++ if e.shows then [e] else [] := by
  rw [shown, emit, Array.toList_push, List.filter_append, shown]
  cases he : e.shows <;> simp [he]

/-- The line of a log call shows the level of the call. -/
theorem World.shows_of_mem_line {w : World} {level : Level} {message : String}
    {failure : Option Failure} {e : Event} (he : e ∈ w.line level message failure) :
    e.shows = (level == .warn) := by
  rw [line] at he
  split at he
  · cases List.mem_singleton.mp he
    rfl
  · split at he
    · next line hline =>
      cases List.mem_singleton.mp he
      rw [Line.stamped] at hline
      rcases hstamp : Calendar.stamp w.clock with reason | stamp
      · rw [hstamp] at hline
        cases hline
      · rw [hstamp] at hline
        cases hline
        rfl
    · cases he

/-- **A warning is shown**, and no other log call. -/
theorem World.shown_log (w : World) (level : Level) (message : String) (failure : Option Failure) :
    (w.log level message failure).1.shown =
      w.shown ++ if level == .warn then w.line level message failure else [] := by
  have htrace : (w.log level message failure).1.trace.toList =
      w.trace.toList ++ w.line level message failure := by
    rcases hlogging : w.logging with _ | scope
    · simp only [log, line, hlogging, emit, Array.toList_push]
    · rcases hline : Line.stamped scope w.clock level message failure with reason | line
      · simp only [log, World.line, hlogging, hline, List.append_nil]
      · simp only [log, World.line, hlogging, hline, emit, Array.toList_push]
  have hline : (w.line level message failure).filter Event.shows =
      if level == .warn then w.line level message failure else [] := by
    rw [List.filter_congr fun e he => shows_of_mem_line he]
    cases level <;> simp
  rw [shown, htrace, List.filter_append, hline, shown]

namespace Machine

/-! ### Cycles that are moved -/

variable {w w' : World} {k : List Frame} {c c' : Control}

theorem errands_push (w : World) (f : Frame) (k : List Frame) (c : Control) :
    (⟨w, f :: k, c⟩ : Machine).errands = f.errands ++ (⟨w, k, c⟩ : Machine).errands := by
  simp only [errands, List.flatMap_cons, List.append_assoc]

/-- What is done about the cycles outside the stack is done about all. -/
theorem coe_errands (w : World) (k : List Frame) (c : Control) :
    ((⟨w, k, c⟩ : Machine).errands : Multiset Errand) =
      (k.flatMap Frame.errands : Multiset Errand) + w.errands := by
  rw [errands, Multiset.coe_add]

theorem coe_errands_enqueue (w : World) (job : Job) :
    ((w.enqueue job).errands : Multiset Errand) = job.errands + w.errands := by
  simp only [World.errands, World.enqueue, List.flatMap_append, List.flatMap_singleton,
    ← Multiset.coe_add]
  abel

theorem coe_errands_dequeue {job : Job} {jobs : List Job} (h : w.jobs = job :: jobs) :
    (w.errands : Multiset Errand) = job.errands + ({ w with jobs := jobs } : World).errands := by
  simp only [World.errands, h, List.flatMap_cons, ← Multiset.coe_add]
  abel

theorem coe_errands_openLookup (w : World) (l : OpenLookup) :
    (({ w with lookups := w.lookups ++ [l] } : World).errands : Multiset Errand) =
      l.errands + w.errands := by
  simp only [World.errands, List.flatMap_append, List.flatMap_singleton, ← Multiset.coe_add]
  abel

theorem coe_errands_closeLookup {l : OpenLookup} (hl : l ∈ w.lookups)
    (hone : w.tokens.count (.ticket .lookups l.number) ≤ 1) :
    (w.errands : Multiset Errand) = l.errands +
      ({ w with lookups := w.lookups.filter fun m => m.number != l.number } : World).errands := by
  obtain ⟨before, after, hlookups, hrest⟩ := exists_filter_eq_append (f := OpenLookup.tokens)
    (.ticket .lookups) (fun x => List.mem_cons_self) hl
    (Nat.le_trans (by simp only [World.tokens, List.count_append]; omega) hone)
  simp only [World.errands, hrest]
  rw [hlookups]
  simp only [List.flatMap_append, List.flatMap_cons, ← Multiset.coe_add]
  abel

theorem coe_errands_openCallback {b : Callback} (hb : w.callback = some b) (o : OpenCallback) :
    (({ w with callback := w.callback.map fun b => { b with pending := b.pending ++ [o] } } :
      World).errands : Multiset Errand) = {o.cycle.handing} + w.errands := by
  simp only [World.errands, hb, Option.map_some, Option.elim_some, List.map_append, List.map_cons,
    List.map_nil, ← Multiset.coe_add, Multiset.coe_singleton]
  abel

theorem coe_errands_closeCallback {b : Callback} (hb : w.callback = some b) {o : OpenCallback}
    (ho : o ∈ b.pending) (hone : w.tokens.count (.ticket .callbacks o.number) ≤ 1) :
    (w.errands : Multiset Errand) = {o.cycle.handing} + ({ w with
      callback := some { b with pending := b.pending.filter fun p => p.number != o.number } } :
        World).errands := by
  obtain ⟨before, after, hpending, hrest⟩ := exists_filter_eq_append (f := OpenCallback.tokens)
    (.ticket .callbacks) (fun x => List.mem_cons_self) ho
    (Nat.le_trans (by
      simp only [World.tokens, hb, Option.elim_some, Callback.tokens, List.count_append]
      omega) hone)
  simp only [World.errands, hb, Option.elim_some, hrest]
  rw [hpending]
  simp only [List.map_append, List.map_cons, ← Multiset.coe_add, ← Multiset.cons_coe,
    ← Multiset.singleton_add]
  abel

/-! ### What is under way and shown -/

/-- **Certain cycles are under way, and certain events are shown.** -/
structure Carries (es : Multiset Errand) (shown : List Event) (m : Machine) : Prop where
  /-- The cycles. -/
  errands : (m.errands : Multiset Errand) = es
  /-- The events. -/
  shown : m.world.shown = shown

namespace Carries

variable {es : Multiset Errand} {shown : List Event} {m : Machine} {f : Frame}

theorem refl (m : Machine) : Carries m.errands m.world.shown m := ⟨rfl, rfl⟩

/-- What comes next does not matter. -/
theorem control (h : Carries es shown ⟨w, k, c⟩) : Carries es shown ⟨w, k, c'⟩ :=
  ⟨h.errands, h.shown⟩

/-- The world may change where no cycle waits. -/
theorem aside (h : Carries es shown ⟨w, k, c⟩) (ha : w.Aside w') : Carries es shown ⟨w', k, c⟩ where
  errands := by
    rw [← h.errands]
    simp only [Machine.errands, World.errands, ha.lookups, ha.jobs, ha.callback]
  shown := by
    rw [← h.shown]
    simp only [World.shown, ha.trace]

/-- The callback may change, but for its calls that are open. -/
theorem callback (h : Carries es shown ⟨w, k, c⟩) {b : Callback} (hb : w.callback = some b)
    (b' : Callback) (hpending : b'.pending = b.pending) :
    Carries es shown ⟨{ w with callback := some b' }, k, c⟩ where
  errands := by
    rw [← h.errands]
    simp only [Machine.errands, World.errands, hb, Option.elim_some, hpending]
  shown := h.shown

/-- A frame is pushed. -/
theorem push (h : Carries es shown ⟨w, k, c⟩) (f : Frame) :
    Carries (f.errands + es) shown ⟨w, f :: k, c⟩ where
  errands := by rw [errands_push, ← Multiset.coe_add, h.errands]
  shown := h.shown

/-- A frame that no cycle waits in is pushed. -/
theorem push_idle (h : Carries es shown ⟨w, k, c⟩) (hf : f.errands = []) :
    Carries es shown ⟨w, f :: k, c⟩ := by
  simpa only [hf, Multiset.coe_nil, zero_add] using h.push f

/-- A job is put in. -/
theorem enqueue (h : Carries es shown ⟨w, k, c⟩) (job : Job) :
    Carries (job.errands + es) shown ⟨w.enqueue job, k, c⟩ where
  errands := by
    rw [coe_errands, coe_errands_enqueue, ← h.errands, coe_errands]
    abel
  shown := h.shown

/-- A job that no cycle waits in is put in. -/
theorem enqueue_idle (h : Carries es shown ⟨w, k, c⟩) (job : Job) (hj : job.errands = []) :
    Carries es shown ⟨w.enqueue job, k, c⟩ := by
  simpa only [hj, Multiset.coe_nil, zero_add] using h.enqueue job

/-- One more lookup is open. -/
theorem openLookup (h : Carries es shown ⟨w, k, c⟩) (l : OpenLookup) :
    Carries (l.errands + es) shown ⟨{ w with lookups := w.lookups ++ [l] }, k, c⟩ where
  errands := by
    rw [coe_errands, coe_errands_openLookup, ← h.errands, coe_errands]
    abel
  shown := h.shown

/-- One more lookup is open that no cycle waits for. -/
theorem openLookup_idle (h : Carries es shown ⟨w, k, c⟩) {l : OpenLookup} (hl : l.errands = []) :
    Carries es shown ⟨{ w with lookups := w.lookups ++ [l] }, k, c⟩ := by
  simpa only [hl, Multiset.coe_nil, zero_add] using h.openLookup l

/-- One more callback is open. -/
theorem openCallback (h : Carries es shown ⟨w, k, c⟩) {b : Callback} (hb : w.callback = some b)
    (o : OpenCallback) : Carries ({o.cycle.handing} + es) shown
      ⟨{ w with callback := w.callback.map fun b => { b with pending := b.pending ++ [o] } }, k, c⟩
      where
  errands := by
    rw [coe_errands, coe_errands_openCallback hb, ← h.errands, coe_errands]
    abel
  shown := h.shown

/-! ### The functions of the machine -/

/-- An event happens. -/
theorem emit (h : Carries es shown ⟨w, k, c⟩) (e : Event) :
    Carries es (shown ++ if e.shows then [e] else []) ⟨w.emit e, k, c⟩ where
  errands := h.errands
  shown := by rw [w.shown_emit, ← h.shown]

/-- An event happens that is not shown. -/
theorem emit_hidden (h : Carries es shown ⟨w, k, c⟩) {e : Event} (he : e.shows = false) :
    Carries es shown ⟨w.emit e, k, c⟩ := by
  have hemit := h.emit e
  rwa [he, if_neg Bool.false_ne_true, List.append_nil] at hemit

/-- A log call. -/
theorem log (h : Carries es shown ⟨w, k, c⟩) (level : Level) (message : String)
    (failure : Option Failure) :
    Carries es (shown ++ if level == .warn then w.line level message failure else [])
      ⟨(w.log level message failure).1, k, c⟩ where
  errands := by
    have hsame := w.same_log level message failure
    rw [← h.errands]
    simp only [Machine.errands, World.errands, hsame.lookups, hsame.jobs, hsame.callback]
  shown := by rw [w.shown_log, ← h.shown]

/-- A log call that is no warning. -/
theorem log_hidden (h : Carries es shown ⟨w, k, c⟩) {level : Level} (hlevel : level ≠ .warn)
    (message : String) (failure : Option Failure) :
    Carries es shown ⟨(w.log level message failure).1, k, c⟩ := by
  have hlog := h.log level message failure
  rwa [if_neg (fun heq => hlevel (beq_iff_eq.mp heq)), List.append_nil] at hlog

theorem runScript (h : Carries es shown ⟨w, k, c⟩) (steps : List Step) :
    Carries es shown (runScript w k steps) := by
  cases steps with
  | nil => exact h.control
  | cons step rest => exact (h.push_idle (f := .script rest) rfl).control

theorem modifyStrategy (h : Carries es shown ⟨w, k, c⟩) (g : Strategy → Strategy) :
    Carries es shown ⟨w.modifyStrategy g, k, c⟩ :=
  h.aside (w.aside_modifyStrategy g)

theorem modifyRefresher (h : Carries es shown ⟨w, k, c⟩) (number : Nat)
    (g : Refresher → Refresher) : Carries es shown ⟨w.modifyRefresher number g, k, c⟩ :=
  h.aside ⟨rfl, rfl, rfl, rfl⟩

theorem notify (h : Carries es shown ⟨w, k, c⟩) (change : Membership) :
    Carries es shown (notify w k change) := by
  rw [Machine.notify]
  split
  · exact h.control
  · split
    · next reactions _ _ =>
      have hhidden : ∀ notice, (Event.notice notice).shows = false := fun _ => rfl
      exact (((h.emit_hidden (hhidden _)).modifyStrategy fun s =>
        { s with listener := some reactions.tail }).push_idle rfl).runScript _
    · exact h.control

theorem reset (h : Carries es shown ⟨w, k, c⟩) (service : String) (endpoints : List Endpoint) :
    Carries es shown (reset w k service endpoints) :=
  (h.modifyStrategy _).notify _

/-- **A naming service is asked**; the lookup of a cycle is shown. -/
theorem lookup (h : Carries es shown ⟨w, k, c⟩) (provider : String) (services : List String)
    (caller : Caller) :
    Carries (caller.errands services + es) (shown ++ if caller.run?.isSome then
      [.lookup provider (w.lookupCount + 1) services caller] else [])
      (lookup w k provider services caller) := by
  rw [Machine.lookup]
  have hasked : Carries es shown ⟨{ w with lookupCount := w.lookupCount + 1 }, k, c⟩ :=
    h.aside ⟨rfl, rfl, rfl, rfl⟩
  have hemitted := hasked.emit (.lookup provider (w.lookupCount + 1) services caller)
  refine Carries.runScript (c := c) (Carries.push (f := .lookup _ _ _ caller _) ?_) _
  exact hemitted.aside ⟨rfl, rfl, rfl, rfl⟩

/-- **The callback is called** with the changed list of a cycle. -/
theorem callBack (h : Carries es shown ⟨w, k, c⟩) {b : Callback} (hb : w.callback = some b)
    (cycle : Cycle) (service : String) (endpoints : List Endpoint) :
    Carries ({cycle.handing} + es) shown (callBack w k b cycle service endpoints) := by
  rw [Machine.callBack]
  have hcalled := h.callback hb { b with reactions := b.reactions.tail, count := b.count + 1 } rfl
  exact ((hcalled.emit_hidden (e := .callback _ service endpoints) rfl).push
    (.callback (b.count + 1) cycle _)).runScript _

theorem endCycle (h : Carries es shown ⟨w, k, c⟩) (refresher : Nat) (origin : Origin)
    (outcome : Except Failure Unit) :
    Carries es shown ⟨w.endCycle refresher origin outcome, k, c⟩ := by
  cases origin with
  | timer => exact h.enqueue_idle (.released refresher) rfl
  | call number => exact h.emit_hidden (e := .ended number outcome) rfl

/-- **A failure is logged**, if it has a text. -/
theorem logFailure (h : Carries es shown ⟨w, k, c⟩) (origin : Origin) (failure : Failure) :
    Carries es (shown ++ w.warning (.ended origin (some failure)))
      ⟨(w.logFailure failure).1, k, c⟩ := by
  simp only [World.warning, World.logFailure]
  cases failure.reason with
  | ok reason => exact h.log .warn _ _
  | error thrown =>
    rw [List.append_nil]
    exact h

/-- **A cycle ends with a failure**, of which a warning is shown if it has a text. -/
theorem failCycle (h : Carries es shown ⟨w, k, c⟩) (refresher : Nat) (origin : Origin)
    (failure : Failure) :
    Carries es (shown ++ w.warning (.ended origin (some failure)))
      ⟨w.failCycle refresher origin failure, k, c⟩ :=
  (h.logFailure origin failure).endCycle refresher origin _

theorem endBinding (h : Carries es shown ⟨w, k, c⟩) (call : Nat) (outcome : Except Failure Unit) :
    Carries es shown ⟨w.endBinding call outcome, k, c⟩ := by
  refine Carries.emit_hidden (e := .ended call outcome) ?_ rfl
  exact h.aside ⟨rfl, rfl, rfl, rfl⟩

theorem startPolling (h : Carries es shown ⟨w, k, c⟩) (delay period : Option Binary64) :
    Carries es shown ⟨(w.startPolling delay period).1, k, c⟩ := by
  rw [World.startPolling]
  split
  · exact h
  · split
    · exact h
    · split
      · exact h
      · split
        · exact h
        · exact (h.aside (w.aside_pollWith _ _)).log_hidden (by simp) _ _

theorem stopPolling (h : Carries es shown ⟨w, k, c⟩) : Carries es shown ⟨w.stopPolling, k, c⟩ :=
  h.aside w.aside_stopPolling

/-- **A changed list is handed over**, and the cycle waits until it has been taken. -/
theorem applyChange (h : Carries es shown ⟨w, k, c⟩) (hlogs : w.logs = true) {handler : Handler}
    (hwired : handler = .callback → w.callback.isSome = true) (cycle : Cycle)
    (change : Refresher.Change) :
    Carries ({({ cycle with remaining := change.remaining } : Cycle).handing} + es)
      (shown ++ w.warning (.handed change.service change.endpoints))
      (applyChange w k cycle handler change) := by
  obtain ⟨w', hlog⟩ := World.log_of_logs hlogs .warn
    ("A new changed list getting from naming service name='" ++ change.service ++ "' value=" ++
      Endpoint.listText change.endpoints) none
  have hsame := w.same_log .warn ("A new changed list getting from naming service name='" ++
    change.service ++ "' value=" ++ Endpoint.listText change.endpoints) none
  have hlogged := h.log .warn ("A new changed list getting from naming service name='" ++
    change.service ++ "' value=" ++ Endpoint.listText change.endpoints) none
  rw [hlog] at hsame hlogged
  have hseen := hlogged.modifyRefresher cycle.refresher fun r =>
    r.see change.service change.endpoints
  simp only [Machine.applyChange, hlog]
  split
  · exact (hseen.push (.taken _)).reset _ _
  · next b _ hb => exact hseen.callBack hb _ _ _
  · next _ hnone =>
    -- a refresher with a callback has one to call
    have hsome := hwired rfl
    rw [← hsame.callback] at hsome
    have hnone' : w'.callback = none := hnone
    rw [hnone'] at hsome
    cases hsome

end Carries

end Machine

end Balancer.Session
