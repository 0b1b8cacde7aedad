import Balancer.Session.Transition
import Mathlib.Data.List.Basic

/-!
# Cycles under way

What a cycle of a refresher has still to do is not in one place: it waits in a frame while a
collaborator runs, in a lookup or a callback that is open, or in a job. This file collects
these places, and the few things that the course of a cycle depends on.

* `Balancer.Refresher.core` – **a refresher without its timers**; `Balancer.Session.World.core?`
  finds it in a world, with an equation for every operation that changes it.
* `Balancer.Session.Suspended` – what is left of a cycle; `Balancer.Session.Machine.suspended`
  lists **all cycles under way**.
* `Balancer.Session.Machine.handovers` – the cycles whose changed list is being taken.
* `Balancer.Session.Machine.restarts` – whether polling is to begin again;
  `Balancer.Session.Machine.restartTimings` lists the timings with which it is.
* `Balancer.Session.World.calls` – **the calls that cycles have made**, of naming services and
  of the callback.
-/

namespace Balancer

/-! ### Refreshers without their timers -/

/-- **A refresher without its timers** and without the mark of a cycle in flight: what the
course of a cycle depends on. -/
def Refresher.core (r : Refresher) : Refresher :=
  { r with delayTimer := none, periodTimer := none, inFlight := false }

/-- The core of a refresher at the beginning of a run. -/
def Refresher.begun (r : Refresher) (services : Listing) : Refresher := (r.begin services 0).core

@[simp]
theorem Refresher.running_halt (r : Refresher) : r.halt.running = false := rfl

namespace Session

namespace World

/-- The core of a refresher of a number. -/
def core? (w : World) (number : Nat) : Option Refresher := w.refreshers[number]?.map Refresher.core

theorem core?_of_getElem? {w : World} {number : Nat} {r : Refresher}
    (h : w.refreshers[number]? = some r) : w.core? number = some r.core := by
  rw [core?, h]
  rfl

theorem core?_modifyRefresher (w : World) {f g : Refresher → Refresher}
    (hfg : ∀ r, (f r).core = g r.core) (number other : Nat) :
    (w.modifyRefresher number f).core? other =
      if number = other then (w.core? other).map g else w.core? other := by
  unfold core? modifyRefresher
  rw [List.getElem?_modify]
  split
  · cases w.refreshers[other]? with
    | none => rfl
    | some r => exact congrArg some (hfg r)
  · simp

/-- What is known of a refresher, timers apart, does not change where its core does not. -/
theorem core?_modifyRefresher_of_core (w : World) {f : Refresher → Refresher}
    (hf : ∀ r, (f r).core = r.core) (number other : Nat) :
    (w.modifyRefresher number f).core? other = w.core? other := by
  rw [core?_modifyRefresher w (g := id) hf, Option.map_id_fun, id]
  exact ite_self _

/-- The core of a refresher at the beginning of a run, if it does not run and has a naming
service. -/
def startCore (services : Listing) (r : Refresher) : Refresher :=
  if r.provider.isNone || r.running then r else r.begun services

/-- **A run begins** where the refresher has a naming service and does not run. -/
theorem core?_startRefresher (w : World) (number other : Nat) (services : Listing) :
    (w.startRefresher number services).core? other =
      if number = other then (w.core? other).map (startCore services) else w.core? other := by
  rcases hr : w.refreshers[number]? with _ | r
  · have hsame : w.startRefresher number services = w := by simp only [startRefresher, hr]
    have hnone : w.core? number = none := by rw [core?, hr]; rfl
    rw [hsame]
    split
    · next heq => rw [← heq, hnone]; rfl
    · rfl
  have hcore : w.core? number = some r.core := core?_of_getElem? hr
  -- nothing happens without a naming service, or while the refresher runs
  by_cases hidle : (r.provider.isNone || r.running) = true
  · have hsame : w.startRefresher number services = w := by
      simp only [startRefresher, hr, if_pos hidle]
    have hstart : startCore services r.core = r.core := if_pos hidle
    rw [hsame]
    split
    · next heq => rw [← heq, hcore, Option.map_some, hstart]
    · rfl
  · have hbegin : w.startRefresher number services =
        (w.setTimer r.timings.delay none (.delay number)).modifyRefresher number fun r =>
          r.begin services (w.timerCount + 1) := by
      simp only [startRefresher, hr, if_neg hidle]
      rfl
    have hstart : startCore services r.core = r.core.begun services := if_neg hidle
    have hcores : ∀ r : Refresher,
        (r.begin services (w.timerCount + 1)).core = r.core.begun services := fun r => rfl
    rw [hbegin, core?_modifyRefresher _ (g := (Refresher.begun · services)) hcores]
    split
    · next heq =>
      subst heq
      show (w.core? number).map _ = _
      rw [hcore, Option.map_some, Option.map_some, hstart]
    · rfl

/-- **A run ends.** -/
theorem core?_stopRefresher (w : World) (number other : Nat) :
    (w.stopRefresher number).core? other =
      if number = other then (w.core? other).map Refresher.halt else w.core? other := by
  rcases hr : w.refreshers[number]? with _ | r
  · have hsame : w.stopRefresher number = w := by simp only [stopRefresher, hr]
    have hnone : w.core? number = none := by rw [core?, hr]; rfl
    rw [hsame]
    split
    · next heq => rw [← heq, hnone]; rfl
    · rfl
  · have hhalt : w.stopRefresher number =
        ((w.clearTimer r.delayTimer).clearTimer r.periodTimer).modifyRefresher number
          Refresher.halt := by
      simp only [stopRefresher, hr]
    have hclear : ∀ (v : World) (id : Option Nat), (v.clearTimer id).core? other = v.core? other :=
      fun v id => by cases id <;> rfl
    rw [hhalt, core?_modifyRefresher _ (g := Refresher.halt) fun r => rfl, hclear, hclear]

end World

/-! ### What is left of a cycle -/

/-- **What is left of a cycle under way.** -/
structure Suspended where
  /-- The refresher. -/
  refresher : Nat
  /-- Its generation when the cycle began. -/
  generation : Nat
  /-- The services still to compare. -/
  services : List String
  /-- Whether what its lookup returned is still to come, so that it has compared none yet. -/
  waits : Bool

/-- **The same cycle, later**: after its lookup it has perhaps fewer services to compare. -/
structure Suspended.Continues (t u : Suspended) : Prop where
  refresher : t.refresher = u.refresher
  generation : t.generation = u.generation
  services : t.services <:+ u.services
  waits : t.waits = true → u.waits = true ∧ t.services = u.services

theorem Suspended.Continues.refl (t : Suspended) : t.Continues t :=
  ⟨rfl, rfl, List.suffix_refl _, fun h => ⟨h, rfl⟩⟩

theorem Suspended.Continues.trans {t u v : Suspended} (h : t.Continues u) (h' : u.Continues v) :
    t.Continues v where
  refresher := h.refresher.trans h'.refresher
  generation := h.generation.trans h'.generation
  services := h.services.trans h'.services
  waits hw := ⟨(h'.waits (h.waits hw).1).1, (h.waits hw).2.trans (h'.waits (h.waits hw).1).2⟩

/-- The run of a refresher that a lookup is made in, if a cycle makes it: the number of the
refresher and its generation. -/
def Caller.run? : Caller → Option (Nat × Nat)
  | .binding _ => none
  | .poll refresher generation | .refresh refresher generation => some (refresher, generation)

/-- The cycle that a lookup is made for. -/
def Caller.suspended? (caller : Caller) (services : List String) : Option Suspended :=
  caller.run?.map fun run => ⟨run.1, run.2, services, true⟩

/-- The cycle that waits for a lookup. -/
def Waiter.suspended? : Waiter → Option Suspended
  | .binding .. => none
  | .cycle refresher generation _ services => some ⟨refresher, generation, services, true⟩

/-- What is left of a cycle after its lookup. -/
def Cycle.suspended (cycle : Cycle) : Suspended :=
  ⟨cycle.refresher, cycle.generation, cycle.remaining, false⟩

/-- The cycle that a job takes up. -/
def Job.suspended? : Job → Option Suspended
  | .answered waiter _ => waiter.suspended?
  | .taken cycle _ => some cycle.suspended
  | .rejected _ | .released _ => none

/-- The cycle whose changed list is being taken, where a frame waits for that. -/
def Frame.handover? : Frame → Option Cycle
  | .callback _ cycle _ | .taken cycle => some cycle
  | _ => none

/-- The cycle that a frame takes up. -/
def Frame.suspended? : Frame → Option Suspended
  | .lookup _ _ services caller _ => caller.suspended? services
  | .callback _ cycle _ | .taken cycle => some cycle.suspended
  | _ => none

/-- Whether a frame starts the polling of the strategy again. -/
def Frame.restarts : Frame → Bool
  | .bound _ (some _) => true
  | _ => false

/-- The timings with which a frame starts polling again. -/
def Frame.restart? : Frame → Option Timings
  | .bound _ timings => timings
  | _ => none

/-- The cycles that wait outside the stack. -/
def World.suspended (w : World) : List Suspended :=
  w.lookups.filterMap (fun l => l.waiter.suspended?) ++ w.jobs.filterMap Job.suspended? ++
    w.callback.elim [] fun c => c.pending.map fun o => o.cycle.suspended

/-- **All cycles under way.** -/
def Machine.suspended (m : Machine) : List Suspended :=
  m.stack.filterMap Frame.suspended? ++ m.world.suspended

/-- **The cycles whose changed list is being taken**, the innermost first. -/
def Machine.handovers (m : Machine) : List Cycle := m.stack.filterMap Frame.handover?

/-- Whether something that remains to be done starts the polling of the strategy again. -/
def Machine.restarts (m : Machine) : Bool := m.stack.any Frame.restarts

/-- **The timings with which polling is to begin again**, the innermost first. -/
def Machine.restartTimings (m : Machine) : List Timings := m.stack.filterMap Frame.restart?

theorem Frame.isSome_restart? (f : Frame) : f.restart?.isSome = f.restarts := by
  cases f with
  | bound call timings => cases timings <;> rfl
  | _ => rfl

theorem Machine.restarts_iff {m : Machine} : m.restarts = true ↔ m.restartTimings ≠ [] := by
  rw [restarts, List.any_eq_true, restartTimings, ne_eq, List.filterMap_eq_nil_iff, not_forall]
  refine exists_congr fun f => ?_
  rw [← f.isSome_restart?, Option.isSome_iff_ne_none, Classical.not_imp]

/-- **A call that has bound the strategy goes on, and starts polling again**, since the strategy
polled before it was bound. -/
def Machine.Reopens (m : Machine) : Prop :=
  ∃ call timings k result,
    m.stack = .bound call (some timings) :: k ∧ m.control = .deliver (.ok result)

theorem Machine.Reopens.restarts {m : Machine} (h : m.Reopens) : m.restarts = true := by
  obtain ⟨call, timings, k, result, hstack, -⟩ := h
  rw [Machine.restarts, hstack]
  rfl

theorem Machine.mem_suspended_push {w : World} {k : List Frame} {c : Control} {f : Frame}
    {t : Suspended} : t ∈ (⟨w, f :: k, c⟩ : Machine).suspended ↔
      f.suspended? = some t ∨ t ∈ (⟨w, k, c⟩ : Machine).suspended := by
  simp only [suspended, List.filterMap_cons]
  cases f.suspended? <;> simp [eq_comm]

theorem World.mem_suspended_enqueue {w : World} {job : Job} {t : Suspended} :
    t ∈ (w.enqueue job).suspended ↔ job.suspended? = some t ∨ t ∈ w.suspended := by
  simp only [suspended, enqueue, List.filterMap_append, List.filterMap_cons, List.filterMap_nil]
  cases job.suspended? <;> simp [or_left_comm, eq_comm]

/-! ### Calls made by cycles -/

/-- Whether an event is a call that a cycle makes: of a naming service, or of the callback. -/
def Event.ofCycle : Event → Bool
  | .lookup _ _ _ caller => caller.run?.isSome
  | .callback .. => true
  | _ => false

/-- **The calls that cycles have made.** -/
def World.calls (w : World) : List Event := w.trace.toList.filter Event.ofCycle

theorem World.calls_emit (w : World) (e : Event) :
    (w.emit e).calls = if e.ofCycle then w.calls ++ [e] else w.calls := by
  unfold calls emit
  rw [Array.toList_push, List.filter_append]
  by_cases h : e.ofCycle = true <;> simp [h]

/-! ### The work that a transition does -/

/-- **The job that the next transition does**, if it does one. -/
def Machine.job? : Machine → Option Job
  | ⟨w, .settle _ :: _, .deliver _⟩ | ⟨w, .advance _ true :: _, .deliver _⟩ => w.jobs.head?
  | _ => none

/-- The cycle that a job leads on to. -/
def Job.resumed? : Job → Option Cycle
  | .answered (.cycle refresher generation origin services) (.ok listing) =>
    some ⟨refresher, generation, origin, services, listing.getD Table.empty⟩
  | .taken cycle (.ok _) => some cycle
  | _ => none

/-- **The cycle that the next transition takes up**, if a job leads on to one. -/
def Machine.resumed? (m : Machine) : Option Cycle := m.job?.bind Job.resumed?

namespace Machine

variable {w : World} {k : List Frame} {outcome : Outcome} {time : Binary64} {settling : Bool}
  {first : Option Outcome}

theorem not_waits_of_job? (h : job? ⟨w, .advance time settling :: k, .deliver outcome⟩ = none) :
    ¬ (settling = true ∧ w.jobs ≠ []) := by
  rintro ⟨rfl, hne⟩
  exact hne (List.head?_eq_none_iff.mp h)

/-- Where no work waits to be done first, time passes. -/
theorem resume_advance (h : ¬ (settling = true ∧ w.jobs ≠ [])) :
    resume w k outcome (.advance time settling) =
      match Timer.firstDue? w.timers time with
      | some t => fire w (.advance time settling :: k) t
      | none => give { w with clock := time } k (if settling then .nothing else .unawaited) := by
  unfold resume
  dsimp only
  split
  · next job jobs hjobs => exact absurd ⟨rfl, by rw [hjobs]; exact List.cons_ne_nil _ _⟩ h
  · rfl

/-- Where no work waits to be done first, a step is over. -/
theorem resume_settle (h : job? ⟨w, .settle first :: k, .deliver outcome⟩ = none) :
    resume w k outcome (.settle first) = ⟨w, k, .deliver (first.getD outcome)⟩ := by
  have hjobs : w.jobs = [] := List.head?_eq_none_iff.mp h
  simp only [resume, hjobs]

end Machine

end Session

end Balancer
