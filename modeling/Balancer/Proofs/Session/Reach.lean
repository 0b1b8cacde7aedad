import Balancer.Session.Report
import Mathlib.Logic.Relation

/-!
# The points of a session

A session begins in one of three ways and then goes on in single transitions; where nothing
remains to be done, the next step is performed or a timer fires, and a further step may be
performed before any piece of waiting work. Scripts are data, so this covers every behaviour
of naming services, listeners and callbacks, also what they call themselves.

* `Balancer.Session.Machine.Opens` – how a session begins.
* `Balancer.Session.Machine.Leads` – **one point of a session leads to another**: a transition,
  or the beginning of the next step. A timer may fire whenever nothing remains to be done,
  late or early.
* `Balancer.Session.Machine.Run` – any number of them.
* `Balancer.Session.Machine.Reachable` – **the points that a session can come to.**
-/

namespace Balancer.Session

/-- What a session of a refresher begins with. -/
theorem openRefresher_eq_ok {setup : Setup} {provider : Option String} {timings : Timings}
    {reactions : List Reaction} {w : World}
    (h : openRefresher setup provider timings reactions = .ok w) :
    w = { setup.world refresherScope with
      refreshers := [Refresher.idle provider .callback timings]
      callback := some ⟨reactions, 0, [], []⟩ } := by
  rw [openRefresher] at h
  cases hcheck : timings.check with
  | error failure => rw [hcheck] at h; cases h
  | ok _ => rw [hcheck] at h; cases h; rfl

namespace Machine

/-- **How a session begins.** -/
inductive Opens : Machine → Prop
  /-- With a strategy of given weights. -/
  | strategy (setup : Setup) (options : Options) (weights : Table Binary64) :
      Opens ⟨openStrategy setup options weights, [], .deliver (.ok .nothing)⟩
  /-- With a strategy that is to follow a service, and its first lookup. -/
  | bound (setup : Setup) (options : Options) (service provider : String) :
      Opens (boundMachine setup options service provider)
  /-- With a refresher that is driven directly. -/
  | refresher {setup : Setup} {provider : Option String} {timings : Timings}
      {reactions : List Reaction} {w : World}
      (h : openRefresher setup provider timings reactions = .ok w) :
      Opens ⟨w, [], .deliver (.ok .nothing)⟩

/-- **One point of a session leads to another.** -/
inductive Leads : Machine → Machine → Prop
  /-- By a transition. -/
  | next (m : Machine) : Leads m m.next
  /-- By the next step, where nothing remains to be done. -/
  | perform (w : World) (outcome : Outcome) (step : Step) :
      Leads ⟨w, [], .deliver outcome⟩ (w.machine step)
  /-- By a further step, made before the next piece of waiting work is done. -/
  | interject (w : World) (first : Option Outcome) (outcome : Outcome) (step : Step) :
      Leads ⟨w, [.settle first], .deliver outcome⟩ ⟨w, [.settle first], .perform step⟩
  /-- By a timer, where nothing remains to be done. -/
  | fire (w : World) (outcome : Outcome) {t : Timer} (h : t ∈ w.timers) :
      Leads ⟨w, [], .deliver outcome⟩ (Machine.fire w [.settle none] t)

/-- **A run**: one point leads to another, any number of times. -/
abbrev Run : Machine → Machine → Prop := Relation.ReflTransGen Leads

/-- **The points that a session can come to.** -/
def Reachable (m : Machine) : Prop := ∃ m₀, Opens m₀ ∧ Run m₀ m

variable {m m' : Machine}

theorem Opens.reachable (h : Opens m) : Reachable m := ⟨m, h, .refl⟩

theorem Reachable.leads (h : Reachable m) (hl : Leads m m') : Reachable m' := by
  obtain ⟨m₀, hopen, hrun⟩ := h
  exact ⟨m₀, hopen, hrun.tail hl⟩

theorem Reachable.run (h : Reachable m) (hr : Run m m') : Reachable m' := by
  obtain ⟨m₀, hopen, hrun⟩ := h
  exact ⟨m₀, hopen, hrun.trans hr⟩

/-- A number of transitions is a run. -/
theorem run_of_transitions (n : Nat) (m : Machine) : Run m (run n m) := by
  induction n generalizing m with
  | zero => exact .refl
  | succ n ih =>
    rw [run_succ]
    exact .head (.next m) (ih m.next)

/-- Where nothing remains to be done, a step and a number of transitions are a run. -/
theorem run_of_step (h : m.finished = true) (step : Step) (n : Nat) :
    Run m (run n (m.world.machine step)) := by
  obtain ⟨w, k, c⟩ := m
  cases c with
  | perform step => exact absurd h (by cases k <;> simp [finished])
  | deliver outcome =>
    cases k with
    | nil => exact .head (.perform w outcome step) (run_of_transitions n _)
    | cons f k => exact absurd h (by simp [finished])

/-- Where nothing remains to be done, a timer may fire. -/
theorem leads_fire {t : Timer} (h : m.finished = true) (ht : t ∈ m.world.timers) :
    Leads m (fire m.world [.settle none] t) := by
  obtain ⟨w, _ | ⟨f, k⟩, step | outcome⟩ := m
  · exact absurd h (by simp [finished])
  · exact .fire w outcome ht
  · exact absurd h (by simp [finished])
  · exact absurd h (by simp [finished])

/-- **What holds at the beginning and is kept from point to point holds at every reachable
point.** -/
theorem Reachable.induction {P : Machine → Prop} (hopen : ∀ m, Opens m → P m)
    (hstep : ∀ m m', Reachable m → P m → Leads m m' → P m') (h : Reachable m) : P m := by
  obtain ⟨m₀, ho, hrun⟩ := h
  induction hrun with
  | refl => exact hopen _ ho
  | tail hr hl ih => exact hstep _ _ ⟨m₀, ho, hr⟩ ih hl

end Machine

end Balancer.Session
