import Balancer.Session.Transition

/-!
# Running a session

* `Balancer.Session.Machine.run` – a number of transitions.
* `Balancer.Session.World.perform` – **a step from beginning to end**, with all the work that it
  makes ready.
* `Balancer.Session.World.fire` – the same for a timer.
-/

namespace Balancer.Session

/-! ### Transitions -/

namespace Machine

/-- **A number of transitions**, or fewer if the machine finishes. -/
def run : Nat → Machine → Machine
  | 0, m => m
  | n + 1, m => if m.finished then m else run n m.next

theorem next_of_finished {m : Machine} (h : m.finished = true) : m.next = m := by
  obtain ⟨w, _ | ⟨f, k⟩, step | outcome⟩ := m <;> simp_all [finished, next]

/-- A run is the repetition of transitions, which change nothing after its end. -/
theorem run_succ (n : Nat) (m : Machine) : run (n + 1) m = run n m.next := by
  rw [run]
  split
  · next h =>
    rw [next_of_finished h]
    cases n with
    | zero => rfl
    | succ n => rw [run, if_pos h]
  · rfl

/-- The transitions that a step may take; a step that would take more does not end. -/
def limit : Nat := 10 ^ 18

/-- A machine that runs to its end, with its world and what it delivers. -/
def complete (m : Machine) : World × Outcome :=
  let m := run limit m
  match m.control with
  | .deliver outcome => (m.world, outcome)
  | .perform _ => (m.world, .ok .nothing)

end Machine

/-! ### Steps -/

/-- The machine that performs a step outside any script. -/
def World.machine (w : World) (step : Step) : Machine := ⟨w, [.settle none], .perform step⟩

/-- **A step, with all the work that it makes ready.** -/
def World.perform (w : World) (step : Step) : World × Outcome := (w.machine step).complete

/-- **A timer fires**, with all the work that it makes ready. -/
def World.fire (w : World) (t : Timer) : World :=
  (Machine.fire w [.settle none] t).complete.1

end Balancer.Session
