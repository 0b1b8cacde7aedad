import Balancer.Proofs.Session.Backlog
import Balancer.Proofs.Session.Listening

/-!
# Sessions with more behind them

A session is played from outside, and what has come is noted with the points at which it came. Two
sessions may differ in what has happened before, and in work that waits before all other work; apart
from that work they go on in the same way. A frame that does the waiting work needs no more of what
was delivered to it than the outcome of its step, so a session in which such a piece of work has
just been done is where the other one is before its own.

* `Balancer.Session.Machine.Played` – **sessions that are played**, with the points at which
  something comes from outside.
* `Balancer.Session.Machine.next_atop` – **a transition is the same whatever has happened before.**
* `Balancer.Session.Machine.rested` – a machine with nothing but the outcome of its step delivered.
-/

namespace Balancer.Session

namespace Machine

/-! ### Sessions that are played -/

/-- **A session is played** with transitions that are allowed. All that comes from outside is noted
with the point at which it comes. -/
inductive Played (Allowed : Machine → Prop) (m : Machine) : List (Machine × Input) → Machine → Prop
  /-- It begins. -/
  | refl : Played Allowed m [] m
  /-- A transition is made. -/
  | next {seen : List (Machine × Input)} {a : Machine} (h : Played Allowed m seen a)
      (allowed : Allowed a) : Played Allowed m seen a.next
  /-- Something comes from outside. -/
  | input {seen : List (Machine × Input)} {a b : Machine} {input : Input}
      (h : Played Allowed m seen a) (receives : Receives input a b) :
      Played Allowed m (seen ++ [(a, input)]) b

variable {Allowed : Machine → Prop} {m m' a : Machine} {seen : List (Machine × Input)}

/-- A number of transitions is made. -/
theorem Played.run (h : Played Allowed m seen a) (n : Nat)
    (hallowed : ∀ i < n, Allowed (Machine.run i a)) : Played Allowed m seen (Machine.run n a) := by
  induction n with
  | zero => exact h
  | succ n ih =>
    rw [run_succ_last]
    exact (ih fun i hi => hallowed i (Nat.lt_succ_of_lt hi)).next (hallowed n (Nat.lt_succ_self n))

/-- Where nothing remains to be done, a step is made, and a number of transitions. -/
theorem Played.step (h : Played Allowed m seen a) (hfinished : a.finished = true) (step : Step)
    (n : Nat) (hallowed : ∀ i < n, Allowed (Machine.run i (a.world.machine step))) :
    Played Allowed m (seen ++ [(a, .step step)]) (Machine.run n (a.world.machine step)) := by
  obtain ⟨w, _ | ⟨f, k⟩, step' | outcome⟩ := a
  · cases hfinished
  · exact (h.input (.step w outcome step)).run n hallowed
  · cases hfinished
  · cases hfinished

/-- Whether anything remains to be done does not depend on the world. -/
theorem finished_congr (w v : World) (k : List Frame) (c : Control) :
    finished ⟨v, k, c⟩ = finished ⟨w, k, c⟩ := by
  cases k <;> cases c <;> rfl

/-- What comes from outside comes where a step has returned. -/
theorem Receives.shows {input : Input} (h : Receives input m m') : m.shows?.isSome = true := by
  cases h <;> rfl

/-! ### Frames that do the waiting work -/

/-- Whether the waiting work is done next. -/
def works (m : Machine) : Bool :=
  match m.control, m.stack with
  | .deliver _, .settle _ :: _ => true
  | .deliver _, .advance _ true :: _ => true
  | _, _ => false

/-- **The machine with nothing but the outcome of its step delivered**: where the waiting work is
done next, no more of what was delivered is needed. -/
def rested (m : Machine) : Machine :=
  match m.control, m.stack with
  | .deliver outcome, .settle first :: k =>
    ⟨m.world, .settle (some (first.getD outcome)) :: k, .deliver (.ok .nothing)⟩
  | .deliver _, .advance time true :: k =>
    ⟨m.world, .advance time true :: k, .deliver (.ok .nothing)⟩
  | _, _ => m

/-- A machine is rested, or at one of the frames that do the waiting work. -/
theorem rested_cases (m : Machine) :
    m.rested = m ∧ m.works = false ∨
      (∃ w first k outcome, m = ⟨w, .settle first :: k, .deliver outcome⟩) ∨
      ∃ w time k outcome, m = ⟨w, .advance time true :: k, .deliver outcome⟩ := by
  obtain ⟨w, k, step | outcome⟩ := m
  · exact .inl ⟨rfl, rfl⟩
  · rcases k with _ | ⟨f, k⟩
    · exact .inl ⟨rfl, rfl⟩
    · cases f with
      | settle first => exact .inr (.inl ⟨w, first, k, outcome, rfl⟩)
      | advance time settling =>
        cases settling with
        | true => exact .inr (.inr ⟨w, time, k, outcome, rfl⟩)
        | false => exact .inl ⟨rfl, rfl⟩
      | _ => exact .inl ⟨rfl, rfl⟩

@[simp]
theorem next_rested (m : Machine) : m.rested.next = m.next := by
  rcases m.rested_cases with ⟨heq, -⟩ | ⟨w, first, k, outcome, rfl⟩ | ⟨w, time, k, outcome, rfl⟩
  · rw [heq]
  · rfl
  · rfl

@[simp]
theorem world_rested (m : Machine) : m.rested.world = m.world := by
  rcases m.rested_cases with ⟨heq, -⟩ | ⟨w, first, k, outcome, rfl⟩ | ⟨w, time, k, outcome, rfl⟩
  · rw [heq]
  · rfl
  · rfl

/-- A rested machine shows the same. -/
theorem shows?_rested (m : Machine) :
    m.rested.shows? = m.shows? ∧ m.rested.finished = m.finished := by
  rcases m.rested_cases with ⟨heq, -⟩ | ⟨w, first, k, outcome, rfl⟩ | ⟨w, time, k, outcome, rfl⟩
  · rw [heq]
    exact ⟨rfl, rfl⟩
  · cases k <;> exact ⟨rfl, rfl⟩
  · exact ⟨rfl, rfl⟩

/-- The frames of the rested machine do not depend on the world. -/
theorem stack_rested (w v : World) (k : List Frame) (c : Control) :
    (rested ⟨w, k, c⟩).stack = (rested ⟨v, k, c⟩).stack := by
  cases c with
  | perform step => rfl
  | deliver outcome =>
    rcases k with _ | ⟨f, k⟩
    · rfl
    · cases f with
      | advance time settling => cases settling <;> rfl
      | _ => rfl

/-- The same work is done next where the same work waits. -/
theorem job?_congr {w v : World} (h : v.jobs = w.jobs) (k : List Frame) (c : Control) :
    job? ⟨v, k, c⟩ = job? ⟨w, k, c⟩ := by
  rcases k with _ | ⟨f, k⟩
  · cases c <;> rfl
  · cases f with
    | settle first => cases c <;> simp only [job?, h]
    | advance time settling => cases settling <;> cases c <;> simp only [job?, h]
    | _ => cases c <;> rfl

/-- **A piece of waiting work is done** on the frames of the rested machine. -/
theorem next_eq_work {job : Job} (hjob : m.job? = some job) :
    ∃ jobs, m.world.jobs = job :: jobs ∧
      m.next = work { m.world with jobs := jobs } m.rested.stack job := by
  unfold job? at hjob
  split at hjob
  · next w first k outcome =>
    obtain ⟨jobs, hjobs⟩ := List.head?_eq_some_iff.mp hjob
    exact ⟨jobs, hjobs, next_settle hjobs first outcome⟩
  · next w time k outcome =>
    obtain ⟨jobs, hjobs⟩ := List.head?_eq_some_iff.mp hjob
    exact ⟨jobs, hjobs, next_advance hjobs time outcome⟩
  · cases hjob

theorem job?_of_works (h : m.works = true) : m.job? = m.world.jobs.head? := by
  rcases m.rested_cases with ⟨-, hnot⟩ | ⟨w, first, k, outcome, rfl⟩ | ⟨w, time, k, outcome, rfl⟩
  · cases h.symm.trans hnot
  · rfl
  · rfl

/-- After a piece of work that leads on to nothing, the machine is rested. -/
theorem rested_done (h : m.works = true) (w : World) :
    rested (done w m.rested.stack) = rested { m with world := w } := by
  rcases m.rested_cases with ⟨-, hnot⟩ | ⟨w, first, k, outcome, rfl⟩ | ⟨w, time, k, outcome, rfl⟩
  · cases h.symm.trans hnot
  · rfl
  · rfl

/-- The same may come from outside. -/
theorem receives_rested {input : Input} : Receives input m.rested m' ↔ Receives input m m' := by
  rcases m.rested_cases with ⟨heq, -⟩ | ⟨w, first, k, outcome, rfl⟩ | ⟨w, time, k, outcome, rfl⟩
  · rw [heq]
  · constructor <;>
    · intro h
      cases h
      exact .further ..
  · constructor <;>
    · intro h
      cases h

/-! ### What has happened before -/

variable {b : Backlog}

theorem settle_atop (w : World) (k : List Frame) (hb : b.lookups = []) (which : Which)
    (settlement : Settlement) :
    settle (w.atop b) k which settlement = (settle w k which settlement).atop b := by
  have hlookups : (w.atop b).lookups = w.lookups := by
    simp only [World.atop, hb, List.nil_append]
  have hsettlement (v : World) (provider : String) (services : List String) :
      settlementOf (v.atop b) provider services settlement =
        settlementOf v provider services settlement := by
    cases settlement <;> rfl
  have hclosed (lookups : List OpenLookup) : ({ w.atop b with lookups := lookups } : World) =
      ({ w with lookups := lookups } : World).atop b := by
    simp only [World.atop, hb, List.nil_append]
  simp only [settle, hlookups]
  split
  · rfl
  · simp only [hclosed, hsettlement, World.enqueue_atop, done_atop]

/-- The waiting work is done where no more of it waits. -/
theorem resume_atop_of_works (w : World) (k : List Frame) (outcome : Outcome) {f : Frame}
    (hb : b.jobs = []) (hf : works ⟨w, f :: k, .deliver outcome⟩ = true) :
    resume (w.atop b) k outcome f = (resume w k outcome f).atop b := by
  obtain ⟨lookups, jobs, trace, deferred⟩ := b
  cases hb
  -- the work that waits is the same
  have hjobs : (w.atop ⟨lookups, [], trace, deferred⟩).jobs = w.jobs := rfl
  cases f with
  | settle first =>
    simp only [resume, hjobs]
    split
    · next job rest _ => exact work_atop { w with jobs := rest } _ _ job
    · rfl
  | advance time settling =>
    cases settling with
    | false => cases hf
    | true =>
      have htimers : (w.atop ⟨lookups, [], trace, deferred⟩).timers = w.timers := rfl
      simp only [resume, hjobs, htimers]
      split
      · next job rest _ _ => exact work_atop { w with jobs := rest } _ _ job
      · split
        · exact fire_atop w _ _ _
        · rfl
  | _ => cases hf

/-- The step performed next ends a call of the listener, and none is left to it. -/
def endsNone (m : Machine) : Bool :=
  match m.control with
  | .perform step => step.endsListener && m.world.deferred == 0
  | .deliver _ => false

theorem endsNone_of_works (h : m.works = true) : m.endsNone = false := by
  obtain ⟨w, k, step | outcome⟩ := m
  · cases h
  · rfl

theorem exists_of_endsNone (h : m.endsNone = true) :
    ∃ rejection, m.control = .perform (.settleListener rejection) ∧ m.world.deferred = 0 := by
  obtain ⟨w, k, step | outcome⟩ := m
  · obtain ⟨hends, hnone⟩ := Bool.and_eq_true_iff.mp h
    cases step with
    | settleListener rejection => exact ⟨rejection, rfl, beq_iff_eq.mp hnone⟩
    | _ => cases hends
  · cases h

/-- **A transition is the same whatever has happened before**, and whatever work waits before all
other, unless the waiting work is done next, or a call of the listener is ended from before. -/
theorem next_atop (hlookups : b.lookups = []) (hjobs : b.jobs = [] ∨ m.works = false)
    (hlate : b.deferred = 0 ∨ m.endsNone = false) : (m.atop b).next = m.next.atop b := by
  obtain ⟨w, k, step | outcome⟩ := m
  · cases hstep : step.settles with
    | false =>
      refine perform_atop w b k hstep fun hends => hlate.imp_right fun hnone => ?_
      have hleft : (step.endsListener && w.deferred == 0) = false := hnone
      rw [hends, Bool.true_and] at hleft
      exact beq_eq_false_iff_ne.mp hleft
    | true =>
      cases step with
      | settle which settlement => exact settle_atop w k hlookups which settlement
      | _ => cases hstep
  · cases k with
    | nil => rfl
    | cons f k =>
      cases hworks : works ⟨w, f :: k, .deliver outcome⟩ with
      | true =>
        refine resume_atop_of_works w k outcome (hjobs.resolve_right fun hnot => ?_) hworks
        rw [hworks] at hnot
        cases hnot
      | false =>
        refine resume_atop w b k outcome (fun first hf => ?_) fun time hf => ?_
        · subst hf
          cases hworks
        · subst hf
          cases hworks

/-- What comes from outside is the same whatever has happened before. -/
theorem Receives.atop {input : Input} (h : Receives input m m') (b : Backlog) :
    Receives input (m.atop b) (m'.atop b) := by
  cases h with
  | step w outcome step => exact .step ..
  | further w first outcome step => exact .further ..
  | @timer w outcome t ht =>
    rw [← fire_atop w b [.settle none] t]
    exact .timer _ _ ht

/-- What comes from outside comes whatever has happened before. -/
theorem exists_receives_of_atop {input : Input} (h : Receives input (m.atop b) a) :
    ∃ m', Receives input m m' ∧ a = m'.atop b := by
  obtain ⟨w, k, c⟩ := m
  generalize heq : Machine.atop ⟨w, k, c⟩ b = x at h
  cases h with
  | step v outcome step =>
    cases heq
    exact ⟨_, .step .., rfl⟩
  | further v first outcome step =>
    cases heq
    exact ⟨_, .further .., rfl⟩
  | @timer v outcome t ht =>
    cases heq
    exact ⟨_, .timer _ _ ht, fire_atop w b _ t⟩

end Machine

end Balancer.Session
