import Balancer.Proofs.Session.Suspended

/-!
# Calm stretches of a session

Most of what happens in a session is bookkeeping: frames come and go, jobs wait, lines are
logged, time passes. None of it touches the targets, the binding, the list that a refresher
saw last or its run. This file says so once, so that an invariant has to be checked only
where something else happens (`Balancer.Proofs.Session.Turn`).

* `Balancer.Session.Machine.Calm` – **nothing but bookkeeping lies between two points.**
* `Balancer.Session.World.Same` – worlds that differ in nothing that matters here.
* `Balancer.Session.Machine.Calm.push`, `Balancer.Session.Machine.Calm.enqueue` and so on – a calm
  stretch goes on.
* `Balancer.Session.Machine.Calm.notify`, `Balancer.Session.Machine.Calm.failCycle` and so on – what
  is calm in the machine's functions.
-/

namespace Balancer.Session

/-! ### Strategies -/

/-- **The same strategy**, its listener apart; it may have been built in between. -/
structure Strategy.Agrees (s' s : Strategy) : Prop where
  /-- It elects the same way. -/
  rotation : s'.rotation = s.rotation
  /-- It follows the same service. -/
  binding : s'.binding = s.binding
  /-- It has the same refresher. -/
  refresher : s'.refresher = s.refresher
  /-- Its refresher has the same timings. -/
  timings : s'.timings = s.timings
  /-- It was building before, if it is now. -/
  building : s'.building = true → s.building = true

theorem Strategy.Agrees.refl (s : Strategy) : s.Agrees s := ⟨rfl, rfl, rfl, rfl, id⟩

theorem Strategy.Agrees.trans {s s' s'' : Strategy} (h : s''.Agrees s') (h' : s'.Agrees s) :
    s''.Agrees s :=
  ⟨h.rotation.trans h'.rotation, h.binding.trans h'.binding, h.refresher.trans h'.refresher,
    h.timings.trans h'.timings, fun hb => h'.building (h.building hb)⟩

/-- **The strategy is kept**, or given up while it was building. -/
inductive Strategy.Kept : Option Strategy → Option Strategy → Prop
  /-- There is none. -/
  | absent : Kept none none
  /-- It is kept. -/
  | kept {s s' : Strategy} (agrees : s'.Agrees s) : Kept (some s) (some s')
  /-- It is given up. -/
  | lost {s : Strategy} (building : s.building = true) : Kept (some s) none

theorem Strategy.Kept.refl : ∀ s : Option Strategy, Kept s s
  | none => .absent
  | some s => .kept (.refl s)

theorem Strategy.Kept.trans {s s' s'' : Option Strategy} (h : Kept s s') (h' : Kept s' s'') :
    Kept s s'' := by
  cases h with
  | absent => exact h'
  | kept ha =>
    cases h' with
    | kept hb => exact .kept (hb.trans ha)
    | lost hb => exact .lost (ha.building hb)
  | lost hb =>
    cases h' with
    | absent => exact .lost hb

/-- A strategy that is kept is kept with its targets replaced. -/
theorem Strategy.Kept.replaceTargets {s s' : Option Strategy} (h : Kept s s') (service : String)
    (endpoints : List Endpoint) :
    Kept (s.map fun s => s.replaceTargets service endpoints)
      (s'.map fun s => s.replaceTargets service endpoints) := by
  cases h with
  | absent => exact .absent
  | kept agrees =>
    refine .kept ⟨rfl, ?_, agrees.refresher, agrees.timings, agrees.building⟩
    exact congrArg (Option.map fun b => Binding.see b service endpoints) agrees.binding
  | lost building => exact .lost building

/-- A strategy that is built is not given up. -/
theorem Strategy.Kept.exists_of_built {s : Strategy} {o : Option Strategy} (h : Kept (some s) o)
    (hbuilt : s.building = false) : ∃ s', o = some s' ∧ s'.Agrees s := by
  cases h with
  | kept agrees => exact ⟨_, rfl, agrees⟩
  | lost building =>
    rw [hbuilt] at building
    exact absurd building (by simp)

/-- A strategy that is there was there before. -/
theorem Strategy.Kept.exists_of_some {s : Option Strategy} {s' : Strategy} (h : Kept s (some s')) :
    ∃ s₀, s = some s₀ ∧ s'.Agrees s₀ := by
  cases h with
  | kept ha => exact ⟨_, rfl, ha⟩

/-! ### Calm stretches -/

/-- Worlds that differ in nothing that cycles and strategies depend on. -/
structure World.Same (w w' : World) : Prop where
  /-- The same refreshers. -/
  refreshers : w'.refreshers = w.refreshers
  /-- The same strategy. -/
  strategy : w'.strategy = w.strategy
  /-- The same callback. -/
  callback : w'.callback = w.callback
  /-- The same open lookups. -/
  lookups : w'.lookups = w.lookups
  /-- The same jobs. -/
  jobs : w'.jobs = w.jobs
  /-- The same calls made by cycles. -/
  calls : w'.calls = w.calls

namespace Machine

/-- Something that is left of a cycle was left of it before. -/
def Holds (m : Machine) (t : Suspended) : Prop := ∃ u ∈ m.suspended, t.Continues u

theorem Holds.of_some_eq {m : Machine} {t : Suspended} (h : m.Holds t) :
    ∀ u, some t = some u → m.Holds u := by
  intro u heq
  cases heq
  exact h

/-- **Nothing but bookkeeping lies between two points.** -/
structure Calm (m m' : Machine) : Prop where
  /-- The refreshers are the same, their timers apart. -/
  core : ∀ n, m'.world.core? n = m.world.core? n
  /-- The strategy is kept. -/
  strategy : Strategy.Kept m.world.strategy m'.world.strategy
  /-- There is a callback if there was one. -/
  callback : m'.world.callback.isSome = m.world.callback.isSome
  /-- No cycle has begun. -/
  held : ∀ t ∈ m'.suspended, m.Holds t
  /-- No cycle has handed over a list. -/
  handovers : m'.handovers <:+ m.handovers
  /-- Polling is to begin again only where it was before. -/
  restartTimings : m'.restartTimings <:+ m.restartTimings
  /-- No cycle has made a call. -/
  calls : m'.world.calls = m.world.calls

namespace Calm

variable {m m' m'' : Machine} {w w' : World} {k : List Frame} {c c' : Control}

theorem refl (m : Machine) : Calm m m where
  core _ := rfl
  strategy := .refl _
  callback := rfl
  held t ht := ⟨t, ht, .refl t⟩
  handovers := List.suffix_refl _
  restartTimings := List.suffix_refl _
  calls := rfl

theorem holds (h : Calm m m') {t : Suspended} (ht : m'.Holds t) : m.Holds t := by
  obtain ⟨u, hu, htu⟩ := ht
  obtain ⟨v, hv, huv⟩ := h.held u hu
  exact ⟨v, hv, htu.trans huv⟩

theorem trans (h : Calm m m') (h' : Calm m' m'') : Calm m m'' where
  core n := (h'.core n).trans (h.core n)
  strategy := h.strategy.trans h'.strategy
  callback := h'.callback.trans h.callback
  held t ht := h.holds (h'.held t ht)
  handovers := h'.handovers.trans h.handovers
  restartTimings := h'.restartTimings.trans h.restartTimings
  calls := h'.calls.trans h.calls

theorem restarts (h : Calm m m') (hr : m'.restarts = true) : m.restarts = true := by
  refine restarts_iff.mpr fun hnil => restarts_iff.mp hr ?_
  exact List.suffix_nil.mp (hnil ▸ h.restartTimings)

theorem callback_eq_none (h : Calm m m') (hnone : m.world.callback = none) :
    m'.world.callback = none := by
  have hsome := h.callback
  rw [hnone] at hsome
  exact Option.isNone_iff_eq_none.mp (Option.isSome_eq_false_iff.mp hsome)

/-! ### Going on with a calm stretch -/

/-- What comes next does not matter. -/
theorem control (h : Calm m ⟨w, k, c⟩) : Calm m ⟨w, k, c'⟩ :=
  ⟨h.core, h.strategy, h.callback, h.held, h.handovers, h.restartTimings, h.calls⟩

/-- The world may change where it does not matter. -/
theorem same (h : Calm m ⟨w, k, c⟩) (hs : w.Same w') : Calm m ⟨w', k, c⟩ where
  core n := by
    rw [← h.core n]
    simp only [World.core?, hs.refreshers]
  strategy := hs.strategy ▸ h.strategy
  callback := (congrArg Option.isSome hs.callback).trans h.callback
  held := by
    have heq : (⟨w', k, c⟩ : Machine).suspended = (⟨w, k, c⟩ : Machine).suspended := by
      simp only [suspended, World.suspended, hs.lookups, hs.jobs, hs.callback]
    rw [heq]
    exact h.held
  handovers := h.handovers
  restartTimings := h.restartTimings
  calls := hs.calls.trans h.calls

/-- A frame is pushed that no cycle waits in. -/
theorem push (h : Calm m ⟨w, k, c⟩) {f : Frame} (hh : f.handover? = none)
    (hf : f.suspended? = none) (hr : f.restarts = false) : Calm m ⟨w, f :: k, c⟩ where
  core := h.core
  strategy := h.strategy
  callback := h.callback
  held t ht := by
    rcases mem_suspended_push.mp ht with hnew | hold
    · rw [hf] at hnew
      exact absurd hnew (by simp)
    · exact h.held t hold
  handovers := by
    have heq : (⟨w, f :: k, c⟩ : Machine).handovers = (⟨w, k, c⟩ : Machine).handovers := by
      simp only [Machine.handovers, List.filterMap_cons, hh]
    rw [heq]
    exact h.handovers
  restartTimings := by
    have hnone : f.restart? = none := by
      rw [← Option.not_isSome_iff_eq_none, f.isSome_restart?, hr]
      exact Bool.false_ne_true
    have heq : (⟨w, f :: k, c⟩ : Machine).restartTimings =
        (⟨w, k, c⟩ : Machine).restartTimings := by
      simp only [Machine.restartTimings, List.filterMap_cons, hnone]
    rw [heq]
    exact h.restartTimings
  calls := h.calls

/-- A frame is popped. -/
theorem pop {f : Frame} (h : Calm m ⟨w, f :: k, c⟩) : Calm m ⟨w, k, c⟩ where
  core := h.core
  strategy := h.strategy
  callback := h.callback
  held t ht := h.held t (mem_suspended_push.mpr (.inr ht))
  handovers := by
    refine List.IsSuffix.trans ?_ h.handovers
    exact (List.suffix_cons f k).filterMap Frame.handover?
  restartTimings := by
    refine List.IsSuffix.trans ?_ h.restartTimings
    exact (List.suffix_cons f k).filterMap Frame.restart?
  calls := h.calls

/-- A job that continues a cycle under way, or none, is put in. -/
theorem enqueue (h : Calm m ⟨w, k, c⟩) {job : Job} (hj : ∀ t, job.suspended? = some t → m.Holds t) :
    Calm m ⟨w.enqueue job, k, c⟩ where
  core := h.core
  strategy := h.strategy
  callback := h.callback
  held t ht := by
    rcases List.mem_append.mp ht with hk | hw
    · exact h.held t (List.mem_append_left _ hk)
    · rcases World.mem_suspended_enqueue.mp hw with hjob | hw
      · exact hj t hjob
      · exact h.held t (List.mem_append_right _ hw)
  handovers := h.handovers
  restartTimings := h.restartTimings
  calls := h.calls

/-- A job that no cycle waits in is put in. -/
theorem enqueue_idle (h : Calm m ⟨w, k, c⟩) {job : Job} (hj : job.suspended? = none) :
    Calm m ⟨w.enqueue job, k, c⟩ :=
  h.enqueue fun t ht => by rw [hj] at ht; exact absurd ht (by simp)

/-- What waits outside the stack may become less or continue cycles under way. -/
theorem waiting (h : Calm m ⟨w, k, c⟩) {lookups : List OpenLookup} {jobs : List Job}
    {callback : Option Callback} (hc : callback.isSome = w.callback.isSome)
    (hw : ∀ t ∈ ({ w with lookups := lookups, jobs := jobs, callback := callback } : World).suspended,
      t ∈ w.suspended ∨ m.Holds t) :
    Calm m ⟨{ w with lookups := lookups, jobs := jobs, callback := callback }, k, c⟩ where
  core := h.core
  strategy := h.strategy
  callback := hc.trans h.callback
  held t ht := by
    rcases List.mem_append.mp ht with hk | ht
    · exact h.held t (List.mem_append_left _ hk)
    · exact (hw t ht).elim (fun hold => h.held t (List.mem_append_right _ hold)) id
  handovers := h.handovers
  restartTimings := h.restartTimings
  calls := h.calls

/-- The timers of a refresher, or the mark of its cycle in flight, change. -/
theorem modifyRefresher (h : Calm m ⟨w, k, c⟩) {f : Refresher → Refresher}
    (hf : ∀ r, (f r).core = r.core) (number : Nat) :
    Calm m ⟨w.modifyRefresher number f, k, c⟩ where
  core n := (w.core?_modifyRefresher_of_core hf number n).trans (h.core n)
  strategy := h.strategy
  callback := h.callback
  held := h.held
  handovers := h.handovers
  restartTimings := h.restartTimings
  calls := h.calls

/-- The strategy is kept. -/
theorem keep (h : Calm m ⟨w, k, c⟩) {strategy : Option Strategy}
    (hs : Strategy.Kept w.strategy strategy) : Calm m ⟨{ w with strategy := strategy }, k, c⟩ where
  core := h.core
  strategy := h.strategy.trans hs
  callback := h.callback
  held := h.held
  handovers := h.handovers
  restartTimings := h.restartTimings
  calls := h.calls

end Calm

end Machine

/-! ### Moves of the world that do not matter -/

namespace World

variable (w : World)

theorem same_emit {e : Event} (he : e.ofCycle = false) : w.Same (w.emit e) where
  refreshers := rfl
  strategy := rfl
  callback := rfl
  lookups := rfl
  jobs := rfl
  calls := by rw [calls_emit, he]; rfl

theorem same_log (level : Level) (message : String) (failure : Option Failure) :
    w.Same (w.log level message failure).1 := by
  rw [log]
  split
  · exact w.same_emit rfl
  · split
    · exact w.same_emit rfl
    · exact ⟨rfl, rfl, rfl, rfl, rfl, rfl⟩

theorem same_logFailure (failure : Failure) : w.Same (w.logFailure failure).1 := by
  rw [logFailure]
  cases failure.reason with
  | ok reason => exact w.same_log _ _ _
  | error thrown => exact ⟨rfl, rfl, rfl, rfl, rfl, rfl⟩

theorem same_deferred (count : Nat) : w.Same { w with deferred := count } :=
  ⟨rfl, rfl, rfl, rfl, rfl, rfl⟩

theorem same_modifyProvider (name : String) (f : Provider → Provider) :
    w.Same (w.modifyProvider name f) :=
  ⟨rfl, rfl, rfl, rfl, rfl, rfl⟩

theorem same_setTimer (wait : Binary64) (every : Option Binary64) (owner : TimerOwner) :
    w.Same (w.setTimer wait every owner) :=
  ⟨rfl, rfl, rfl, rfl, rfl, rfl⟩

theorem same_callCount (count : Nat) : w.Same { w with callCount := count } :=
  ⟨rfl, rfl, rfl, rfl, rfl, rfl⟩

theorem same_reach (t : Timer) : w.Same (w.reach t) := ⟨rfl, rfl, rfl, rfl, rfl, rfl⟩

end World

/-! ### Bookkeeping in the functions of the machine -/

namespace Machine.Calm

variable {m : Machine} {w : World} {k : List Frame} {c : Control}

theorem emit (h : Calm m ⟨w, k, c⟩) {e : Event} (he : e.ofCycle = false) :
    Calm m ⟨w.emit e, k, c⟩ :=
  h.same (w.same_emit he)

theorem log (h : Calm m ⟨w, k, c⟩) (level : Level) (message : String) (failure : Option Failure) :
    Calm m ⟨(w.log level message failure).1, k, c⟩ :=
  h.same (w.same_log level message failure)

theorem logFailure (h : Calm m ⟨w, k, c⟩) (failure : Failure) :
    Calm m ⟨(w.logFailure failure).1, k, c⟩ :=
  h.same (w.same_logFailure failure)

theorem runScript (h : Calm m ⟨w, k, c⟩) (steps : List Step) : Calm m (runScript w k steps) := by
  cases steps with
  | nil => exact h.control
  | cons step rest => exact (h.push rfl rfl rfl).control

/-- The listener is told: a frame, an event, and the steps of the listener to come. -/
theorem notify (h : Calm m ⟨w, k, c⟩) (change : Membership) : Calm m (notify w k change) := by
  rw [Machine.notify]
  split
  · exact h.control
  · next s hs =>
    split
    · next reactions hb hl =>
      -- a listener of several reactions has one less to come
      have hkeep : Strategy.Kept w.strategy
          (w.strategy.map fun s => { s with listener := some reactions.tail }) := by
        rw [hs]
        exact .kept ⟨rfl, rfl, rfl, rfl, id⟩
      exact (((h.emit rfl).keep hkeep).push rfl rfl rfl).runScript _
    · exact h.control

theorem endCycle (h : Calm m ⟨w, k, c⟩) (refresher : Nat) (origin : Origin)
    (outcome : Except Failure Unit) : Calm m ⟨w.endCycle refresher origin outcome, k, c⟩ := by
  cases origin with
  | timer => exact h.enqueue_idle rfl
  | call number => exact h.emit rfl

theorem failCycle (h : Calm m ⟨w, k, c⟩) (refresher : Nat) (origin : Origin) (failure : Failure) :
    Calm m ⟨w.failCycle refresher origin failure, k, c⟩ :=
  (h.logFailure failure).endCycle refresher origin _

/-- A call that binds the strategy ends: the strategy is built then, or given up. -/
theorem endBinding (h : Calm m ⟨w, k, c⟩) (call : Nat) (outcome : Except Failure Unit) :
    Calm m ⟨w.endBinding call outcome, k, c⟩ := by
  refine Calm.emit (Calm.keep h ?_) rfl
  rcases hs : w.strategy with _ | s
  · cases outcome <;> exact .absent
  · cases outcome with
    | ok _ => exact .kept ⟨rfl, rfl, rfl, rfl, fun hb => absurd hb (by simp [Strategy.built])⟩
    | error _ =>
      by_cases hb : s.building = true
      · simpa [Option.filter, hb] using Strategy.Kept.lost hb
      · simpa [Option.filter, hb] using Strategy.Kept.refl (some s)

/-- A call of the listener that was left to a step ends: an event, and a job that logs it. -/
theorem settleListener (h : Calm m ⟨w, k, c⟩) (outcome : Except Failure Unit) :
    Calm m (settleListener w k outcome) := by
  rw [Machine.settleListener]
  split
  · exact h.control
  · next left _ =>
    have hended := (h.same (w.same_deferred left)).emit (e := .listenerEnded outcome) rfl
    cases outcome with
    | ok => exact hended.control
    | error failure => exact (hended.enqueue_idle rfl).control

theorem skipCycle (h : Calm m ⟨w, k, c⟩) (refresher : Nat) (timed : Bool) :
    Calm m (skipCycle w k refresher timed) := by
  rw [Machine.skipCycle]
  split
  · exact (h.endCycle refresher .timer _).control
  · exact ((h.same (w.same_callCount (w.callCount + 1))).endCycle refresher _ _).control

end Machine.Calm

end Balancer.Session
