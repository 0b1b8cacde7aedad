import Balancer.Proofs.Session.Membership

/-!
# Worlds without a listener

Two worlds mirror each other where the second is the first without all that its listener leaves
behind: the listener itself, its calls that are left to a step, the jobs in which its rejections
wait, and the events that tell of its calls and of its failures. All that the world does without
calling a collaborator keeps this, and with it a count of the failures of the listener and one of
the calls that end later.

* `Balancer.Session.World.deaf` – **a world without its listener.**
* `Balancer.Session.World.Mirrors` – **a world and the one without its listener**, with the failures
  that are still owed to the logger.
* `Balancer.Session.World.Mirrors.log` – log calls, unless they tell of an error, go the same way.
-/

namespace Balancer.Session

/-! ### What a listener leaves behind -/

/-- Whether a call of the listener that ends like this fails. -/
def Ending.fails : Ending → Bool
  | .throws _ | .rejects _ => true
  | .returns | .pending | .deferred => false

/-- Whether a call of the listener that ends like this is left to a step. -/
def Ending.isDeferred : Ending → Bool
  | .deferred => true
  | _ => false

/-- Whether a job logs a rejection of the listener. -/
def Job.isRejection : Job → Bool
  | .rejected _ => true
  | _ => false

/-- Whether a frame waits for a call of the listener to end. -/
def Frame.isListener : Frame → Bool
  | .listener _ => true
  | _ => false

/-- Whether an event is an error that is logged. -/
def Event.isError : Event → Bool
  | .log level _ _ => level = .error
  | .console line => line.level = .error
  | _ => false

/-- How a call of the listener ended that was left to a step. -/
def Event.lateEnd? : Event → Option (Except Failure Unit)
  | .listenerEnded outcome => some outcome
  | _ => none

/-- Whether an event tells of the listener: of a call, of the end of one, or of a failure. -/
def Event.ofListener (e : Event) : Bool := e.notice?.isSome || e.lateEnd?.isSome || e.isError

/-- The strategy without its listener. -/
def Strategy.deaf (s : Strategy) : Strategy := { s with listener := none }

namespace World

/-- **The world without its listener**, and without all that it leaves behind. -/
def deaf (w : World) : World :=
  { w with
    strategy := w.strategy.map Strategy.deaf
    deferred := 0
    jobs := w.jobs.filter fun job => !job.isRejection
    trace := (w.trace.toList.filter fun e => !e.ofListener).toArray }

/-- The errors that have been logged. -/
def errors (w : World) : Nat := w.trace.toList.countP Event.isError

/-- The ends of those calls of the listener that were left to a step. -/
def lateEnds (w : World) : List (Except Failure Unit) := w.trace.toList.filterMap Event.lateEnd?

/-- How many of those calls have failed. -/
def lateFailures (w : World) : Nat := w.lateEnds.countP fun outcome => !outcome.isOk

/-- **A world and the one without its listener.** The listener has those reactions to come that its
calls have not taken. Each of its failures, late ones included, has been logged, waits in a job, or
is owed; each call that ends later has ended, or is left to a step, or is about to be. -/
structure Mirrors (reactions : List Reaction) (owed leaving : Nat) (w v : World) : Prop where
  /-- The other world is the one without the listener. -/
  eq : v = w.deaf
  /-- The reactions to come. -/
  listener : ∀ s, w.strategy = some s → s.listener = some (reactions.drop w.notices.length)
  /-- The failures. -/
  tally : w.errors + w.jobs.countP Job.isRejection + owed =
    (reactions.take w.notices.length).countP (fun r => r.ending.fails) + w.lateFailures
  /-- The calls that end later. -/
  left : w.deferred + w.lateEnds.length + leaving =
    (reactions.take w.notices.length).countP fun r => r.ending.isDeferred

variable {rs : List Reaction} {d l : Nat} {w v w' v' : World}

/-! ### Moves of the world -/

theorem deaf_emit (w : World) {e : Event} (he : e.ofListener = false) :
    (w.emit e).deaf = w.deaf.emit e := by
  simp only [deaf, emit, Array.toList_push, List.filter_append, List.filter_cons, he,
    Bool.not_false, if_true, List.filter_nil, List.push_toArray]

theorem deaf_emit_of_listener (w : World) {e : Event} (he : e.ofListener = true) :
    (w.emit e).deaf = w.deaf := by
  simp only [deaf, emit, Array.toList_push, List.filter_append, List.filter_cons, he,
    Bool.not_true, Bool.false_eq_true, if_false, List.filter_nil, List.append_nil]

theorem errors_emit (w : World) (e : Event) : (w.emit e).errors = w.errors + e.isError.toNat := by
  rw [errors, emit, Array.toList_push, List.countP_append, errors]
  cases h : e.isError <;> simp [h]

theorem lateEnds_emit (w : World) (e : Event) :
    (w.emit e).lateEnds = w.lateEnds ++ e.lateEnd?.toList := by
  rw [lateEnds, emit, Array.toList_push, List.filterMap_append, lateEnds]
  cases h : e.lateEnd? <;> simp [h]

theorem lateEnds_of_trace (h : w'.trace = w.trace) : w'.lateEnds = w.lateEnds := by
  rw [lateEnds, h, lateEnds]

/-- Nothing happens, and neither the strategy nor the jobs nor the calls left to a step change. -/
theorem Mirrors.of_eq (h : w.Mirrors rs d l v) (htrace : w'.trace = w.trace)
    (hjobs : w'.jobs = w.jobs) (hs : w'.strategy = w.strategy) (hdeferred : w'.deferred = w.deferred)
    (hv : v' = w'.deaf) : w'.Mirrors rs d l v' where
  eq := hv
  listener := by
    rw [hs, notices_of_trace htrace]
    exact h.listener
  tally := by
    rw [errors, htrace, hjobs, notices_of_trace htrace, lateFailures, lateEnds_of_trace htrace]
    exact h.tally
  left := by
    rw [hdeferred, notices_of_trace htrace, lateEnds_of_trace htrace]
    exact h.left

/-- Something happens that is no call of the listener and no end of one; an error is owed before. -/
theorem Mirrors.push {e : Event} (h : w.Mirrors rs (d + e.isError.toNat) l v)
    (hnotice : e.notice? = none) (hlate : e.lateEnd? = none) (hv : v' = (w.emit e).deaf) :
    (w.emit e).Mirrors rs d l v' := by
  have hnotices : (w.emit e).notices = w.notices := by
    rw [notices_emit, hnotice]
    exact List.append_nil _
  have hends : (w.emit e).lateEnds = w.lateEnds := by
    rw [lateEnds_emit, hlate]
    exact List.append_nil _
  refine ⟨hv, ?_, ?_, ?_⟩
  · rw [hnotices]
    exact h.listener
  · have htally := h.tally
    rw [errors_emit, hnotices, lateFailures, hends, ← lateFailures, ← htally]
    show w.errors + e.isError.toNat + w.jobs.countP Job.isRejection + d = _
    omega
  · rw [hnotices, hends]
    exact h.left

theorem Mirrors.emit (h : w.Mirrors rs d l v) {e : Event} (he : e.ofListener = false) :
    (w.emit e).Mirrors rs d l (v.emit e) := by
  obtain ⟨htells, herror⟩ := Bool.or_eq_false_iff.mp he
  obtain ⟨hnotice, hlate⟩ := Bool.or_eq_false_iff.mp htells
  refine Mirrors.push (by rw [herror]; exact h)
    (Option.not_isSome_iff_eq_none.mp (Bool.eq_false_iff.mp hnotice))
    (Option.not_isSome_iff_eq_none.mp (Bool.eq_false_iff.mp hlate)) ?_
  rw [h.eq, deaf_emit w he]

/-- A failure that is owed is logged. -/
theorem Mirrors.complain (h : w.Mirrors rs (d + 1) l v) {e : Event} (he : e.isError = true) :
    (w.emit e).Mirrors rs d l v := by
  have hnone : e.notice? = none ∧ e.lateEnd? = none := by
    cases e with
    | notice | listenerEnded => cases he
    | _ => exact ⟨rfl, rfl⟩
  refine Mirrors.push (by rw [he]; exact h) hnone.1 hnone.2 ?_
  rw [h.eq, deaf_emit_of_listener w (by rw [Event.ofListener, he, Bool.or_true])]

theorem Mirrors.enqueue (h : w.Mirrors rs d l v) {job : Job} (hjob : job.isRejection = false) :
    (w.enqueue job).Mirrors rs d l (v.enqueue job) := by
  refine ⟨?_, h.listener, ?_, h.left⟩
  · rw [h.eq]
    simp only [deaf, World.enqueue, List.filter_append, List.filter_cons, hjob, Bool.not_false,
      if_true, List.filter_nil]
  · have htally := h.tally
    show w.errors + (w.jobs ++ [job]).countP Job.isRejection + d = _
    rw [List.countP_append, List.countP_singleton, hjob]
    exact htally

/-- A failure that is owed waits in a job. -/
theorem Mirrors.reject (h : w.Mirrors rs (d + 1) l v) (failure : Failure) :
    (w.enqueue (.rejected failure)).Mirrors rs d l v := by
  refine ⟨?_, h.listener, ?_, h.left⟩
  · rw [h.eq]
    simp only [deaf, World.enqueue, List.filter_append, List.filter_cons, Job.isRejection,
      Bool.not_true, Bool.false_eq_true, if_false, List.filter_nil, List.append_nil]
  · have htally := h.tally
    show w.errors + (w.jobs ++ [Job.rejected failure]).countP Job.isRejection + d =
      (rs.take w.notices.length).countP (fun r => r.ending.fails) + w.lateFailures
    rw [List.countP_append, List.countP_singleton, ← htally]
    show w.errors + (w.jobs.countP Job.isRejection + 1) + d = _
    omega

/-- A call of the listener is left to a step. -/
theorem Mirrors.defer (h : w.Mirrors rs d (l + 1) v) :
    ({ w with deferred := w.deferred + 1 } : World).Mirrors rs d l v := by
  refine ⟨h.eq, h.listener, h.tally, ?_⟩
  have hleft := h.left
  show w.deferred + 1 + w.lateEnds.length + l =
    (rs.take w.notices.length).countP fun r => r.ending.isDeferred
  omega

/-- A call of the listener ends that was left to a step; a failure is owed then. -/
theorem Mirrors.endLate (h : w.Mirrors rs d l v) {left : Nat} (hdeferred : w.deferred = left + 1)
    (outcome : Except Failure Unit) :
    (({ w with deferred := left } : World).emit (.listenerEnded outcome)).Mirrors rs
      (d + (!outcome.isOk).toNat) l v := by
  let w₁ : World := { w with deferred := left }
  have hnotices : (w₁.emit (.listenerEnded outcome)).notices = w.notices :=
    (w₁.notices_emit _).trans (List.append_nil _)
  have hends : (w₁.emit (.listenerEnded outcome)).lateEnds = w.lateEnds ++ [outcome] :=
    w₁.lateEnds_emit _
  refine ⟨?_, ?_, ?_, ?_⟩
  · rw [h.eq, deaf_emit_of_listener w₁ (e := .listenerEnded outcome) rfl]
    rfl
  · rw [hnotices]
    exact h.listener
  · have htally := h.tally
    have herrors : (w₁.emit (.listenerEnded outcome)).errors = w.errors := w₁.errors_emit _
    rw [herrors, hnotices, lateFailures, hends, List.countP_append, List.countP_singleton,
      ← lateFailures]
    show w.errors + w.jobs.countP Job.isRejection + _ = _
    cases outcome.isOk <;> simp only [Bool.not_true, Bool.not_false, Bool.toNat_true,
      Bool.toNat_false, if_true, Bool.false_eq_true, if_false] <;> omega
  · have hleft := h.left
    rw [hnotices, hends, List.length_append, List.length_singleton, ← hleft, hdeferred]
    show left + (w.lateEnds.length + 1) + l = _
    omega

/-- The next job is taken from those that wait. -/
theorem Mirrors.dequeue (h : w.Mirrors rs d l v) {job : Job} {jobs : List Job}
    (hjobs : w.jobs = job :: jobs) (hjob : job.isRejection = false) :
    ∃ jobs', v.jobs = job :: jobs' ∧
      ({ w with jobs := jobs } : World).Mirrors rs d l { v with jobs := jobs' } := by
  refine ⟨jobs.filter fun job => !job.isRejection, ?_, ?_, h.listener, ?_, h.left⟩
  · rw [h.eq]
    simp only [deaf, hjobs, List.filter_cons, hjob, Bool.not_false, if_true]
  · rw [h.eq]
    rfl
  · have htally := h.tally
    rw [hjobs, List.countP_cons, hjob] at htally
    exact htally

/-- A job that logs a rejection is taken from those that wait; the failure is owed then. -/
theorem Mirrors.dequeue_rejection (h : w.Mirrors rs d l v) {failure : Failure} {jobs : List Job}
    (hjobs : w.jobs = .rejected failure :: jobs) :
    ({ w with jobs := jobs } : World).Mirrors rs (d + 1) l v := by
  refine ⟨?_, h.listener, ?_, h.left⟩
  · rw [h.eq]
    simp only [deaf, hjobs, List.filter_cons, Job.isRejection, Bool.not_true, Bool.false_eq_true,
      if_false]
  · have htally := h.tally
    rw [hjobs, List.countP_cons] at htally
    show w.errors + jobs.countP Job.isRejection + (d + 1) =
      (rs.take w.notices.length).countP (fun r => r.ending.fails) + w.lateFailures
    rw [← htally]
    show _ = w.errors + (jobs.countP Job.isRejection + 1) + d
    omega

/-- The strategy changes in something that does not concern its listener. -/
theorem Mirrors.modifyStrategy (h : w.Mirrors rs d l v) {f : Strategy → Strategy}
    (hlistener : ∀ s, (f s).listener = s.listener) (hdeaf : ∀ s, (f s).deaf = f s.deaf) :
    (w.modifyStrategy f).Mirrors rs d l (v.modifyStrategy f) := by
  refine ⟨?_, fun s' hs' => ?_, h.tally, h.left⟩
  · rw [h.eq]
    simp only [deaf, World.modifyStrategy, Option.map_map]
    congr 2
    exact funext fun s => (hdeaf s).symm
  · obtain ⟨s, hs, rfl⟩ := Option.map_eq_some_iff.mp hs'
    rw [hlistener]
    exact h.listener s hs

theorem Mirrors.modifyRefresher (h : w.Mirrors rs d l v) (number : Nat)
    (f : Refresher → Refresher) :
    (w.modifyRefresher number f).Mirrors rs d l (v.modifyRefresher number f) :=
  h.of_eq rfl rfl rfl rfl (by rw [h.eq]; rfl)

theorem Mirrors.modifyProvider (h : w.Mirrors rs d l v) (name : String) (f : Provider → Provider) :
    (w.modifyProvider name f).Mirrors rs d l (v.modifyProvider name f) :=
  h.of_eq rfl rfl rfl rfl (by rw [h.eq]; rfl)

theorem Mirrors.setTimer (h : w.Mirrors rs d l v) (wait : Binary64) (every : Option Binary64)
    (owner : TimerOwner) :
    (w.setTimer wait every owner).Mirrors rs d l (v.setTimer wait every owner) :=
  h.of_eq rfl rfl rfl rfl (by rw [h.eq]; rfl)

theorem Mirrors.clearTimer (h : w.Mirrors rs d l v) (id : Option Nat) :
    (w.clearTimer id).Mirrors rs d l (v.clearTimer id) := by
  cases id with
  | none => exact h
  | some id => exact h.of_eq rfl rfl rfl rfl (by rw [h.eq]; rfl)

theorem Mirrors.reach (h : w.Mirrors rs d l v) (t : Timer) :
    (w.reach t).Mirrors rs d l (v.reach t) :=
  h.of_eq rfl rfl rfl rfl (by rw [h.eq]; rfl)

/-! ### Log calls -/

theorem Mirrors.logs_eq (h : w.Mirrors rs d l v) : v.logs = w.logs := by
  rw [h.eq]
  rfl

/-- **A log call goes the same way in both worlds**, unless it tells of an error. -/
theorem Mirrors.log (h : w.Mirrors rs d l v) (level : Level) (hlevel : level ≠ .error)
    (message : String) (failure : Option Failure) :
    ∃ w' v' outcome, w.log level message failure = (w', outcome) ∧
      v.log level message failure = (v', outcome) ∧ w'.Mirrors rs d l v' := by
  have hlogging : v.logging = w.logging := by
    rw [h.eq]
    rfl
  have hclock : v.clock = w.clock := by
    rw [h.eq]
    rfl
  cases hw : w.logging with
  | recording =>
    have hevent : (Event.log level message failure).ofListener = false := by
      simp [Event.ofListener, Event.notice?, Event.lateEnd?, Event.isError, hlevel]
    simp only [World.log, hlogging, hw]
    exact ⟨_, _, _, rfl, rfl, h.emit hevent⟩
  | console scope =>
    simp only [World.log, hlogging, hclock, hw]
    cases hline : Line.stamped scope w.clock level message failure with
    | error reason => exact ⟨_, _, _, rfl, rfl, h⟩
    | ok line =>
      have hgrave : line.level = level := by
        rw [Line.stamped] at hline
        cases hstamp : Calendar.stamp w.clock with
        | error reason =>
          rw [hstamp] at hline
          cases hline
        | ok stamp =>
          rw [hstamp] at hline
          cases hline
          rfl
      have hevent : (Event.console line).ofListener = false := by
        simp [Event.ofListener, Event.notice?, Event.lateEnd?, Event.isError, hgrave, hlevel]
      exact ⟨_, _, _, rfl, rfl, h.emit hevent⟩

/-- An error is logged, where log calls go through. -/
theorem exists_log_error (hlogs : w.logs = true) (message : String) (failure : Option Failure) :
    ∃ e, w.log .error message failure = (w.emit e, .ok ()) ∧ e.isError = true := by
  cases hw : w.logging with
  | recording =>
    simp only [World.log, hw]
    exact ⟨_, rfl, rfl⟩
  | console scope =>
    simp only [World.logs, hw] at hlogs
    cases hstamp : Calendar.stamp w.clock with
    | error reason =>
      rw [hstamp] at hlogs
      exact absurd hlogs (by simp [Except.isOk, Except.toBool])
    | ok stamp =>
      simp only [World.log, hw, Line.stamped, hstamp]
      exact ⟨_, rfl, rfl⟩

/-! ### Refreshers and the strategy -/

theorem Mirrors.startRefresher (h : w.Mirrors rs d l v) (number : Nat) (services : Listing) :
    (w.startRefresher number services).Mirrors rs d l (v.startRefresher number services) := by
  obtain rfl := h.eq
  rcases hr : w.refreshers[number]? with _ | r
  · have hr' : w.deaf.refreshers[number]? = none := hr
    simp only [World.startRefresher, hr, hr']
    exact h
  · have hr' : w.deaf.refreshers[number]? = some r := hr
    simp only [World.startRefresher, hr, hr']
    split
    · exact h
    · exact (h.setTimer _ _ _).modifyRefresher _ _

theorem Mirrors.stopRefresher (h : w.Mirrors rs d l v) (number : Nat) :
    (w.stopRefresher number).Mirrors rs d l (v.stopRefresher number) := by
  obtain rfl := h.eq
  rcases hr : w.refreshers[number]? with _ | r
  · have hr' : w.deaf.refreshers[number]? = none := hr
    simp only [World.stopRefresher, hr, hr']
    exact h
  · have hr' : w.deaf.refreshers[number]? = some r := hr
    simp only [World.stopRefresher, hr, hr']
    exact ((h.clearTimer _).clearTimer _).modifyRefresher _ _

theorem Mirrors.armPeriod (h : w.Mirrors rs d l v) (number : Nat) :
    (w.armPeriod number).Mirrors rs d l (v.armPeriod number) := by
  obtain rfl := h.eq
  rcases hr : w.refreshers[number]? with _ | r
  · have hr' : w.deaf.refreshers[number]? = none := hr
    simp only [World.armPeriod, hr, hr']
    exact h
  · have hr' : w.deaf.refreshers[number]? = some r := hr
    simp only [World.armPeriod, hr, hr']
    exact (h.setTimer _ _ _).modifyRefresher _ _

theorem Mirrors.poller?_eq (h : w.Mirrors rs d l v) : v.poller? = w.poller? := by
  rw [h.eq, poller?, poller?, deaf]
  cases w.strategy <;> rfl

theorem Mirrors.polling_eq (h : w.Mirrors rs d l v) : v.polling = w.polling := by
  rw [polling, polling, h.poller?_eq, h.eq]
  rfl

theorem Mirrors.runningTimings_eq (h : w.Mirrors rs d l v) :
    v.runningTimings = w.runningTimings := by
  rw [runningTimings, runningTimings, h.polling_eq, h.eq]
  split
  · show (w.strategy.map Strategy.deaf).bind Strategy.timings = w.strategy.bind Strategy.timings
    cases w.strategy <;> rfl
  · rfl

theorem Mirrors.stopPolling (h : w.Mirrors rs d l v) :
    w.stopPolling.Mirrors rs d l v.stopPolling := by
  simp only [World.stopPolling, h.poller?_eq]
  split
  · exact h
  · exact h.stopRefresher _

theorem Mirrors.pollWith (h : w.Mirrors rs d l v) (binding : Binding) (timings : Timings) :
    (w.pollWith binding timings).Mirrors rs d l (v.pollWith binding timings) := by
  obtain rfl := h.eq
  have hnew : ({ w with refreshers := w.refreshers ++
      [Refresher.idle (some binding.provider) .strategy timings] } : World).Mirrors rs d l
      { w.deaf with refreshers := w.refreshers ++
        [Refresher.idle (some binding.provider) .strategy timings] } := h.of_eq rfl rfl rfl rfl rfl
  have hpolls := hnew.modifyStrategy (f := fun s => s.pollBy w.refreshers.length timings)
    (fun _ => rfl) fun _ => rfl
  exact hpolls.startRefresher _ _

/-- **Polling begins in both worlds**, or fails in both. -/
theorem Mirrors.startPolling (h : w.Mirrors rs d l v) (delay period : Option Binary64) :
    ∃ w' v' outcome, w.startPolling delay period = (w', outcome) ∧
      v.startPolling delay period = (v', outcome) ∧ w'.Mirrors rs d l v' := by
  have hpolling := h.polling_eq
  have hstrategy : v.strategy = w.strategy.map Strategy.deaf := by
    rw [h.eq]
    rfl
  have hsettings : v.settings = w.settings := by
    rw [h.eq]
    rfl
  cases hs : w.strategy with
  | none =>
    simp only [World.startPolling, hstrategy, hs]
    exact ⟨w, v, _, rfl, rfl, h⟩
  | some s =>
    have hdeaf : s.deaf.binding = s.binding ∧ s.deaf.chooseTimings = s.chooseTimings := ⟨rfl, rfl⟩
    simp only [World.startPolling, hstrategy, hs, Option.map_some, hdeaf.1, hdeaf.2, hpolling,
      hsettings]
    cases s.binding with
    | none => exact ⟨w, v, _, rfl, rfl, h⟩
    | some binding =>
      dsimp only
      split
      · exact ⟨w, v, _, rfl, rfl, h⟩
      · split
        · exact ⟨w, v, _, rfl, rfl, h⟩
        · next timings _ =>
          exact (h.pollWith binding timings).log .info (by decide) _ none

theorem Mirrors.endCycle (h : w.Mirrors rs d l v) (refresher : Nat) (origin : Origin)
    (outcome : Except Failure Unit) :
    (w.endCycle refresher origin outcome).Mirrors rs d l (v.endCycle refresher origin outcome) := by
  cases origin with
  | timer => exact h.enqueue rfl
  | call number => exact h.emit rfl

/-- **A failure is logged in both worlds**, or has no text in both. -/
theorem Mirrors.logFailure (h : w.Mirrors rs d l v) (failure : Failure) :
    ∃ w' v' outcome, w.logFailure failure = (w', outcome) ∧
      v.logFailure failure = (v', outcome) ∧ w'.Mirrors rs d l v' := by
  rw [World.logFailure, World.logFailure]
  cases failure.reason with
  | ok reason => exact h.log .warn (by decide) _ _
  | error thrown => exact ⟨w, v, _, rfl, rfl, h⟩

theorem Mirrors.failCycle (h : w.Mirrors rs d l v) (refresher : Nat) (origin : Origin)
    (failure : Failure) :
    (w.failCycle refresher origin failure).Mirrors rs d l (v.failCycle refresher origin failure) := by
  obtain ⟨w', v', outcome, hw, hv, h'⟩ := h.logFailure failure
  simp only [World.failCycle, hw, hv]
  exact h'.endCycle _ _ _

theorem Mirrors.endBinding (h : w.Mirrors rs d l v) (call : Nat) (outcome : Except Failure Unit) :
    (w.endBinding call outcome).Mirrors rs d l (v.endBinding call outcome) := by
  cases outcome with
  | ok =>
    exact (h.modifyStrategy (f := Strategy.built) (fun _ => rfl) fun _ => rfl).emit
      (e := .ended call (.ok ())) rfl
  | error failure =>
    have hkept : ({ w with strategy := w.strategy.filter fun s => !s.building } : World).Mirrors rs d l
        { v with strategy := v.strategy.filter fun s => !s.building } := by
      refine ⟨?_, fun s hs => h.listener s (Option.filter_eq_some_iff.mp hs).1, h.tally, h.left⟩
      rw [h.eq]
      simp only [deaf, Option.filter_map]
      rfl
    exact hkept.emit (e := .ended call (.error failure)) rfl

end World

end Balancer.Session
