import Balancer.Proofs.Session.History
import Balancer.Proofs.Session.Targets

/-!
# Changes of the membership

The membership changes in three ways: a target is taken out, one is put back, or all of them are
replaced – by a step, by a call that binds the strategy, or by a cycle that found a changed list.
This file says which transition makes which change, and that a transition calls the listener exactly
if it makes one.

* `Balancer.Session.Machine.alteration?` – **the change of the membership that the next transition
  makes**, with the rotation that it leads to.
* `Balancer.Session.World.Mute` – **nobody is told anything** between two worlds; this holds of
  every function of the machine but one.
* `Balancer.Session.Machine.untold_next` – **a transition that makes no change tells nobody.**
* `Balancer.Session.Machine.next_of_alteration` – **any other one completes its change and tells the
  listener of it.**
-/

namespace Balancer.Session

/-! ### Calls of the listener -/

/-- What the listener is told by an event. -/
def Event.notice? : Event → Option Notice
  | .notice told => some told
  | _ => none

/-- **What the listener has been told**, call by call. -/
def World.notices (w : World) : List Notice := w.trace.toList.filterMap Event.notice?

theorem World.notices_emit (w : World) (e : Event) :
    (w.emit e).notices = w.notices ++ e.notice?.toList := by
  rw [notices, emit, Array.toList_push, List.filterMap_append, notices, List.filterMap_cons]
  cases e.notice? <;> rfl

theorem World.notices_of_trace {w w' : World} (h : w'.trace = w.trace) : w'.notices = w.notices := by
  rw [notices, h, notices]

/-! ### Changes of the membership -/

/-- **A change of the membership**, with the rotation that it leads to. -/
structure Alteration where
  /-- What changes. -/
  change : Membership
  /-- The rotation after the change. -/
  rotation : Rotation

/-- All targets are replaced by the endpoints of a service. -/
def Alteration.reset (service : String) (endpoints : List Endpoint) : Alteration :=
  ⟨.reset service, .ofEndpoints endpoints⟩

/-- The change that a step on the strategy makes, if it does: a target that is not in service is not
taken out, and one that is not out is not put back. -/
def Step.alteration? (r : Rotation) : Step → Option Alteration
  | .remove target => (r.remove? target).map fun r' => ⟨.removed target, r'⟩
  | .recover target => (r.recover? target).map fun r' => ⟨.recovered target, r'⟩
  | .reset service endpoints => some (.reset service endpoints)
  | _ => none

/-- The change that is made when a lookup that binds the strategy has ended: a failure changes
nothing. -/
def Job.alteration? : Job → Option Alteration
  | .answered (.binding _ service _) (.ok listing) =>
    some (.reset service (Machine.listed listing service))
  | _ => none

/-- The change that a cycle of the strategy goes on to make: its run has not ended, a list has
changed, and the log call goes through. -/
def World.alteration? (w : World) (cycle : Cycle) : Option Alteration :=
  (w.refreshers[cycle.refresher]?).bind fun r =>
    if r.generation = cycle.generation ∧ r.handler = .strategy ∧ w.logs = true then
      (r.nextChange? cycle.latest cycle.remaining).map fun change =>
        .reset change.service change.endpoints
    else none

theorem World.alteration?_eq_some {w : World} {cycle : Cycle} {a : Alteration} :
    w.alteration? cycle = some a ↔ ∃ r change, w.refreshers[cycle.refresher]? = some r ∧
      r.generation = cycle.generation ∧ r.handler = .strategy ∧ w.logs = true ∧
      r.nextChange? cycle.latest cycle.remaining = some change ∧
      .reset change.service change.endpoints = a := by
  rw [alteration?, Option.bind_eq_some_iff]
  refine exists_congr fun r => ?_
  split
  · next h => simp only [h.1, h.2.1, h.2.2, Option.map_eq_some_iff, exists_and_left, true_and]
  · next h =>
    constructor
    · intro hnone
      exact absurd hnone.2 (by simp)
    · rintro ⟨change, -, hgeneration, hhandler, hlogs, -⟩
      exact absurd ⟨hgeneration, hhandler, hlogs⟩ h

/-- The list that a cycle goes on to hand to the strategy is that of the change it makes. -/
theorem World.hands?_eq_none {w : World} {cycle : Cycle} (h : w.alteration? cycle = none) :
    w.hands? cycle = none := by
  rw [World.hands?, Option.bind_eq_none_iff]
  rw [World.alteration?, Option.bind_eq_none_iff] at h
  intro r hr
  have hnone := h r hr
  split
  · next hgoes =>
    rw [if_pos hgoes, Option.map_eq_none_iff] at hnone
    rw [hnone]
    rfl
  · rfl

/-! ### Worlds between which nobody is told -/

namespace World

/-- **Nobody is told anything**: the listener was called as often as before, and has the same
reactions to come. -/
structure Mute (w w' : World) : Prop where
  /-- The listener was called as often. -/
  notices : w'.notices = w.notices
  /-- It is the same listener. -/
  listener : ∀ s', w'.strategy = some s' → ∃ s, w.strategy = some s ∧ s'.listener = s.listener

variable {v w w' : World}

theorem Mute.refl (w : World) : w.Mute w := ⟨rfl, fun s h => ⟨s, h, rfl⟩⟩

theorem Mute.trans (h : v.Mute w) (h' : w.Mute w') : v.Mute w' where
  notices := h'.notices.trans h.notices
  listener s' hs' := by
    obtain ⟨s, hs, heq⟩ := h'.listener s' hs'
    obtain ⟨s₀, hs₀, heq₀⟩ := h.listener s hs
    exact ⟨s₀, hs₀, heq.trans heq₀⟩

/-- Nothing happens, and the strategy stays. -/
theorem Mute.of_eq (h : v.Mute w) (htrace : w'.trace = w.trace) (hs : w'.strategy = w.strategy) :
    v.Mute w' :=
  h.trans ⟨notices_of_trace htrace, fun s' hs' => ⟨s', hs ▸ hs', rfl⟩⟩

theorem Mute.emit (h : v.Mute w) {e : Event} (he : e.notice? = none) : v.Mute (w.emit e) := by
  refine h.trans ⟨?_, fun s hs => ⟨s, hs, rfl⟩⟩
  rw [notices_emit, he]
  exact List.append_nil _

theorem Mute.log (h : v.Mute w) (level : Level) (message : String) (failure : Option Failure) :
    v.Mute (w.log level message failure).1 := by
  rw [World.log]
  split
  · exact h.emit rfl
  · split
    · exact h.emit rfl
    · exact h

theorem Mute.logFailure (h : v.Mute w) (failure : Failure) : v.Mute (w.logFailure failure).1 := by
  rw [World.logFailure]
  cases failure.reason with
  | ok reason => exact h.log _ _ _
  | error thrown => exact h

theorem Mute.modifyRefresher (h : v.Mute w) (number : Nat) (f : Refresher → Refresher) :
    v.Mute (w.modifyRefresher number f) :=
  h.of_eq rfl rfl

theorem Mute.modifyProvider (h : v.Mute w) (name : String) (f : Provider → Provider) :
    v.Mute (w.modifyProvider name f) :=
  h.of_eq rfl rfl

/-- The strategy may change in everything but its listener. -/
theorem Mute.modifyStrategy (h : v.Mute w) {f : Strategy → Strategy}
    (hf : ∀ s, (f s).listener = s.listener) : v.Mute (w.modifyStrategy f) := by
  refine h.trans ⟨rfl, fun s' hs' => ?_⟩
  obtain ⟨s, hs, rfl⟩ := Option.map_eq_some_iff.mp hs'
  exact ⟨s, hs, hf s⟩

theorem Mute.startRefresher (h : v.Mute w) (number : Nat) (services : Listing) :
    v.Mute (w.startRefresher number services) :=
  h.of_eq (w.aside_startRefresher number services).trace (w.strategy_startRefresher number services)

theorem Mute.stopRefresher (h : v.Mute w) (number : Nat) : v.Mute (w.stopRefresher number) :=
  h.of_eq (w.aside_stopRefresher number).trace (w.strategy_stopRefresher number)

theorem Mute.stopPolling (h : v.Mute w) : v.Mute w.stopPolling :=
  h.of_eq w.aside_stopPolling.trace w.strategy_stopPolling

theorem Mute.pollWith (h : v.Mute w) (binding : Binding) (timings : Timings) :
    v.Mute (w.pollWith binding timings) := by
  have hnew : v.Mute { w with refreshers := w.refreshers ++
      [Refresher.idle (some binding.provider) .strategy timings] } := h.of_eq rfl rfl
  have hpolls := hnew.modifyStrategy (f := fun s => s.pollBy w.refreshers.length timings) fun _ => rfl
  exact hpolls.startRefresher _ _

theorem Mute.startPolling (h : v.Mute w) (delay period : Option Binary64) :
    v.Mute (w.startPolling delay period).1 := by
  rw [World.startPolling]
  split
  · exact h
  · split
    · exact h
    · split
      · exact h
      · split
        · exact h
        · exact (h.pollWith _ _).log _ _ _

theorem Mute.armPeriod (h : v.Mute w) (number : Nat) : v.Mute (w.armPeriod number) := by
  rw [World.armPeriod]
  split
  · exact h
  · exact h.of_eq rfl rfl

theorem Mute.endCycle (h : v.Mute w) (refresher : Nat) (origin : Origin)
    (outcome : Except Failure Unit) : v.Mute (w.endCycle refresher origin outcome) := by
  cases origin with
  | timer => exact h.of_eq rfl rfl
  | call number => exact h.emit rfl

theorem Mute.failCycle (h : v.Mute w) (refresher : Nat) (origin : Origin) (failure : Failure) :
    v.Mute (w.failCycle refresher origin failure) :=
  (h.logFailure failure).endCycle refresher origin _

/-- A strategy that is built then, or given up, is told nothing of it. -/
theorem Mute.endBinding (h : v.Mute w) (call : Nat) (outcome : Except Failure Unit) :
    v.Mute (w.endBinding call outcome) := by
  cases outcome with
  | ok =>
    have hbuilt : w.Mute { w with strategy := w.strategy.map Strategy.built } := by
      refine ⟨rfl, fun s' hs' => ?_⟩
      obtain ⟨s, hs, rfl⟩ := Option.map_eq_some_iff.mp hs'
      exact ⟨s, hs, rfl⟩
    exact (h.trans hbuilt).emit (e := .ended call (.ok ())) rfl
  | error failure =>
    have hlost : w.Mute { w with strategy := w.strategy.filter fun s => !s.building } :=
      ⟨rfl, fun s' hs' => ⟨s', (Option.filter_eq_some_iff.mp hs').1, rfl⟩⟩
    exact (h.trans hlost).emit (e := .ended call (.error failure)) rfl

end World

/-! ### The machine apart from its listener -/

/-- **Nobody has been told anything** up to a point. -/
def Machine.Untold (v : World) (m : Machine) : Prop := v.Mute m.world

theorem World.Mute.untold {v w : World} (h : v.Mute w) {k : List Frame} {c : Control} :
    Machine.Untold v ⟨w, k, c⟩ := h

namespace Machine

variable {v w : World} {k : List Frame} {m m' : Machine}

theorem untold_of_eq (h : v.Mute w) (htrace : m.world.trace = w.trace)
    (hs : m.world.strategy = w.strategy) : Untold v m :=
  h.of_eq htrace hs

theorem untold_runScript (h : v.Mute w) (steps : List Step) : Untold v (runScript w k steps) := by
  cases steps <;> exact h.untold

theorem untold_lookup (h : v.Mute w) (provider : String) (services : List String) (caller : Caller) :
    Untold v (lookup w k provider services caller) := by
  have hcounted : v.Mute { w with lookupCount := w.lookupCount + 1 } := h.of_eq rfl rfl
  have hasked := hcounted.emit (e := .lookup provider (w.lookupCount + 1) services caller) rfl
  exact untold_runScript (hasked.modifyProvider _ _) _

theorem untold_callBack (h : v.Mute w) (c : Callback) (cycle : Cycle) (service : String)
    (endpoints : List Endpoint) : Untold v (callBack w k c cycle service endpoints) := by
  have hcounted : v.Mute { w with callback := some { c with
      reactions := c.reactions.tail, count := c.count + 1 } } := h.of_eq rfl rfl
  exact untold_runScript (hcounted.emit rfl) _

/-! #### Cycles and timers -/

theorem untold_skipCycle (h : v.Mute w) (refresher : Nat) (timed : Bool) :
    Untold v (skipCycle w k refresher timed) := by
  have hcounted : v.Mute { w with callCount := w.callCount + 1 } := h.of_eq rfl rfl
  rw [skipCycle]
  split
  · exact (h.endCycle _ _ _).untold
  · exact (hcounted.endCycle _ _ _).untold

theorem untold_beginCycle (h : v.Mute w) (number : Nat) (timed : Bool) :
    Untold v (beginCycle w k number timed) := by
  rw [beginCycle]
  split
  · exact h.untold
  · split
    · exact untold_lookup h _ _ _
    · exact untold_skipCycle h _ _

theorem untold_tick (h : v.Mute w) (number : Nat) : Untold v (tick w k number) := by
  rw [tick]
  split
  · exact h.untold
  · split
    · exact h.untold
    · exact untold_beginCycle (h.modifyRefresher _ _) _ _

theorem untold_fire (h : v.Mute w) (t : Timer) : Untold v (fire w k t) := by
  have hreach : v.Mute (w.reach t) := h.of_eq rfl rfl
  unfold fire
  dsimp only
  split
  · exact untold_tick (hreach.modifyRefresher _ _) _
  · exact untold_tick hreach _
  · exact hreach.untold

/-- A cycle that does not change the membership hands its list to a callback, or fails. -/
theorem untold_applyChange (h : v.Mute w) (cycle : Cycle) {handler : Handler}
    (hstays : ¬ (handler = .strategy ∧ w.logs = true)) (change : Refresher.Change) :
    Untold v (applyChange w k cycle handler change) := by
  have hlogged := h.log .warn ("A new changed list getting from naming service name='" ++
    change.service ++ "' value=" ++ Endpoint.listText change.endpoints) none
  rw [applyChange]
  dsimp only
  split
  · next w' failure hlog =>
    rw [hlog] at hlogged
    exact (hlogged.failCycle _ _ _).untold
  · next w' _ hlog =>
    have hlogs : w.logs = true := by
      by_contra hnot
      obtain ⟨reason, hfails⟩ := World.log_of_not_logs (Bool.not_eq_true _ ▸ hnot) .warn
        ("A new changed list getting from naming service name='" ++ change.service ++ "' value=" ++
          Endpoint.listText change.endpoints) none
      cases hlog.symm.trans hfails
    rw [hlog] at hlogged
    have hseen := hlogged.modifyRefresher cycle.refresher fun r =>
      r.see change.service change.endpoints
    split
    · exact absurd ⟨rfl, hlogs⟩ hstays
    · exact untold_callBack hseen _ _ _ _
    · exact untold_of_eq hseen rfl rfl

theorem untold_goOn (h : v.Mute w) {cycle : Cycle} (hstays : w.alteration? cycle = none) :
    Untold v (goOn w k cycle) := by
  rw [goOn]
  split
  · exact h.untold
  · next r hr =>
    split
    · exact (h.endCycle _ _ _).untold
    · next hgeneration =>
      split
      · exact (h.endCycle _ _ _).untold
      · next change hchange =>
        refine untold_applyChange h cycle (fun hhands => ?_) change
        have hsome := World.alteration?_eq_some.mpr
          ⟨r, change, hr, not_not.mp hgeneration, hhands.1, hhands.2, hchange, rfl⟩
        exact absurd (hstays.symm.trans hsome) (by simp)

/-! #### Answers and waiting work -/

theorem untold_answer (h : v.Mute w) (provider : String) (number : Nat) (services : List String)
    (caller : Caller) (reply : Answer) :
    Untold v (answer w k provider number services caller reply) := by
  have hcounted : v.Mute { w with callCount := w.callCount + 1 } := h.of_eq rfl rfl
  unfold answer
  cases caller with
  | binding service =>
    cases reply with
    | throws failure => exact (hcounted.endBinding _ _).untold
    | _ => exact untold_of_eq hcounted rfl rfl
  | poll refresher generation =>
    cases reply with
    | throws failure => exact (h.failCycle _ _ _).untold
    | _ => exact untold_of_eq h rfl rfl
  | refresh refresher generation =>
    cases reply with
    | throws failure => exact (hcounted.failCycle _ _ _).untold
    | _ => exact untold_of_eq hcounted rfl rfl

/-- **A piece of work that does not change the membership.** -/
theorem untold_work (h : v.Mute w) {job : Job}
    (hstays : job.alteration?.or (job.resumed?.bind w.alteration?) = none) :
    Untold v (work w k job) := by
  obtain ⟨hbinds, hresumes⟩ := Option.or_eq_none_iff.mp hstays
  unfold work
  split
  · exact (h.endBinding _ _).untold
  · cases hbinds
  · exact (h.failCycle _ _ _).untold
  · exact untold_goOn h hresumes
  · exact untold_goOn h hresumes
  · exact (h.failCycle _ _ _).untold
  · exact (h.log _ _ _).untold
  · exact untold_of_eq h rfl rfl

/-- **What returned is taken up**, where no work waits to be done first. -/
theorem untold_resume (h : v.Mute w) {f : Frame} {outcome : Outcome}
    (hjob : job? ⟨w, f :: k, .deliver outcome⟩ = none) : Untold v (resume w k outcome f) := by
  cases f with
  | script rest => exact untold_runScript (h.emit rfl) _
  | listener ending =>
    cases ending with
    | throws failure => exact (h.log _ _ _).untold
    | rejects failure => exact untold_of_eq h rfl rfl
    | returns => exact h.untold
    | pending => exact h.untold
    | deferred => exact untold_of_eq h rfl rfl
  | lookup => exact untold_answer h _ _ _ _ _
  | callback number cycle ending =>
    cases ending with
    | throws failure => exact (h.failCycle _ _ _).untold
    | _ => exact untold_of_eq h rfl rfl
  | taken cycle =>
    cases outcome with
    | ok result => exact untold_of_eq h rfl rfl
    | error failure => exact (h.failCycle _ _ _).untold
  | bound call timings =>
    cases outcome with
    | error failure => exact (h.endBinding _ _).untold
    | ok result =>
      cases timings with
      | none => exact (h.endBinding _ _).untold
      | some timings => exact ((h.startPolling _ _).endBinding _ _).untold
  | arm refresher => exact (h.armPeriod _).untold
  | advance time settling =>
    rw [resume_advance (not_waits_of_job? hjob)]
    split
    · exact untold_fire h _
    · exact untold_of_eq h rfl rfl
  | settle first =>
    rw [resume_settle hjob]
    exact h.untold

/-! #### Steps -/

theorem untold_settleListener (h : v.Mute w) (outcome : Except Failure Unit) :
    Untold v (settleListener w k outcome) := by
  rw [settleListener]
  split
  · exact h.untold
  · next left _ =>
    have hleft : v.Mute { w with deferred := left } := h.of_eq rfl rfl
    have hended : v.Mute (({ w with deferred := left } : World).emit (.listenerEnded outcome)) :=
      hleft.emit rfl
    cases outcome with
    | ok => exact hended.untold
    | error failure => exact untold_of_eq hended rfl rfl

theorem untold_performStrategy (h : v.Mute w) {s : Strategy} {step : Step}
    (hstays : step.alteration? s.rotation = none) : Untold v (performStrategy w k s step) := by
  cases step with
  | elect times =>
    rw [performStrategy]
    split
    · next elected rotation _ =>
      exact (h.modifyStrategy (f := fun s => { s with rotation := rotation }) fun _ => rfl).untold
    · exact h.untold
  | remove target =>
    rw [performStrategy, Option.map_eq_none_iff.mp hstays]
    exact h.untold
  | recover target =>
    rw [performStrategy, Option.map_eq_none_iff.mp hstays]
    exact h.untold
  | reset => cases hstays
  | rebind => exact untold_lookup h _ _ _
  | startPolling delay period => exact (h.startPolling delay period).untold
  | stopPolling => exact h.stopPolling.untold
  | close => exact h.stopPolling.untold
  | settleListener rejection => exact untold_settleListener h _
  | _ => exact h.untold

theorem untold_performRefresher (h : v.Mute w) (c : Callback) (r : Refresher) (step : Step) :
    Untold v (performRefresher w k c r step) := by
  cases step with
  | start services =>
    have hwatched (callback : Option Callback) : v.Mute { w with callback := callback } :=
      h.of_eq rfl rfl
    exact ((hwatched _).startRefresher 0 services).untold
  | stop => exact (h.stopRefresher 0).untold
  | refresh => exact untold_beginCycle h _ _
  | settleCallback which rejection =>
    rw [performRefresher, settleCallback]
    split
    · exact h.untold
    · exact untold_of_eq h rfl rfl
  | _ => exact h.untold

/-- **A step that does not change the membership.** -/
theorem untold_perform (h : v.Mute w) {step : Step}
    (hstays : (w.strategy?.bind fun s => step.alteration? s.rotation) = none) :
    Untold v (perform w k step) := by
  unfold perform
  split
  · exact h.untold
  · exact untold_of_eq h rfl rfl
  · exact untold_of_eq h rfl rfl
  · exact untold_of_eq h rfl rfl
  · exact untold_of_eq h rfl rfl
  · rw [settle]
    split
    · exact h.untold
    · exact untold_of_eq h rfl rfl
  · split
    · split
      · exact untold_performRefresher h _ _ _
      · exact h.untold
    · split
      · next s hs =>
        rw [hs, Option.bind_some] at hstays
        exact untold_performStrategy h hstays
      · exact h.untold

/-! ### Transitions that change the membership, and others -/

/-- **The change of the membership that the next transition makes**, if it makes one. -/
def alteration? (m : Machine) : Option Alteration :=
  match m.control with
  | .perform step => m.world.strategy?.bind fun s => step.alteration? s.rotation
  | .deliver _ =>
    m.job?.bind fun job => job.alteration?.or (job.resumed?.bind m.world.alteration?)

theorem alteration?_of_perform {step : Step} {s : Strategy} (hs : w.strategy? = some s) :
    alteration? ⟨w, k, .perform step⟩ = step.alteration? s.rotation := by
  show (w.strategy?.bind fun s => step.alteration? s.rotation) = _
  rw [hs, Option.bind_some]

theorem alteration?_of_job {outcome : Outcome} {job : Job}
    (hjob : job? ⟨w, k, .deliver outcome⟩ = some job) :
    alteration? ⟨w, k, .deliver outcome⟩ =
      job.alteration?.or (job.resumed?.bind w.alteration?) := by
  show ((job? ⟨w, k, .deliver outcome⟩).bind fun job =>
    job.alteration?.or (job.resumed?.bind w.alteration?)) = _
  rw [hjob, Option.bind_some]

/-! #### No change -/

/-- **A transition that does not change the membership tells nobody.** -/
theorem untold_next (h : m.alteration? = none) : Untold m.world m.next := by
  obtain ⟨w, k, step | outcome⟩ := m
  · exact untold_perform (.refl w) h
  · rcases hjob : job? ⟨w, k, .deliver outcome⟩ with _ | job
    · cases k with
      | nil => exact World.Mute.refl w
      | cons f k => exact untold_resume (.refl w) hjob
    · rw [alteration?_of_job hjob] at h
      obtain ⟨jobs, k', -, hnext⟩ := exists_next_eq_work hjob
      have hrest : w.Mute { w with jobs := jobs } := (World.Mute.refl w).of_eq rfl rfl
      rw [hnext]
      exact untold_work hrest h

/-- It replaces no targets. -/
theorem replacement?_of_stays (h : m.alteration? = none) : m.replacement? = none := by
  obtain ⟨w, k, step | outcome⟩ := m
  · rw [replacement?_of_perform rfl, Option.bind_eq_none_iff]
    intro step' hstep
    obtain ⟨hcontrol, hsome⟩ := control_of_step? hstep
    cases hcontrol
    obtain ⟨s, hs⟩ := Option.isSome_iff_exists.mp hsome
    rw [alteration?_of_perform hs] at h
    cases step with
    | reset => cases h
    | _ => rfl
  · rw [replacement?, Option.bind_eq_none_iff]
    intro job hjob
    rw [alteration?_of_job hjob, Option.or_eq_none_iff] at h
    rw [Option.or_eq_none_iff, Option.bind_eq_none_iff]
    refine ⟨?_, fun cycle hcycle => World.hands?_eq_none ?_⟩
    · obtain ⟨hbinds, -⟩ := h
      unfold Job.binds?
      split
      · cases hbinds
      · rfl
    · rw [hcycle, Option.bind_some] at h
      exact h.2

/-- **It leaves both tables alone**, with their order. -/
theorem tables_of_stays (h : m.alteration? = none) {s : Strategy} (hs : m.world.strategy = some s) :
    (m.rotate s.rotation).active = s.rotation.active ∧
      (m.rotate s.rotation).failed = s.rotation.failed := by
  have hkept := replacement?_of_stays h
  rcases hstep : m.step? with _ | step
  · rw [rotate_of_still hkept hstep]
    exact ⟨rfl, rfl⟩
  · rw [rotate_of_step hkept hstep]
    obtain ⟨w, k, c⟩ := m
    obtain ⟨hcontrol, hsome⟩ := control_of_step? hstep
    cases hcontrol
    obtain ⟨s', hs'⟩ := Option.isSome_iff_exists.mp hsome
    obtain rfl : s' = s := Option.some.inj ((Option.filter_eq_some_iff.mp hs').1.symm.trans hs)
    rw [alteration?_of_perform hs'] at h
    cases step with
    | elect times => exact tables_rotate_elect times _
    | remove target =>
      rw [Step.rotate, Option.map_eq_none_iff.mp h]
      exact ⟨rfl, rfl⟩
    | recover target =>
      rw [Step.rotate, Option.map_eq_none_iff.mp h]
      exact ⟨rfl, rfl⟩
    | _ => exact ⟨rfl, rfl⟩

/-! #### A change -/

/-- **A change is complete**, and only the listener has not been told of it yet: nobody has been
told anything, and no time has passed. -/
structure Completes (v : World) (a : Alteration) (w : World) : Prop where
  /-- Nobody has been told anything. -/
  mute : v.Mute w
  /-- No time has passed. -/
  clock : w.clock = v.clock
  /-- The strategy has the rotation that the change leads to. -/
  strategy : ∃ f : Strategy → Strategy, w.strategy = v.strategy.map f ∧
    ∀ s, (f s).rotation = a.rotation ∧ (f s).building = s.building

theorem Completes.act {a : Alteration} {f : Strategy → Strategy} (hmute : v.Mute w)
    (hclock : w.clock = v.clock) (hs : w.strategy = v.strategy)
    (hlistener : ∀ s, (f s).listener = s.listener)
    (hf : ∀ s, (f s).rotation = a.rotation ∧ (f s).building = s.building) :
    Completes v a (w.modifyStrategy f) where
  mute := hmute.modifyStrategy hlistener
  clock := hclock
  strategy := ⟨f, congrArg (Option.map f) hs, hf⟩

theorem clock_stopPolling (w : World) : w.stopPolling.clock = w.clock := by
  have hclear : ∀ (w : World) (id : Option Nat), (w.clearTimer id).clock = w.clock := by
    intro w id
    cases id <;> rfl
  rw [World.stopPolling]
  split
  · rfl
  · rw [World.stopRefresher]
    split
    · rfl
    · exact (hclear _ _).trans (hclear _ _)

theorem clock_log (w : World) (level : Level) (message : String) (failure : Option Failure) :
    (w.log level message failure).1.clock = w.clock := by
  rw [World.log]
  split
  · rfl
  · split <;> rfl

/-- A cycle logs the changed list before the strategy is reset to it. -/
theorem exists_applyChange_eq_reset (hlogs : w.logs = true) (k : List Frame) (cycle : Cycle)
    (change : Refresher.Change) :
    ∃ w' k', applyChange w k cycle .strategy change = reset w' k' change.service change.endpoints ∧
      w.Mute w' ∧ w'.clock = w.clock ∧ w'.strategy = w.strategy := by
  let message := "A new changed list getting from naming service name='" ++ change.service ++
    "' value=" ++ Endpoint.listText change.endpoints
  obtain ⟨w', hlog⟩ := World.log_of_logs hlogs .warn message none
  have hmute := (World.Mute.refl w).log .warn message none
  have hclock := clock_log w .warn message none
  have hstrategy := (w.same_log .warn message none).strategy
  rw [hlog] at hmute hclock hstrategy
  refine ⟨w'.modifyRefresher cycle.refresher fun r => r.see change.service change.endpoints,
    .taken { cycle with remaining := change.remaining } :: k, ?_, hmute.modifyRefresher _ _, hclock,
    hstrategy⟩
  simp only [applyChange]
  rw [hlog]

/-- A step that changes the membership. -/
theorem performStrategy_of_alteration {step : Step} {s : Strategy} {a : Alteration}
    (h : step.alteration? s.rotation = some a) :
    ∃ w', performStrategy w k s step = notify w' k a.change ∧ Completes w a w' := by
  cases step with
  | remove target =>
    obtain ⟨r, hr, rfl⟩ := Option.map_eq_some_iff.mp h
    rw [performStrategy, hr]
    exact ⟨_, rfl, .act (.refl w) rfl rfl (fun _ => rfl) fun _ => ⟨rfl, rfl⟩⟩
  | recover target =>
    obtain ⟨r, hr, rfl⟩ := Option.map_eq_some_iff.mp h
    rw [performStrategy, hr]
    exact ⟨_, rfl, .act (.refl w) rfl rfl (fun _ => rfl) fun _ => ⟨rfl, rfl⟩⟩
  | reset service endpoints =>
    cases h
    exact ⟨_, rfl, .act (.refl w) rfl rfl (fun _ => rfl) fun _ => ⟨rfl, rfl⟩⟩
  | _ => cases h

/-- A piece of work that changes the membership. -/
theorem work_of_alteration {job : Job} {a : Alteration}
    (h : job.alteration?.or (job.resumed?.bind w.alteration?) = some a) :
    ∃ w' k', work w k job = notify w' k' a.change ∧ Completes w a w' := by
  rcases Option.or_eq_some_iff.mp h with hbinds | ⟨-, hresumes⟩
  · unfold Job.alteration? at hbinds
    split at hbinds
    · next call service provider listing =>
      cases hbinds
      -- polling ends before the strategy is bound and its targets are replaced
      have hbound := (World.Mute.refl w).stopPolling.modifyStrategy
        (f := fun s => s.bind service provider) fun _ => rfl
      refine ⟨_, _, rfl, hbound.modifyStrategy fun _ => rfl, clock_stopPolling w,
        fun s => (s.bind service provider).replaceTargets service (listed listing service), ?_,
        fun _ => ⟨rfl, rfl⟩⟩
      exact strategy_rebound ⟨w, k, .deliver (.ok .nothing)⟩ call service provider listing
    · cases hbinds
  · obtain ⟨cycle, hcycle, hcyclea⟩ := Option.bind_eq_some_iff.mp hresumes
    obtain ⟨r, change, hr, hgeneration, hhandler, hlogs, hchange, rfl⟩ :=
      World.alteration?_eq_some.mp hcyclea
    obtain ⟨w', k', hreset, hmute, hclock, hstrategy⟩ :=
      exists_applyChange_eq_reset hlogs k cycle change
    rw [work_of_resumed hcycle, goOn_of_changed hr hgeneration hchange, hhandler, hreset]
    exact ⟨_, _, rfl, .act hmute hclock hstrategy (fun _ => rfl) fun _ => ⟨rfl, rfl⟩⟩

/-- **A transition that changes the membership completes the change and tells the listener of
it.** -/
theorem next_of_alteration {a : Alteration} (h : m.alteration? = some a) :
    ∃ w k, m.next = notify w k a.change ∧ Completes m.world a w := by
  obtain ⟨w, k, step | outcome⟩ := m
  · obtain ⟨s, hs, hstep⟩ := Option.bind_eq_some_iff.mp h
    have htouches : step.touches = true := by
      cases step <;> first | rfl | cases hstep
    obtain ⟨w', hnext, hcompletes⟩ := performStrategy_of_alteration (w := w) (k := k) hstep
    exact ⟨w', k, (next_of_strategy hs htouches).trans hnext, hcompletes⟩
  · obtain ⟨job, hjob, hjoba⟩ := Option.bind_eq_some_iff.mp h
    obtain ⟨jobs, k', -, hnext⟩ := exists_next_eq_work hjob
    obtain ⟨w', k'', hwork, hcompletes⟩ :=
      work_of_alteration (w := { w with jobs := jobs }) (k := k') hjoba
    have hrest : w.Mute { w with jobs := jobs } := (World.Mute.refl w).of_eq rfl rfl
    exact ⟨w', k'', hnext.trans hwork,
      ⟨hrest.trans hcompletes.mute, hcompletes.clock, hcompletes.strategy⟩⟩

end Machine

end Balancer.Session
