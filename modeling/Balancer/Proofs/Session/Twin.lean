import Balancer.Proofs.Session.Beat
import Balancer.Proofs.Session.Mirror

/-!
# Two sessions side by side

A session with a listener that runs no steps of its own, and the same session without it. This file
takes the functions of the machine apart and says that they do the same in both; where the listener
ends, or its rejection is logged, the session without it waits.

* `Balancer.Session.Machine.Mirrors` – **a point of the one session and one of the other.**
* `Balancer.Session.Machine.Mirrors.next` – **a transition of the one is a transition of the
  other**, unless the listener is about to end or its rejection to be logged.
* `Balancer.Session.Machine.Mirrors.wait_listener`, `wait_rejection` – then the other waits.
-/

namespace Balancer.Session

/-! ### Points of two sessions -/

/-- **A stack below a listener**: no frame of it waits for the listener, and at the bottom the work
of the step is done. -/
inductive Grounded : List Frame → Prop
  /-- The frame at the bottom. -/
  | settle (first : Option Outcome) : Grounded [.settle first]
  /-- A frame on top of others. -/
  | push {k : List Frame} (h : Grounded k) {f : Frame} (hf : f.isListener = false) :
      Grounded (f :: k)

/-- A frame at the top of a grounded stack may be replaced. -/
theorem Grounded.replace {f : Frame} {k : List Frame} (h : Grounded (f :: k)) (first : Option Outcome) :
    Grounded (.settle first :: k) := by
  cases h with
  | settle => exact .settle first
  | push h => exact h.push rfl

theorem Grounded.head {k : List Frame} (h : Grounded k) : k.head?.any Frame.isListener = false := by
  cases h with
  | settle => rfl
  | push _ hf => exact hf

/-- **A point of a session and one of the session without the listener.** -/
inductive Machine.Mirrors (rs : List Reaction) : Machine → Machine → Prop
  /-- Both go on with the same. -/
  | same {w v : World} {k : List Frame} {c : Control} (h : w.Mirrors rs 0 0 v) (hk : Grounded k) :
      Mirrors rs ⟨w, k, c⟩ ⟨v, k, c⟩
  /-- Both have finished, and no work waits. -/
  | finished {w v : World} {outcome : Outcome} (h : w.Mirrors rs 0 0 v) (hjobs : w.jobs = []) :
      Mirrors rs ⟨w, [], .deliver outcome⟩ ⟨v, [], .deliver outcome⟩
  /-- The listener has been called, and has to end. -/
  | told {w v : World} {k : List Frame} {ending : Ending}
      (h : w.Mirrors rs ending.fails.toNat ending.isDeferred.toNat v) (hk : Grounded k) :
      Mirrors rs (done w (.listener ending :: k)) (done v k)
  /-- A rejection of the listener was logged, before the other work of a step is done. -/
  | settled {w v : World} {k : List Frame} {first : Option Outcome} {outcome : Outcome}
      (h : w.Mirrors rs 0 0 v) (hk : Grounded (.settle first :: k)) :
      Mirrors rs (done w (.settle (some (first.getD outcome)) :: k))
        ⟨v, .settle first :: k, .deliver outcome⟩
  /-- The same, before the other work that is done while time passes. -/
  | advanced {w v : World} {k : List Frame} {time : Binary64} {outcome : Outcome}
      (h : w.Mirrors rs 0 0 v) (hk : Grounded (.advance time true :: k)) :
      Mirrors rs (done w (.advance time true :: k)) ⟨v, .advance time true :: k, .deliver outcome⟩

/-- A listener that runs no steps of its own. -/
def Idle (rs : List Reaction) : Prop := ∀ r ∈ rs, r.steps = []

namespace Machine

variable {rs : List Reaction} {w v : World} {k : List Frame}

/-! ### Calls of collaborators -/

theorem mirrors_runScript (h : w.Mirrors rs 0 0 v) (hk : Grounded k) (steps : List Step) :
    Mirrors rs (runScript w k steps) (runScript v k steps) := by
  cases steps with
  | nil => exact .same h hk
  | cons step rest => exact .same h (hk.push rfl)

/-- One more reaction is taken; where none is left, the default is. -/
theorem countP_take_add_one (rs : List Reaction) (n : Nat) {p : Reaction → Bool}
    (hp : p Reaction.default = false) :
    (rs.take (n + 1)).countP p =
      (rs.take n).countP p + (p ((rs.drop n).headD Reaction.default)).toNat := by
  rw [List.take_add_one, List.countP_append, List.headD_eq_head?_getD, List.head?_drop]
  rcases rs[n]? with _ | r
  · rw [Option.getD_none, hp]
    rfl
  · cases hr : p r <;> simp [hr]

/-- The listener takes its next reaction. -/
theorem mirrors_told (h : w.Mirrors rs 0 0 v) (told : Notice) :
    ((w.emit (.notice told)).modifyStrategy fun s =>
      { s with listener := some (rs.drop (w.notices.length + 1)) }).Mirrors rs
        ((rs.drop w.notices.length).headD Reaction.default).ending.fails.toNat
        ((rs.drop w.notices.length).headD Reaction.default).ending.isDeferred.toNat v := by
  let w' := (w.emit (.notice told)).modifyStrategy fun s =>
    { s with listener := some (rs.drop (w.notices.length + 1)) }
  have hnotices : w'.notices.length = w.notices.length + 1 := by
    show (w.emit (.notice told)).notices.length = _
    rw [World.notices_emit, List.length_append]
    rfl
  have hends : w'.lateEnds = w.lateEnds :=
    (w.lateEnds_emit (.notice told)).trans (List.append_nil _)
  refine ⟨?_, fun s' hs' => ?_, ?_, ?_⟩
  · rw [h.eq, ← w.deaf_emit_of_listener (e := .notice told) rfl]
    simp only [World.deaf, World.modifyStrategy, World.emit, Option.map_map]
    rfl
  · obtain ⟨s₀, -, rfl⟩ := Option.map_eq_some_iff.mp hs'
    exact congrArg (fun n => some (rs.drop n)) hnotices.symm
  · have herrors : w'.errors = w.errors := w.errors_emit (.notice told)
    have htally := h.tally
    show w'.errors + w.jobs.countP Job.isRejection + _ =
      (rs.take w'.notices.length).countP _ + w'.lateFailures
    rw [herrors, hnotices, countP_take_add_one rs _ rfl, World.lateFailures, hends,
      ← World.lateFailures]
    omega
  · have hleft := h.left
    show w.deferred + w'.lateEnds.length + _ = (rs.take w'.notices.length).countP _
    rw [hends, hnotices, countP_take_add_one rs _ rfl]
    omega

/-- **The listener is told**, and the other strategy has none. -/
theorem mirrors_notify (hidle : Idle rs) (h : w.Mirrors rs 0 0 v) (hk : Grounded k)
    (change : Membership) : Mirrors rs (notify w k change) (notify v k change) := by
  have hstrategy : v.strategy = w.strategy.map Strategy.deaf := by
    rw [h.eq]
    rfl
  rw [notify, notify, hstrategy]
  cases hs : w.strategy with
  | none => exact .same h hk
  | some s =>
    have hlistener := h.listener s hs
    cases hb : s.building with
    | true =>
      have hb' : s.deaf.building = true := hb
      simp only [Option.map_some, hb, hb', hlistener]
      exact .same h hk
    | false =>
      have hb' : s.deaf.building = false ∧ s.deaf.listener = none := ⟨hb, rfl⟩
      have hsteps : ((rs.drop w.notices.length).headD Reaction.default).steps = [] := by
        rw [List.headD_eq_head?_getD, List.head?_drop]
        rcases hr : rs[w.notices.length]? with _ | r
        · rfl
        · exact hidle r (List.mem_of_getElem? hr)
      simp only [Option.map_some, hb, hb'.1, hb'.2, hlistener, hsteps, List.tail_drop]
      exact .told (mirrors_told h _) hk

theorem mirrors_lookup (h : w.Mirrors rs 0 0 v) (hk : Grounded k) (provider : String)
    (services : List String) (caller : Caller) :
    Mirrors rs (lookup w k provider services caller) (lookup v k provider services caller) := by
  obtain rfl := h.eq
  have hcounted : ({ w with lookupCount := w.lookupCount + 1 } : World).Mirrors rs 0 0
      { w.deaf with lookupCount := w.lookupCount + 1 } := h.of_eq rfl rfl rfl rfl rfl
  have hasked := hcounted.emit (e := .lookup provider (w.lookupCount + 1) services caller) rfl
  exact mirrors_runScript (hasked.modifyProvider _ _) (hk.push rfl) _

theorem mirrors_callBack (h : w.Mirrors rs 0 0 v) (hk : Grounded k) (c : Callback) (cycle : Cycle)
    (service : String) (endpoints : List Endpoint) :
    Mirrors rs (callBack w k c cycle service endpoints) (callBack v k c cycle service endpoints) := by
  obtain rfl := h.eq
  have hcounted : ({ w with callback := some { c with
      reactions := c.reactions.tail, count := c.count + 1 } } : World).Mirrors rs 0 0
      { w.deaf with callback := some { c with
        reactions := c.reactions.tail, count := c.count + 1 } } := h.of_eq rfl rfl rfl rfl rfl
  exact mirrors_runScript (hcounted.emit rfl) (hk.push rfl) _

/-! ### Cycles and timers -/

theorem mirrors_reset (hidle : Idle rs) (h : w.Mirrors rs 0 0 v) (hk : Grounded k)
    (service : String)
    (endpoints : List Endpoint) :
    Mirrors rs (reset w k service endpoints) (reset v k service endpoints) :=
  mirrors_notify hidle (h.modifyStrategy (f := fun s => s.replaceTargets service endpoints)
    (fun _ => rfl) fun _ => rfl) hk (.reset service)

theorem mirrors_applyChange (hidle : Idle rs) (h : w.Mirrors rs 0 0 v) (hk : Grounded k)
    (cycle : Cycle) (handler : Handler) (change : Refresher.Change) :
    Mirrors rs (applyChange w k cycle handler change) (applyChange v k cycle handler change) := by
  obtain ⟨w', v', outcome, hw, hv, h'⟩ := h.log .warn (by decide)
    ("A new changed list getting from naming service name='" ++ change.service ++
      "' value=" ++ Endpoint.listText change.endpoints) none
  simp only [applyChange, hw, hv]
  cases outcome with
  | error failure => exact .same (h'.failCycle _ _ _) hk
  | ok =>
    have hseen := h'.modifyRefresher cycle.refresher fun r => r.see change.service change.endpoints
    have hcallback : (v'.modifyRefresher cycle.refresher fun r =>
        r.see change.service change.endpoints).callback = w'.callback := by
      rw [h'.eq]
      rfl
    have hcallback' : (w'.modifyRefresher cycle.refresher fun r =>
        r.see change.service change.endpoints).callback = w'.callback := rfl
    cases handler with
    | strategy => exact mirrors_reset hidle hseen (hk.push rfl) _ _
    | callback =>
      dsimp only
      rw [hcallback, hcallback']
      split
      · contradiction
      · exact mirrors_callBack hseen hk _ _ _ _
      · exact .same (hseen.enqueue rfl) hk

theorem mirrors_goOn (hidle : Idle rs) (h : w.Mirrors rs 0 0 v) (hk : Grounded k) (cycle : Cycle) :
    Mirrors rs (goOn w k cycle) (goOn v k cycle) := by
  obtain rfl := h.eq
  rcases hr : w.refreshers[cycle.refresher]? with _ | r
  · have hr' : w.deaf.refreshers[cycle.refresher]? = none := hr
    simp only [goOn, hr, hr']
    exact .same h hk
  · have hr' : w.deaf.refreshers[cycle.refresher]? = some r := hr
    simp only [goOn, hr, hr']
    split
    · exact .same (h.endCycle _ _ _) hk
    · split
      · exact .same (h.endCycle _ _ _) hk
      · exact mirrors_applyChange hidle h hk _ _ _

theorem mirrors_skipCycle (h : w.Mirrors rs 0 0 v) (hk : Grounded k) (refresher : Nat)
    (timed : Bool) :
    Mirrors rs (skipCycle w k refresher timed) (skipCycle v k refresher timed) := by
  obtain rfl := h.eq
  cases timed with
  | true => exact .same (h.endCycle _ .timer _) hk
  | false =>
    have hcounted : ({ w with callCount := w.callCount + 1 } : World).Mirrors rs 0 0
        { w.deaf with callCount := w.callCount + 1 } := h.of_eq rfl rfl rfl rfl rfl
    exact .same (hcounted.endCycle _ (.call _) _) hk

theorem mirrors_beginCycle (h : w.Mirrors rs 0 0 v) (hk : Grounded k) (number : Nat)
    (timed : Bool) :
    Mirrors rs (beginCycle w k number timed) (beginCycle v k number timed) := by
  obtain rfl := h.eq
  rcases hr : w.refreshers[number]? with _ | r
  · have hr' : w.deaf.refreshers[number]? = none := hr
    simp only [beginCycle, hr, hr']
    exact .same h hk
  · have hr' : w.deaf.refreshers[number]? = some r := hr
    simp only [beginCycle, hr, hr']
    split
    · exact mirrors_lookup h hk _ _ _
    · exact mirrors_skipCycle h hk _ _

theorem mirrors_tick (h : w.Mirrors rs 0 0 v) (hk : Grounded k) (number : Nat) :
    Mirrors rs (tick w k number) (tick v k number) := by
  obtain rfl := h.eq
  rcases hr : w.refreshers[number]? with _ | r
  · have hr' : w.deaf.refreshers[number]? = none := hr
    simp only [tick, hr, hr']
    exact .same h hk
  · have hr' : w.deaf.refreshers[number]? = some r := hr
    simp only [tick, hr, hr']
    split
    · exact .same h hk
    · exact mirrors_beginCycle (h.modifyRefresher _ _) hk _ _

/-- **A timer fires in both sessions.** -/
theorem mirrors_fire (h : w.Mirrors rs 0 0 v) (hk : Grounded k) (t : Timer) :
    Mirrors rs (fire w k t) (fire v k t) := by
  unfold fire
  dsimp only
  split
  · exact mirrors_tick ((h.reach t).modifyRefresher _ _) (hk.push rfl) _
  · exact mirrors_tick (h.reach t) hk _
  · exact .same (h.reach t) hk

/-! ### Answers and waiting work -/

theorem mirrors_answer (h : w.Mirrors rs 0 0 v) (hk : Grounded k) (provider : String) (number : Nat)
    (services : List String) (caller : Caller) (reply : Answer) :
    Mirrors rs (answer w k provider number services caller reply)
      (answer v k provider number services caller reply) := by
  obtain rfl := h.eq
  have hcounted : ({ w with callCount := w.callCount + 1 } : World).Mirrors rs 0 0
      { w.deaf with callCount := w.callCount + 1 } := h.of_eq rfl rfl rfl rfl rfl
  unfold answer
  cases caller with
  | binding service =>
    cases reply with
    | settled settlement => exact .same (hcounted.enqueue rfl) hk
    | throws failure => exact .same (hcounted.endBinding _ _) hk
    | pending => exact .same (h.of_eq rfl rfl rfl rfl rfl) hk
  | poll refresher generation =>
    cases reply with
    | settled settlement => exact .same (h.enqueue rfl) hk
    | throws failure => exact .same (h.failCycle _ _ _) hk
    | pending => exact .same (h.of_eq rfl rfl rfl rfl rfl) hk
  | refresh refresher generation =>
    cases reply with
    | settled settlement => exact .same (hcounted.enqueue rfl) hk
    | throws failure => exact .same (hcounted.failCycle _ _ _) hk
    | pending => exact .same (h.of_eq rfl rfl rfl rfl rfl) hk

/-- **A piece of waiting work is done in both sessions**, unless it logs a rejection. -/
theorem mirrors_work (hidle : Idle rs) (h : w.Mirrors rs 0 0 v) (hk : Grounded k) {job : Job}
    (hjob : job.isRejection = false) : Mirrors rs (work w k job) (work v k job) := by
  cases job with
  | answered waiter answer =>
    cases waiter with
    | binding call service provider =>
      cases answer with
      | error failure => exact .same (h.endBinding _ _) hk
      | ok listing =>
        have hbound := h.stopPolling.modifyStrategy (f := fun s => s.bind service provider)
          (fun _ => rfl) fun _ => rfl
        have hreset := mirrors_reset hidle hbound (hk.push (f := .bound call w.runningTimings) rfl)
          service (listed listing service)
        simp only [work, h.runningTimings_eq]
        exact hreset
    | cycle refresher generation origin services =>
      cases answer with
      | error failure => exact .same (h.failCycle _ _ _) hk
      | ok listing => exact mirrors_goOn hidle h hk _
  | taken cycle outcome =>
    cases outcome with
    | error failure => exact .same (h.failCycle _ _ _) hk
    | ok => exact mirrors_goOn hidle h hk _
  | rejected failure => cases hjob
  | released number => exact .same (h.modifyRefresher _ _) hk

/-! ### Steps -/

theorem mirrors_settle (h : w.Mirrors rs 0 0 v) (hk : Grounded k) (which : Which)
    (settlement : Settlement) :
    Mirrors rs (settle w k which settlement) (settle v k which settlement) := by
  obtain rfl := h.eq
  rcases hl : pick? OpenLookup.number w.lookups which with _ | l
  · have hl' : pick? OpenLookup.number w.deaf.lookups which = none := hl
    simp only [settle, hl, hl']
    exact .same h hk
  · have hl' : pick? OpenLookup.number w.deaf.lookups which = some l := hl
    simp only [settle, hl, hl']
    have hclosed : ({ w with lookups := w.lookups.filter fun m => m.number != l.number } :
        World).Mirrors rs 0 0
        { w.deaf with lookups := w.lookups.filter fun m => m.number != l.number } :=
      h.of_eq rfl rfl rfl rfl rfl
    exact .same (hclosed.enqueue rfl) hk

theorem mirrors_settleCallback (h : w.Mirrors rs 0 0 v) (hk : Grounded k) (c : Callback)
    (which : Which) (outcome : Except Failure Unit) :
    Mirrors rs (settleCallback w k c which outcome) (settleCallback v k c which outcome) := by
  obtain rfl := h.eq
  rw [settleCallback, settleCallback]
  split
  · exact .same h hk
  · next o _ =>
    have hclosed : ({ w with callback := some { c with
        pending := c.pending.filter fun p => p.number != o.number } } : World).Mirrors rs 0 0
        { w.deaf with callback := some { c with
          pending := c.pending.filter fun p => p.number != o.number } } := h.of_eq rfl rfl rfl rfl rfl
    exact .same (hclosed.enqueue rfl) hk

/-- A call of the listener ends that was left to a step; without the listener there is none. -/
theorem mirrors_settleListener (h : w.Mirrors rs 0 0 v) (hk : Grounded k)
    (outcome : Except Failure Unit) :
    Mirrors rs (settleListener w k outcome) (settleListener v k outcome) := by
  have hnone : settleListener v k outcome = done v k := by
    rw [h.eq]
    rfl
  rw [hnone, settleListener]
  split
  · exact .same h hk
  · next left hdeferred =>
    cases outcome with
    | ok => exact .same (h.endLate hdeferred (.ok ())) hk
    | error failure =>
      exact .same (World.Mirrors.reject (h.endLate hdeferred (.error failure)) failure) hk

theorem mirrors_changeMembership (hidle : Idle rs) (h : w.Mirrors rs 0 0 v) (hk : Grounded k)
    (rotation : Option Rotation) (change : Membership) :
    Mirrors rs (changeMembership w k rotation change) (changeMembership v k rotation change) := by
  cases rotation with
  | none => exact .same h hk
  | some rotation =>
    exact mirrors_notify hidle (h.modifyStrategy (f := fun s => { s with rotation := rotation })
      (fun _ => rfl) fun _ => rfl) hk change

/-- **A step on the strategy does the same in both sessions.** -/
theorem mirrors_performStrategy (hidle : Idle rs) (h : w.Mirrors rs 0 0 v) (hk : Grounded k)
    (s : Strategy) (step : Step) :
    Mirrors rs (performStrategy w k s step) (performStrategy v k s.deaf step) := by
  cases step with
  | elect times =>
    have hrotation : s.deaf.rotation = s.rotation := rfl
    rw [performStrategy, performStrategy, hrotation]
    split
    · next elected rotation _ =>
      exact .same (h.modifyStrategy (f := fun s => { s with rotation := rotation })
        (fun _ => rfl) fun _ => rfl) hk
    · exact .same h hk
  | remove target => exact mirrors_changeMembership hidle h hk _ _
  | recover target => exact mirrors_changeMembership hidle h hk _ _
  | reset service endpoints => exact mirrors_reset hidle h hk _ _
  | rebind service provider => exact mirrors_lookup h hk _ _ _
  | startPolling delay period =>
    obtain ⟨w', v', outcome, hw, hv, h'⟩ := h.startPolling delay period
    rw [performStrategy, performStrategy, hw, hv]
    exact .same h' hk
  | stopPolling => exact .same h.stopPolling hk
  | close => exact .same h.stopPolling hk
  | settleListener rejection => exact mirrors_settleListener h hk _
  | _ => exact .same h hk

theorem mirrors_performRefresher (h : w.Mirrors rs 0 0 v) (hk : Grounded k) (c : Callback)
    (r : Refresher) (step : Step) :
    Mirrors rs (performRefresher w k c r step) (performRefresher v k c r step) := by
  cases step with
  | start services =>
    obtain rfl := h.eq
    have hwatched (callback : Option Callback) : ({ w with callback := callback } : World).Mirrors rs 0 0
        { w.deaf with callback := callback } := h.of_eq rfl rfl rfl rfl rfl
    exact .same ((hwatched _).startRefresher 0 services) hk
  | stop => exact .same (h.stopRefresher 0) hk
  | refresh => exact mirrors_beginCycle h hk _ _
  | settleCallback which rejection => exact mirrors_settleCallback h hk _ _ _
  | _ => exact .same h hk

/-- **A step does the same in both sessions.** -/
theorem mirrors_perform (hidle : Idle rs) (h : w.Mirrors rs 0 0 v) (hk : Grounded k) (step : Step) :
    Mirrors rs (perform w k step) (perform v k step) := by
  obtain rfl := h.eq
  unfold perform
  split
  · exact .same h (hk.push rfl)
  · exact .same (h.of_eq rfl rfl rfl rfl rfl) hk
  · exact .same (h.modifyProvider _ _) hk
  · exact .same (h.modifyProvider _ _) hk
  · exact .same (h.modifyProvider _ _) hk
  · exact mirrors_settle h hk _ _
  · split
    · have hcallback : w.deaf.callback = w.callback := rfl
      have hrefreshers : w.deaf.refreshers = w.refreshers := rfl
      rw [hcallback, hrefreshers]
      split
      · exact mirrors_performRefresher h hk _ _ _
      · exact .same h hk
    · have hdeaf : w.deaf.strategy? = w.strategy?.map Strategy.deaf := by
        rw [World.strategy?, World.strategy?, World.deaf, Option.filter_map]
        rfl
      rw [hdeaf]
      cases w.strategy? with
      | some s => exact mirrors_performStrategy hidle h hk s step
      | none => exact .same h hk

/-! ### Resuming -/

/-- Time passes: the next timer fires in both sessions, or the end of the wait has come. -/
theorem mirrors_resume_advance (h : w.Mirrors rs 0 0 v) (hk : Grounded k) {time : Binary64}
    {settling : Bool} {outcome : Outcome}
    (hjob : job? ⟨w, .advance time settling :: k, .deliver outcome⟩ = none) :
    Mirrors rs (resume w k outcome (.advance time settling))
      (resume v k outcome (.advance time settling)) := by
  obtain rfl := h.eq
  have hjobs : settling = true → w.jobs = [] := by
    rintro rfl
    exact List.head?_eq_none_iff.mp hjob
  have hjobs' : settling = true → w.deaf.jobs = [] := by
    intro hsettling
    rw [World.deaf, hjobs hsettling]
    rfl
  have htimers : w.deaf.timers = w.timers := rfl
  rw [resume_advance fun hne => hne.2 (hjobs hne.1), resume_advance fun hne => hne.2 (hjobs' hne.1),
    htimers]
  split
  · exact mirrors_fire h (hk.push rfl) _
  · exact .same (h.of_eq rfl rfl rfl rfl rfl) hk

/-- The work of a step is done in both sessions. -/
theorem mirrors_resume_settle (h : w.Mirrors rs 0 0 v) {first : Option Outcome}
    (hk : Grounded (.settle first :: k)) {outcome : Outcome}
    (hjob : job? ⟨w, .settle first :: k, .deliver outcome⟩ = none) :
    Mirrors rs (resume w k outcome (.settle first)) (resume v k outcome (.settle first)) := by
  obtain rfl := h.eq
  have hjobs : w.jobs = [] := List.head?_eq_none_iff.mp hjob
  have hjobs' : w.deaf.jobs = [] := by
    rw [World.deaf, hjobs]
    rfl
  simp only [resume, hjobs, hjobs']
  cases hk with
  | settle => exact .finished h hjobs
  | push hk => exact .same h hk

/-- **What returned is taken up in both sessions**, where no work waits to be done first. -/
theorem mirrors_resume (h : w.Mirrors rs 0 0 v) {f : Frame} {outcome : Outcome}
    (hk : Grounded (f :: k)) (hjob : job? ⟨w, f :: k, .deliver outcome⟩ = none) :
    Mirrors rs (resume w k outcome f) (resume v k outcome f) := by
  cases hk with
  | settle first => exact mirrors_resume_settle h (.settle first) hjob
  | push hk hf =>
    cases f with
    | script rest => exact mirrors_runScript (h.emit rfl) hk _
    | listener => cases hf
    | lookup => exact mirrors_answer h hk _ _ _ _ _
    | callback number cycle ending =>
      cases ending with
      | returns => exact .same (h.enqueue rfl) hk
      | throws failure => exact .same (h.failCycle _ _ _) hk
      | rejects failure => exact .same (h.enqueue rfl) hk
      | pending | deferred =>
        obtain rfl := h.eq
        exact .same (h.of_eq rfl rfl rfl rfl rfl) hk
    | taken cycle =>
      cases outcome with
      | ok result => exact .same (h.enqueue rfl) hk
      | error failure => exact .same (h.failCycle _ _ _) hk
    | bound call timings =>
      cases outcome with
      | error failure => exact .same (h.endBinding _ _) hk
      | ok result =>
        cases timings with
        | none => exact .same (h.endBinding _ _) hk
        | some timings =>
          obtain ⟨w', v', started, hw, hv, h'⟩ := h.startPolling (some timings.delay)
            (some timings.period)
          simp only [resume, hw, hv]
          exact .same (h'.endBinding _ _) hk
    | arm refresher => exact .same (h.armPeriod _) hk
    | advance time settling => exact mirrors_resume_advance h hk hjob
    | settle first => exact mirrors_resume_settle h (hk.push hf) hjob

/-! ### Transitions -/

/-- The listener is about to end. -/
def hears (m : Machine) : Bool := m.stack.head?.any Frame.isListener

theorem next_settle {job : Job} {jobs : List Job} (hjobs : w.jobs = job :: jobs)
    (first : Option Outcome) (outcome : Outcome) :
    next ⟨w, .settle first :: k, .deliver outcome⟩ =
      work { w with jobs := jobs } (.settle (some (first.getD outcome)) :: k) job := by
  simp only [next, resume, hjobs]

theorem next_advance {job : Job} {jobs : List Job} (hjobs : w.jobs = job :: jobs)
    (time : Binary64) (outcome : Outcome) :
    next ⟨w, .advance time true :: k, .deliver outcome⟩ =
      work { w with jobs := jobs } (.advance time true :: k) job := by
  simp only [next, resume, hjobs]

/-- Where a piece of work waits, it is done in both sessions. -/
theorem mirrors_next_of_job (hidle : Idle rs) (h : w.Mirrors rs 0 0 v) (hk : Grounded k)
    {outcome : Outcome} {job : Job} (hjob : job? ⟨w, k, .deliver outcome⟩ = some job)
    (hstays : job.isRejection = false) :
    Mirrors rs (next ⟨w, k, .deliver outcome⟩) (next ⟨v, k, .deliver outcome⟩) := by
  unfold job? at hjob
  split at hjob
  · next w first k outcome heq =>
    cases heq
    obtain ⟨jobs, hjobs⟩ := List.head?_eq_some_iff.mp hjob
    obtain ⟨jobs', hjobs', h'⟩ := h.dequeue hjobs hstays
    rw [next_settle hjobs, next_settle hjobs']
    exact mirrors_work hidle h' (hk.replace _) hstays
  · next w time k outcome heq =>
    cases heq
    obtain ⟨jobs, hjobs⟩ := List.head?_eq_some_iff.mp hjob
    obtain ⟨jobs', hjobs', h'⟩ := h.dequeue hjobs hstays
    rw [next_advance hjobs, next_advance hjobs']
    exact mirrors_work hidle h' hk hstays
  · cases hjob

/-- **Both go on with the same**, unless a rejection of the listener is to be logged. -/
theorem mirrors_next (hidle : Idle rs) (h : w.Mirrors rs 0 0 v) (hk : Grounded k) (c : Control)
    (hjob : (job? ⟨w, k, c⟩).any Job.isRejection = false) :
    Mirrors rs (next ⟨w, k, c⟩) (next ⟨v, k, c⟩) := by
  cases c with
  | perform step => exact mirrors_perform hidle h hk step
  | deliver outcome =>
    rcases hsome : job? ⟨w, k, .deliver outcome⟩ with _ | job
    · cases k with
      | nil => cases hk
      | cons f k => exact mirrors_resume h hk hsome
    · rw [hsome] at hjob
      exact mirrors_next_of_job hidle h hk hsome hjob

/-- **A transition of the one session is a transition of the other**, unless the listener is about
to end, or a rejection of it to be logged. -/
theorem Mirrors.next {m n : Machine} (h : Mirrors rs m n) (hidle : Idle rs)
    (hhears : m.hears = false) (hjob : m.job?.any Job.isRejection = false) :
    Mirrors rs m.next n.next := by
  cases h with
  | same h hk => exact mirrors_next hidle h hk _ hjob
  | finished h hjobs => exact .finished h hjobs
  | told => cases hhears
  -- a frame that has its outcome, or needs none, takes up any other one in the same way
  | @settled w v k first outcome h hk =>
    exact mirrors_next hidle h hk (.deliver outcome) hjob
  | @advanced w v k time outcome h hk =>
    exact mirrors_next hidle h hk (.deliver outcome) hjob

/-- **The listener ends**: it has failed, will have rejected, is left to a step, or none of
these. -/
theorem Mirrors.wait_listener {m n : Machine} (h : Mirrors rs m n) (hhears : m.hears = true)
    (hlogs : m.world.logs = true) : Mirrors rs m.next n ∧ m.next.hears = false := by
  cases h with
  | same h hk => exact absurd (hhears.symm.trans hk.head) (by simp)
  | told h hk =>
    rename_i w v k ending
    cases ending with
    | returns => exact ⟨.same h hk, hk.head⟩
    | pending => exact ⟨.same h hk, hk.head⟩
    | deferred => exact ⟨.same (World.Mirrors.defer h) hk, hk.head⟩
    | rejects failure => exact ⟨.same (World.Mirrors.reject h failure) hk, hk.head⟩
    | throws failure =>
      obtain ⟨e, hlog, he⟩ := World.exists_log_error hlogs listenerFailed (some failure)
      have hnext : Machine.next (done w (.listener (.throws failure) :: k)) = done (w.emit e) k := by
        show finish (w.log .error listenerFailed (some failure)) k = _
        have hlog' : w.log .error listenerFailed (some failure) = (w.emit e, .ok ()) := hlog
        rw [hlog']
        rfl
      rw [hnext]
      exact ⟨.same (World.Mirrors.complain h he) hk, hk.head⟩
  | finished => cases hhears
  | settled => cases hhears
  | advanced => cases hhears

/-- What waits as a rejection is logged as an error. -/
theorem work_of_rejection (h : w.Mirrors rs 0 0 v) {failure : Failure} {jobs : List Job}
    (hjobs : w.jobs = .rejected failure :: jobs) (hlogs : w.logs = true) (k : List Frame) :
    ∃ w', work { w with jobs := jobs } k (.rejected failure) = done w' k ∧ w'.Mirrors rs 0 0 v ∧
      w'.jobs.length < w.jobs.length := by
  obtain ⟨e, hlog, he⟩ := World.exists_log_error (w := { w with jobs := jobs }) hlogs listenerFailed
    (some failure)
  refine ⟨({ w with jobs := jobs } : World).emit e, ?_,
    World.Mirrors.complain (h.dequeue_rejection hjobs) he, ?_⟩
  · rw [work, hlog]
  · rw [hjobs]
    exact Nat.lt_succ_self _

/-- The same where the work of a step is done. -/
theorem wait_at_settle (h : w.Mirrors rs 0 0 v) {first first' : Option Outcome}
    {outcome outcome' : Outcome} (hk : Grounded (.settle first' :: k))
    (hfirst : first.getD outcome = first'.getD outcome') {failure : Failure}
    (hjob : w.jobs.head? = some (.rejected failure)) (hlogs : w.logs = true) :
    let m : Machine := ⟨w, .settle first :: k, .deliver outcome⟩
    Mirrors rs m.next ⟨v, .settle first' :: k, .deliver outcome'⟩ ∧ m.next.hears = false ∧
      m.next.world.jobs.length < w.jobs.length := by
  obtain ⟨jobs, hjobs⟩ := List.head?_eq_some_iff.mp hjob
  obtain ⟨w', hwork, h', hless⟩ := work_of_rejection h hjobs hlogs
    (.settle (some (first'.getD outcome')) :: k)
  dsimp only
  rw [next_settle hjobs, hfirst, hwork]
  exact ⟨.settled h' hk, rfl, hless⟩

/-- The same while time passes. -/
theorem wait_at_advance (h : w.Mirrors rs 0 0 v) {time : Binary64} (outcome outcome' : Outcome)
    (hk : Grounded (.advance time true :: k)) {failure : Failure}
    (hjob : w.jobs.head? = some (.rejected failure)) (hlogs : w.logs = true) :
    let m : Machine := ⟨w, .advance time true :: k, .deliver outcome⟩
    Mirrors rs m.next ⟨v, .advance time true :: k, .deliver outcome'⟩ ∧ m.next.hears = false ∧
      m.next.world.jobs.length < w.jobs.length := by
  obtain ⟨jobs, hjobs⟩ := List.head?_eq_some_iff.mp hjob
  obtain ⟨w', hwork, h', hless⟩ := work_of_rejection h hjobs hlogs (.advance time true :: k)
  dsimp only
  rw [next_advance hjobs, hwork]
  exact ⟨.advanced h' hk, rfl, hless⟩

/-- **A rejection of the listener is logged**, and less work waits then. -/
theorem Mirrors.wait_rejection {m n : Machine} (h : Mirrors rs m n) {failure : Failure}
    (hhears : m.hears = false) (hjob : m.job? = some (.rejected failure))
    (hlogs : m.world.logs = true) :
    Mirrors rs m.next n ∧ m.next.hears = false ∧
      m.next.world.jobs.length < m.world.jobs.length := by
  cases h with
  | @same w v k c h hk =>
    unfold job? at hjob
    split at hjob
    · next w first k outcome heq =>
      cases heq
      exact wait_at_settle h hk rfl hjob hlogs
    · next w time k outcome heq =>
      cases heq
      exact wait_at_advance h outcome outcome hk hjob hlogs
    · cases hjob
  | finished => cases hjob
  | told => cases hhears
  | settled h hk => exact wait_at_settle h hk rfl hjob hlogs
  | advanced h hk => exact wait_at_advance h _ _ hk hjob hlogs

end Machine

end Balancer.Session
