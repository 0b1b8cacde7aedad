import Balancer.Proofs.Session.Played
import Balancer.Proofs.Session.Rebinding

/-!
# The first lookup of a strategy

A strategy follows a service from the beginning, or it is made with no targets and then bound to the
service. Either way the naming service is asked once, and until the lookup has ended the two
sessions go on in the same way, whatever happens in them, as long as no step is made on a strategy
that is not there yet: nothing polls, no timer is set and no listener is called. If the lookup fails
both calls fail, in the same way; otherwise both strategies take the same list, and only that of the
second session tells its listener.

* `Balancer.Session.reboundMachine` – **a strategy of no targets that is bound to a service.**
* `Balancer.Session.World.Seeks` – **what is known while the lookup has not ended.**
* `Balancer.Session.Machine.Seeks` – the two sessions side by side.
* `Balancer.Session.Machine.Seeks.next` – **until the lookup returns a list they do the same.**
* `Balancer.Session.Machine.Seeks.exists_found` – **then both take it.**
-/

namespace Balancer.Session

/-! ### The two ways -/

/-- The options with the listener as it is after one call. -/
def Options.heard (o : Options) : Options := { o with listener := o.listener.map List.tail }

/-- Whether a step needs a strategy. -/
def Step.needsStrategy : Step → Bool
  | .advance _ | .configure _ | .register .. | .unregister .. | .prepare .. | .settle .. => false
  | step => !step.drivesRefresher

/-! ### The lookup -/

/-- **What has become of the first lookup** while it has returned no list. -/
inductive LookupState
  /-- The naming service has not answered it yet. -/
  | unanswered
  /-- It is open. -/
  | pending (number : Nat) (services : List String)
  /-- Its answer waits. -/
  | answered (answer : Except Failure (Option Listing))
  /-- It has failed, and its call with it. -/
  | failed (cause : Failure)

namespace LookupState

/-- How many lookups have to be answered. -/
def unansweredCount : LookupState → Nat
  | unanswered => 1
  | _ => 0

/-- The lookups that are open. -/
def lookups (service provider : String) : LookupState → List OpenLookup
  | pending number services => [⟨number, provider, services, .binding 1 service provider⟩]
  | _ => []

/-- The work that waits. -/
def jobs (service provider : String) : LookupState → List Job
  | answered answer => [.answered (.binding 1 service provider) answer]
  | _ => []

/-- The strategy that is to be built; if the lookup has failed, it is gone. -/
def strategy (o : Options) : LookupState → Option Strategy
  | failed _ => none
  | _ => some (.awaiting o)

/-- The calls that have ended. -/
def endings (service : String) : LookupState → List (Nat × Except Failure Unit)
  | failed cause => [(1, .error (.ofLookup service cause))]
  | _ => []

end LookupState

/-! ### Lookups and the ends of calls -/

/-- The naming service that is asked by an event, and what it is asked for. -/
def Event.lookup? : Event → Option (String × List String)
  | .lookup provider _ services _ => some (provider, services)
  | _ => none

namespace World

/-- **The lookups that have been made**, each with the naming service and the services asked for. -/
def sought (w : World) : List (String × List String) := w.trace.toList.filterMap Event.lookup?

/-- **The calls that have ended**, with what they have ended with. -/
def endings (w : World) : List (Nat × Except Failure Unit) := w.trace.toList.filterMap Event.ending?

theorem sought_emit (w : World) (e : Event) : (w.emit e).sought = w.sought ++ e.lookup?.toList := by
  rw [sought, emit, Array.toList_push, List.filterMap_append, sought, List.filterMap_cons]
  cases e.lookup? <;> rfl

theorem endings_emit (w : World) (e : Event) :
    (w.emit e).endings = w.endings ++ e.ending?.toList := by
  rw [endings, emit, Array.toList_push, List.filterMap_append, endings, List.filterMap_cons]
  cases e.ending? <;> rfl

/-- A call that binds a strategy ends, and nothing else happens. -/
theorem endings_endBinding (w : World) (call : Nat) (outcome : Except Failure Unit) :
    (w.endBinding call outcome).endings = w.endings ++ [(call, outcome)] ∧
      (w.endBinding call outcome).sought = w.sought ∧
      (w.endBinding call outcome).notices = w.notices := by
  unfold endBinding endCall
  exact ⟨endings_emit .., (sought_emit ..).trans (List.append_nil _),
    (notices_emit ..).trans (List.append_nil _)⟩

/-! ### While the lookup has returned no list -/

/-- The same world with a strategy of no targets in it. -/
def vacant (w : World) (o : Options) : World :=
  { w with strategy := some (.ofWeights o Table.empty) }

/-- **What is known while the first lookup has returned no list.** -/
structure Seeks (o : Options) (service provider : String) (q : LookupState) (w : World) : Prop where
  /-- The strategy is building, or gone. -/
  strategy : w.strategy = q.strategy o.heard
  /-- No other lookup is open. -/
  lookups : w.lookups = q.lookups service provider
  /-- No other work waits. -/
  jobs : w.jobs = q.jobs service provider
  /-- The call gets its number with the answer. -/
  calls : q.unansweredCount + w.callCount = 1
  /-- The call has ended only if the lookup has failed. -/
  endings : w.endings = q.endings service
  /-- One lookup was made, for the service alone. -/
  sought : w.sought = [(provider, [service])]
  /-- Nothing polls. -/
  refreshers : w.refreshers = []
  /-- No refresher is driven directly. -/
  callback : w.callback = none
  /-- No timer is set. -/
  timers : w.timers = []
  /-- The listener was not called. -/
  notices : w.notices = []

variable {o : Options} {service provider : String} {q q' : LookupState} {w w' : World}

/-- The lookup comes on, without anything happening. -/
theorem Seeks.advance (h : w.Seeks o service provider q)
    (hstrategy : w'.strategy = q'.strategy o.heard)
    (hlookups : w'.lookups = q'.lookups service provider)
    (hjobs : w'.jobs = q'.jobs service provider) (hcalls : q'.unansweredCount + w'.callCount = 1)
    (hendings : q'.endings service = q.endings service)
    (htrace : w'.trace = w.trace) (hrefreshers : w'.refreshers = w.refreshers)
    (hcallback : w'.callback = w.callback) (htimers : w'.timers = w.timers) :
    w'.Seeks o service provider q' where
  strategy := hstrategy
  lookups := hlookups
  jobs := hjobs
  calls := hcalls
  endings := by
    rw [hendings, World.endings, htrace]
    exact h.endings
  sought := by
    rw [World.sought, htrace]
    exact h.sought
  refreshers := hrefreshers.trans h.refreshers
  callback := hcallback.trans h.callback
  timers := htimers.trans h.timers
  notices := (notices_of_trace htrace).trans h.notices

/-- The world around the lookup changes. -/
theorem Seeks.of_eq (h : w.Seeks o service provider q) (hstrategy : w'.strategy = w.strategy)
    (hlookups : w'.lookups = w.lookups) (hjobs : w'.jobs = w.jobs)
    (hcalls : w'.callCount = w.callCount) (htrace : w'.trace = w.trace)
    (hrefreshers : w'.refreshers = w.refreshers) (hcallback : w'.callback = w.callback)
    (htimers : w'.timers = w.timers) : w'.Seeks o service provider q :=
  h.advance (hstrategy.trans h.strategy) (hlookups.trans h.lookups) (hjobs.trans h.jobs)
    (hcalls ▸ h.calls) rfl htrace hrefreshers hcallback htimers

/-- The end of a step inside a script is noted. -/
theorem Seeks.emit_nested (h : w.Seeks o service provider q) (outcome : Outcome) :
    (w.emit (.nested outcome)).Seeks o service provider q :=
  { h with
    endings := (w.endings_emit _).trans ((List.append_nil _).trans h.endings)
    sought := (w.sought_emit _).trans ((List.append_nil _).trans h.sought)
    notices := (w.notices_emit _).trans ((List.append_nil _).trans h.notices) }

/-- **The lookup fails**, and the call with it. -/
theorem Seeks.fail (h : w.Seeks o service provider q) (w' : World)
    (hbuilding : w'.strategy = some (.awaiting o.heard)) (hendings : q.endings service = [])
    (hlookups : w'.lookups = []) (hjobs : w'.jobs = []) (hcalls : w'.callCount = 1)
    (htrace : w'.trace = w.trace) (hrefreshers : w'.refreshers = w.refreshers)
    (hcallback : w'.callback = w.callback) (htimers : w'.timers = w.timers) (cause : Failure) :
    (w'.endBinding 1 (.error (.ofLookup service cause))).Seeks o service provider
      (.failed cause) := by
  obtain ⟨hended, hsought, hnotices⟩ := w'.endings_endBinding 1 (.error (.ofLookup service cause))
  have hgone : w'.strategy.filter (fun s => !s.building) = none := by
    rw [hbuilding]
    rfl
  have hnone : w'.endings = [] := by
    rw [World.endings, htrace]
    exact h.endings.trans hendings
  have hone : w'.sought = [(provider, [service])] := by
    rw [World.sought, htrace]
    exact h.sought
  exact ⟨hgone, hlookups, hjobs, (Nat.zero_add _).trans hcalls, hended.trans (by rw [hnone]; rfl),
    hsought.trans hone, hrefreshers.trans h.refreshers, hcallback.trans h.callback,
    htimers.trans h.timers, hnotices.trans ((notices_of_trace htrace).trans h.notices)⟩

end World

namespace Machine

variable {o : Options} {service provider : String} {q : LookupState} {w : World} {k : List Frame}
  {a b : Machine}

/-! ### The two sessions side by side -/

/-- **What remains to be done while the first lookup has returned no list**: some steps, and a
number of lookups that have to be answered. -/
inductive Seeking (service provider : String) : Nat → List Frame → Prop
  /-- Nothing. -/
  | nil : Seeking service provider 0 []
  /-- The rest of a script. -/
  | script {n : Nat} {k : List Frame} (h : Seeking service provider n k) (rest : List Step) :
      Seeking service provider n (.script rest :: k)
  /-- A wait. -/
  | advance {n : Nat} {k : List Frame} (h : Seeking service provider n k) (time : Binary64)
      (settling : Bool) : Seeking service provider n (.advance time settling :: k)
  /-- The work of a step. -/
  | settle {n : Nat} {k : List Frame} (h : Seeking service provider n k) (first : Option Outcome) :
      Seeking service provider n (.settle first :: k)
  /-- A lookup, which the naming service answers. -/
  | lookup {n : Nat} {k : List Frame} (h : Seeking service provider n k) (number : Nat)
      (services : List String) (reply : Answer) :
      Seeking service provider (n + 1)
        (.lookup provider number services (.binding service) reply :: k)

/-- **The two sessions while the first lookup has returned no list**: they have the same to do, in
worlds that differ in the strategy alone, which is building in the one and has no targets in the
other. -/
inductive Seeks (o : Options) (service provider : String) : Machine → Machine → Prop
  /-- Both go on with the same. -/
  | mk {q : LookupState} {w : World} {k : List Frame} {c : Control}
      (h : w.Seeks o service provider q) (hk : Seeking service provider q.unansweredCount k) :
      Seeks o service provider ⟨w, k, c⟩ ⟨w.vacant o, k, c⟩

theorem seeks_runScript (h : w.Seeks o service provider q)
    (hk : Seeking service provider q.unansweredCount k) (steps : List Step) :
    Seeks o service provider (runScript w k steps) (runScript (w.vacant o) k steps) := by
  cases steps with
  | nil => exact .mk h hk
  | cons step rest => exact .mk h (hk.script rest)

theorem seeks_settle (h : w.Seeks o service provider q)
    (hk : Seeking service provider q.unansweredCount k) (which : Which) (settlement : Settlement) :
    Seeks o service provider (settle w k which settlement)
      (settle (w.vacant o) k which settlement) := by
  have hlookups : (w.vacant o).lookups = w.lookups := rfl
  simp only [settle, hlookups]
  cases hl : pick? OpenLookup.number w.lookups which with
  | none => exact .mk h hk
  | some l =>
    have hmem : l ∈ q.lookups service provider := h.lookups ▸ mem_of_pick? hl
    cases q with
    | pending number services =>
      obtain rfl := List.mem_singleton.mp hmem
      let v : World := { w with lookups := w.lookups.filter fun m => m.number != number }
      refine .mk (q := .answered (settlementOf v provider services settlement))
        (h.advance h.strategy ?_ ?_ h.calls rfl rfl rfl rfl rfl) hk
      · show w.lookups.filter (fun m => m.number != number) = []
        rw [h.lookups, LookupState.lookups, List.filter_singleton, bne_self_eq_false]
        rfl
      · show w.jobs ++ _ = _
        rw [h.jobs]
        rfl
    | _ => cases hmem

/-- **A step that needs no strategy does the same in both sessions.** -/
theorem seeks_perform (h : w.Seeks o service provider q)
    (hk : Seeking service provider q.unansweredCount k) {step : Step}
    (hstep : step.needsStrategy = false) :
    Seeks o service provider (perform w k step) (perform (w.vacant o) k step) := by
  have hcallback : (w.vacant o).callback = none := h.callback
  cases step with
  | advance ms => exact .mk h (hk.advance _ _)
  | configure settings => exact .mk (h.of_eq rfl rfl rfl rfl rfl rfl rfl rfl) hk
  | register provider' service' endpoints => exact .mk (h.of_eq rfl rfl rfl rfl rfl rfl rfl rfl) hk
  | unregister provider' service' => exact .mk (h.of_eq rfl rfl rfl rfl rfl rfl rfl rfl) hk
  | prepare provider' responses => exact .mk (h.of_eq rfl rfl rfl rfl rfl rfl rfl rfl) hk
  | settle which settlement => exact seeks_settle h hk which settlement
  | start | stop | isRunning | refresh | snapshot | settleCallback =>
    -- no refresher is driven directly
    simp only [perform, Step.drivesRefresher, if_true, h.callback, hcallback]
    exact .mk h hk
  | _ => cases hstep

/-! ### Answers and waiting work -/

/-- **The naming service answers in both sessions.** -/
theorem seeks_answer (h : w.Seeks o service provider q) {n : Nat} (hq : q.unansweredCount = n + 1)
    (hk : Seeking service provider n k) (number : Nat) (services : List String) (reply : Answer) :
    Seeks o service provider (answer w k provider number services (.binding service) reply)
      (answer (w.vacant o) k provider number services (.binding service) reply) := by
  cases q with
  | unanswered =>
    cases hq
    have hcalls : w.callCount = 0 := Nat.add_left_cancel h.calls
    have hcounted : w.callCount + 1 = 1 := by rw [hcalls]
    have hcalls' : (w.vacant o).callCount + 1 = 1 := hcounted
    simp only [answer, hcounted, hcalls']
    cases reply with
    | settled settlement =>
      let v : World := { w with callCount := 1 }
      refine .mk (q := .answered (settlementOf v provider services settlement))
        (h.advance h.strategy h.lookups ?_ rfl rfl rfl rfl rfl rfl) hk
      show w.jobs ++ _ = _
      rw [h.jobs]
      rfl
    | pending =>
      refine .mk (q := .pending number services)
        (h.advance h.strategy ?_ h.jobs rfl rfl rfl rfl rfl rfl) hk
      show w.lookups ++ _ = _
      rw [h.lookups]
      rfl
    | throws cause =>
      exact .mk (h.fail { w with callCount := 1 } h.strategy rfl h.lookups h.jobs rfl rfl rfl rfl
        rfl cause) hk
  | _ => cases hq

/-! ### Transitions -/

/-- What waits is the answer of the lookup. -/
theorem exists_answered {job : Job} (h : w.Seeks o service provider q) {c : Control}
    (hjob : job? ⟨w, k, c⟩ = some job) :
    ∃ answer, q = .answered answer ∧ job = .answered (.binding 1 service provider) answer := by
  obtain ⟨jobs, hjobs, -⟩ := next_eq_work hjob
  have hmem : job ∈ q.jobs service provider := h.jobs ▸ hjobs ▸ List.mem_cons_self
  cases q with
  | answered answer => exact ⟨answer, rfl, List.mem_singleton.mp hmem⟩
  | _ => cases hmem

/-- **Where no work is done, what returned is taken up in both sessions.** -/
theorem seeks_resume (h : w.Seeks o service provider q)
    (hk : Seeking service provider q.unansweredCount k) {outcome : Outcome}
    (hjob : job? ⟨w, k, .deliver outcome⟩ = none) :
    Seeks o service provider (next ⟨w, k, .deliver outcome⟩)
      (next ⟨w.vacant o, k, .deliver outcome⟩) := by
  generalize hq : q.unansweredCount = n at hk
  cases hk with
  | nil => exact .mk h (hq ▸ .nil)
  | script hk rest => exact seeks_runScript (h.emit_nested outcome) (hq ▸ hk) rest
  | lookup hk number services reply => exact seeks_answer h hq hk number services reply
  | settle hk first =>
    have hjobs : w.jobs = [] := List.head?_eq_none_iff.mp hjob
    have hjobs' : (w.vacant o).jobs = [] := hjobs
    simp only [next, resume, hjobs, hjobs']
    exact .mk h (hq ▸ hk)
  | advance hk time settling =>
    have hidle := not_waits_of_job? hjob
    have hnone : Timer.firstDue? w.timers time = none := by
      rw [h.timers]
      rfl
    have hnone' : Timer.firstDue? (w.vacant o).timers time = none := hnone
    simp only [next]
    rw [resume_advance hidle, resume_advance (w := w.vacant o) hidle, hnone, hnone']
    exact .mk (h.of_eq rfl rfl rfl rfl rfl rfl rfl rfl) (hq ▸ hk)

/-- The frame that does the waiting work stays. -/
theorem seeking_rested {n : Nat} {c : Control} (hk : Seeking service provider n k) :
    Seeking service provider n (rested ⟨w, k, c⟩).stack := by
  cases c with
  | perform step => exact hk
  | deliver outcome =>
    cases hk with
    | settle hk first => exact .settle hk _
    | advance hk time settling => cases settling <;> exact .advance hk _ _
    | nil => exact .nil
    | script hk rest => exact .script hk rest
    | lookup hk number services reply => exact .lookup hk number services reply

theorem job?_vacant (w : World) (o : Options) (k : List Frame) (c : Control) :
    job? ⟨w.vacant o, k, c⟩ = job? ⟨w, k, c⟩ :=
  job?_congr (show (w.vacant o).jobs = w.jobs from rfl) k c

/-- The answer of the lookup is done next in both sessions. -/
theorem next_of_answered {answer : Except Failure (Option Listing)}
    (h : w.Seeks o service provider (.answered answer)) {c : Control} {job : Job}
    (hjob : job? ⟨w, k, c⟩ = some job) :
    next ⟨w, k, c⟩ = work { w with jobs := [] } (rested ⟨w, k, c⟩).stack job ∧
      next ⟨w.vacant o, k, c⟩ =
        work { w.vacant o with jobs := [] } (rested ⟨w, k, c⟩).stack job := by
  have hjob' := (job?_vacant w o k c).trans hjob
  obtain ⟨jobs, hjobs, hnext⟩ := next_eq_work hjob
  obtain ⟨jobs', hjobs', hnext'⟩ := next_eq_work hjob'
  obtain rfl : jobs = [] := (List.cons.inj (hjobs.symm.trans h.jobs)).2
  obtain rfl : jobs' = [] := (List.cons.inj (hjobs'.symm.trans h.jobs)).2
  rw [stack_rested (w.vacant o) w k c] at hnext'
  exact ⟨hnext, hnext'⟩

/-- **Until the lookup returns a list both sessions do the same**, as long as no step needs a
strategy. -/
theorem Seeks.next (h : Seeks o service provider a b)
    (hstep : ∀ step, a.control = .perform step → step.needsStrategy = false)
    (hbinds : a.rebinds? = none) : Seeks o service provider a.next b.next := by
  cases h with
  | @mk q w k c h hk =>
    rcases hjob : job? ⟨w, k, c⟩ with _ | job
    · cases c with
      | perform step => exact seeks_perform h hk (hstep step rfl)
      | deliver outcome => exact seeks_resume h hk hjob
    · obtain ⟨answer, rfl, rfl⟩ := exists_answered h hjob
      obtain ⟨hnext, hnext'⟩ := next_of_answered h hjob
      rw [hnext, hnext']
      cases answer with
      | error cause =>
        have hcalls : w.callCount = 1 := (Nat.zero_add _).symm.trans h.calls
        exact .mk (h.fail { w with jobs := [] } h.strategy rfl h.lookups rfl hcalls rfl rfl rfl rfl
          cause) (seeking_rested hk)
      | ok listing =>
        rw [rebinds?, hjob] at hbinds
        cases hbinds

/-! ### The list -/

/-- **The strategy that the lookup makes**: it follows the service, and its targets are those that
were returned. -/
def founded (o : Options) (service provider : String) (listing : Option Listing) : Strategy :=
  ((Strategy.ofWeights o Table.empty).bind service provider).replaceTargets service
    (listed listing service)

/-- Where the strategy does not poll, a list that it is bound with is taken at once. -/
theorem work_binding {s : Strategy} (hs : w.strategy = some s) (hidle : s.refresher = none)
    (call : Nat) (listing : Option Listing) :
    work w k (.answered (.binding call service provider) (.ok listing)) =
      notify { w with strategy := some ((s.bind service provider).replaceTargets service
        (listed listing service)) } (.bound call none :: k) (.reset service) := by
  have hpoller : w.poller? = none := by
    rw [World.poller?, hs]
    exact hidle
  have hpolling : w.polling = false := by
    rw [World.polling, hpoller]
    rfl
  have htimings : w.runningTimings = none := by
    rw [World.runningTimings, hpolling]
    rfl
  have hstopped : w.stopPolling = w := by
    rw [World.stopPolling, hpoller]
  simp only [work, htimings, hstopped, reset, World.modifyStrategy, hs, Option.map_some]
  rfl

/-- **The lookup returns a list, and both sessions take it**: the strategy of the one is still
building, and that of the other one tells its listener. -/
theorem Seeks.exists_found (h : Seeks o service provider a b) (hbinds : a.rebinds?.isSome = true) :
    ∃ listing k, a.world.Seeks o service provider (.answered (.ok listing)) ∧
      a.next = done { a.world with
        jobs := []
        strategy := some { founded o.heard service provider listing with building := true } }
          (.bound 1 none :: k) ∧
      b.next = notify { a.world with
        jobs := []
        strategy := some (founded o service provider listing) } (.bound 1 none :: k)
          (.reset service) := by
  cases h with
  | @mk q w k c h hk =>
    obtain ⟨_, hbinds⟩ := Option.isSome_iff_exists.mp hbinds
    obtain ⟨call, listing, hjob⟩ := exists_of_rebinds? hbinds
    obtain ⟨answer, rfl, hanswer⟩ := exists_answered h hjob
    cases hanswer
    obtain ⟨hnext, hnext'⟩ := next_of_answered h hjob
    refine ⟨listing, (rested ⟨w, k, c⟩).stack, h, ?_, ?_⟩
    · rw [hnext, work_binding (w := { w with jobs := [] }) h.strategy rfl]
      rfl
    · rw [hnext', work_binding (w := { w.vacant o with jobs := [] }) rfl rfl]
      rfl

/-! ### What comes from outside -/

/-- **What comes from outside comes to both sessions.** -/
theorem Seeks.receives (h : Seeks o service provider a b) {input : Input} {a' : Machine}
    (hreceives : Receives input a a') :
    ∃ b', Receives input b b' ∧ Seeks o service provider a' b' := by
  cases h with
  | @mk q w k c h hk =>
    cases hreceives with
    | step w outcome step =>
      generalize hq : q.unansweredCount = n at hk
      cases hk
      exact ⟨_, .step .., .mk h (hq ▸ .settle .nil none)⟩
    | further w first outcome step =>
      generalize hq : q.unansweredCount = n at hk
      cases hk with
      | settle hk => exact ⟨_, .further .., .mk h (hq ▸ .settle hk none)⟩
    | timer w outcome ht =>
      rw [h.timers] at ht
      cases ht

/-- What comes from outside to the other session comes to both. -/
theorem Seeks.receives_right (h : Seeks o service provider a b) {input : Input} {b' : Machine}
    (hreceives : Receives input b b') :
    ∃ a', Receives input a a' ∧ Seeks o service provider a' b' := by
  cases h with
  | @mk q w k c h hk =>
    generalize hv : w.vacant o = v at hreceives
    cases hreceives with
    | step v outcome step =>
      generalize hq : q.unansweredCount = n at hk
      cases hk
      subst hv
      exact ⟨_, .step .., .mk h (hq ▸ .settle .nil none)⟩
    | further v first outcome step =>
      generalize hq : q.unansweredCount = n at hk
      cases hk with
      | settle hk =>
        subst hv
        exact ⟨_, .further .., .mk h (hq ▸ .settle hk none)⟩
    | timer v outcome ht =>
      have htimers : v.timers = [] := hv ▸ h.timers
      rw [htimers] at ht
      cases ht

end Machine

end Balancer.Session
