import Balancer.Proofs.Session.Acts
import Balancer.Proofs.Session.Reach

/-!
# What a transition does

A transition is calm but for at most one thing: it changes the rotation, starts or stops a
refresher, makes the lookup of a cycle, hands over a changed list, or binds the strategy
anew. This file is the one place where the machine's functions are taken apart.

* `Balancer.Session.Machine.Turn` – **what lies between two points of a session**: one of these
  things, with calm before and after, and what it was that brought it about.
* `Balancer.Session.Machine.Leads.turn` – **every transition is a turn**, and so is the beginning
  of a step or of a timer's work.
-/

namespace Balancer.Session

/-! ### The course of a transition -/

/-- **What a step makes of a rotation** without replacing its targets. -/
inductive Rotates : Step → Rotation → Rotation → Prop
  /-- Targets are elected. -/
  | elect {times : Nat} {elected : Array String} {r r' : Rotation}
      (h : Machine.electTimes times #[] r = .ok (elected, r')) : Rotates (.elect times) r r'
  /-- A target is taken out. -/
  | remove {target : String} {r r' : Rotation} (h : r.remove? target = some r') :
      Rotates (.remove target) r r'
  /-- A target is put back. -/
  | recover {target : String} {r r' : Rotation} (h : r.recover? target = some r') :
      Rotates (.recover target) r r'

/-- **What a single election keeps, any number of them keeps.** -/
theorem Machine.electTimes_keeps {P : Rotation → Prop}
    (helect : ∀ r target r', P r → r.elect = .ok (target, r') → P r') {times : Nat}
    {before elected : Array String} {r r' : Rotation}
    (h : electTimes times before r = .ok (elected, r')) (hr : P r) : P r' := by
  induction times generalizing before r with
  | zero =>
    cases h
    exact hr
  | succ times ih =>
    rw [electTimes] at h
    rcases hnext : r.elect with failure | ⟨target, r₁⟩
    · rw [hnext] at h
      cases h
    · rw [hnext] at h
      exact ih h (helect r target r₁ hr hnext)

/-- **Handlers are there**: a refresher that calls a callback has one to call, and is the
first one. -/
def World.Wired (w : World) : Prop :=
  ∀ n r, w.core? n = some r → r.handler = .callback → n = 0 ∧ w.callback.isSome = true

namespace Machine

/-! ### Turns -/

/-- A changed list is to be handed over: a cycle goes on in the generation that it began in,
and comes to a service whose list is another one. -/
structure Finds (m x : Machine) (cycle : Cycle) (r : Refresher) (change : Refresher.Change) : Prop where
  /-- The cycle is the one that the transition takes up. -/
  resumed : m.resumed? = some cycle
  /-- Its refresher. -/
  found : x.world.refreshers[cycle.refresher]? = some r
  /-- The generation has not changed. -/
  generation : r.generation = cycle.generation
  /-- The first changed list. -/
  change : r.nextChange? cycle.latest cycle.remaining = some change

/-- **What lies between two points of a session.** -/
inductive Turn (m m' : Machine) : Prop
  /-- Nothing but bookkeeping. -/
  | calm (h : Calm m m')
  /-- A step changes the rotation. -/
  | rotate {x : Machine} {step : Step} {s : Strategy} {rotation : Rotation}
      (control : m.control = .perform step) (before : Calm m x)
      (strategy : x.world.strategy = some s) (rotates : Rotates step s.rotation rotation)
      (after : Calm (x.rotated rotation) m')
  /-- A step replaces all targets. -/
  | reset {x : Machine} {service : String} {endpoints : List Endpoint}
      (control : m.control = .perform (.reset service endpoints)) (before : Calm m x)
      (after : Calm (x.replaced service endpoints) m')
  /-- A call binds the strategy to a service. -/
  | rebind {x : Machine} {call : Nat} {service provider : String} {listing : Option Listing}
      (job : m.job? = some (.answered (.binding call service provider) (.ok listing)))
      (before : Calm m x) (after : Calm (x.rebound call service provider listing) m')
  /-- A step starts the refresher that is driven directly. -/
  | start {x : Machine} {services : Listing} (control : m.control = .perform (.start services))
      (driven : m.world.callback.isSome = true) (before : Calm m x)
      (after : Calm (x.started 0 services) m')
  /-- A step stops a refresher. -/
  | stop {x : Machine} {number : Nat}
      (control : m.control = .perform .stop ∧ number = 0 ∧ m.world.callback.isSome = true ∨
        (m.control = .perform .stopPolling ∨ m.control = .perform .close) ∧
          x.world.poller? = some number)
      (before : Calm m x) (after : Calm (x.stopped number) m')
  /-- The strategy begins to poll: by a step, or because it polled before it was bound anew. -/
  | poll {x : Machine} {s : Strategy} {binding : Binding} {timings : Timings}
      (control : (∃ delay period, m.control = .perform (.startPolling delay period)) ∧
        s.building = false ∨ m.Reopens)
      (before : Calm m x) (strategy : x.world.strategy = some s) (bound : s.binding = some binding)
      (idle : x.world.polling = false) (checked : timings.check = .ok ())
      (after : Calm (x.polled binding timings) m')
  /-- A cycle begins with its lookup. -/
  | ask {x : Machine} {number : Nat} {r : Refresher} {provider : String} {caller : Caller}
      {answer : Answer} (before : Calm m x) (found : x.world.refreshers[number]? = some r)
      (running : r.running = true) (asks : r.provider = some provider)
      (run : caller.run? = some (number, r.generation))
      (after : Calm (x.asked provider r.snapshot.keys caller answer) m')
  /-- The strategy takes a changed list. -/
  | take {x : Machine} {cycle : Cycle} {r : Refresher} {change : Refresher.Change}
      (finds : Finds m x cycle r change) (held : m.Holds cycle.suspended)
      (handler : r.handler = .strategy) (before : Calm m x) (after : Calm (x.took cycle change) m')
  /-- The callback is called with a changed list. -/
  | callBack {x : Machine} {cycle : Cycle} {r : Refresher} {change : Refresher.Change}
      {callback : Callback} {ending : Ending} (finds : Finds m x cycle r change)
      (held : m.Holds cycle.suspended) (handler : r.handler = .callback)
      (before : Calm m x) (there : x.world.callback = some callback)
      (after : Calm (x.calledBack callback cycle change ending) m')

variable {m : Machine} {w : World} {k : List Frame} {c : Control}

-- one case per kind of turn, since the calm stretch that ends it is an argument of each
theorem Turn.congr_right {m' m'' : Machine} (h : Turn m m') (hc : Calm m' m'') : Turn m m'' := by
  cases h with
  | calm h => exact .calm (h.trans hc)
  | rotate h₁ h₂ h₃ h₄ h₅ => exact .rotate h₁ h₂ h₃ h₄ (h₅.trans hc)
  | reset h₁ h₂ h₃ => exact .reset h₁ h₂ (h₃.trans hc)
  | rebind h₁ h₂ h₃ => exact .rebind h₁ h₂ (h₃.trans hc)
  | start h₁ h₂ h₃ h₄ => exact .start h₁ h₂ h₃ (h₄.trans hc)
  | stop h₁ h₂ h₃ => exact .stop h₁ h₂ (h₃.trans hc)
  | poll h₁ h₂ h₃ h₄ h₅ h₆ h₇ => exact .poll h₁ h₂ h₃ h₄ h₅ h₆ (h₇.trans hc)
  | ask h₁ h₂ h₃ h₄ h₅ h₆ => exact .ask h₁ h₂ h₃ h₄ h₅ (h₆.trans hc)
  | take h₁ h₂ h₃ h₄ h₅ => exact .take h₁ h₂ h₃ h₄ (h₅.trans hc)
  | callBack h₁ h₂ h₃ h₄ h₅ h₆ => exact .callBack h₁ h₂ h₃ h₄ h₅ (h₆.trans hc)

/-! ### Lookups -/

/-- After a naming service was asked, its script runs, and nothing more. -/
theorem calm_lookup (w : World) (k : List Frame) (c : Control) (provider : String)
    (services : List String) (caller : Caller) :
    ∃ answer, Calm (asked ⟨w, k, c⟩ provider services caller answer)
      (lookup w k provider services caller) := by
  refine ⟨(((w.providers.get? provider).elim [] Provider.script).headD Response.default).1, ?_⟩
  exact ((Calm.refl _).same (World.same_modifyProvider _ _ _)).runScript _

/-- A lookup that binds the strategy is no call of a cycle. -/
theorem Calm.lookup_binding (h : Calm m ⟨w, k, c⟩) (provider : String) (services : List String)
    (service : String) : Calm m (lookup w k provider services (.binding service)) := by
  obtain ⟨answer, hlookup⟩ := calm_lookup w k c provider services (.binding service)
  have hcount : w.Same { w with lookupCount := w.lookupCount + 1 } := ⟨rfl, rfl, rfl, rfl, rfl, rfl⟩
  exact Calm.trans (((h.same hcount).emit rfl).push rfl rfl rfl) hlookup

/-- **A session of a strategy that is to follow a service begins calmly**: its first lookup is
no call of a cycle. -/
theorem calm_boundMachine (setup : Setup) (options : Options) (service provider : String) :
    Calm ⟨{ setup.world strategyScope with strategy := some (Strategy.awaiting options) },
        [.settle none], .deliver (.ok .nothing)⟩
      (boundMachine setup options service provider) :=
  (Calm.refl _).lookup_binding provider [service] service

/-! ### Cycles -/

/-- **A cycle begins**, if the refresher runs. -/
theorem turn_beginCycle (h : Calm m ⟨w, k, c⟩) (number : Nat) (timed : Bool) :
    Turn m (beginCycle w k number timed) := by
  rw [beginCycle]
  split
  · exact .calm h.control
  · next r hr =>
    split
    · next provider hrun hprov =>
      obtain ⟨answer, hlookup⟩ := calm_lookup w k c provider r.snapshot.keys
        (if timed then .poll number r.generation else .refresh number r.generation)
      refine .ask h hr hrun hprov ?_ hlookup
      cases timed <;> rfl
    · exact .calm (h.skipCycle number timed)

theorem turn_tick (h : Calm m ⟨w, k, c⟩) (number : Nat) : Turn m (tick w k number) := by
  rw [tick]
  split
  · exact .calm h.control
  · split
    · exact .calm h.control
    · have hmarked := h.modifyRefresher (f := fun r => { r with inFlight := true }) (fun _ => rfl) number
      exact turn_beginCycle hmarked number true

/-- **A timer fires.** -/
theorem turn_fire (h : Calm m ⟨w, k, c⟩) (t : Timer) : Turn m (fire w k t) := by
  have hreach : Calm m ⟨w.reach t, k, c⟩ := h.same (w.same_reach t)
  unfold fire
  dsimp only
  split
  · next number _ =>
    have hgone := hreach.modifyRefresher (f := fun r => { r with delayTimer := none })
      (fun _ => rfl) number
    have harm : Calm m ⟨_, .arm number :: k, c⟩ := hgone.push rfl rfl rfl
    exact turn_tick harm number
  · exact turn_tick hreach _
  · exact .calm hreach.control

/-- **A changed list is applied**, unless logging fails. -/
theorem turn_applyChange (hwired : m.world.Wired) (h : Calm m ⟨w, k, c⟩) {cycle : Cycle}
    {r : Refresher} {change : Refresher.Change} (hfinds : Finds m ⟨w, k, c⟩ cycle r change)
    (hheld : m.Holds cycle.suspended) : Turn m (applyChange w k cycle r.handler change) := by
  rw [applyChange]
  dsimp only
  have hlogged := w.same_log .warn ("A new changed list getting from naming service name='" ++
    change.service ++ "' value=" ++ Endpoint.listText change.endpoints) none
  split
  · next w' failure hlog =>
    rw [hlog] at hlogged
    exact .calm (((h.same hlogged).failCycle _ _ _).control)
  · next w' _ hlog =>
    rw [hlog] at hlogged
    have hcalm : Calm m ⟨w', k, c⟩ := h.same hlogged
    have hfinds' : Finds m ⟨w', k, c⟩ cycle r change :=
      { hfinds with found := by rw [← hfinds.found]; exact congrArg (·[cycle.refresher]?) hlogged.refreshers }
    split
    · next hhandler => exact .take hfinds' hheld hhandler hcalm ((Calm.refl _).notify _)
    · next callback hhandler hthere =>
      exact .callBack hfinds' hheld hhandler hcalm hthere ((Calm.refl _).runScript _)
    · next hhandler habsent =>
      -- a refresher that calls a callback has one
      have hcore := (h.core cycle.refresher).symm.trans (World.core?_of_getElem? hfinds.found)
      have hsome : w'.callback.isSome = true := hcalm.callback.trans (hwired _ _ hcore hhandler).2
      have hnone : w'.callback = none := habsent
      rw [hnone] at hsome
      exact absurd hsome (by simp)

/-- **A cycle goes on.** -/
theorem turn_goOn (hwired : m.world.Wired) (h : Calm m ⟨w, k, c⟩) {cycle : Cycle}
    (hresumed : m.resumed? = some cycle) (hheld : m.Holds cycle.suspended) :
    Turn m (goOn w k cycle) := by
  rw [goOn]
  split
  · exact .calm h.control
  · next r hr =>
    split
    · exact .calm ((h.endCycle _ _ _).control)
    · next hgen =>
      split
      · exact .calm ((h.endCycle _ _ _).control)
      · next change hchange =>
        exact turn_applyChange hwired h ⟨hresumed, hr, not_not.mp hgen, hchange⟩ hheld

/-! ### Waiting work -/

/-- A cycle that a job takes up is under way while the job is the next to be done. -/
theorem holds_of_job {job : Job} (h : m.job? = some job) {t : Suspended}
    (ht : job.suspended? = some t) : m.Holds t := by
  obtain ⟨w, k, c⟩ := m
  have hmem : job ∈ w.jobs := by
    unfold job? at h
    split at h
    · next heq => cases heq; exact List.mem_of_mem_head? h
    · next heq => cases heq; exact List.mem_of_mem_head? h
    · exact absurd h (by simp)
  refine ⟨t, List.mem_append_right _ ?_, .refl t⟩
  refine List.mem_append_left _ (List.mem_append_right _ ?_)
  exact List.mem_filterMap.mpr ⟨job, hmem, ht⟩

/-- A cycle goes on with all its services when its lookup has ended. -/
theorem Holds.answered {number generation : Nat} {services : List String}
    (h : m.Holds ⟨number, generation, services, true⟩) :
    m.Holds ⟨number, generation, services, false⟩ := by
  obtain ⟨u, hu, hcontinues⟩ := h
  exact ⟨u, hu, { hcontinues with waits := fun hw => absurd hw (by simp) }⟩

/-- The next job is taken from those that wait. -/
theorem Calm.dequeue (h : Calm m ⟨w, k, c⟩) {job : Job} {jobs : List Job}
    (hjobs : w.jobs = job :: jobs) : Calm m ⟨{ w with jobs := jobs }, k, c⟩ := by
  refine h.waiting rfl fun t ht => .inl ?_
  simp only [World.suspended, List.mem_append, hjobs] at ht ⊢
  refine ht.imp_left (Or.imp_right fun hin => ?_)
  obtain ⟨other, hother, heq⟩ := List.mem_filterMap.mp hin
  exact List.mem_filterMap.mpr ⟨other, List.mem_cons_of_mem job hother, heq⟩

/-- **A piece of waiting work is done.** -/
theorem turn_work (hwired : m.world.Wired) (h : Calm m ⟨w, k, c⟩) {job : Job}
    (hjob : m.job? = some job) : Turn m (work w k job) := by
  have hresumed : m.resumed? = job.resumed? := by rw [resumed?, hjob]; rfl
  unfold work
  split
  · exact .calm ((h.endBinding _ _).control)
  · exact .rebind hjob h ((Calm.refl _).notify _)
  · exact .calm ((h.failCycle _ _ _).control)
  · exact turn_goOn hwired h hresumed (holds_of_job hjob rfl).answered
  · exact turn_goOn hwired h hresumed (holds_of_job hjob rfl)
  · exact .calm ((h.failCycle _ _ _).control)
  · exact .calm ((h.log _ _ _).control)
  · next number =>
    have hreleased := h.modifyRefresher (f := fun r => { r with inFlight := false }) (fun _ => rfl) number
    exact .calm hreleased.control

/-- **Where a piece of work waits to be done next, the transition does it.** -/
theorem exists_next_eq_work {job : Job} (hjob : m.job? = some job) :
    ∃ jobs k, Calm m ⟨{ m.world with jobs := jobs }, k, m.control⟩ ∧
      m.next = work { m.world with jobs := jobs } k job := by
  obtain ⟨w, k, c⟩ := m
  unfold job? at hjob
  split at hjob
  · next w first k outcome heq =>
    cases heq
    obtain ⟨jobs, hjobs⟩ := List.head?_eq_some_iff.mp hjob
    -- the frame is replaced by one that keeps the first outcome
    have hnext : Calm ⟨w, .settle first :: k, .deliver outcome⟩
        ⟨{ w with jobs := jobs }, .settle (some (first.getD outcome)) :: k, .deliver outcome⟩ :=
      ((Calm.refl _).pop.dequeue hjobs).push rfl rfl rfl
    exact ⟨jobs, _, hnext, by simp only [next, resume, hjobs]⟩
  · next w time k outcome heq =>
    cases heq
    obtain ⟨jobs, hjobs⟩ := List.head?_eq_some_iff.mp hjob
    exact ⟨jobs, _, (Calm.refl _).dequeue hjobs, by simp only [next, resume, hjobs]⟩
  · exact absurd hjob (by simp)

/-! ### Answers -/

/-- One more lookup is open, for which a cycle under way waits, or none. -/
theorem Calm.openLookup (h : Calm m ⟨w, k, c⟩) {l : OpenLookup}
    (hl : ∀ t, l.waiter.suspended? = some t → m.Holds t) :
    Calm m ⟨{ w with lookups := w.lookups ++ [l] }, k, c⟩ := by
  refine h.waiting rfl fun t ht => ?_
  simp only [World.suspended, List.filterMap_append, List.mem_append] at ht ⊢
  rcases ht with ((hold | hnew) | hjob) | hcall
  · exact .inl (.inl (.inl hold))
  · obtain ⟨l', hl', heq⟩ := List.mem_filterMap.mp hnew
    rw [List.mem_singleton.mp hl'] at heq
    exact .inr (hl t heq)
  · exact .inl (.inl (.inr hjob))
  · exact .inl (.inr hcall)

/-- **A naming service answers its caller**, which is no more than bookkeeping: what it
answers is taken up later. -/
theorem Calm.answer (h : Calm m ⟨w, k, c⟩) (provider : String) (number : Nat)
    (services : List String) (caller : Caller) (reply : Answer)
    (hcaller : ∀ t, caller.suspended? services = some t → m.Holds t) :
    Calm m (answer w k provider number services caller reply) := by
  have hcounted : Calm m ⟨{ w with callCount := w.callCount + 1 }, k, c⟩ :=
    h.same (w.same_callCount _)
  unfold Machine.answer
  cases caller with
  | binding service =>
    cases reply with
    | settled settlement => exact (hcounted.enqueue_idle rfl).control
    | throws failure => exact (hcounted.endBinding _ _).control
    | pending => exact (hcounted.openLookup fun t ht => absurd ht (by simp [Waiter.suspended?])).control
  | poll refresher generation =>
    have hheld : m.Holds ⟨refresher, generation, services, true⟩ := hcaller _ rfl
    cases reply with
    | settled settlement => exact Calm.control (h.enqueue hheld.of_some_eq)
    | throws failure => exact (h.failCycle _ _ _).control
    | pending => exact Calm.control (h.openLookup hheld.of_some_eq)
  | refresh refresher generation =>
    have hheld : m.Holds ⟨refresher, generation, services, true⟩ := hcaller _ rfl
    cases reply with
    | settled settlement => exact Calm.control (hcounted.enqueue hheld.of_some_eq)
    | throws failure => exact (hcounted.failCycle _ _ _).control
    | pending => exact Calm.control (hcounted.openLookup hheld.of_some_eq)

/-! ### Polling of the strategy -/

/-- **Polling begins**, if the strategy follows a service and does not poll already. -/
theorem turn_startPolling (h : Calm m ⟨w, k, c⟩) (delay period : Option Binary64)
    (hcontrol : (∃ delay period, m.control = .perform (.startPolling delay period)) ∧
      (∀ s, w.strategy = some s → s.building = false) ∨ m.Reopens) :
    Turn m ⟨(w.startPolling delay period).1, k, c⟩ := by
  rw [World.startPolling]
  split
  · exact .calm h
  · next s hs =>
    split
    · exact .calm h
    · next binding hb =>
      split
      · exact .calm h
      · next hidle =>
        split
        · exact .calm h
        · next timings hchosen =>
          have hcontrol' := hcontrol.imp_left (And.imp_right fun hbuilt => hbuilt s hs)
          exact .poll hcontrol' h hs hb (Bool.not_eq_true _ ▸ hidle)
            (Strategy.check_of_chooseTimings hchosen) ((Calm.refl _).log _ _ _)

/-- **Polling ends**, if there is a refresher. -/
theorem turn_stopPolling (h : Calm m ⟨w, k, c⟩)
    (hcontrol : m.control = .perform .stopPolling ∨ m.control = .perform .close) :
    Turn m ⟨w.stopPolling, k, c⟩ := by
  rw [World.stopPolling]
  split
  · exact .calm h
  · next number hn => exact .stop (.inr ⟨hcontrol, hn⟩) h (Calm.refl _)

/-! ### Resuming -/

/-- One more callback is open, for which a cycle under way waits. -/
theorem Calm.openCallback (h : Calm m ⟨w, k, c⟩) {o : OpenCallback} (ho : m.Holds o.cycle.suspended) :
    Calm m ⟨{ w with callback := w.callback.map fun b => { b with pending := b.pending ++ [o] } },
      k, c⟩ := by
  refine h.waiting (Option.isSome_map ..) fun t ht => ?_
  rcases hb : w.callback with _ | b
  · rw [hb] at ht
    exact .inl (by simpa [World.suspended, hb] using ht)
  · simp only [World.suspended, hb, Option.map_some, Option.elim_some, List.map_append,
      List.mem_append] at ht ⊢
    rcases ht with hwait | hold | hnew
    · exact .inl (.inl hwait)
    · exact .inl (.inr hold)
    · rw [List.map_singleton, List.mem_singleton] at hnew
      exact .inr (hnew ▸ ho)

/-! What returned is taken up, frame by frame. A frame that no cycle waits in is popped; the cycle
of one that it waits in goes on as a job. -/

section Resume

variable {outcome : Outcome}

theorem calm_pop (w : World) (k : List Frame) (f : Frame) (outcome : Outcome) :
    Calm ⟨w, f :: k, .deliver outcome⟩ ⟨w, k, .deliver outcome⟩ :=
  (Calm.refl _).pop

theorem holds_of_suspended {f : Frame} {s : Suspended} (h : f.suspended? = some s) :
    Holds ⟨w, f :: k, .deliver outcome⟩ s :=
  ⟨s, mem_suspended_push.mpr (.inl h), .refl s⟩

theorem calm_listener (ending : Ending) : Calm ⟨w, .listener ending :: k, .deliver outcome⟩
    (resume w k outcome (.listener ending)) := by
  have h := calm_pop w k (.listener ending) outcome
  cases ending with
  | returns => exact h.control
  | throws failure => exact (h.log _ _ _).control
  | rejects failure => exact (h.enqueue_idle rfl).control
  | pending => exact h.control
  | deferred => exact (h.same (w.same_deferred _)).control

theorem calm_callback (number : Nat) (cycle : Cycle) (ending : Ending) :
    Calm ⟨w, .callback number cycle ending :: k, .deliver outcome⟩
      (resume w k outcome (.callback number cycle ending)) := by
  have h := calm_pop w k (.callback number cycle ending) outcome
  have hcycle : Holds ⟨w, .callback number cycle ending :: k, .deliver outcome⟩ _ :=
    holds_of_suspended rfl
  cases ending with
  | returns => exact Calm.control (h.enqueue hcycle.of_some_eq)
  | throws failure => exact (h.failCycle _ _ _).control
  | rejects failure => exact Calm.control (h.enqueue hcycle.of_some_eq)
  | pending | deferred => exact (h.openCallback (o := ⟨number, cycle⟩) hcycle).control

theorem calm_taken (cycle : Cycle) : Calm ⟨w, .taken cycle :: k, .deliver outcome⟩
    (resume w k outcome (.taken cycle)) := by
  have h := calm_pop w k (.taken cycle) outcome
  have hcycle : Holds ⟨w, .taken cycle :: k, .deliver outcome⟩ _ := holds_of_suspended rfl
  cases outcome with
  | ok result => exact Calm.control (h.enqueue hcycle.of_some_eq)
  | error failure => exact (h.failCycle _ _ _).control

/-- A call that bound the strategy starts polling again, if it polled before. -/
theorem turn_bound (call : Nat) (timings : Option Timings) :
    Turn ⟨w, .bound call timings :: k, .deliver outcome⟩
      (resume w k outcome (.bound call timings)) := by
  have h := calm_pop w k (.bound call timings) outcome
  cases outcome with
  | error failure => exact .calm ((h.endBinding _ _).control)
  | ok result =>
    cases timings with
    | none => exact .calm ((h.endBinding _ _).control)
    | some timings =>
      have hpoll := turn_startPolling h (some timings.delay) (some timings.period)
        (.inr ⟨call, timings, k, result, rfl, rfl⟩)
      simp only [resume]
      exact hpoll.congr_right (((Calm.refl _).endBinding call _).control)

theorem calm_arm (refresher : Nat) : Calm ⟨w, .arm refresher :: k, .deliver outcome⟩
    (resume w k outcome (.arm refresher)) := by
  have h := calm_pop w k (.arm refresher) outcome
  rw [resume, World.armPeriod]
  dsimp only
  split
  · exact h.control
  · next r hr =>
    have hset := h.same
      (w.same_setTimer r.timings.period (some r.timings.period) (.period refresher))
    exact (hset.modifyRefresher (f := fun r => { r with periodTimer := some (w.timerCount + 1) })
      (fun _ => rfl) refresher).control

/-- Where no work waits, time passes until the next timer is due. -/
theorem turn_advance (time : Binary64) (settling : Bool)
    (hjob : job? ⟨w, .advance time settling :: k, .deliver outcome⟩ = none) :
    Turn ⟨w, .advance time settling :: k, .deliver outcome⟩
      (resume w k outcome (.advance time settling)) := by
  rw [resume_advance (not_waits_of_job? hjob)]
  split
  · next t _ => exact turn_fire (Calm.refl _) t
  · exact .calm (Calm.control ((calm_pop _ _ _ _).same ⟨rfl, rfl, rfl, rfl, rfl, rfl⟩))

theorem calm_settle (first : Option Outcome)
    (hjob : job? ⟨w, .settle first :: k, .deliver outcome⟩ = none) :
    Calm ⟨w, .settle first :: k, .deliver outcome⟩ (resume w k outcome (.settle first)) := by
  rw [resume_settle hjob]
  exact (calm_pop _ _ _ _).control

/-- **What returned is taken up**, where no work waits to be done first. -/
theorem turn_resume {f : Frame} (hjob : job? ⟨w, f :: k, .deliver outcome⟩ = none) :
    Turn ⟨w, f :: k, .deliver outcome⟩ (resume w k outcome f) := by
  cases f with
  | script rest => exact .calm (((calm_pop _ _ _ _).emit rfl).runScript rest)
  | listener ending => exact .calm (calm_listener ending)
  | lookup provider number services caller reply =>
    exact .calm ((calm_pop _ _ _ _).answer provider number services caller reply fun t ht =>
      holds_of_suspended ht)
  | callback number cycle ending => exact .calm (calm_callback number cycle ending)
  | taken cycle => exact .calm (calm_taken cycle)
  | bound call timings => exact turn_bound call timings
  | arm refresher => exact .calm (calm_arm refresher)
  | advance time settling => exact turn_advance time settling hjob
  | settle first => exact .calm (calm_settle first hjob)

end Resume

/-! ### Steps -/

/-- What a step means is one of the things it may mean. -/
theorem mem_of_pick? {α : Type} {number : α → Nat} {xs : List α} {which : Which} {x : α}
    (h : pick? number xs which = some x) : x ∈ xs := by
  cases which <;> exact List.mem_of_find?_eq_some h

/-- An open lookup ends, which is no more than bookkeeping. -/
theorem Calm.settle (h : Calm m ⟨w, k, c⟩) (which : Which) (settlement : Settlement) :
    Calm m (settle w k which settlement) := by
  rw [Machine.settle]
  split
  · exact h.control
  · next l hl =>
    have hmem : l ∈ w.lookups := mem_of_pick? hl
    have hheld : ∀ t, l.waiter.suspended? = some t → m.Holds t := fun t ht => by
      refine h.held t (List.mem_append_right _ (List.mem_append_left _ (List.mem_append_left _ ?_)))
      exact List.mem_filterMap.mpr ⟨l, hmem, ht⟩
    -- the lookup is closed first, and what waited for it becomes a job then
    have hclosed : Calm m ⟨{ w with lookups := w.lookups.filter fun m => m.number != l.number },
        k, c⟩ := by
      refine h.waiting rfl fun t ht => .inl ?_
      simp only [World.suspended, List.mem_append] at ht ⊢
      refine ht.imp_left (Or.imp_left fun hin => ?_)
      exact (List.filter_sublist.filterMap _).subset hin
    exact Calm.control (hclosed.enqueue hheld)

/-- An open callback ends, which is no more than bookkeeping. -/
theorem Calm.settleCallback (h : Calm m ⟨w, k, c⟩) {b : Callback} (hb : w.callback = some b)
    (which : Which) (outcome : Except Failure Unit) :
    Calm m (settleCallback w k b which outcome) := by
  rw [Machine.settleCallback]
  split
  · exact h.control
  · next o ho =>
    have hmem : o ∈ b.pending := mem_of_pick? ho
    have hheld : m.Holds o.cycle.suspended := by
      refine h.held _ (List.mem_append_right _ (List.mem_append_right _ ?_))
      rw [hb]
      exact List.mem_map_of_mem hmem
    have hclosed : Calm m ⟨{ w with callback := some { b with
        pending := b.pending.filter fun p => p.number != o.number } }, k, c⟩ := by
      refine h.waiting (by rw [hb]; rfl) fun t ht => .inl ?_
      simp only [World.suspended, List.mem_append, hb, Option.elim_some] at ht ⊢
      exact ht.imp_right fun hin => (List.filter_sublist.map _).subset hin
    exact Calm.control (hclosed.enqueue hheld.of_some_eq)

/-- **The membership changes**, if there is a new rotation, and the listener is told. -/
theorem turn_changeMembership {s : Strategy} {step : Step} {rotation : Option Rotation}
    (hs : w.strategy = some s) (hrotates : ∀ r, rotation = some r → Rotates step s.rotation r)
    (change : Membership) :
    Turn ⟨w, k, .perform step⟩ (changeMembership w k rotation change) := by
  unfold changeMembership
  split
  · exact .calm (Calm.refl _).control
  · next r =>
    exact .rotate rfl (Calm.refl _) hs (hrotates r rfl) ((Calm.refl _).notify change)

/-- **A step that concerns the strategy.** -/
theorem turn_performStrategy {s : Strategy} (hs : w.strategy = some s)
    (hbuilt : s.building = false) (step : Step) :
    Turn ⟨w, k, .perform step⟩ (performStrategy w k s step) := by
  have h : Calm ⟨w, k, .perform step⟩ ⟨w, k, .perform step⟩ := .refl _
  unfold performStrategy
  split
  · split
    · next helect => exact .rotate rfl h hs (.elect helect) (Calm.refl _).control
    · exact .calm h.control
  -- what only reads, or gives the strategy another listener
  · exact .calm h.control
  · exact .calm h.control
  · exact .calm h.control
  · exact .calm h.control
  · exact .calm h.control
  · exact .calm h.control
  -- the membership
  · exact turn_changeMembership hs (fun r hr => .remove hr) _
  · exact turn_changeMembership hs (fun r hr => .recover hr) _
  · exact .reset rfl h ((Calm.refl _).notify _)
  -- binding and polling
  · exact .calm (h.lookup_binding _ _ _)
  · next delay period =>
    have hpoll := turn_startPolling h delay period (.inl ⟨⟨_, _, rfl⟩, fun s' hs' => by
      rw [← Option.some.inj (hs.symm.trans hs'), hbuilt]⟩)
    exact hpoll.congr_right (Calm.refl _).control
  · exact (turn_stopPolling h (.inl rfl)).congr_right (Calm.refl _).control
  · exact (turn_stopPolling h (.inr rfl)).congr_right (Calm.refl _).control
  -- what the listener leaves behind
  · exact .calm (h.settleListener _)
  · exact .calm h.control

/-- **A step that concerns the refresher** that is driven directly. -/
theorem turn_performRefresher {b : Callback} (hb : w.callback = some b) (r : Refresher)
    (step : Step) : Turn ⟨w, k, .perform step⟩ (performRefresher w k b r step) := by
  have h : Calm ⟨w, k, .perform step⟩ ⟨w, k, .perform step⟩ := .refl _
  have hsome : w.callback.isSome = true := by rw [hb]; rfl
  unfold performRefresher
  split
  · next services =>
    have hwatch : Calm ⟨w, k, .perform (.start services)⟩
        ⟨{ w with callback := some { b with watched := b.watched ++
          (services.keys.filter fun service => !b.watched.contains service) } }, k,
          .perform (.start services)⟩ := by
      refine h.waiting (by rw [hb]; rfl) fun t ht => .inl ?_
      simpa only [World.suspended, hb, Option.elim_some] using ht
    exact .start rfl hsome hwatch (Calm.refl _).control
  · exact .stop (.inl ⟨rfl, rfl, hsome⟩) h (Calm.refl _).control
  · exact .calm h.control
  · exact turn_beginCycle h 0 false
  · exact .calm h.control
  · exact .calm (h.settleCallback hb _ _)
  · exact .calm h.control

/-- **A step is performed.** -/
theorem turn_perform (step : Step) : Turn ⟨w, k, .perform step⟩ (perform w k step) := by
  have h : Calm ⟨w, k, .perform step⟩ ⟨w, k, .perform step⟩ := .refl _
  unfold perform
  split
  · exact .calm (Calm.control (h.push rfl rfl rfl))
  · exact .calm (Calm.control (h.same ⟨rfl, rfl, rfl, rfl, rfl, rfl⟩))
  · exact .calm (Calm.control (h.same (w.same_modifyProvider _ _)))
  · exact .calm (Calm.control (h.same (w.same_modifyProvider _ _)))
  · exact .calm (Calm.control (h.same (w.same_modifyProvider _ _)))
  · exact .calm (h.settle _ _)
  · split
    · split
      · next b r hb _ => exact turn_performRefresher hb r _
      · exact .calm h.control
    · split
      · next s hs =>
        obtain ⟨hthere, hbuilt⟩ := Option.filter_eq_some_iff.mp hs
        exact turn_performStrategy hthere (by simpa using hbuilt) _
      · exact .calm h.control

/-! ### All transitions -/

/-- **Every transition is a turn.** -/
theorem turn_next (hwired : m.world.Wired) : Turn m m.next := by
  -- a job is done before anything else is taken up
  rcases hjob : m.job? with _ | job
  · obtain ⟨w, k, step | outcome⟩ := m
    · exact turn_perform step
    · cases k with
      | nil => exact .calm (Calm.refl _)
      | cons f k => exact turn_resume hjob
  · obtain ⟨jobs, k, hcalm, hnext⟩ := exists_next_eq_work hjob
    rw [hnext]
    exact turn_work hwired hcalm hjob

/-- **One point of a session leads to another by a turn.** -/
theorem Leads.turn {m' : Machine} (h : Leads m m') (hwired : m.world.Wired) : Turn m m' := by
  cases h with
  | next => exact turn_next hwired
  | perform w outcome step => exact .calm (Calm.control ((Calm.refl _).push rfl rfl rfl))
  | interject w first outcome step => exact .calm (Calm.refl _).control
  | fire w outcome ht => exact turn_fire ((Calm.refl _).push rfl rfl rfl) _

end Machine

end Balancer.Session
