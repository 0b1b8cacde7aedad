import Balancer.Proofs.Session.Beat

/-!
# How far cycles are

A cycle under way waits for the answer to its lookup, or it compares what the lookup was answered
with. This file says at which of the two stages each cycle is, which lookup it waits for and what it
compares, and follows the stages through every function of the machine.

* `Balancer.Session.Stage` – **how far a cycle is**; `Balancer.Session.Machine.stages` lists all
  cycles under way with their refreshers.
* `Balancer.Session.World.asked` – **the lookups that timers have made**, with their refreshers, in
  the order in which they were made.
* `Balancer.Session.Machine.answered` – the lookup that the next transition ends, and what with.
* `Balancer.Session.Machine.Staged` – all stages are of a kind, and timers have made certain
  lookups.
* `Balancer.Session.Machine.staged_next` – **what a transition makes of the stages**: a timer makes
  a lookup where none of its cycles is in flight, or a cycle waits no longer for the lookup that
  ends.
-/

namespace Balancer.Session

/-! ### Stages -/

/-- **How far a cycle is.** -/
inductive Stage
  /-- A timer began it, and its lookup has not been answered. -/
  | asking (lookup : Nat)
  /-- A timer began it, and it compares what its lookup was answered with. -/
  | comparing (latest : Listing)
  /-- A call began it. -/
  | called

/-- The stage of a cycle that a timer began, unless a call began it. -/
def Origin.stage : Origin → Stage → Stage
  | .timer, stage => stage
  | .call _, _ => .called

/-- How far a cycle is that waits for a lookup of a number. -/
def Caller.stage? (number : Nat) : Caller → Option (Nat × Stage)
  | .binding _ => none
  | .poll refresher _ => some (refresher, .asking number)
  | .refresh refresher _ => some (refresher, .called)

/-- How far a cycle is that waits for a lookup of a number, and is told its stage. -/
def Waiter.stage? (stage : Stage) : Waiter → Option (Nat × Stage)
  | .binding .. => none
  | .cycle refresher _ origin _ => some (refresher, origin.stage stage)

/-- How far a cycle is after its lookup. -/
def Cycle.stage (cycle : Cycle) : Nat × Stage :=
  (cycle.refresher, cycle.origin.stage (.comparing cycle.latest))

/-- How far the cycle of an open lookup is. -/
def OpenLookup.stage? (l : OpenLookup) : Option (Nat × Stage) := l.waiter.stage? (.asking l.number)

/-- How far the cycle of a job is, unless its lookup has failed. -/
def Job.stage? : Job → Option (Nat × Stage)
  | .answered waiter (.ok listing) => waiter.stage? (.comparing (listing.getD Table.empty))
  | .taken cycle _ => some cycle.stage
  | _ => none

@[simp]
theorem Job.stage?_binding (call : Nat) (service provider : String)
    (answer : Except Failure (Option Listing)) :
    (Job.answered (.binding call service provider) answer).stage? = none := by
  cases answer <;> rfl

/-- The cycle whose lookup has ended compares what it was answered with. -/
theorem Job.exists_of_stage? {refresher generation : Nat} {origin : Origin} {services : List String}
    {answer : Except Failure (Option Listing)} {s : Nat × Stage}
    (h : (Job.answered (.cycle refresher generation origin services) answer).stage? = some s) :
    ∃ listing, answer = .ok listing ∧
      s = (refresher, origin.stage (.comparing (listing.getD Table.empty))) := by
  cases answer with
  | error failure => cases h
  | ok listing => exact ⟨listing, rfl, (Option.some.inj h).symm⟩

/-- How far the cycle of a frame is. -/
def Frame.stage? : Frame → Option (Nat × Stage)
  | .lookup _ number _ caller _ => caller.stage? number
  | .callback _ cycle _ | .taken cycle => some cycle.stage
  | _ => none

/-- How far the cycles are that wait outside the stack. -/
def World.stages (w : World) : List (Nat × Stage) :=
  w.lookups.filterMap OpenLookup.stage? ++ w.jobs.filterMap Job.stage? ++
    w.callback.elim [] fun c => c.pending.map fun o => o.cycle.stage

/-- **How far the cycles under way are**, each with its refresher. -/
def Machine.stages (m : Machine) : List (Nat × Stage) :=
  m.stack.filterMap Frame.stage? ++ m.world.stages

/-! ### Lookups -/

/-- The lookup of a timer that an event is, with its refresher. -/
def Event.asked? : Event → Option (Nat × Nat)
  | .lookup _ number _ (.poll refresher _) => some (refresher, number)
  | _ => none

/-- **The lookups that timers have made**, each with its refresher. -/
def World.asked (w : World) : List (Nat × Nat) := w.trace.toList.filterMap Event.asked?

theorem World.asked_emit (w : World) (e : Event) :
    (w.emit e).asked = w.asked ++ e.asked?.toList := by
  rw [asked, emit, Array.toList_push, List.filterMap_append, asked, List.filterMap_cons]
  cases e.asked? <;> rfl

theorem World.asked_of_trace {w w' : World} (h : w'.trace = w.trace) : w'.asked = w.asked := by
  rw [asked, h, asked]

theorem World.asked_log (w : World) (level : Level) (message : String) (failure : Option Failure) :
    (w.log level message failure).1.asked = w.asked := by
  rw [log]
  split
  · exact (w.asked_emit _).trans (List.append_nil _)
  · split
    · exact (w.asked_emit _).trans (List.append_nil _)
    · rfl

namespace Machine

/-- **The lookup that the next transition ends**, and what it ends with: it was answered at once, or
a step settles it. -/
def answered (m : Machine) : List (Nat × Except Failure (Option Listing)) :=
  match m.control with
  | .deliver _ =>
    match m.stack with
    | .lookup provider number services _ (.settled settlement) :: _ =>
      [(number, settlementOf m.world provider services settlement)]
    | _ => []
  | .perform (.settle which settlement) =>
    (pick? OpenLookup.number m.world.lookups which).toList.map fun l =>
      (l.number, settlementOf m.world l.provider l.services settlement)
  | _ => []

/-! ### Stages of a kind -/

/-- **All stages are of a kind**, and timers have made certain lookups. -/
structure Staged (P : Nat × Stage → Prop) (asked : List (Nat × Nat)) (m : Machine) : Prop where
  /-- The stages are of the kind. -/
  stages : ∀ s ∈ m.stages, P s
  /-- The lookups have been made. -/
  asked : m.world.asked = asked

theorem Staged.refl (m : Machine) : Staged (· ∈ m.stages) m.world.asked m := ⟨fun _ h => h, rfl⟩

/-- **A timer makes a lookup** for a refresher that has no cycle in flight, and a new cycle waits
for it. -/
structure Inquires (P : Nat × Stage → Prop) (asked : List (Nat × Nat)) (w : World) (number : Nat)
    (m : Machine) : Prop where
  /-- No cycle is in flight. -/
  idle : (w.refreshers[number]?).any Refresher.inFlight = false
  /-- The new cycle waits, and the lookup has been made. -/
  staged : Staged (fun s => P s ∨ s = (number, .asking (w.lookupCount + 1)))
    (asked ++ [(number, w.lookupCount + 1)]) m
  /-- The lookup has the next number. -/
  issued : m.world.lookupCount = w.lookupCount + 1

theorem world_runScript (w : World) (k : List Frame) (steps : List Step) :
    (runScript w k steps).world = w := by
  cases steps <;> rfl

theorem lookupCount_lookup (w : World) (k : List Frame) (provider : String) (services : List String)
    (caller : Caller) : (lookup w k provider services caller).world.lookupCount = w.lookupCount + 1 := by
  rw [lookup]
  exact congrArg World.lookupCount (world_runScript ..)

theorem mem_stages_push {w : World} {k : List Frame} {c : Control} {f : Frame} {s : Nat × Stage} :
    s ∈ (⟨w, f :: k, c⟩ : Machine).stages ↔
      f.stage? = some s ∨ s ∈ (⟨w, k, c⟩ : Machine).stages := by
  simp only [stages, List.filterMap_cons]
  cases f.stage? <;> simp [eq_comm]

theorem mem_stages_enqueue {w : World} {job : Job} {s : Nat × Stage} :
    s ∈ (w.enqueue job).stages ↔ job.stage? = some s ∨ s ∈ w.stages := by
  simp only [World.stages, World.enqueue, List.filterMap_append, List.filterMap_cons,
    List.filterMap_nil]
  cases job.stage? <;> simp [or_left_comm, eq_comm]

namespace Staged

variable {P Q : Nat × Stage → Prop} {asked : List (Nat × Nat)} {m : Machine} {w w' : World}
  {k : List Frame} {c c' : Control} {f : Frame}

/-- No cycle is under way. -/
theorem of_stages_eq_nil (hstages : m.stages = []) (hasked : m.world.asked = asked) :
    Staged P asked m where
  stages s hs := by
    rw [hstages] at hs
    cases hs
  asked := hasked

theorem mono (h : Staged P asked m) (hPQ : ∀ s, P s → Q s) : Staged Q asked m :=
  ⟨fun s hs => hPQ s (h.stages s hs), h.asked⟩

/-- What comes next does not matter. -/
theorem control (h : Staged P asked ⟨w, k, c⟩) : Staged P asked ⟨w, k, c'⟩ := ⟨h.stages, h.asked⟩

/-- The world may change where no cycle waits. -/
theorem aside (h : Staged P asked ⟨w, k, c⟩) (ha : w.Aside w') : Staged P asked ⟨w', k, c⟩ where
  stages s hs := by
    have heq : w'.stages = w.stages := by
      simp only [World.stages, ha.lookups, ha.jobs, ha.callback]
    rw [Machine.stages, heq] at hs
    exact h.stages s hs
  asked := (World.asked_of_trace ha.trace).trans h.asked

/-- What waits outside the stack may change. -/
theorem waiting (h : Staged P asked ⟨w, k, c⟩) {lookups : List OpenLookup} {jobs : List Job}
    {callback : Option Callback}
    (hw : ∀ s ∈ ({ w with lookups := lookups, jobs := jobs, callback := callback } : World).stages,
      s ∈ w.stages ∨ P s) :
    Staged P asked ⟨{ w with lookups := lookups, jobs := jobs, callback := callback }, k, c⟩ where
  stages s hs := by
    rcases List.mem_append.mp hs with hk | hs
    · exact h.stages s (List.mem_append_left _ hk)
    · exact (hw s hs).elim (fun hold => h.stages s (List.mem_append_right _ hold)) id
  asked := h.asked

/-- A frame is pushed. -/
theorem push (h : Staged P asked ⟨w, k, c⟩) (hf : ∀ s, f.stage? = some s → P s) :
    Staged P asked ⟨w, f :: k, c⟩ where
  stages s hs := (mem_stages_push.mp hs).elim (hf s) (h.stages s)
  asked := h.asked

/-- A frame that no cycle waits in is pushed. -/
theorem push_idle (h : Staged P asked ⟨w, k, c⟩) (hf : f.stage? = none) :
    Staged P asked ⟨w, f :: k, c⟩ :=
  h.push fun s hs => by rw [hf] at hs; cases hs

/-- A frame is popped. -/
theorem pop (h : Staged P asked ⟨w, f :: k, c⟩) : Staged P asked ⟨w, k, c⟩ :=
  ⟨fun s hs => h.stages s (mem_stages_push.mpr (.inr hs)), h.asked⟩

/-- A job is put in. -/
theorem enqueue (h : Staged P asked ⟨w, k, c⟩) (job : Job) (hj : ∀ s, job.stage? = some s → P s) :
    Staged P asked ⟨w.enqueue job, k, c⟩ where
  stages s hs := by
    rcases List.mem_append.mp hs with hk | hs
    · exact h.stages s (List.mem_append_left _ hk)
    · exact (mem_stages_enqueue.mp hs).elim (hj s) fun hw =>
        h.stages s (List.mem_append_right _ hw)
  asked := h.asked

/-- A job that no cycle waits in is put in. -/
theorem enqueue_idle (h : Staged P asked ⟨w, k, c⟩) (job : Job) (hj : job.stage? = none) :
    Staged P asked ⟨w.enqueue job, k, c⟩ :=
  h.enqueue job fun s hs => by rw [hj] at hs; cases hs

/-- The next job is taken from those that wait. -/
theorem dequeue (h : Staged P asked ⟨w, k, c⟩) {job : Job} {jobs : List Job}
    (hjobs : w.jobs = job :: jobs) : Staged P asked ⟨{ w with jobs := jobs }, k, c⟩ := by
  refine h.waiting fun s hs => .inl ?_
  simp only [World.stages, List.mem_append, hjobs] at hs ⊢
  refine hs.imp_left (Or.imp_right fun hin => ?_)
  obtain ⟨other, hother, heq⟩ := List.mem_filterMap.mp hin
  exact List.mem_filterMap.mpr ⟨other, List.mem_cons_of_mem job hother, heq⟩

/-- One more lookup is open. -/
theorem openLookup (h : Staged P asked ⟨w, k, c⟩) {l : OpenLookup}
    (hl : ∀ s, l.stage? = some s → P s) :
    Staged P asked ⟨{ w with lookups := w.lookups ++ [l] }, k, c⟩ := by
  refine h.waiting fun s hs => ?_
  simp only [World.stages, List.filterMap_append, List.mem_append] at hs ⊢
  rcases hs with ((hold | hnew) | hjob) | hcall
  · exact .inl (.inl (.inl hold))
  · obtain ⟨l', hl', heq⟩ := List.mem_filterMap.mp hnew
    rw [List.mem_singleton.mp hl'] at heq
    exact .inr (hl s heq)
  · exact .inl (.inl (.inr hjob))
  · exact .inl (.inr hcall)

/-- One more callback is open. -/
theorem openCallback (h : Staged P asked ⟨w, k, c⟩) {o : OpenCallback} (ho : P o.cycle.stage) :
    Staged P asked ⟨{ w with callback := w.callback.map fun b =>
      { b with pending := b.pending ++ [o] } }, k, c⟩ := by
  refine h.waiting fun s hs => ?_
  rcases hb : w.callback with _ | b
  · rw [hb] at hs
    exact .inl (by simpa [World.stages, hb] using hs)
  · simp only [World.stages, hb, Option.map_some, Option.elim_some, List.map_append,
      List.mem_append] at hs ⊢
    rcases hs with hwait | hold | hnew
    · exact .inl (.inl hwait)
    · exact .inl (.inr hold)
    · rw [List.map_singleton, List.mem_singleton] at hnew
      exact .inr (hnew ▸ ho)

/-! ### The functions of the machine -/

theorem emit (h : Staged P asked ⟨w, k, c⟩) {e : Event} (he : e.asked? = none) :
    Staged P asked ⟨w.emit e, k, c⟩ where
  stages := h.stages
  asked := by
    have hemit := w.asked_emit e
    rw [he] at hemit
    exact (hemit.trans (List.append_nil _)).trans h.asked

theorem log (h : Staged P asked ⟨w, k, c⟩) (level : Level) (message : String)
    (failure : Option Failure) : Staged P asked ⟨(w.log level message failure).1, k, c⟩ where
  stages s hs := by
    have hsame := w.same_log level message failure
    have heq : (w.log level message failure).1.stages = w.stages := by
      simp only [World.stages, hsame.lookups, hsame.jobs, hsame.callback]
    rw [Machine.stages, heq] at hs
    exact h.stages s hs
  asked := (w.asked_log level message failure).trans h.asked

theorem logFailure (h : Staged P asked ⟨w, k, c⟩) (failure : Failure) :
    Staged P asked ⟨(w.logFailure failure).1, k, c⟩ := by
  rw [World.logFailure]
  cases failure.reason with
  | ok reason => exact h.log _ _ _
  | error thrown => exact h

theorem runScript (h : Staged P asked ⟨w, k, c⟩) (steps : List Step) :
    Staged P asked (runScript w k steps) := by
  cases steps with
  | nil => exact h.control
  | cons step rest => exact (h.push_idle (f := .script rest) rfl).control

theorem modifyStrategy (h : Staged P asked ⟨w, k, c⟩) (g : Strategy → Strategy) :
    Staged P asked ⟨w.modifyStrategy g, k, c⟩ :=
  h.aside (w.aside_modifyStrategy g)

theorem modifyRefresher (h : Staged P asked ⟨w, k, c⟩) (number : Nat) (g : Refresher → Refresher) :
    Staged P asked ⟨w.modifyRefresher number g, k, c⟩ :=
  h.aside ⟨rfl, rfl, rfl, rfl⟩

theorem notify (h : Staged P asked ⟨w, k, c⟩) (change : Membership) :
    Staged P asked (notify w k change) := by
  rw [Machine.notify]
  split
  · exact h.control
  · split
    · next reactions _ _ =>
      have hemit : ∀ notice, (Event.notice notice).asked? = none := fun _ => rfl
      exact (((h.emit (hemit _)).modifyStrategy fun s =>
        { s with listener := some reactions.tail }).push_idle rfl).runScript _
    · exact h.control

theorem reset (h : Staged P asked ⟨w, k, c⟩) (service : String) (endpoints : List Endpoint) :
    Staged P asked (reset w k service endpoints) :=
  (h.modifyStrategy _).notify _

/-- **A naming service is asked**, by a timer or by a call. -/
theorem lookup (h : Staged P asked ⟨w, k, c⟩) (provider : String) (services : List String)
    (caller : Caller) (hcaller : ∀ s, caller.stage? (w.lookupCount + 1) = some s → P s) :
    Staged P (asked ++ (Event.lookup provider (w.lookupCount + 1) services caller).asked?.toList)
      (lookup w k provider services caller) := by
  rw [Machine.lookup]
  refine Staged.runScript (c := c) (Staged.push (f := .lookup _ _ _ caller _) ?_ hcaller) _
  refine ⟨h.stages, ?_⟩
  refine (World.asked_of_trace rfl).trans ((World.asked_emit _ _).trans ?_)
  exact congrArg (· ++ _) ((World.asked_of_trace rfl).trans h.asked)

/-- **The callback is called.** -/
theorem callBack (h : Staged P asked ⟨w, k, c⟩) {b : Callback} (hb : w.callback = some b)
    {cycle : Cycle} (hcycle : P cycle.stage) (service : String) (endpoints : List Endpoint) :
    Staged P asked (callBack w k b cycle service endpoints) := by
  have hcalled : Staged P asked ⟨{ w with callback := some { b with
      reactions := b.reactions.tail, count := b.count + 1 } }, k, c⟩ := by
    refine h.waiting fun s hs => .inl ?_
    simpa only [World.stages, hb, Option.elim_some] using hs
  have hframe : ∀ ending s, (Frame.callback (b.count + 1) cycle ending).stage? = some s → P s :=
    fun _ s hs => Option.some.inj hs ▸ hcycle
  rw [Machine.callBack]
  exact ((hcalled.emit (e := .callback _ service endpoints) rfl).push (hframe _)).runScript _

theorem endCycle (h : Staged P asked ⟨w, k, c⟩) (refresher : Nat) (origin : Origin)
    (outcome : Except Failure Unit) :
    Staged P asked ⟨w.endCycle refresher origin outcome, k, c⟩ := by
  cases origin with
  | timer => exact h.enqueue_idle (.released refresher) rfl
  | call number => exact h.emit (e := .ended number outcome) rfl

theorem failCycle (h : Staged P asked ⟨w, k, c⟩) (refresher : Nat) (origin : Origin)
    (failure : Failure) : Staged P asked ⟨w.failCycle refresher origin failure, k, c⟩ :=
  (h.logFailure failure).endCycle refresher origin _

theorem endBinding (h : Staged P asked ⟨w, k, c⟩) (call : Nat) (outcome : Except Failure Unit) :
    Staged P asked ⟨w.endBinding call outcome, k, c⟩ := by
  refine Staged.emit (e := .ended call outcome) ?_ rfl
  exact h.aside ⟨rfl, rfl, rfl, rfl⟩

/-- **A changed list is applied**, and the cycle goes on comparing the same answer. -/
theorem applyChange (h : Staged P asked ⟨w, k, c⟩) {cycle : Cycle} (hcycle : P cycle.stage)
    (handler : Handler) (change : Refresher.Change) :
    Staged P asked (applyChange w k cycle handler change) := by
  rw [Machine.applyChange]
  have hlogged := h.log .warn ("A new changed list getting from naming service name='" ++
    change.service ++ "' value=" ++ Endpoint.listText change.endpoints) none
  split
  · next w' failure hlog =>
    rw [hlog] at hlogged
    exact (hlogged.failCycle _ _ failure).control
  · next w' _ hlog =>
    rw [hlog] at hlogged
    have hseen := hlogged.modifyRefresher cycle.refresher fun r =>
      r.see change.service change.endpoints
    have hrest : P ({ cycle with remaining := change.remaining } : Cycle).stage := hcycle
    dsimp only
    split
    · exact (hseen.push (f := .taken _) fun s hs => Option.some.inj hs ▸ hrest).reset _ _
    · next b _ hb => exact hseen.callBack hb hrest _ _
    · exact (hseen.enqueue (.taken _ _) fun s hs => Option.some.inj hs ▸ hrest).control

/-- **A cycle goes on.** -/
theorem goOn (h : Staged P asked ⟨w, k, c⟩) {cycle : Cycle} (hcycle : P cycle.stage) :
    Staged P asked (goOn w k cycle) := by
  rw [Machine.goOn]
  split
  · exact h.control
  · split
    · exact (h.endCycle _ _ _).control
    · split
      · exact (h.endCycle _ _ _).control
      · exact h.applyChange hcycle _ _

/-- **A naming service answers its caller**: the cycle waits on, or compares what it is told. -/
theorem answer (h : Staged P asked ⟨w, k, c⟩) {provider : String} {number : Nat}
    {services : List String} {caller : Caller} {reply : Answer}
    (hwaits : ∀ s, caller.stage? number = some s → P s)
    (htold : ∀ settlement listing refresher generation, reply = .settled settlement →
      caller = .poll refresher generation →
      settlementOf w provider services settlement = .ok listing →
      P (refresher, .comparing (listing.getD Table.empty))) :
    Staged P asked (answer w k provider number services caller reply) := by
  unfold Machine.answer
  cases caller with
  | binding service =>
    have hcounted : Staged P asked ⟨{ w with callCount := w.callCount + 1 }, k, c⟩ :=
      h.aside ⟨rfl, rfl, rfl, rfl⟩
    cases reply with
    | settled settlement => exact (hcounted.enqueue_idle _ (Job.stage?_binding ..)).control
    | throws failure => exact (hcounted.endBinding _ _).control
    | pending => exact (hcounted.openLookup (l := ⟨number, provider, services, .binding ..⟩)
        fun s hs => by cases hs).control
  | poll refresher generation =>
    cases reply with
    | settled settlement =>
      refine (h.enqueue _ fun s hs => ?_).control
      obtain ⟨listing, hend, rfl⟩ := Job.exists_of_stage? hs
      exact htold settlement listing refresher generation rfl rfl hend
    | throws failure => exact (h.failCycle _ _ _).control
    | pending =>
      exact (h.openLookup (l := ⟨number, provider, services, .cycle _ generation .timer services⟩)
        hwaits).control
  | refresh refresher generation =>
    have hcounted : Staged P asked ⟨{ w with callCount := w.callCount + 1 }, k, c⟩ :=
      h.aside ⟨rfl, rfl, rfl, rfl⟩
    have hcalled : P (refresher, .called) := hwaits _ rfl
    cases reply with
    | settled settlement =>
      refine (hcounted.enqueue _ fun s hs => ?_).control
      obtain ⟨listing, -, rfl⟩ := Job.exists_of_stage? hs
      exact hcalled
    | throws failure => exact (hcounted.failCycle _ _ _).control
    | pending =>
      exact (hcounted.openLookup
        (l := ⟨number, provider, services, .cycle _ generation (.call _) services⟩) hwaits).control

theorem startPolling (h : Staged P asked ⟨w, k, c⟩) (delay period : Option Binary64) :
    Staged P asked ⟨(w.startPolling delay period).1, k, c⟩ := by
  rw [World.startPolling]
  split
  · exact h
  · split
    · exact h
    · split
      · exact h
      · split
        · exact h
        · exact (h.aside (w.aside_pollWith _ _)).log _ _ _

theorem stopPolling (h : Staged P asked ⟨w, k, c⟩) : Staged P asked ⟨w.stopPolling, k, c⟩ :=
  h.aside w.aside_stopPolling

/-! ### Waiting work -/

/-- What a job holds, it holds until it is done. -/
theorem of_job (h : Staged P asked ⟨w, k, c⟩) {job : Job} {jobs : List Job}
    (hjobs : w.jobs = job :: jobs) {s : Nat × Stage} (hs : job.stage? = some s) : P s := by
  refine h.stages s (List.mem_append_right _ (List.mem_append_left _ (List.mem_append_right _ ?_)))
  exact List.mem_filterMap.mpr ⟨job, by rw [hjobs]; exact List.mem_cons_self, hs⟩

/-- **Where a piece of work waits to be done next, the transition does it.** -/
theorem exists_next_eq_work (h : Staged P asked m) {job : Job} (hjob : m.job? = some job) :
    ∃ jobs k, Staged P asked ⟨{ m.world with jobs := jobs }, k, m.control⟩ ∧
      m.next = Machine.work { m.world with jobs := jobs } k job ∧ ∀ s, job.stage? = some s → P s := by
  obtain ⟨w, k, c⟩ := m
  unfold job? at hjob
  split at hjob
  · next w first k outcome heq =>
    cases heq
    obtain ⟨jobs, hjobs⟩ := List.head?_eq_some_iff.mp hjob
    -- the frame is replaced by one that keeps the first outcome
    refine ⟨jobs, .settle (some (first.getD outcome)) :: k, ?_, ?_, fun s => h.of_job hjobs⟩
    · exact (h.pop.dequeue hjobs).push_idle rfl
    · simp only [next, Machine.resume, hjobs]
  · next w time k outcome heq =>
    cases heq
    obtain ⟨jobs, hjobs⟩ := List.head?_eq_some_iff.mp hjob
    refine ⟨jobs, .advance time true :: k, h.dequeue hjobs, ?_, fun s => h.of_job hjobs⟩
    simp only [next, Machine.resume, hjobs]
  · exact absurd hjob (by simp)

/-- **A piece of waiting work is done.** -/
theorem work (h : Staged P asked ⟨w, k, c⟩) {job : Job} (hjob : ∀ s, job.stage? = some s → P s) :
    Staged P asked (work w k job) := by
  unfold Machine.work
  split
  · exact (h.endBinding _ _).control
  · exact ((h.stopPolling.modifyStrategy _).push_idle (f := .bound _ _) rfl).reset _ _
  · exact (h.failCycle _ _ _).control
  · exact h.goOn (hjob _ rfl)
  · exact h.goOn (hjob _ rfl)
  · exact (h.failCycle _ _ _).control
  · exact (h.log _ _ _).control
  · exact (h.modifyRefresher _ _).control

/-! ### Timers -/

/-- **A timer of a refresher fires**, and makes a lookup unless a cycle is in flight. -/
theorem tick (h : Staged P asked ⟨w, k, c⟩) (number : Nat) :
    Staged P asked (tick w k number) ∨ Inquires P asked w number (tick w k number) := by
  rw [Machine.tick]
  rcases hr : w.refreshers[number]? with _ | r
  · exact .inl h.control
  dsimp only
  split
  · exact .inl h.control
  · next hidle =>
    have hmarked := h.modifyRefresher number fun r => { r with inFlight := true }
    rw [beginCycle]
    split
    · exact .inl hmarked.control
    · next r' _ =>
      split
      · next provider _ _ =>
        refine .inr ⟨?_, ?_, lookupCount_lookup ..⟩
        · rw [hr]
          exact Bool.eq_false_iff.mpr hidle
        · rw [if_pos rfl]
          exact (hmarked.mono fun s => .inl).lookup provider r'.snapshot.keys
            (.poll number r'.generation) fun s hs => .inr (Option.some.inj hs).symm
      · exact .inl (hmarked.endCycle number .timer (.ok ())).control

/-- **A timer fires.** -/
theorem fire (h : Staged P asked ⟨w, k, c⟩) (t : Timer) :
    Staged P asked (fire w k t) ∨ ∃ n, Inquires P asked w n (fire w k t) := by
  have hreached : Staged P asked ⟨w.reach t, k, c⟩ := h.aside ⟨rfl, rfl, rfl, rfl⟩
  unfold Machine.fire
  dsimp only
  split
  · next n _ =>
    have hgone := hreached.modifyRefresher n fun r => { r with delayTimer := none }
    have hmark : (((w.reach t).modifyRefresher n fun r =>
        { r with delayTimer := none }).refreshers[n]?).any Refresher.inFlight =
          (w.refreshers[n]?).any Refresher.inFlight := by
      simp only [World.modifyRefresher, List.getElem?_modify, if_true]
      exact Option.any_map ..
    exact ((hgone.push_idle (f := .arm n) rfl).tick n).imp_right fun hasks =>
      ⟨n, hmark ▸ hasks.idle, hasks.staged, hasks.issued⟩
  · next n _ =>
    exact (hreached.tick n).imp_right fun hasks => ⟨n, hasks.idle, hasks.staged, hasks.issued⟩
  · exact .inl hreached.control

/-! ### Resuming -/

/-- **What returned is taken up**, where no work waits to be done first and no lookup is
answered. -/
theorem resume (h : Staged P asked ⟨w, k, c⟩) {outcome : Outcome}
    (hf : ∀ s, f.stage? = some s → P s)
    (hanswered : ∀ provider number services caller reply,
      f ≠ .lookup provider number services caller reply)
    (hjob : job? ⟨w, f :: k, .deliver outcome⟩ = none)
    (hdue : ∀ time settling, f ≠ .advance time settling) :
    Staged P asked (resume w k outcome f) := by
  cases f with
  | script rest => exact (h.emit (e := .nested outcome) rfl).runScript rest
  | listener ending =>
    cases ending with
    | returns | pending => exact h.control
    | throws failure => exact (h.log _ _ _).control
    | rejects failure => exact (h.enqueue_idle (.rejected failure) rfl).control
    | deferred => exact Staged.control (c := c) (h.aside ⟨rfl, rfl, rfl, rfl⟩)
  | lookup provider number services caller reply => exact absurd rfl (hanswered _ _ _ _ _)
  | callback number cycle ending =>
    have hcycle : ∀ outcome s, (Job.taken cycle outcome).stage? = some s → P s :=
      fun _ s hs => hf s hs
    cases ending with
    | returns | rejects failure => exact (h.enqueue _ (hcycle _)).control
    | throws failure => exact (h.failCycle _ _ _).control
    | pending | deferred => exact (h.openCallback (o := ⟨number, cycle⟩) (hf _ rfl)).control
  | taken cycle =>
    cases outcome with
    | ok result => exact (h.enqueue (.taken cycle (.ok ())) hf).control
    | error failure => exact (h.failCycle _ _ _).control
  | bound call timings =>
    cases outcome with
    | error failure => exact (h.endBinding _ _).control
    | ok result =>
      cases timings with
      | none => exact (h.endBinding _ _).control
      | some timings =>
        exact ((h.startPolling (some timings.delay) (some timings.period)).endBinding call _).control
  | arm refresher =>
    rw [Machine.resume, World.armPeriod]
    dsimp only
    split
    · exact h.control
    · exact Staged.control (c := c) (h.aside ⟨rfl, rfl, rfl, rfl⟩)
  | advance time settling => exact absurd rfl (hdue _ _)
  | settle first =>
    rw [Machine.resume_settle hjob]
    exact h.control

/-! ### Steps -/

/-- A call of the listener that was left to a step ends. -/
theorem settleListener (h : Staged P asked ⟨w, k, c⟩) (outcome : Except Failure Unit) :
    Staged P asked (settleListener w k outcome) := by
  rw [Machine.settleListener]
  split
  · exact h.control
  · next left _ =>
    have hleft : Staged P asked ⟨{ w with deferred := left }, k, c⟩ := h.aside ⟨rfl, rfl, rfl, rfl⟩
    have hended := hleft.emit (e := .listenerEnded outcome) rfl
    cases outcome with
    | ok => exact hended.control
    | error failure => exact (hended.enqueue_idle (.rejected failure) rfl).control

/-- **A step that concerns the strategy**, whatever it does. -/
theorem performStrategy (h : Staged P asked ⟨w, k, c⟩) (s : Strategy) (step : Step) :
    Staged P asked (performStrategy w k s step) := by
  have hchange : ∀ rotation change, Staged P asked (changeMembership w k rotation change) := by
    intro rotation change
    unfold changeMembership
    split
    · exact h.control
    · exact (h.modifyStrategy _).notify _
  unfold Machine.performStrategy
  split
  · split
    · exact (h.modifyStrategy _).control
    · exact h.control
  -- what only reads
  · exact h.control
  · exact h.control
  · exact h.control
  · exact h.control
  · exact h.control
  · exact h.control
  -- the membership
  · exact hchange _ _
  · exact hchange _ _
  · exact h.reset _ _
  -- binding and polling
  · next service provider =>
    have hasks := h.lookup provider [service] (.binding service) fun s hs => by cases hs
    rwa [show (Event.lookup provider (w.lookupCount + 1) [service] (.binding service)).asked?.toList =
      [] from rfl, List.append_nil] at hasks
  · exact (h.startPolling _ _).control
  · exact h.stopPolling.control
  · exact h.stopPolling.control
  -- what the listener leaves behind
  · exact h.settleListener _
  · exact h.control

/-- An open callback ends. -/
theorem settleCallback (h : Staged P asked ⟨w, k, c⟩) {b : Callback} (hb : w.callback = some b)
    (which : Which) (outcome : Except Failure Unit) :
    Staged P asked (settleCallback w k b which outcome) := by
  rw [Machine.settleCallback]
  split
  · exact h.control
  · next o ho =>
    have hcycle : P o.cycle.stage := by
      refine h.stages _ (List.mem_append_right _ (List.mem_append_right _ ?_))
      rw [hb]
      exact List.mem_map_of_mem (mem_of_pick? ho)
    have hclosed : Staged P asked ⟨{ w with callback := some { b with
        pending := b.pending.filter fun p => p.number != o.number } }, k, c⟩ := by
      refine h.waiting fun s hs => .inl ?_
      simp only [World.stages, List.mem_append, hb, Option.elim_some] at hs ⊢
      exact hs.imp_right fun hin => (List.filter_sublist.map _).subset hin
    exact (hclosed.enqueue (.taken o.cycle outcome) fun s hs =>
      Option.some.inj hs ▸ hcycle).control

/-- **A step that concerns the refresher** and begins no cycle. -/
theorem performRefresher (h : Staged P asked ⟨w, k, c⟩) {b : Callback} (hb : w.callback = some b)
    (r : Refresher) {step : Step} (hstep : step ≠ .refresh) :
    Staged P asked (performRefresher w k b r step) := by
  unfold Machine.performRefresher
  split
  · next services =>
    have hwatched : Staged P asked ⟨{ w with callback := some { b with watched := b.watched ++
        (services.keys.filter fun service => !b.watched.contains service) } }, k, c⟩ := by
      refine h.waiting fun s hs => .inl ?_
      simpa only [World.stages, hb, Option.elim_some] using hs
    exact (hwatched.aside (World.aside_startRefresher _ 0 services)).control
  · exact (h.aside (w.aside_stopRefresher 0)).control
  · exact h.control
  · exact absurd rfl hstep
  · exact h.control
  · exact h.settleCallback hb _ _
  · exact h.control

/-- **An open lookup ends**, and its cycle compares what it is told. -/
theorem settle (h : Staged P asked ⟨w, k, c⟩) {which : Which} {settlement : Settlement}
    (htold : ∀ l refresher origin generation services listing, l ∈ w.lookups →
      pick? OpenLookup.number w.lookups which = some l →
      l.waiter = .cycle refresher generation origin services →
      settlementOf w l.provider l.services settlement = .ok listing →
      P (refresher, origin.stage (.comparing (listing.getD Table.empty)))) :
    Staged P asked (settle w k which settlement) := by
  rw [Machine.settle]
  split
  · exact h.control
  · next l hl =>
    have hclosed : Staged P asked
        ⟨{ w with lookups := w.lookups.filter fun m => m.number != l.number }, k, c⟩ := by
      refine h.waiting fun s hs => .inl ?_
      simp only [World.stages, List.mem_append] at hs ⊢
      refine hs.imp_left (Or.imp_left fun hin => ?_)
      exact (List.filter_sublist.filterMap _).subset hin
    refine (hclosed.enqueue _ fun s hs => ?_).control
    cases hwaiter : l.waiter with
    | binding call service provider =>
      rw [hwaiter, Job.stage?_binding] at hs
      cases hs
    | cycle refresher generation origin services =>
      rw [hwaiter] at hs
      obtain ⟨listing, hend, rfl⟩ := Job.exists_of_stage? hs
      exact htold l refresher origin generation services listing (mem_of_pick? hl) hl hwaiter hend

/-- **A step is performed** that ends no lookup and begins no cycle. -/
theorem perform (h : Staged P asked ⟨w, k, c⟩) {step : Step} (hrefresh : step ≠ .refresh)
    (hsettle : ∀ which settlement, step ≠ .settle which settlement) :
    Staged P asked (perform w k step) := by
  unfold Machine.perform
  split
  · exact (h.push_idle (f := .advance _ _) rfl).control
  · exact Staged.control (c := c) (h.aside ⟨rfl, rfl, rfl, rfl⟩)
  · exact Staged.control (c := c) (h.aside ⟨rfl, rfl, rfl, rfl⟩)
  · exact Staged.control (c := c) (h.aside ⟨rfl, rfl, rfl, rfl⟩)
  · exact Staged.control (c := c) (h.aside ⟨rfl, rfl, rfl, rfl⟩)
  · exact absurd rfl (hsettle _ _)
  · split
    · split
      · next b r hb _ => exact h.performRefresher hb r hrefresh
      · exact h.control
    · split
      · exact h.performStrategy _ _
      · exact h.control

end Staged

/-! ### All transitions -/

variable {m m' : Machine}

/-- **What a stage comes from**: it was there, or its lookup ends with the transition. -/
def Stems (m : Machine) (s : Nat × Stage) : Prop :=
  s ∈ m.stages ∨ ∃ number listing, (number, .ok listing) ∈ m.answered ∧
    (s.1, .asking number) ∈ m.stages ∧ s.2 = .comparing (listing.getD Table.empty)

/-- Two stages of a cycle: its lookup ends. -/
theorem stems_of_answered (origin : Origin) {refresher number : Nat} {listing : Option Listing}
    (hanswered : (number, .ok listing) ∈ m.answered)
    (hwaits : (refresher, origin.stage (.asking number)) ∈ m.stages) :
    m.Stems (refresher, origin.stage (.comparing (listing.getD Table.empty))) := by
  cases origin with
  | timer => exact .inr ⟨number, listing, hanswered, hwaits, rfl⟩
  | call => exact .inl hwaits

/-- **What a transition makes of the stages**, unless it performs a step that begins a cycle: they
stem from those before, or a timer makes a lookup. -/
theorem staged_next (hrefresh : m.control ≠ .perform .refresh) :
    Staged m.Stems m.world.asked m.next ∨ ∃ n, Inquires (· ∈ m.stages) m.world.asked m.world n m.next := by
  have hrefl : Staged m.Stems m.world.asked m := (Staged.refl m).mono fun s => .inl
  rcases hjob : m.job? with _ | job
  · obtain ⟨w, k, step | outcome⟩ := m
    · left
      by_cases hsettle : ∃ which settlement, step = .settle which settlement
      · obtain ⟨which, settlement, rfl⟩ := hsettle
        refine hrefl.settle fun l refresher origin generation services listing hl hpick hwaiter hend => ?_
        refine stems_of_answered origin (?_ : (l.number, _) ∈ _) ?_
        · simp only [answered, hpick, Option.toList_some, List.map_cons, List.map_nil, hend,
            List.mem_singleton]
        · refine List.mem_append_right _ (List.mem_append_left _ (List.mem_append_left _ ?_))
          exact List.mem_filterMap.mpr ⟨l, hl, by rw [OpenLookup.stage?, hwaiter]; rfl⟩
      · exact hrefl.perform (fun heq => hrefresh (heq ▸ rfl)) fun which settlement heq =>
          hsettle ⟨which, settlement, heq⟩
    · cases k with
      | nil => exact .inl hrefl
      | cons f k =>
        have hpopped := hrefl.pop
        have hf : ∀ s, f.stage? = some s → Stems ⟨w, f :: k, .deliver outcome⟩ s :=
          fun s hs => .inl (mem_stages_push.mpr (.inl hs))
        cases f with
        | lookup provider number services caller reply =>
          left
          refine hpopped.answer hf ?_
          rintro settlement listing refresher generation rfl rfl hend
          refine stems_of_answered .timer (?_ : (number, _) ∈ _) ?_
          · simp only [answered, hend, List.mem_singleton]
          · exact mem_stages_push.mpr (.inl rfl)
        | advance time settling =>
          rw [next, resume_advance (not_waits_of_job? hjob)]
          split
          · next t _ =>
            have hfired := Staged.fire (Staged.refl ⟨w, .advance time settling :: k, .deliver outcome⟩) t
            exact hfired.imp_left fun hsame => hsame.mono fun s => .inl
          · exact .inl (Staged.control (c := .deliver outcome) (hpopped.aside ⟨rfl, rfl, rfl, rfl⟩))
        | _ => exact .inl (hpopped.resume hf (fun _ _ _ _ _ => by simp) hjob fun _ _ => by simp)
  · left
    obtain ⟨jobs, k, hwaits, hnext, hstage⟩ := hrefl.exists_next_eq_work hjob
    rw [hnext]
    exact hwaits.work hstage

/-- **What becomes of the stages from one point to the next.** -/
theorem Leads.staged (hl : Leads m m') (hrefresh : m.control ≠ .perform .refresh) :
    Staged m.Stems m.world.asked m' ∨ ∃ n, Inquires (· ∈ m.stages) m.world.asked m.world n m' := by
  cases hl with
  | next => exact staged_next hrefresh
  | perform w outcome step =>
    have hrefl := (Staged.refl ⟨w, [], .deliver outcome⟩).mono fun s => (.inl : _ → Stems _ s)
    exact .inl (hrefl.push_idle rfl).control
  | interject w first outcome step =>
    have hrefl := (Staged.refl ⟨w, [.settle first], .deliver outcome⟩).mono fun s =>
      (.inl : _ → Stems _ s)
    exact .inl hrefl.control
  | @fire w outcome t ht =>
    have hrefl := Staged.refl ⟨w, [], .deliver outcome⟩
    exact ((hrefl.push_idle (f := .settle none) rfl).fire t).imp_left fun hsame =>
      hsame.mono fun s => .inl

end Machine

end Balancer.Session
