import Balancer.Proofs.Session.Cycles
import Balancer.Proofs.Session.Still

/-!
# What a transition does to the clockwork

No time passes in a transition but for at most one thing: a refresher is started or stopped, the
later polls of one begin, a cycle that a timer began is released, the clock is set, or a timer
fires. This file is the one place where the machine's functions are taken apart with respect to
time.

* `Balancer.Session.World.strike` – **what a timer that fires does to the clockwork**: the clock
  comes to it, and a cycle begins with its lookup unless one is in flight.
* `Balancer.Session.Beat` – **what a transition may do to the clockwork.**
* `Balancer.Session.Machine.Beats` – **it does this, and is still otherwise.**
* `Balancer.Session.Machine.Reachable.exists_beats_next`,
  `Balancer.Session.Machine.Reachable.exists_beats` – **every transition is a beat.**
-/

namespace Balancer.Session

/-! ### Timers that fire -/

namespace World

/-- **A cycle that a timer begins**, as far as the clockwork is concerned: unless one is in flight,
the refresher marks it as being so, and makes the lookup if it runs. -/
def launch (w : World) (number : Nat) : World :=
  match w.refreshers[number]? with
  | none => w
  | some r =>
    if r.inFlight then w
    else
      let w := w.modifyRefresher number fun r => { r with inFlight := true }
      match r.running, r.provider with
      | true, some provider =>
        w.emit (.lookup provider (w.lookupCount + 1) r.snapshot.keys (.poll number r.generation))
      | _, _ => w

/-- The cycle that begins, if one does. -/
def launched (w : World) (number : Nat) : List Token :=
  match w.refreshers[number]? with
  | none => []
  | some r => if r.inFlight then [] else [.flight number]

/-- The world in which a timer has come due, before a cycle begins; its refresher no longer waits
for the first poll. -/
def reached (w : World) (t : Timer) : World :=
  match t.owner with
  | .delay number => (w.reach t).modifyRefresher number fun r => { r with delayTimer := none }
  | _ => w.reach t

/-- **What a timer that fires does to the clockwork.** -/
def strike (w : World) (t : Timer) : World :=
  match t.owner with
  | .delay number | .period number => (w.reached t).launch number
  | .alarm => w.reached t

/-- The cycle that a timer that fires begins, if it does. -/
def struck (w : World) (t : Timer) : List Token :=
  match t.owner with
  | .delay number | .period number => (w.reached t).launched number
  | .alarm => []

/-- A cycle that begins changes one refresher, and is shown by an event at most. -/
theorem launch_keeps {P : World → Prop} (w : World) (number : Nat) (h : P w)
    (hmodify : ∀ v f, P v → P (v.modifyRefresher number f)) (hemit : ∀ v e, P v → P (v.emit e)) :
    P (w.launch number) := by
  rw [launch]
  split
  · exact h
  · split
    · exact h
    · dsimp only
      split
      · exact hemit _ _ (hmodify _ _ h)
      · exact hmodify _ _ h

/-- **What holds when the clock has come to a timer still holds when the timer has fired**, if
neither refreshers nor events matter to it. -/
theorem strike_keeps {P : World → Prop} (w : World) (t : Timer) (h : P (w.reach t))
    (hmodify : ∀ v number f, P v → P (v.modifyRefresher number f))
    (hemit : ∀ v e, P v → P (v.emit e)) : P (w.strike t) := by
  have hreached : P (w.reached t) := by
    rw [reached]
    split
    · exact hmodify _ _ _ h
    · exact h
  rw [strike]
  split
  · exact launch_keeps _ _ hreached (fun v => hmodify v _) hemit
  · exact launch_keeps _ _ hreached (fun v => hmodify v _) hemit
  · exact hreached

end World

/-! ### Operations that leave the tokens alone -/

namespace World

theorem sameTokens_startRefresher (w : World) (number : Nat) (services : Listing) :
    w.SameTokens (w.startRefresher number services) := by
  rw [startRefresher]
  dsimp only
  split
  · exact ⟨rfl, rfl, rfl, rfl⟩
  · split <;> exact ⟨rfl, rfl, rfl, rfl⟩

theorem sameTokens_clearTimer (w : World) (id : Option Nat) : w.SameTokens (w.clearTimer id) := by
  cases id <;> exact ⟨rfl, rfl, rfl, rfl⟩

theorem SameTokens.trans {w w' w'' : World} (h : w.SameTokens w') (h' : w'.SameTokens w'') :
    w.SameTokens w'' :=
  ⟨h'.lookups.trans h.lookups, h'.jobs.trans h.jobs, h'.callback.trans h.callback,
    h'.lookupCount.trans h.lookupCount⟩

theorem sameTokens_stopRefresher (w : World) (number : Nat) :
    w.SameTokens (w.stopRefresher number) := by
  rw [stopRefresher]
  split
  · exact ⟨rfl, rfl, rfl, rfl⟩
  · next r _ =>
    have hcleared := (w.sameTokens_clearTimer r.delayTimer).trans (sameTokens_clearTimer _ r.periodTimer)
    exact hcleared.trans ⟨rfl, rfl, rfl, rfl⟩

theorem sameTokens_pollWith (w : World) (binding : Binding) (timings : Timings) :
    w.SameTokens (w.pollWith binding timings) := by
  refine SameTokens.trans ?_ (sameTokens_startRefresher _ _ _)
  exact ⟨rfl, rfl, rfl, rfl⟩

theorem sameTokens_armPeriod (w : World) (number : Nat) : w.SameTokens (w.armPeriod number) := by
  rw [armPeriod]
  split <;> exact ⟨rfl, rfl, rfl, rfl⟩

theorem sameTokens_reached (w : World) (t : Timer) : w.SameTokens (w.reached t) := by
  rw [reached]
  split <;> exact ⟨rfl, rfl, rfl, rfl⟩

/-- A run ends in the same way whatever jobs wait. -/
theorem sameTime_stopRefresher_jobs (w : World) (number : Nat) (jobs : List Job) :
    (w.stopRefresher number).SameTime (({ w with jobs := jobs } : World).stopRefresher number) := by
  have heq : ({ w with jobs := jobs } : World).stopRefresher number =
      { w.stopRefresher number with jobs := jobs } := by
    simp only [stopRefresher]
    rcases w.refreshers[number]? with _ | r
    · rfl
    · rcases hdelay : r.delayTimer with _ | i <;> rcases hperiod : r.periodTimer with _ | j
      all_goals simp only [hdelay, hperiod]; rfl
  rw [heq]
  exact ⟨rfl, rfl, rfl, fun _ => rfl, fun _ => rfl⟩

/-- A run begins in the same way whatever the callback is. -/
theorem sameTime_startRefresher_callback (w : World) (number : Nat) (services : Listing)
    (callback : Option Callback) : (w.startRefresher number services).SameTime
      (({ w with callback := callback } : World).startRefresher number services) := by
  have heq : ({ w with callback := callback } : World).startRefresher number services =
      { w.startRefresher number services with callback := callback } := by
    simp only [startRefresher]
    rcases w.refreshers[number]? with _ | r
    · rfl
    · dsimp only
      split <;> rfl
  rw [heq]
  exact ⟨rfl, rfl, rfl, fun _ => rfl, fun _ => rfl⟩

end World

/-- The frame that waits while a timer makes a first poll. -/
def Timer.armed (t : Timer) : List Frame :=
  match t.owner with
  | .delay number => [.arm number]
  | _ => []

/-! ### Beats -/

/-- **What a transition may do to the clockwork.** -/
inductive Beat
  /-- Nothing. -/
  | rest
  /-- The refresher that is driven directly is started, unless it runs. -/
  | start (services : Listing)
  /-- A refresher is stopped. -/
  | stop (refresher : Nat)
  /-- The strategy gets a new refresher, which is started. -/
  | poll (binding : Binding) (timings : Timings)
  /-- The first poll of a refresher is done, and its later polls begin. -/
  | arm (refresher : Nat)
  /-- A cycle that a timer began is released. -/
  | release (refresher : Nat)
  /-- The clock is set. -/
  | pass (time : Binary64)
  /-- A timer fires. -/
  | strike (timer : Timer)

namespace Beat

/-- The world after the beat, as far as the clockwork is concerned. -/
def world : Beat → World → World
  | .rest, w => w
  | .start services, w => w.startRefresher 0 services
  | .stop refresher, w => w.stopRefresher refresher
  | .poll binding timings, w => w.pollWith binding timings
  | .arm refresher, w => w.armPeriod refresher
  | .release refresher, w => w.modifyRefresher refresher fun r => { r with inFlight := false }
  | .pass time, w => { w with clock := time }
  | .strike t, w => w.strike t

/-- The tokens that come in with the beat. -/
def given : Beat → World → List Token
  | .strike t, w => w.struck t
  | _, _ => []

/-- The tokens that go out with the beat. -/
def taken : Beat → List Token
  | .release refresher => [.landed refresher]
  | _ => []

/-- The refresher whose first poll is done with the beat. -/
def armed : Beat → List Nat
  | .arm refresher => [refresher]
  | _ => []

end Beat

namespace Machine

/-- **The time up to which time passes next**, if it does so with the next transition. -/
def until? : Machine → Option Binary64
  | ⟨w, .advance time settling :: _, .deliver _⟩ =>
    if settling = true ∧ w.jobs ≠ [] then none else some time
  | _ => none

/-- **The timer that the next transition lets fire**, if it does. -/
def due? (m : Machine) : Option Timer := m.until?.bind fun time => Timer.firstDue? m.world.timers time

/-- Whether time passes with the next transition. -/
def elapses (m : Machine) : Bool := m.until?.isSome

/-- **The refreshers whose first poll is being made**, the innermost first. -/
def arms (m : Machine) : List Nat := m.stack.filterMap Frame.arm?

/-- The frames that lie at the bottom of the stack after a beat. -/
def base (m : Machine) : Beat → List Frame
  | .strike t => t.armed ++ m.stack.headD (.settle none) :: m.stack.tail
  | _ => m.rest

/-- **Whether a beat may happen next.** -/
def Fits (m : Machine) : Beat → Prop
  | .poll _ timings => timings.check = .ok ()
  | .pass time => m.until? = some time ∧ Timer.firstDue? m.world.timers time = none
  | .strike t => m.due? = some t ∨ m.finished = true ∧ t ∈ m.world.timers
  | _ => True

/-- **A transition is a beat**: it may happen, and no time passes otherwise. -/
structure Beats (b : Beat) (m m' : Machine) : Prop where
  /-- It may happen. -/
  fits : m.Fits b
  /-- A first poll is done only then. -/
  frames : m.arms = b.armed ++ m.rest.filterMap Frame.arm?
  /-- No time passes otherwise. -/
  still : Still (b.world m.world) (b.given m.world ++ m.tokens) (m.base b) m' b.taken

/-- **Numbers stand for one call**, which has been made. -/
structure Numbered (m : Machine) : Prop where
  /-- No two places hold the same number. -/
  once : ∀ d i, m.tokens.count (.ticket d i) ≤ 1
  /-- No place holds a number that is still to come. -/
  issued : ∀ d i, m.world.issued d < i → m.tokens.count (.ticket d i) = 0
  /-- Numbers begin at one. -/
  pos : ∀ d, m.tokens.count (.ticket d 0) = 0

variable {m m' : Machine} {w v : World} {ts held : List Token} {k k₁ : List Frame} {c : Control}
  {f : Frame} {outcome : Outcome}

/-- Where no call has been made at a desk, no number is held. -/
theorem Numbered.count_eq_zero_of_issued (h : m.Numbered) {d : Desk} (hd : m.world.issued d = 0)
    (i : Nat) : m.tokens.count (.ticket d i) = 0 := by
  rcases Nat.eq_zero_or_pos i with rfl | hpos
  · exact h.pos d
  · exact h.issued d i (hd ▸ hpos)

theorem Beats.of_still (h : Still m.world m.tokens m.rest m' [])
    (hframes : m.arms = m.rest.filterMap Frame.arm?) : Beats .rest m m' :=
  ⟨trivial, hframes, h⟩

/-! ### Cycles -/

/-- **A cycle begins that a call has made.** -/
theorem Still.beginCycle (h : Still v ts k ⟨w, k₁, c⟩ held) (number : Nat) :
    Still v ts k (beginCycle w k₁ number false) held := by
  rw [Machine.beginCycle]
  split
  · exact h.control
  · split
    · exact h.lookup_untimed _ _ rfl
    · have hcounted := h.callCount (w.callCount + 1)
      exact (hcounted.endCycle (n := number) (o := .call _) _).control

/-- **A cycle begins that a timer has made**, unless one is in flight. -/
theorem still_tick (h : Still w ts k ⟨w, k₁, c⟩ []) (number : Nat) :
    Still (w.launch number) (w.launched number ++ ts) k (tick w k₁ number) [] := by
  rw [tick, World.launch, World.launched]
  rcases hr : w.refreshers[number]? with _ | r
  · exact h.control
  · dsimp only
    split
    · exact h.control
    · let w' := w.modifyRefresher number fun r => { r with inFlight := true }
      have hr' : w'.refreshers[number]? = some { r with inFlight := true } := by
        simp only [w', World.modifyRefresher, List.getElem?_modify, if_true, hr]
        rfl
      have hmarked : Still w' ([.flight number] ++ ts) k ⟨w', k₁, c⟩ [.flight number] :=
        (h.act (x := w') (y := w') ⟨rfl, rfl, rfl, rfl⟩ ⟨rfl, rfl, rfl, rfl⟩ (.refl _)).give
          [.flight number] fun d i => rfl
      have hskip : Still w' ([.flight number] ++ ts) k (skipCycle w' k₁ number true) [] :=
        (Still.endCycle (o := .timer) hmarked (.ok ())).control
      rw [Machine.beginCycle, hr']
      cases hrunning : r.running with
      | false => exact hskip
      | true =>
        rcases hprovider : r.provider with _ | provider
        · exact hskip
        · refine Still.lookup (c := c) ?_
          exact hmarked.act (w'.sameTokens_emit _) (w'.sameTokens_emit _) (.refl _)

/-- **A timer fires.** -/
theorem still_fire (w : World) (k : List Frame) (c : Control) (t : Timer) :
    Still (w.strike t) (w.struck t ++ (⟨w, k, c⟩ : Machine).tokens) (t.armed ++ k) (fire w k t) [] := by
  have htokens := (w.sameTokens_reached t).tokens
  have hreached : ∀ fs : List Frame, fs.flatMap Frame.tokens = [] →
      Still (w.reached t) (⟨w, k, c⟩ : Machine).tokens (fs ++ k) ⟨w.reached t, fs ++ k, c⟩ [] := by
    intro fs hfs
    have hrefl := Still.refl (w.reached t) (fs ++ k) c
    simpa only [tokens, htokens, List.flatMap_append, hfs, List.nil_append] using hrefl
  unfold World.strike World.struck Timer.armed fire
  unfold World.reached at hreached ⊢
  cases howner : t.owner with
  | delay number =>
    simp only [howner] at hreached ⊢
    exact still_tick (hreached [.arm number] rfl) number
  | period number =>
    simp only [howner] at hreached ⊢
    exact still_tick (hreached [] rfl) number
  | alarm =>
    simp only [howner] at hreached ⊢
    exact (hreached [] rfl).control

/-! ### Waiting work -/

/-- The refresher of a cycle under way is there. -/
theorem Backed.isSome_of_holds (hm : m.Backed) {t : Suspended} (ht : m.Holds t) :
    m.world.refreshers[t.refresher]?.isSome = true := by
  obtain ⟨provider, services, hasked, -⟩ := hm.of_holds ht
  obtain ⟨r, hr, -⟩ := hm.asked _ _ _ _ hasked
  obtain ⟨r, hr, -⟩ := Option.map_eq_some_iff.mp hr
  rw [hr]
  rfl

/-- **A piece of waiting work is done.** -/
theorem exists_beats_work (hm : m.Backed) {job : Job} {jobs : List Job} (hjob : m.job? = some job)
    (h : Still m.world m.tokens m.rest ⟨{ m.world with jobs := jobs }, k, c⟩ (job.tokens ++ []))
    (hframes : m.arms = m.rest.filterMap Frame.arm?) :
    ∃ b, Beats b m (work { m.world with jobs := jobs } k job) := by
  have hheld : ∀ {t}, job.suspended? = some t → m.world.refreshers[t.refresher]?.isSome = true :=
    fun ht => hm.isSome_of_holds (holds_of_job hjob ht)
  unfold work
  split
  · exact ⟨.rest, .of_still (h.endBinding _ _).control hframes⟩
  · next call service provider listing =>
    -- the polling of the strategy ends, if it has a refresher
    let w' : World := { m.world with jobs := jobs }
    rcases hpoller : m.world.poller? with _ | n
    · have hidle : w'.stopPolling = w' := by
        have hpoller' : w'.poller? = none := hpoller
        rw [World.stopPolling, hpoller']
      refine ⟨.rest, .of_still ?_ hframes⟩
      dsimp only
      rw [hidle]
      exact ((h.modifyStrategy _).push_bare (f := .bound call _) rfl rfl).reset _ _
    · have hstops : w'.stopPolling = w'.stopRefresher n := by
        have hpoller' : w'.poller? = some n := hpoller
        rw [World.stopPolling, hpoller']
      refine ⟨.stop n, trivial, hframes, ?_⟩
      dsimp only
      rw [hstops]
      have hstopped := h.act (m.world.sameTokens_stopRefresher n) (w'.sameTokens_stopRefresher n)
        (m.world.sameTime_stopRefresher_jobs n jobs)
      exact ((hstopped.modifyStrategy _).push_bare (f := .bound call _) rfl rfl).reset _ _
  · exact ⟨.rest, .of_still (h.failCycle _).control hframes⟩
  · exact ⟨.rest, .of_still (h.goOn (hheld rfl)) hframes⟩
  · exact ⟨.rest, .of_still (h.goOn (hheld rfl)) hframes⟩
  · exact ⟨.rest, .of_still (h.failCycle _).control hframes⟩
  · exact ⟨.rest, .of_still (h.log _ _ _).control hframes⟩
  · next n =>
    refine ⟨.release n, trivial, hframes, Still.control (c := c) ?_⟩
    exact h.act ⟨rfl, rfl, rfl, rfl⟩ ⟨rfl, rfl, rfl, rfl⟩
      ⟨rfl, rfl, rfl, fun _ => rfl, fun _ => rfl⟩

/-! ### Polling of the strategy -/

/-- **Polling begins**, if the strategy follows a service and does not poll already. -/
theorem exists_beats_startPolling (h : Still m.world m.tokens m.rest ⟨m.world, k, c⟩ [])
    (hframes : m.arms = m.rest.filterMap Frame.arm?) (delay period : Option Binary64) :
    ∃ b, Beats b m ⟨(m.world.startPolling delay period).1, k, c⟩ := by
  rw [World.startPolling]
  split
  · exact ⟨.rest, .of_still h hframes⟩
  · split
    · exact ⟨.rest, .of_still h hframes⟩
    · next binding hb =>
      split
      · exact ⟨.rest, .of_still h hframes⟩
      · split
        · exact ⟨.rest, .of_still h hframes⟩
        · next timings hchosen =>
          refine ⟨.poll binding timings, Strategy.check_of_chooseTimings hchosen, hframes, ?_⟩
          exact (h.act (m.world.sameTokens_pollWith binding timings)
            (m.world.sameTokens_pollWith binding timings) (.refl _)).log _ _ _

/-- **Polling ends**, if there is a refresher. -/
theorem exists_beats_stopPolling (h : Still m.world m.tokens m.rest ⟨m.world, k, c⟩ [])
    (hframes : m.arms = m.rest.filterMap Frame.arm?) :
    ∃ b, Beats b m ⟨m.world.stopPolling, k, c⟩ := by
  rw [World.stopPolling]
  split
  · exact ⟨.rest, .of_still h hframes⟩
  · next n _ =>
    exact ⟨.stop n, trivial, hframes, h.act (m.world.sameTokens_stopRefresher n)
      (m.world.sameTokens_stopRefresher n) (.refl _)⟩

/-! ### Resuming -/

theorem exists_of_due? {t : Timer} (h : m.due? = some t) :
    ∃ time, m.until? = some time ∧ Timer.firstDue? m.world.timers time = some t :=
  Option.bind_eq_some_iff.mp h

/-- Where a timer is due, time passes, and the timer fires next. -/
theorem next_of_due? {t : Timer} (h : m.due? = some t) :
    ∃ w time settling k outcome, m = ⟨w, .advance time settling :: k, .deliver outcome⟩ ∧
      m.next = fire w (.advance time settling :: k) t := by
  obtain ⟨time, huntil, hfirst⟩ := exists_of_due? h
  unfold until? at huntil
  split at huntil
  · next w time' settling k outcome =>
    split at huntil
    · exact absurd huntil (by simp)
    · next hwaits =>
      cases huntil
      refine ⟨w, time, settling, k, outcome, rfl, ?_⟩
      rw [next, resume_advance hwaits, hfirst]
  · exact absurd huntil (by simp)

/-- **A timer that is due fires.** -/
theorem beats_of_due? {t : Timer} (h : m.due? = some t) : Beats (.strike t) m m.next := by
  obtain ⟨w, time, settling, k, outcome, rfl, hnext⟩ := next_of_due? h
  rw [hnext]
  exact ⟨.inl h, rfl, still_fire w (.advance time settling :: k) (.deliver outcome) t⟩

/-- **The listener ends.** -/
theorem Still.listener (h : Still v ts k ⟨w, k₁, c⟩ held) (outcome : Outcome) (ending : Ending) :
    Still v ts k (resume w k₁ outcome (.listener ending)) held := by
  cases ending with
  | returns => exact h.control
  | throws failure => exact (h.log _ _ _).control
  | rejects failure => exact (h.enqueue (j := .rejected failure)).control
  | pending => exact h.control
  | deferred => exact (h.deferred _).control

/-- **The callback ends**: its cycle goes on in a job, ends, or waits for a step. -/
theorem Still.callback {number : Nat} {cycle : Cycle} {ending : Ending}
    (h : Still v ts k ⟨w, k₁, c⟩ ((Frame.callback number cycle ending).tokens ++ held))
    (hthere : w.callback.isSome = true) (outcome : Outcome) :
    Still v ts k (resume w k₁ outcome (.callback number cycle ending)) held := by
  cases ending with
  | returns => exact (h.drop.enqueue (j := .taken cycle (.ok ()))).control
  | throws failure => exact (h.drop.failCycle failure).control
  | rejects failure => exact (h.drop.enqueue (j := .taken cycle (.error failure))).control
  | pending | deferred =>
    obtain ⟨b, hb⟩ := Option.isSome_iff_exists.mp hthere
    exact (h.openCallback (o := ⟨number, cycle⟩) hb).control

/-- **The strategy has taken a list**, or refused it. -/
theorem Still.taken {cycle : Cycle} (h : Still v ts k ⟨w, k₁, c⟩ (cycle.tokens ++ held))
    (outcome : Outcome) : Still v ts k (resume w k₁ outcome (.taken cycle)) held := by
  cases outcome with
  | ok result => exact (h.enqueue (j := .taken cycle (.ok ()))).control
  | error failure => exact (h.failCycle failure).control

/-- Where a call of the callback ends, there is a callback. -/
theorem Numbered.isSome_callback {number : Nat} {cycle : Cycle} {ending : Ending}
    (h : (⟨w, .callback number cycle ending :: k, c⟩ : Machine).Numbered) :
    w.callback.isSome = true := by
  rcases hb : w.callback with _ | b
  · -- without a callback no call of it has a number
    have hnone := h.count_eq_zero_of_issued (d := .callbacks) (by rw [World.issued, hb]; rfl) number
    rw [count_push] at hnone
    simp [Frame.tokens] at hnone
  · rfl

/-- **A call has bound the strategy**, and polling begins again if it went on before. -/
theorem exists_beats_bound (call : Nat) (timings : Option Timings) :
    ∃ b, Beats b ⟨w, .bound call timings :: k, .deliver outcome⟩
      (resume w k outcome (.bound call timings)) := by
  have h : Still w _ k ⟨w, k, .deliver outcome⟩ [] :=
    Still.pop w (.bound call timings) k (.deliver outcome) (.deliver outcome)
  cases outcome with
  | error failure => exact ⟨.rest, .of_still (h.endBinding _ _).control rfl⟩
  | ok result =>
    cases timings with
    | none => exact ⟨.rest, .of_still (h.endBinding _ _).control rfl⟩
    | some timings =>
      obtain ⟨b, hb⟩ := exists_beats_startPolling
        (m := ⟨w, .bound call (some timings) :: k, .deliver (.ok result)⟩) h rfl
        (some timings.delay) (some timings.period)
      exact ⟨b, hb.fits, hb.frames, (hb.still.endBinding _ _).control⟩

/-- **The first poll of a refresher is done.** -/
theorem beats_arm (number : Nat) :
    Beats (.arm number) ⟨w, .arm number :: k, .deliver outcome⟩
      (resume w k outcome (.arm number)) := by
  have h : Still w _ k ⟨w, k, .deliver outcome⟩ [] :=
    Still.pop w (.arm number) k (.deliver outcome) (.deliver outcome)
  refine ⟨trivial, rfl, ?_⟩
  exact (h.act (w.sameTokens_armPeriod number) (w.sameTokens_armPeriod number) (.refl _)).control

/-- **Time passes**: waiting work is done first, a timer fires, or the clock is set. -/
theorem exists_beats_advance {time : Binary64} {settling : Bool}
    (hm : (⟨w, .advance time settling :: k, .deliver outcome⟩ : Machine).Backed) :
    ∃ b, Beats b ⟨w, .advance time settling :: k, .deliver outcome⟩
      (resume w k outcome (.advance time settling)) := by
  have h : Still w _ k ⟨w, k, .deliver outcome⟩ [] :=
    Still.pop w (.advance time settling) k (.deliver outcome) (.deliver outcome)
  by_cases hwaits : settling = true ∧ w.jobs ≠ []
  · obtain ⟨rfl, hne⟩ := hwaits
    obtain ⟨job, jobs, hjobs⟩ := List.exists_cons_of_ne_nil hne
    have hjob : job? ⟨w, .advance time true :: k, .deliver outcome⟩ = some job := by
      rw [job?, hjobs]
      rfl
    simp only [resume, hjobs]
    exact exists_beats_work hm hjob ((h.push (f := .advance time true) rfl).dequeue hjobs) rfl
  · have huntil : until? ⟨w, .advance time settling :: k, .deliver outcome⟩ = some time :=
      if_neg hwaits
    rcases ht : Timer.firstDue? w.timers time with _ | t
    · have hpassed : Still { w with clock := time } _ k
          ⟨{ w with clock := time }, k, .deliver outcome⟩ [] :=
        h.act ⟨rfl, rfl, rfl, rfl⟩ ⟨rfl, rfl, rfl, rfl⟩ (.refl _)
      rw [resume_advance hwaits, ht]
      exact ⟨.pass time, ⟨huntil, ht⟩, rfl, hpassed.control⟩
    · exact ⟨.strike t, beats_of_due? (by rw [due?, huntil, Option.bind_some, ht])⟩

/-- **The waiting work of a step is done**, or there is none. -/
theorem exists_beats_settle {first : Option Outcome}
    (hm : (⟨w, .settle first :: k, .deliver outcome⟩ : Machine).Backed) :
    ∃ b, Beats b ⟨w, .settle first :: k, .deliver outcome⟩
      (resume w k outcome (.settle first)) := by
  have h : Still w _ k ⟨w, k, .deliver outcome⟩ [] :=
    Still.pop w (.settle first) k (.deliver outcome) (.deliver outcome)
  unfold resume
  dsimp only
  split
  · next job jobs hjobs =>
    have hjob : job? ⟨w, .settle first :: k, .deliver outcome⟩ = some job := by
      rw [job?, hjobs]
      rfl
    exact exists_beats_work hm hjob
      ((h.push (f := .settle (some (first.getD outcome))) rfl).dequeue hjobs) rfl
  · exact ⟨.rest, .of_still h.control rfl⟩

/-- **What returned is taken up.** -/
theorem exists_beats_resume (hm : (⟨w, f :: k, .deliver outcome⟩ : Machine).Backed)
    (hnumbered : (⟨w, f :: k, .deliver outcome⟩ : Machine).Numbered) :
    ∃ b, Beats b ⟨w, f :: k, .deliver outcome⟩ (resume w k outcome f) := by
  have h : Still w _ k ⟨w, k, .deliver outcome⟩ (f.tokens ++ []) :=
    Still.pop w f k (.deliver outcome) (.deliver outcome)
  cases f with
  | script rest => exact ⟨.rest, .of_still ((h.emit (e := .nested _) fun _ => rfl).runScript rest) rfl⟩
  | listener ending => exact ⟨.rest, .of_still (h.listener outcome ending) rfl⟩
  | lookup provider number services caller reply => exact ⟨.rest, .of_still (h.answer reply) rfl⟩
  | callback => exact ⟨.rest, .of_still (h.callback hnumbered.isSome_callback outcome) rfl⟩
  | taken cycle => exact ⟨.rest, .of_still (h.taken outcome) rfl⟩
  | bound call timings => exact exists_beats_bound call timings
  | arm number => exact ⟨.arm number, beats_arm number⟩
  | advance => exact exists_beats_advance hm
  | settle => exact exists_beats_settle hm

/-! ### Steps -/

/-- An open lookup ends. -/
theorem Still.settle (h : Still v ts k ⟨w, k₁, c⟩ [])
    (hone : ∀ i, w.tokens.count (.ticket .lookups i) ≤ 1) (which : Which) (settlement : Settlement) :
    Still v ts k (settle w k₁ which settlement) [] := by
  rw [Machine.settle]
  split
  · exact h.control
  · next l hl =>
    have hclosed := h.closeLookup (mem_of_pick? hl) (hone l.number)
    exact (hclosed.drop.enqueue (j := .answered l.waiter _)).control

/-- An open callback ends. -/
theorem Still.settleCallback (h : Still v ts k ⟨w, k₁, c⟩ []) {b : Callback}
    (hb : w.callback = some b) (hone : ∀ i, w.tokens.count (.ticket .callbacks i) ≤ 1)
    (which : Which) (outcome : Except Failure Unit) :
    Still v ts k (settleCallback w k₁ b which outcome) [] := by
  rw [Machine.settleCallback]
  split
  · exact h.control
  · next o ho =>
    have hclosed := h.closeCallback hb (mem_of_pick? ho) (hone o.number)
    exact (hclosed.drop.enqueue (j := .taken o.cycle outcome)).control

theorem Still.changeMembership (h : Still v ts k ⟨w, k₁, c⟩ held) (rotation : Option Rotation)
    (change : Membership) : Still v ts k (changeMembership w k₁ rotation change) held := by
  unfold Machine.changeMembership
  split
  · exact h.control
  · exact (h.modifyStrategy _).notify _

/-- **A step that concerns the strategy.** -/
theorem exists_beats_performStrategy (s : Strategy) (step : Step) :
    ∃ b, Beats b ⟨w, k, .perform step⟩ (performStrategy w k s step) := by
  have h : Still w _ k ⟨w, k, .perform step⟩ [] := Still.refl w k (.perform step)
  unfold performStrategy
  split
  · split
    · exact ⟨.rest, .of_still (h.modifyStrategy _).control rfl⟩
    · exact ⟨.rest, .of_still h.control rfl⟩
  -- what only reads
  · exact ⟨.rest, .of_still h.control rfl⟩
  · exact ⟨.rest, .of_still h.control rfl⟩
  · exact ⟨.rest, .of_still h.control rfl⟩
  · exact ⟨.rest, .of_still h.control rfl⟩
  · exact ⟨.rest, .of_still h.control rfl⟩
  · exact ⟨.rest, .of_still h.control rfl⟩
  -- the membership
  · exact ⟨.rest, .of_still (h.changeMembership _ _) rfl⟩
  · exact ⟨.rest, .of_still (h.changeMembership _ _) rfl⟩
  · exact ⟨.rest, .of_still (h.reset _ _) rfl⟩
  -- binding and polling
  · exact ⟨.rest, .of_still (h.lookup_untimed _ _ rfl) rfl⟩
  · next delay period =>
    obtain ⟨b, hb⟩ := exists_beats_startPolling (m := ⟨w, k, .perform _⟩) h rfl delay period
    exact ⟨b, hb.fits, hb.frames, hb.still.control⟩
  · obtain ⟨b, hb⟩ := exists_beats_stopPolling (m := ⟨w, k, .perform _⟩) h rfl
    exact ⟨b, hb.fits, hb.frames, hb.still.control⟩
  · obtain ⟨b, hb⟩ := exists_beats_stopPolling (m := ⟨w, k, .perform _⟩) h rfl
    exact ⟨b, hb.fits, hb.frames, hb.still.control⟩
  -- what the listener leaves behind
  · exact ⟨.rest, .of_still (h.settleListener _) rfl⟩
  · exact ⟨.rest, .of_still h.control rfl⟩

/-- **A step that concerns the refresher** that is driven directly. -/
theorem exists_beats_performRefresher {b : Callback} (hb : w.callback = some b) (r : Refresher)
    (step : Step) (hone : ∀ i, w.tokens.count (.ticket .callbacks i) ≤ 1) :
    ∃ beat, Beats beat ⟨w, k, .perform step⟩ (performRefresher w k b r step) := by
  have h : Still w _ k ⟨w, k, .perform step⟩ [] := Still.refl w k (.perform step)
  unfold performRefresher
  split
  · next services =>
    let watched := b.watched ++ services.keys.filter fun service => !b.watched.contains service
    let callback : Option Callback := some { b with watched := watched }
    have hwatched : Still w (⟨w, k, .perform (.start services)⟩ : Machine).tokens k
        ⟨{ w with callback := callback }, k, .perform (.start services)⟩ [] := by
      refine h.shift (fun fs heq harm => ⟨fs, heq, harm⟩) ⟨rfl, rfl, rfl, fun _ => rfl, fun _ => rfl⟩
        (funext fun d => by cases d <;> simp [World.issued, hb, callback]) fun t => ?_
      simp only [tokens, World.tokens, hb, callback, Option.elim_some, Callback.tokens]
    refine ⟨.start services, trivial, rfl, Still.control (c := .perform (.start services)) ?_⟩
    exact hwatched.act (w.sameTokens_startRefresher 0 services) (World.sameTokens_startRefresher _ _ _)
      (w.sameTime_startRefresher_callback 0 services callback)
  · refine ⟨.stop 0, trivial, rfl, Still.control (c := .perform .stop) ?_⟩
    exact h.act (w.sameTokens_stopRefresher 0) (w.sameTokens_stopRefresher 0) (.refl _)
  · exact ⟨.rest, .of_still h.control rfl⟩
  · exact ⟨.rest, .of_still (h.beginCycle 0) rfl⟩
  · exact ⟨.rest, .of_still h.control rfl⟩
  · exact ⟨.rest, .of_still (h.settleCallback hb hone _ _) rfl⟩
  · exact ⟨.rest, .of_still h.control rfl⟩

/-- **A step is performed.** -/
theorem exists_beats_perform (step : Step)
    (hone : ∀ d i, w.tokens.count (.ticket d i) ≤ 1) :
    ∃ b, Beats b ⟨w, k, .perform step⟩ (perform w k step) := by
  have h : Still w _ k ⟨w, k, .perform step⟩ [] := Still.refl w k (.perform step)
  unfold perform
  split
  · exact ⟨.rest, .of_still (h.push (f := .advance _ _) rfl).control rfl⟩
  · next settings =>
    have hset := h.same (x := { w with settings := settings })
      ⟨rfl, rfl, rfl, fun _ => rfl, fun _ => rfl⟩ ⟨rfl, rfl, rfl, rfl⟩
    exact ⟨.rest, .of_still hset.control rfl⟩
  · exact ⟨.rest, .of_still (h.modifyProvider _ _).control rfl⟩
  · exact ⟨.rest, .of_still (h.modifyProvider _ _).control rfl⟩
  · exact ⟨.rest, .of_still (h.modifyProvider _ _).control rfl⟩
  · exact ⟨.rest, .of_still (h.settle (hone .lookups) _ _) rfl⟩
  · split
    · split
      · next b r hb _ => exact exists_beats_performRefresher hb r _ (hone .callbacks)
      · exact ⟨.rest, .of_still h.control rfl⟩
    · split
      · next s _ => exact exists_beats_performStrategy s _
      · exact ⟨.rest, .of_still h.control rfl⟩

/-! ### All transitions -/

/-- **Every transition is a beat.** -/
theorem Numbered.exists_beats_next (hnumbered : m.Numbered) (hm : m.Backed) :
    ∃ b, Beats b m m.next := by
  obtain ⟨w, k, step | outcome⟩ := m
  · refine exists_beats_perform step fun d i => Nat.le_trans ?_ (hnumbered.once d i)
    rw [count_world]
    omega
  · cases k with
    | nil => exact ⟨.rest, .of_still (Still.refl w [] (.deliver outcome)) rfl⟩
    | cons f k => exact exists_beats_resume hm hnumbered

theorem beats_step (w : World) (outcome : Outcome) (step : Step) :
    Beats .rest ⟨w, [], .deliver outcome⟩ (w.machine step) := by
  have hrefl : Still w _ [] ⟨w, [], .deliver outcome⟩ [] := Still.refl w [] (.deliver outcome)
  exact .of_still (hrefl.push (f := .settle none) rfl).control rfl

theorem beats_interject (w : World) (first : Option Outcome) (outcome : Outcome) (step : Step) :
    Beats .rest ⟨w, [.settle first], .deliver outcome⟩ ⟨w, [.settle first], .perform step⟩ := by
  have hpop := Still.pop w (.settle first) [] (.deliver outcome) (.perform step)
  exact .of_still (hpop.push_bare (f := .settle first) rfl rfl) rfl

theorem beats_fire (w : World) (outcome : Outcome) {t : Timer} (h : t ∈ w.timers) :
    Beats (.strike t) ⟨w, [], .deliver outcome⟩ (fire w [.settle none] t) :=
  ⟨.inr ⟨rfl, h⟩, rfl, still_fire w [.settle none] (.deliver outcome) t⟩

/-- **One point of a session leads to another by a beat.** -/
theorem Numbered.exists_beats (hnumbered : m.Numbered) (hm : m.Backed) (h : Leads m m') :
    ∃ b, Beats b m m' := by
  cases h with
  | next => exact hnumbered.exists_beats_next hm
  | perform w outcome step => exact ⟨.rest, beats_step w outcome step⟩
  | interject w first outcome step => exact ⟨.rest, beats_interject w first outcome step⟩
  | fire w outcome ht => exact ⟨.strike _, beats_fire w outcome ht⟩

end Machine

end Balancer.Session
