import Balancer.Proofs.Session.Cycles

/-!
# What a cycle may do after its run

A cycle may still be under way when the refresher has been stopped, and even when it has been
started again. It then applies nothing: it hands over no list, and what the refresher saw last
stays as it is.

* `Balancer.Session.Machine.Running`, `Begins` – whether a refresher runs, and a start that takes
  effect.
* `Balancer.Session.Machine.Affects` – **a transition applies something for a refresher.**
* `Balancer.Session.Machine.Affects.inRun` – it takes up a cycle of the present run then.
* `Balancer.Session.Machine.Reachable.ended_runs_apply_nothing` – **a refresher that was stopped
  does nothing until it is started, and cycles of an ended run apply nothing ever.**
-/

namespace Balancer.Session

/-! ### What belongs to a refresher -/

/-- Whether an event is a call that cycles of a refresher make. Only the first refresher may
have a callback. -/
def Event.ofRefresher (number : Nat) : Event → Bool
  | .lookup _ _ _ caller => caller.run?.any fun run => run.1 == number
  | .callback .. => number == 0
  | _ => false

/-- **The calls that cycles of a refresher have made.** -/
def World.callsOf (w : World) (number : Nat) : List Event :=
  w.calls.filter (Event.ofRefresher number)

/-- **The lists that a refresher saw last**, of all services that it tracks. -/
def World.snapshot? (w : World) (number : Nat) : Option Listing :=
  (w.core? number).map Refresher.snapshot

namespace Machine

variable {m m' x y : Machine} {number : Nat}

/-- **A refresher runs.** -/
def Running (m : Machine) (number : Nat) : Prop :=
  ∃ r, m.world.core? number = some r ∧ r.running = true

/-- **A start of a refresher takes effect**: it runs now, and did not before. -/
def Begins (number : Nat) (m m' : Machine) : Prop := ¬ m.Running number ∧ m'.Running number

/-- **A refresher is stopped** by the step that comes next: it is driven directly, or the latest
one of the strategy. -/
def Stops (m : Machine) (number : Nat) : Prop :=
  m.control = .perform .stop ∧ number = 0 ∧ m.world.callback.isSome = true ∨
    (m.control = .perform .stopPolling ∨ m.control = .perform .close) ∧
      ∃ s, m.world.strategy? = some s ∧ s.refresher = some number

/-- **A transition applies something for a refresher.** -/
inductive Affects (number : Nat) (m m' : Machine) : Prop
  /-- A cycle begins to hand over a list. -/
  | handsOver {cycle : Cycle} (h : m'.handovers = cycle :: m.handovers)
      (hnumber : cycle.refresher = number)
  /-- The callback is called. -/
  | calls {call : Nat} {service : String} {endpoints : List Endpoint}
      (h : m'.world.calls = m.world.calls ++ [.callback call service endpoints])
      (hnumber : number = 0)
  /-- What the refresher saw last changes, and that not because it is started. -/
  | remembers (h : m'.world.snapshot? number ≠ m.world.snapshot? number)
      (hstart : ¬ Begins number m m')

/-! ### Running -/

theorem InRun.running {generation : Nat} (h : m.InRun number generation) : m.Running number := by
  obtain ⟨r, hr, hrunning, -⟩ := h
  exact ⟨r, hr, hrunning⟩

theorem Calm.running_iff (h : Calm m m') : m'.Running number ↔ m.Running number := by
  unfold Running
  rw [h.core number]

theorem Calm.snapshot?_eq (h : Calm m m') (number : Nat) :
    m'.world.snapshot? number = m.world.snapshot? number := by
  unfold World.snapshot?
  rw [h.core number]

/-- A refresher that has been halted does not run. -/
theorem not_running_of_halt {r : Option Refresher}
    (h : m.world.core? number = r.map Refresher.halt) : ¬ m.Running number := by
  rintro ⟨r', hr', hrunning⟩
  rw [h] at hr'
  obtain ⟨r₀, -, rfl⟩ := Option.map_eq_some_iff.mp hr'
  exact absurd hrunning (by simp)

/-- **A stop ends the run.** -/
theorem Stops.core?_next (h : m.Stops number) :
    m.next.world.core? number = (m.world.core? number).map Refresher.halt := by
  obtain ⟨w, k, c⟩ := m
  rcases h with ⟨hcontrol, rfl, hdriven⟩ | ⟨hcontrol, s, hs, hnumber⟩
  -- the refresher is driven directly
  · have hcontrol' : c = .perform .stop := hcontrol
    subst hcontrol'
    obtain ⟨b, hb⟩ := Option.isSome_iff_exists.mp hdriven
    have hb' : w.callback = some b := hb
    rcases hr : w.refreshers[0]? with _ | r
    · have hsame : next ⟨w, k, .perform .stop⟩ = refuse w k .noRefresher := by
        simp [next, perform, Step.drivesRefresher, hb', hr]
      have hnone : w.core? 0 = none := by rw [World.core?, hr]; rfl
      rw [hsame]
      exact hnone.trans (congrArg (Option.map Refresher.halt) hnone).symm
    · have hstop : next ⟨w, k, .perform .stop⟩ = done (w.stopRefresher 0) k := by
        simp [next, perform, Step.drivesRefresher, hb', hr, performRefresher]
      rw [hstop]
      exact (w.core?_stopRefresher 0 0).trans (if_pos rfl)
  -- it is the latest one of the strategy
  · have hstop : next ⟨w, k, c⟩ = done w.stopPolling k := by
      have hs' : w.strategy? = some s := hs
      rcases hcontrol with hc | hc <;>
      · have hc' : c = _ := hc
        subst hc'
        simp [next, perform, Step.drivesRefresher, hs', performStrategy]
    rw [hstop]
    have hpoller : w.poller? = some number := by
      have hthere : w.strategy = some s := (Option.filter_eq_some_iff.mp hs).1
      rw [World.poller?, hthere]
      exact hnumber
    exact (w.core?_stopPolling number).trans (if_pos hpoller)

theorem Stops.not_running_next (h : m.Stops number) : ¬ m.next.Running number :=
  not_running_of_halt h.core?_next

/-! ### Transitions that apply nothing -/

/-- A suffix is never longer than the list. -/
theorem ne_cons_of_suffix {α : Type} {l l' : List α} (h : l' <:+ l) (a : α) : l' ≠ a :: l := by
  rintro rfl
  have hle := h.length_le
  rw [List.length_cons] at hle
  omega

/-- **A transition that applies nothing.** -/
structure Aloof (m m' : Machine) : Prop where
  /-- No list is handed over. -/
  handovers : ∀ cycle, m'.handovers ≠ cycle :: m.handovers
  /-- A cycle may begin with its lookup, if the refresher runs. -/
  calls : m'.world.calls = m.world.calls ∨ ∃ number r provider lookup caller,
    m.world.core? number = some r ∧ r.running = true ∧ r.provider = some provider ∧
      caller.run? = some (number, r.generation) ∧
      m'.world.calls = m.world.calls ++ [.lookup provider lookup r.snapshot.keys caller]
  /-- What was seen last stays, unless a refresher is started. -/
  snapshots : ∀ number, m'.world.snapshot? number = m.world.snapshot? number ∨ Begins number m m'

/-- An act that leaves the cycles alone applies nothing. -/
theorem aloof_of_aside (before : Calm m x) (after : Calm y m') (haside : x.world.Aside y.world)
    (hstack : y.handovers = x.handovers)
    (hsnapshots : ∀ number, y.world.snapshot? number = x.world.snapshot? number ∨
      Begins number x y) : Aloof m m' where
  handovers := ne_cons_of_suffix (after.handovers.trans (hstack ▸ before.handovers))
  calls := .inl (after.calls.trans (haside.calls_eq.trans before.calls))
  snapshots n := by
    rw [after.snapshot?_eq, ← before.snapshot?_eq]
    refine (hsnapshots n).imp_right ?_
    rintro ⟨hidle, hruns⟩
    exact ⟨fun h => hidle (before.running_iff.mpr h), after.running_iff.mpr hruns⟩

/-- What was seen last does not change with the rest of a refresher. -/
theorem snapshot?_eq_of_core_map {w w' : World} {f : Refresher → Refresher} {p : Nat → Prop}
    [DecidablePred p] (h : ∀ n, w'.core? n = if p n then (w.core? n).map f else w.core? n)
    (hf : ∀ r, (f r).snapshot = r.snapshot) (n : Nat) : w'.snapshot? n = w.snapshot? n := by
  rw [World.snapshot?]
  rw [h n]
  split
  · rw [Option.map_map]
    exact congrArg (Option.map · _) (funext hf)
  · rfl

/-- A start changes what was seen only where it takes effect. -/
theorem snapshot?_started (x : Machine) (services : Listing) (n : Nat) :
    (x.started 0 services).world.snapshot? n = x.world.snapshot? n ∨
      Begins n x (x.started 0 services) := by
  have hcore := x.world.core?_startRefresher 0 n services
  by_cases hn : 0 = n
  · rw [if_pos hn] at hcore
    rcases hr : x.world.core? n with _ | r
    · left
      rw [World.snapshot?, World.snapshot?, started, hcore, hr]
      rfl
    · rw [hr, Option.map_some] at hcore
      by_cases hidle : (r.provider.isNone || r.running) = true
      · left
        rw [World.startCore, if_pos hidle] at hcore
        rw [World.snapshot?, World.snapshot?, started, hcore, hr]
      · right
        rw [World.startCore, if_neg hidle] at hcore
        constructor
        · rintro ⟨r', hr', hrunning⟩
          rw [hr] at hr'
          cases hr'
          exact hidle (by rw [hrunning, Bool.or_true])
        · exact ⟨_, hcore, rfl⟩
  · left
    rw [if_neg hn] at hcore
    rw [World.snapshot?, World.snapshot?, started, hcore]

/-- A new refresher of the strategy is started, the others stay as they are. -/
theorem snapshot?_polled (x : Machine) (binding : Binding) (timings : Timings) (n : Nat) :
    (x.polled binding timings).world.snapshot? n = x.world.snapshot? n ∨
      Begins n x (x.polled binding timings) := by
  have hcore := x.world.core?_pollWith binding timings n
  by_cases hn : x.world.refreshers.length = n
  · right
    rw [if_pos hn] at hcore
    constructor
    · rintro ⟨r, hr, -⟩
      rw [World.core?_eq_none_iff.mpr (Nat.le_of_eq hn)] at hr
      exact absurd hr (by simp)
    · exact ⟨_, hcore, rfl⟩
  · left
    rw [if_neg hn] at hcore
    rw [World.snapshot?, World.snapshot?, polled, hcore]

/-- **A transition applies nothing, or hands over a changed list of a cycle.** -/
theorem Turn.aloof_or_applies (h : Turn m m') :
    Aloof m m' ∨ ∃ cycle r change, Applies m m' cycle r change := by
  have hrefl : ∀ w : World, w.Aside w := fun _ => ⟨rfl, rfl, rfl, rfl⟩
  cases h with
  | calm h => exact .inl (aloof_of_aside h (.refl _) (hrefl _) rfl fun _ => .inl rfl)
  | rotate _ before _ _ after =>
    exact .inl (aloof_of_aside before after (World.aside_modifyStrategy _ _) rfl fun _ => .inl rfl)
  | reset _ before after =>
    exact .inl (aloof_of_aside before after (World.aside_modifyStrategy _ _) rfl fun _ => .inl rfl)
  | @rebind x call service provider listing _ before after =>
    have haside := x.aside_rebound call service provider listing
    have hsnapshots := snapshot?_eq_of_core_map (f := Refresher.halt)
      (x.core?_rebound call service provider listing) fun _ => rfl
    exact .inl (aloof_of_aside before after haside rfl fun n => .inl (hsnapshots n))
  | @start x services _ _ before after =>
    exact .inl (aloof_of_aside before after (x.world.aside_startRefresher 0 services) rfl
      (snapshot?_started x services))
  | @stop x number _ before after =>
    have hsnapshots := snapshot?_eq_of_core_map (f := Refresher.halt)
      (x.world.core?_stopRefresher number) fun _ => rfl
    exact .inl (aloof_of_aside before after (x.world.aside_stopRefresher number) rfl
      fun n => .inl (hsnapshots n))
  | @poll x s binding timings _ before _ _ _ _ after =>
    exact .inl (aloof_of_aside before after (x.world.aside_pollWith binding timings) rfl
      (snapshot?_polled x binding timings))
  | @ask x number r provider caller answer before found running asks run after =>
    left
    have hhandovers : (x.asked provider r.snapshot.keys caller answer).handovers = x.handovers := rfl
    constructor
    · exact ne_cons_of_suffix (after.handovers.trans (hhandovers ▸ before.handovers))
    · right
      refine ⟨number, r.core, provider, x.world.lookupCount + 1, caller,
        (before.core number).symm.trans (World.core?_of_getElem? found), running, asks, run, ?_⟩
      have hsome : caller.run?.isSome = true := by rw [run]; rfl
      rw [after.calls, ← before.calls]
      exact (World.calls_emit _ _).trans (if_pos hsome)
    · intro n
      left
      exact (after.snapshot?_eq n).trans (before.snapshot?_eq n)
  | take finds held _ before after => exact .inr ⟨_, _, _, applies_take finds held before after⟩
  | callBack finds held handler before there after =>
    exact .inr ⟨_, _, _, applies_callBack finds held handler before there after⟩

/-! ### Cycles of the present run -/

/-- **A list is applied only in the run that the cycle began in.** -/
theorem Applies.inRun {cycle : Cycle} {r : Refresher} {change : Refresher.Change}
    (h : Applies m m' cycle r change) (hm : m.Backed) :
    m.InRun cycle.refresher cycle.generation := by
  obtain ⟨-, -, -, hrunning, -⟩ := h.tracked hm
  exact ⟨r, h.found, hrunning, h.generation⟩

/-- What a transition applies, it applies for the refresher of the cycle that it takes up. -/
theorem Affects.exists_applies (h : Affects number m m') (ht : Turn m m') (hwired : m.world.Wired) :
    ∃ cycle r change, Applies m m' cycle r change ∧ cycle.refresher = number := by
  rcases ht.aloof_or_applies with haloof | ⟨cycle, r, change, happlies⟩
  · exfalso
    cases h with
    | handsOver h _ => exact haloof.handovers _ h
    | calls h _ =>
      rcases haloof.calls with heq | ⟨_, _, _, _, _, -, -, -, -, heq⟩
      · rw [heq] at h
        exact absurd h (by simp)
      · rw [heq] at h
        exact absurd (List.append_cancel_left h) (by simp)
    | remembers h hstart => exact (haloof.snapshots number).elim h hstart
  · refine ⟨cycle, r, change, happlies, ?_⟩
    cases h with
    | handsOver h hnumber =>
      rw [happlies.handovers _ h] at hnumber
      exact hnumber
    | calls h hnumber =>
      rcases happlies.calls with heq | ⟨hhandler, -⟩
      · rw [heq] at h
        exact absurd h (by simp)
      · rw [hnumber]
        exact (hwired _ r happlies.found hhandler).1
    | remembers h _ =>
      -- only the refresher of the cycle sees a list
      by_contra hne
      refine h ?_
      rw [World.snapshot?, World.snapshot?, happlies.sees number, if_neg hne]

/-- **Where something is applied for a refresher, a cycle of its present run is taken up.** -/
theorem Affects.inRun (h : Affects number m m') (ht : Turn m m') (hm : m.Backed)
    (hwired : m.world.Wired) :
    ∃ cycle, m.resumed? = some cycle ∧ cycle.refresher = number ∧
      m.InRun number cycle.generation := by
  obtain ⟨cycle, r, change, happlies, rfl⟩ := h.exists_applies ht hwired
  exact ⟨cycle, happlies.resumed, rfl, happlies.inRun hm⟩

/-- **A refresher that does not run makes no call.** -/
theorem Turn.callsOf_eq (h : Turn m m') (hm : m.Backed) (hwired : m.world.Wired)
    (hidle : ¬ m.Running number) : m'.world.callsOf number = m.world.callsOf number := by
  unfold World.callsOf
  rcases h.aloof_or_applies with haloof | ⟨cycle, r, change, happlies⟩
  · rcases haloof.calls with heq | ⟨n, r, provider, lookup, caller, hr, hrunning, -, hrun, heq⟩
    · rw [heq]
    -- a lookup is made by a refresher that runs, which is another one
    · have hne : (n == number) = false := by
        refine beq_false_of_ne ?_
        rintro rfl
        exact hidle ⟨r, hr, hrunning⟩
      have hother : Event.ofRefresher number (.lookup provider lookup r.snapshot.keys caller) = false := by
        simpa only [Event.ofRefresher, hrun, Option.any_some] using hne
      rw [heq, List.filter_append, List.filter_cons_of_neg (by rw [hother]; simp), List.filter_nil,
        List.append_nil]
  · rcases happlies.calls with heq | ⟨hhandler, call, heq⟩
    · rw [heq]
    · have hfirst : cycle.refresher = 0 := (hwired _ r happlies.found hhandler).1
      have hne : (number == 0) = false := by
        refine beq_false_of_ne ?_
        rintro rfl
        exact hidle (hfirst ▸ (happlies.inRun hm).running)
      have hother : Event.ofRefresher number (.callback call change.service change.endpoints) = false :=
        hne
      rw [heq, List.filter_append, List.filter_cons_of_neg (by rw [hother]; simp), List.filter_nil,
        List.append_nil]

/-- **A lookup of a cycle is made by a refresher that runs**, at its naming service and for the
services that it tracks, and carries its generation. -/
theorem Turn.exists_of_lookup (h : Turn m m') {provider : String} {lookup : Nat}
    {services : List String} {caller : Caller}
    (hcalls : m'.world.calls = m.world.calls ++ [.lookup provider lookup services caller]) :
    ∃ number r, m.world.core? number = some r ∧ r.running = true ∧ r.provider = some provider ∧
      caller.run? = some (number, r.generation) ∧ services = r.snapshot.keys := by
  rcases h.aloof_or_applies with haloof | ⟨cycle, r, change, happlies⟩
  · rcases haloof.calls with heq | ⟨n, r, provider', lookup', caller', hr, hrunning, hasks, hrun, heq⟩
    · rw [heq] at hcalls
      exact absurd hcalls (by simp)
    · rw [heq] at hcalls
      cases List.append_cancel_left hcalls
      exact ⟨n, r, hr, hrunning, hasks, hrun, rfl⟩
  · rcases happlies.calls with heq | ⟨-, call, heq⟩
    · rw [heq] at hcalls
      exact absurd hcalls (by simp)
    · rw [heq] at hcalls
      exact absurd (List.append_cancel_left hcalls) (by simp)

/-! ### Runs of a session -/

/-- **A stretch of a session in which a refresher rests**: it does not run at first, and no start
takes effect. -/
def Rests (number : Nat) (m m' : Machine) : Prop :=
  ¬ m.Running number ∧ Relation.ReflTransGen (fun a b => Leads a b ∧ ¬ Begins number a b) m m'

/-- While a refresher rests it does not run, makes no call and sees nothing. -/
theorem Reachable.rests (h : Reachable m) (hrests : Rests number m m') :
    Run m m' ∧ ¬ m'.Running number ∧ m'.world.callsOf number = m.world.callsOf number ∧
      m'.world.snapshot? number = m.world.snapshot? number := by
  obtain ⟨hidle, hrun⟩ := hrests
  induction hrun with
  | refl => exact ⟨.refl, hidle, rfl, rfl⟩
  | @tail a b _ hl ih =>
    obtain ⟨hrun, hidle, hcalls, hsnapshot⟩ := ih
    have hreach : Reachable a := h.run hrun
    have hturn : Turn a b := hreach.turn hl.1
    refine ⟨hrun.tail hl.1, fun hruns => hl.2 ⟨hidle, hruns⟩, ?_, ?_⟩
    · rw [hturn.callsOf_eq hreach.backed hreach.wired hidle, hcalls]
    · by_contra hne
      rw [← hsnapshot] at hne
      obtain ⟨cycle, -, -, hin⟩ :=
        (Affects.remembers hne hl.2).inRun hturn hreach.backed hreach.wired
      exact hidle hin.running

/-- **Stopped and superseded cycles apply nothing.** A stop ends the run of a refresher; while it
rests it makes no call – no lookup and no call of the callback –, hands over no list and
remembers none. A cycle carries the generation of the run in which it made its lookup, and once
that run has ended, a transition that takes up the cycle applies nothing, even if the
refresher was started again. -/
theorem Reachable.ended_runs_apply_nothing (h : Reachable m) (number : Nat) :
    (m.Stops number → ¬ m.next.Running number) ∧
    (∀ a, Rests number m a →
      a.world.callsOf number = m.world.callsOf number ∧
      a.world.snapshot? number = m.world.snapshot? number ∧
      ∀ b, Leads a b → ¬ Affects number a b) ∧
    (∀ b provider lookup services caller generation, Leads m b →
      caller.run? = some (number, generation) →
      b.world.calls = m.world.calls ++ [.lookup provider lookup services caller] →
      m.InRun number generation) ∧
    (∀ generation a, m.InRun number generation → Run m a → ¬ a.InRun number generation →
      ∀ b c cycle, Run a b → Leads b c → b.resumed? = some cycle → cycle.refresher = number →
        cycle.generation = generation → ¬ Affects number b c) := by
  refine ⟨Stops.not_running_next, ?_, ?_, ?_⟩
  · intro a hrests
    obtain ⟨hrun, hidle, hcalls, hsnapshot⟩ := h.rests hrests
    refine ⟨hcalls, hsnapshot, ?_⟩
    intro b hl haffects
    have hreach : Reachable a := h.run hrun
    obtain ⟨cycle, -, -, hin⟩ := haffects.inRun (hreach.turn hl) hreach.backed hreach.wired
    exact hidle hin.running
  · intro b provider lookup services caller generation hl hrun hcalls
    obtain ⟨n, r, hr, hrunning, -, hrun', -⟩ := (h.turn hl).exists_of_lookup hcalls
    rw [hrun] at hrun'
    cases hrun'
    exact ⟨r, hr, hrunning, rfl⟩
  · intro generation a hin hrun hended b c cycle hrun' hl hresumed hnumber hgeneration haffects
    -- what applies something is of a run that goes on, and this one never comes back
    have hreach : Reachable b := (h.run hrun).run hrun'
    obtain ⟨cycle', hresumed', -, hin'⟩ := haffects.inRun (hreach.turn hl) hreach.backed hreach.wired
    rw [hresumed] at hresumed'
    cases hresumed'
    rw [hgeneration] at hin'
    exact h.not_inRun_run hin hrun hended hrun' hin'

/-- Such a cycle is taken up where a refresher was stopped and started again while a lookup was
open: the lookup ends with a list that the refresher has not seen, and nothing is applied. -/
theorem superseded_cycle_applies_nothing :
    ∃ m a b cycle, Reachable m ∧ m.InRun 0 1 ∧ Run m a ∧ ¬ a.InRun 0 1 ∧ Run a b ∧ b.InRun 0 3 ∧
      b.resumed? = some cycle ∧ cycle.generation = 1 ∧ ¬ Affects 0 b b.next := by
  let timings : Timings := ⟨.ofNat 1000, .ofNat 1000⟩
  let setup : Setup :=
    ⟨.zero, ⟨none, none⟩, false, .ofList [("registry", ⟨.empty, [(.pending, [])]⟩)]⟩
  let services : Listing := .ofList [("echo", [])]
  let found : Listing := .ofList [("echo", [⟨"host", .ofNat 80⟩])]
  have hcheck : timings.check = .ok () := by decide +kernel
  let w : World := { setup.world refresherScope with
    refreshers := [Refresher.idle (some "registry") .callback timings]
    callback := some ⟨[], 0, [], []⟩ }
  have hopen : openRefresher setup (some "registry") timings [] = .ok w := by
    rw [openRefresher, hcheck]
    rfl
  let m₀ : Machine := ⟨w, [], .deliver (.ok .nothing)⟩
  have h₀ : Reachable m₀ := (Opens.refresher hopen).reachable
  -- a run begins, and a cycle with its lookup
  let m₁ := run 4 (m₀.world.machine (.start services))
  let m₂ := run 6 (m₁.world.machine .refresh)
  have h₁ : Run m₀ m₁ := run_of_step rfl _ _
  have h₂ : Run m₁ m₂ := run_of_step (by decide +kernel) _ _
  -- the refresher is stopped and started again
  let a := run 4 (m₂.world.machine .stop)
  let m₃ := run 4 (a.world.machine (.start services))
  have ha : Run m₂ a := run_of_step (by decide +kernel) _ _
  have h₃ : Run a m₃ := run_of_step (by decide +kernel) _ _
  -- the lookup ends
  let b := run 1 (m₃.world.machine (.settle .oldest (.listing found)))
  have hb : Run m₃ b := run_of_step (by decide +kernel) _ _
  have hm : Reachable m₂ := (h₀.run h₁).run h₂
  have hin : m₂.InRun 0 1 := by decide +kernel
  have hended : ¬ a.InRun 0 1 := by decide +kernel
  have hsome : (b.resumed?.map fun cycle => (cycle.refresher, cycle.generation)) = some (0, 1) := by
    decide +kernel
  obtain ⟨cycle, hresumed, heq⟩ := Option.map_eq_some_iff.mp hsome
  rw [Prod.mk.injEq] at heq
  obtain ⟨-, -, -, happlies⟩ := hm.ended_runs_apply_nothing 0
  exact ⟨m₂, a, b, cycle, hm, hin, ha, hended, h₃.trans hb, by decide +kernel, hresumed, heq.2,
    happlies 1 a hin ha hended b b.next cycle (h₃.trans hb) (.next b) hresumed heq.1 heq.2⟩

end Machine

end Balancer.Session
