import Balancer.Proofs.Session.Notices
import Balancer.Proofs.Session.Rebinding

/-!
# Polls that find nothing new

Most polls fail, or return the list that polling saw last. Such a poll reads, compares and ends, and
nobody can tell that it has been: the targets in service and out of it, the cursor, the binding and
what polling remembers are the same after each of its transitions, and the listener is not called.
So however many of these polls there are, the rotation is what the steps in between make of it.

* `Balancer.Session.Machine.Unmoved` – **nothing has moved** between two points.
* `Balancer.Session.Machine.Rechecks` – **a transition of a poll that finds nothing new**, from the
  firing of the timer to the end of the cycle.
* `Balancer.Session.Machine.Uneventful` – a transition that replaces no targets: no step resets
  them, no lookup binds the strategy, and no poll finds anything new.
* `Balancer.Session.Machine.Reachable.unchanged_polls_are_invisible` – **the strategy is what the
  steps on it have made of it.**
-/

namespace Balancer.Session

/-! ### Steps that touch the targets -/

/-- The change of the membership that a step is to make, if it takes out a target or puts one
back. -/
def Step.membership? : Step → Option Membership
  | .remove target => some (.removed target)
  | .recover target => some (.recovered target)
  | _ => none

/-- A strategy that is there and built. -/
theorem World.strategy?_eq_some {w : World} {s : Strategy} :
    w.strategy? = some s ↔ w.strategy = some s ∧ s.building = false := by
  rw [strategy?, Option.filter_eq_some_iff]
  simp

/-- A strategy that is built stays so where it is kept. -/
theorem Strategy.Kept.exists_strategy? {w : World} {s : Strategy} (h : Kept (some s) w.strategy)
    (hbuilt : s.building = false) : ∃ s', w.strategy? = some s' ∧ s'.Agrees s := by
  obtain ⟨s', hs', hagrees⟩ := h.exists_of_built hbuilt
  refine ⟨s', World.strategy?_eq_some.mpr ⟨hs', Bool.eq_false_iff.mpr fun hbuilding => ?_⟩, hagrees⟩
  exact absurd (hagrees.building hbuilding) (by rw [hbuilt]; exact Bool.false_ne_true)

namespace Machine

variable {m m' b : Machine} {s : Strategy}

/-! ### What a poll compares -/

/-- **A cycle that goes on finds nothing new**: its run has ended, or the list of the bound service
in what its lookup returned is the one seen last; a list that is missing is empty. -/
def FindsNothing (m : Machine) : Prop :=
  ∀ cycle r s b, m.resumed? = some cycle → m.world.core? cycle.refresher = some r →
    r.generation = cycle.generation → m.world.Polls cycle.refresher r s b →
    Endpoint.sameList (r.seen b.service) ((cycle.latest.get? b.service).getD []) = true

/-- A cycle of the present run compares no service but the one that is bound. -/
theorem Reachable.remaining_suffix (h : Reachable m) (hnone : m.world.callback = none)
    {cycle : Cycle} {r : Refresher} (hresumed : m.resumed? = some cycle)
    (hr : m.world.core? cycle.refresher = some r) (hgeneration : r.generation = cycle.generation) :
    ∃ s b, m.world.Polls cycle.refresher r s b ∧ cycle.remaining <:+ [b.service] := by
  obtain ⟨provider, services, hasked, hsuffix, -⟩ := h.backed.of_holds (holds_of_resumed hresumed)
  obtain ⟨r', hr', -, -, hsame⟩ := h.backed.asked _ _ _ _ hasked
  have hcore : m.world.core? cycle.refresher = some r' := hr'
  obtain rfl : r = r' := Option.some.inj (hr.symm.trans hcore)
  -- the generation is that of the lookup, so what was asked for is what is tracked
  obtain ⟨hrunning, rfl⟩ := hsame hgeneration
  obtain ⟨s, b, hpolls⟩ := (h.follows hnone).poller _ r hr hrunning
  exact ⟨s, b, hpolls, hpolls.services ▸ hsuffix⟩

/-- **A cycle that finds nothing new has no list to hand over.** -/
theorem FindsNothing.nextChange? (hfinds : m.FindsNothing) (h : Reachable m)
    (hnone : m.world.callback = none) {cycle : Cycle} {r : Refresher}
    (hresumed : m.resumed? = some cycle) (hr : m.world.core? cycle.refresher = some r)
    (hgeneration : r.generation = cycle.generation) :
    r.nextChange? cycle.latest cycle.remaining = none := by
  obtain ⟨s, b, hpolls, hsuffix⟩ := h.remaining_suffix hnone hresumed hr hgeneration
  have hsame := hfinds cycle r s b hresumed hr hgeneration hpolls
  rcases List.suffix_cons_iff.mp hsuffix with heq | hnil
  · rw [heq, Refresher.nextChange?_singleton, if_pos hsame]
  · rw [List.suffix_nil.mp hnil]
    rfl

/-! ### Nothing moves -/

/-- **Nothing has moved** between two points: the strategy elects the same way, with the same
tables, sequence and cursor, follows the same service with the same endpoints, and has the same
refresher; every refresher remembers the same lists; and the listener has not been called. -/
structure Unmoved (m m' : Machine) : Prop where
  /-- The strategy is the same. -/
  strategy : ∀ s, m.world.strategy? = some s → ∃ s', m'.world.strategy? = some s' ∧ s'.Agrees s
  /-- Every refresher remembers the same. -/
  snapshots : ∀ n, m'.world.snapshot? n = m.world.snapshot? n
  /-- The listener has not been called. -/
  notices : m'.world.notices = m.world.notices

/-- Nothing moves where all refreshers and the strategy are kept, and nobody is told anything. -/
theorem unmoved_of_kept (hcore : ∀ n, m'.world.core? n = m.world.core? n)
    (hkept : Strategy.Kept m.world.strategy m'.world.strategy) (huntold : Untold m.world m') :
    Unmoved m m' where
  strategy s hs := by
    obtain ⟨hthere, hbuilt⟩ := World.strategy?_eq_some.mp hs
    exact Strategy.Kept.exists_strategy? (hthere ▸ hkept) hbuilt
  snapshots n := congrArg (Option.map Refresher.snapshot) (hcore n)
  notices := huntold.notices

/-- A lookup of a cycle moves nothing. -/
theorem unmoved_of_asked {x : Machine} {provider : String} {services : List String} {caller : Caller}
    {answer : Answer} (before : Calm m x) (after : Calm (x.asked provider services caller answer) m')
    (huntold : Untold m.world m') : Unmoved m m' :=
  unmoved_of_kept (fun n => (after.core n).trans (before.core n))
    (before.strategy.trans after.strategy) huntold

/-- No lookup binds the strategy. -/
def BindsNothing (m : Machine) : Prop :=
  ∀ call service provider listing,
    m.job? ≠ some (.answered (.binding call service provider) (.ok listing))

/-- A cycle that finds nothing new does not change the membership. -/
theorem Reachable.alteration?_of_resumed (h : Reachable m) (hnone : m.world.callback = none)
    (hfinds : m.FindsNothing) {cycle : Cycle} (hresumed : m.resumed? = some cycle) :
    m.world.alteration? cycle = none := by
  refine Option.eq_none_iff_forall_not_mem.mpr fun a ha => ?_
  obtain ⟨r, change, hr, hgeneration, -, -, hchange, -⟩ := World.alteration?_eq_some.mp ha
  have hnothing := hfinds.nextChange? h hnone hresumed (World.core?_of_getElem? hr) hgeneration
  rw [Refresher.nextChange?_core] at hnothing
  cases hnothing.symm.trans hchange

/-- **Work that binds nothing and finds nothing new does not change the membership.** -/
theorem Reachable.alteration?_of_deliver (h : Reachable m) (hnone : m.world.callback = none)
    {outcome : Outcome} (hcontrol : m.control = .deliver outcome) (hbinds : m.BindsNothing)
    (hfinds : m.FindsNothing) : m.alteration? = none := by
  have heq : m.alteration? = m.job?.bind fun job =>
      job.alteration?.or (job.resumed?.bind m.world.alteration?) := by
    rw [alteration?, hcontrol]
  rw [heq, Option.bind_eq_none_iff]
  intro job hjob
  refine Option.or_eq_none_iff.mpr ⟨?_, Option.bind_eq_none_iff.mpr fun cycle hcycle => ?_⟩
  · unfold Job.alteration?
    split
    · exact absurd hjob (hbinds _ _ _ _)
    · rfl
  · refine h.alteration?_of_resumed hnone hfinds ?_
    rw [resumed?, hjob, Option.bind_some, hcycle]

/-- **Where nothing moves**: an open lookup is settled, or no step is performed, polling does not
begin again, no lookup binds the strategy and no cycle finds anything new. -/
theorem Reachable.unmoved_next (h : Reachable m) (hnone : m.world.callback = none)
    (hstep : ∀ step, m.control = .perform step → ∃ which settlement, step = .settle which settlement)
    (hreopens : ¬ m.Reopens) (hbinds : m.BindsNothing) (hfinds : m.FindsNothing) :
    Unmoved m m.next := by
  have huntold : Untold m.world m.next := by
    refine untold_next ?_
    cases hcontrol : m.control with
    | deliver outcome => exact h.alteration?_of_deliver hnone hcontrol hbinds hfinds
    | perform step =>
      obtain ⟨which, settlement, rfl⟩ := hstep _ hcontrol
      rw [alteration?, hcontrol]
      exact Option.bind_eq_none_iff.mpr fun _ _ => rfl
  have hnever : ∀ {step}, m.control = .perform step →
      (∀ which settlement, step ≠ .settle which settlement) → Unmoved m m.next := by
    intro step hcontrol hother
    obtain ⟨which, settlement, heq⟩ := hstep _ hcontrol
    exact absurd heq (hother which settlement)
  cases h.turn (.next m) with
  | calm h => exact unmoved_of_kept h.core h.strategy huntold
  | rotate control _ _ rotates => exact hnever control fun _ _ heq => by cases heq; cases rotates
  | reset control => exact hnever control (by simp)
  | rebind job => exact absurd job (hbinds _ _ _ _)
  | start control => exact hnever control (by simp)
  | stop control =>
    rcases control with ⟨control, -⟩ | ⟨control | control, -⟩ <;> exact hnever control (by simp)
  | poll control =>
    rcases control with ⟨⟨delay, period, control⟩, -⟩ | hagain
    · exact hnever control (by simp)
    · exact absurd hagain hreopens
  | ask before _ _ _ _ after => exact unmoved_of_asked before after huntold
  | take finds held _ before after =>
    have happlies := applies_take finds held before after
    have hnothing := hfinds.nextChange? h hnone happlies.resumed happlies.found happlies.generation
    cases hnothing.symm.trans happlies.first
  | callBack _ _ _ before there => cases there.symm.trans (before.callback_eq_none hnone)

/-- Nothing moves where a step begins or a timer fires. -/
theorem Reachable.unmoved_of_enters (h : Reachable m) (hnone : m.world.callback = none)
    (he : Enters m m') : Unmoved m m' := by
  have huntold : Untold m.world m' := he.untold
  cases he with
  | perform | interject => exact unmoved_of_kept (fun _ => rfl) (.refl _) huntold
  | fire w outcome ht =>
    cases h.turn (.fire w outcome ht) with
    | calm h => exact unmoved_of_kept h.core h.strategy huntold
    | ask before _ _ _ _ after => exact unmoved_of_asked before after huntold
    | rotate control | reset control | start control => cases control
    | stop control => rcases control with ⟨control, -⟩ | ⟨control | control, -⟩ <;> cases control
    | poll control =>
      rcases control with ⟨⟨delay, period, control⟩, -⟩ | ⟨_, _, _, _, hstack, -⟩
      · cases control
      · cases hstack
    | rebind job => cases job
    | take finds => cases finds.resumed
    | callBack finds => cases finds.resumed

/-! ### The transitions of a poll -/

/-- **A transition of a poll that finds nothing new**: of a cycle that a timer of a refresher began,
from its firing to the end of the cycle. -/
inductive Rechecks (number : Nat) (m : Machine) : Machine → Prop
  /-- A timer of the refresher fires, where nothing else remains to be done. -/
  | fires {w : World} {outcome : Outcome} {t : Timer} (point : m = ⟨w, [], .deliver outcome⟩)
      (waits : t ∈ w.timers) (owner : t.owner.refresher? = some number) :
      Rechecks number m (fire w [.settle none] t)
  /-- A timer of the refresher fires while time passes. -/
  | passes {w : World} {time : Binary64} {settling : Bool} {k : List Frame} {outcome : Outcome}
      {t : Timer} (point : m = ⟨w, .advance time settling :: k, .deliver outcome⟩)
      (idle : m.job? = none) (due : Timer.firstDue? w.timers time = some t)
      (owner : t.owner.refresher? = some number) : Rechecks number m m.next
  /-- The naming service answers the lookup, leaves it open or throws. -/
  | answers {w : World} {provider : String} {lookup generation : Nat} {services : List String}
      {reply : Answer} {k : List Frame} {outcome : Outcome}
      (point : m = ⟨w, .lookup provider lookup services (.poll number generation) reply :: k,
        .deliver outcome⟩) : Rechecks number m m.next
  /-- The naming service settles a lookup that it left open. -/
  | settles {which : Which} {settlement : Settlement}
      (control : m.control = .perform (.settle which settlement)) : Rechecks number m m.next
  /-- The cycle goes on: its lookup has failed. -/
  | fails {generation : Nat} {origin : Origin} {services : List String} {failure : Failure}
      (job : m.job? = some (.answered (.cycle number generation origin services) (.error failure))) :
      Rechecks number m m.next
  /-- The cycle goes on: its run has ended, or its lookup has returned for the bound service the list
  that the refresher saw last, or nothing where that is empty. -/
  | returns {generation : Nat} {origin : Origin} {services : List String} {listing : Option Listing}
      (job : m.job? = some (.answered (.cycle number generation origin services) (.ok listing)))
      (same : ∀ r s b, m.world.core? number = some r → r.generation = generation →
        m.world.Polls number r s b →
        Endpoint.sameList (r.seen b.service) (listed listing b.service) = true) :
      Rechecks number m m.next
  /-- The cycle has ended, and its refresher may begin another one. -/
  | releases (job : m.job? = some (.released number)) : Rechecks number m m.next

/-- What a cycle compares of a service is what its lookup returned for it. -/
theorem listed_getD (listing : Option Listing) (service : String) :
    ((listing.getD Table.empty).get? service).getD [] = listed listing service := by
  cases listing <;> rfl

/-- A cycle that finds nothing new goes on. -/
theorem FindsNothing.rechecks (hfinds : m.FindsNothing) {number generation : Nat} {origin : Origin}
    {services : List String} {listing : Option Listing}
    (hjob : m.job? = some (.answered (.cycle number generation origin services) (.ok listing))) :
    Rechecks number m m.next := by
  refine .returns hjob fun r s b hr hgeneration hpolls => ?_
  rw [← listed_getD]
  exact hfinds ⟨number, generation, origin, services, listing.getD Table.empty⟩ r s b
    (by rw [resumed?, hjob]; rfl) hr hgeneration hpolls

/-- A frame is not taken up where a job is done, and no step is performed. -/
theorem not_reopens_of_job {job : Job} (hjob : m.job? = some job) : ¬ m.Reopens := by
  rintro ⟨call, timings, k, result, hstack, -⟩
  obtain ⟨w, k', c⟩ := m
  cases hstack
  cases hjob

theorem control_of_job {job : Job} (hjob : m.job? = some job) :
    ∀ step, m.control = .perform step → ∃ which settlement, step = .settle which settlement := by
  intro step hcontrol
  cases hjob.symm.trans (job?_of_perform hcontrol)

/-- **A transition of a poll that finds nothing new moves nothing.** -/
theorem Rechecks.unmoved {number : Nat} (hr : Rechecks number m m') (h : Reachable m)
    (hnone : m.world.callback = none) : Unmoved m m' := by
  have hresting : m.job? = none → m.BindsNothing ∧ m.FindsNothing := by
    intro hjob
    refine ⟨fun _ _ _ _ heq => ?_, fun cycle r s b hresumed => ?_⟩
    · cases hjob.symm.trans heq
    · rw [resumed?, hjob] at hresumed
      cases hresumed
  have hworking : ∀ job, m.job? = some job → job.resumed? = none →
      (∀ call service provider listing,
        job ≠ .answered (.binding call service provider) (.ok listing)) → Unmoved m m.next := by
    intro job hjob hresumes hbinds
    refine h.unmoved_next hnone (control_of_job hjob) (not_reopens_of_job hjob)
      (fun _ _ _ _ heq => ?_) fun cycle r s b hresumed => ?_
    · exact hbinds _ _ _ _ (Option.some.inj (hjob.symm.trans heq))
    · rw [resumed?, hjob, Option.bind_some, hresumes] at hresumed
      cases hresumed
  cases hr with
  | fires point waits =>
    subst point
    exact h.unmoved_of_enters hnone (.fire _ _ waits)
  | passes point idle =>
    obtain ⟨hbinds, hfinds⟩ := hresting idle
    subst point
    refine h.unmoved_next hnone (fun _ hcontrol => by cases hcontrol) ?_ hbinds hfinds
    rintro ⟨_, _, _, _, hstack, -⟩
    cases hstack
  | answers point =>
    subst point
    obtain ⟨hbinds, hfinds⟩ := hresting rfl
    refine h.unmoved_next hnone (fun _ hcontrol => by cases hcontrol) ?_ hbinds hfinds
    rintro ⟨_, _, _, _, hstack, -⟩
    cases hstack
  | settles control =>
    obtain ⟨hbinds, hfinds⟩ := hresting (job?_of_perform control)
    refine h.unmoved_next hnone (fun _ hcontrol => ?_) ?_ hbinds hfinds
    · cases control.symm.trans hcontrol
      exact ⟨_, _, rfl⟩
    · rintro ⟨_, _, _, _, -, hcontrol⟩
      cases control.symm.trans hcontrol
  | fails job => exact hworking _ job rfl (by simp)
  | releases job => exact hworking _ job rfl (by simp)
  | @returns generation origin services listing job same =>
    refine h.unmoved_next hnone (control_of_job job) (not_reopens_of_job job)
      (fun _ _ _ _ heq => by cases job.symm.trans heq) fun cycle r s b hresumed => ?_
    rw [resumed?, job, Option.bind_some] at hresumed
    cases hresumed
    rw [listed_getD]
    exact same r s b

/-! ### Stretches in which no targets are replaced -/

/-- **A transition that replaces no targets**: no step resets them, no lookup binds the strategy,
and a poll that goes on finds nothing new. All else may happen: targets are elected, taken out and
put back, by the listener as well, polls begin and end, and polling is started and stopped. -/
structure Uneventful (m : Machine) : Prop where
  noReset : ∀ service endpoints, m.control ≠ .perform (.reset service endpoints)
  bindsNothing : m.BindsNothing
  findsNothing : m.FindsNothing

/-- The steps on the strategy that the next transition performs: one, or none. -/
def steps (m : Machine) : List Step := m.step?.toList

/-- **The strategy has come on by some steps, and by nothing else**: they have made its rotation
what it is, while it follows the same service with the same endpoints; what refreshers remember is
the same; and all that the listener has been told is of these steps. -/
structure Advances (m : Machine) (steps : List Step) (m' : Machine) : Prop where
  /-- The rotation is what the steps have made of it; the binding is the same. -/
  strategy : ∀ s, m.world.strategy? = some s → ∃ s', m'.world.strategy? = some s' ∧
    s'.rotation = steps.foldl (fun r step => step.rotate r) s.rotation ∧ s'.binding = s.binding
  /-- Every refresher remembers the same. -/
  snapshots : ∀ n snapshot, m.world.snapshot? n = some snapshot →
    m'.world.snapshot? n = some snapshot
  /-- The listener has been called only for targets that a step took out or put back. -/
  notices : ∃ told, m'.world.notices = m.world.notices ++ told ∧
    (told.map Notice.change).Sublist (steps.filterMap Step.membership?)

theorem Advances.refl (m : Machine) : Advances m [] m where
  strategy s hs := ⟨s, hs, rfl, rfl⟩
  snapshots _ _ h := h
  notices := ⟨[], (List.append_nil _).symm, List.Sublist.refl _⟩

theorem Unmoved.advances (h : Unmoved m m') : Advances m [] m' where
  strategy s hs := by
    obtain ⟨s', hs', hagrees⟩ := h.strategy s hs
    exact ⟨s', hs', hagrees.rotation, hagrees.binding⟩
  snapshots n _ hn := (h.snapshots n).trans hn
  notices := ⟨[], h.notices.trans (List.append_nil _).symm, List.Sublist.refl _⟩

theorem Advances.trans {steps steps' : List Step} (h : Advances m steps m')
    (h' : Advances m' steps' b) : Advances m (steps ++ steps') b where
  strategy s hs := by
    obtain ⟨s₁, hs₁, hrotation₁, hbinding₁⟩ := h.strategy s hs
    obtain ⟨s₂, hs₂, hrotation₂, hbinding₂⟩ := h'.strategy s₁ hs₁
    refine ⟨s₂, hs₂, ?_, hbinding₂.trans hbinding₁⟩
    rw [hrotation₂, hrotation₁, List.foldl_append]
  snapshots n snapshot hn := h'.snapshots n snapshot (h.snapshots n snapshot hn)
  notices := by
    obtain ⟨told, htold, hsub⟩ := h.notices
    obtain ⟨told', htold', hsub'⟩ := h'.notices
    refine ⟨told ++ told', by rw [htold', htold, List.append_assoc], ?_⟩
    rw [List.map_append, List.filterMap_append]
    exact hsub.append hsub'

/-- **A transition that replaces no targets keeps the binding.** -/
theorem Uneventful.binding (hu : m.Uneventful) (h : Reachable m) (hnone : m.world.callback = none)
    (hs : m.world.strategy? = some s) :
    ∃ s', m.next.world.strategy? = some s' ∧ s'.binding = s.binding := by
  obtain ⟨hthere, hbuilt⟩ := World.strategy?_eq_some.mp hs
  -- an act on the strategy, with calm before and after
  have hact : ∀ {x y : Machine} (f : Strategy → Strategy), Calm m x →
      y.world.strategy = x.world.strategy.map f → Calm y m.next →
      (∀ s, (f s).binding = s.binding ∧ (f s).building = s.building) →
      ∃ s', m.next.world.strategy? = some s' ∧ s'.binding = s.binding := by
    intro x y f before hy after hf
    obtain ⟨s₁, hs₁, hagrees₁⟩ := Strategy.Kept.exists_strategy? (hthere ▸ before.strategy) hbuilt
    obtain ⟨hthere₁, hbuilt₁⟩ := World.strategy?_eq_some.mp hs₁
    have hkept : Strategy.Kept (some (f s₁)) m.next.world.strategy := by
      rw [← Option.map_some (f := f), ← hthere₁, ← hy]
      exact after.strategy
    obtain ⟨s₂, hs₂, hagrees₂⟩ := hkept.exists_strategy? ((hf s₁).2.trans hbuilt₁)
    exact ⟨s₂, hs₂, hagrees₂.binding.trans ((hf s₁).1.trans hagrees₁.binding)⟩
  cases h.turn (.next m) with
  | calm h =>
    obtain ⟨s', hs', hagrees⟩ := Strategy.Kept.exists_strategy? (hthere ▸ h.strategy) hbuilt
    exact ⟨s', hs', hagrees.binding⟩
  | @rotate x step s₁ rotation _ before _ _ after =>
    exact hact (fun s => { s with rotation := rotation }) before rfl after fun _ => ⟨rfl, rfl⟩
  | reset control => exact absurd control (hu.noReset _ _)
  | rebind job => exact absurd job (hu.bindsNothing _ _ _ _)
  | start _ driven =>
    rw [hnone] at driven
    cases driven
  | @stop x number _ before after =>
    refine hact id before ?_ after fun _ => ⟨rfl, rfl⟩
    exact (x.world.strategy_stopRefresher number).trans (congrFun Option.map_id _).symm
  | @poll x s₁ binding timings _ before _ _ _ _ after =>
    exact hact (fun s => s.pollBy x.world.refreshers.length timings) before
      (x.world.strategy_pollWith binding timings) after fun _ => ⟨rfl, rfl⟩
  | @ask x _ r provider caller answer before _ _ _ _ after =>
    exact hact (y := x.asked provider r.snapshot.keys caller answer) id before
      (congrFun Option.map_id _).symm after fun _ => ⟨rfl, rfl⟩
  | take finds held _ before after =>
    have happlies := applies_take finds held before after
    have hnothing := hu.findsNothing.nextChange? h hnone happlies.resumed happlies.found
      happlies.generation
    cases hnothing.symm.trans happlies.first
  | callBack _ _ _ before there => cases there.symm.trans (before.callback_eq_none hnone)

/-- **So does what refreshers remember.** -/
theorem Uneventful.snapshot? (hu : m.Uneventful) (h : Reachable m) (hnone : m.world.callback = none)
    {n : Nat} {snapshot : Listing} (hn : m.world.snapshot? n = some snapshot) :
    m.next.world.snapshot? n = some snapshot := by
  have hact : ∀ {x y : Machine}, Calm m x →
      (x.world.snapshot? n = some snapshot → y.world.snapshot? n = some snapshot) → Calm y m.next →
      m.next.world.snapshot? n = some snapshot := by
    intro x y before hy after
    exact (after.snapshot?_eq n).trans (hy ((before.snapshot?_eq n).trans hn))
  cases h.turn (.next m) with
  | calm h => exact (h.snapshot?_eq n).trans hn
  | @rotate x _ _ rotation _ before _ _ after =>
    exact hact (y := x.rotated rotation) before id after
  | reset control => exact absurd control (hu.noReset _ _)
  | rebind job => exact absurd job (hu.bindsNothing _ _ _ _)
  | start _ driven =>
    rw [hnone] at driven
    cases driven
  | @stop x number _ before after =>
    have hhalt := snapshot?_eq_of_core_map (f := Refresher.halt)
      (x.world.core?_stopRefresher number) (fun _ => rfl) n
    exact hact before (fun hx => hhalt.trans hx) after
  | @poll x _ binding timings _ before _ _ _ _ after =>
    refine hact before (fun hx => ?_) after
    -- the new refresher has a number of its own
    have hne : x.world.refreshers.length ≠ n := by
      intro heq
      have hnone := World.core?_eq_none_iff.mpr (Nat.le_of_eq heq)
      rw [World.snapshot?, hnone] at hx
      cases hx
    rw [polled, World.snapshot?, World.core?_pollWith, if_neg hne]
    exact hx
  | @ask x _ r provider caller answer before _ _ _ _ after =>
    exact hact (y := x.asked provider r.snapshot.keys caller answer) before id after
  | take finds held _ before after =>
    have happlies := applies_take finds held before after
    have hnothing := hu.findsNothing.nextChange? h hnone happlies.resumed happlies.found
      happlies.generation
    cases hnothing.symm.trans happlies.first
  | callBack _ _ _ before there => cases there.symm.trans (before.callback_eq_none hnone)

/-- **A transition that replaces no targets makes of the rotation what its step does.** -/
theorem Uneventful.rotate (hu : m.Uneventful) (h : Reachable m) (hnone : m.world.callback = none)
    (r : Rotation) : m.rotate r = m.steps.foldl (fun r step => step.rotate r) r := by
  have hreplaces : m.replacement? = none := by
    cases hcontrol : m.control with
    | perform step =>
      rw [replacement?_of_perform hcontrol, Option.bind_eq_none_iff]
      intro step' hstep
      obtain rfl : step = step' :=
        Control.perform.inj (hcontrol.symm.trans (control_of_step? hstep).1)
      cases step with
      | reset service endpoints => exact absurd hcontrol (hu.noReset service endpoints)
      | _ => rfl
    | deliver outcome =>
      rw [replacement?, hcontrol]
      refine Option.bind_eq_none_iff.mpr fun job hjob => ?_
      refine Option.or_eq_none_iff.mpr ⟨?_, Option.bind_eq_none_iff.mpr fun cycle hcycle => ?_⟩
      · unfold Job.binds?
        split
        · exact absurd hjob (hu.bindsNothing _ _ _ _)
        · rfl
      · refine World.hands?_eq_none (h.alteration?_of_resumed hnone hu.findsNothing ?_)
        rw [resumed?, hjob, Option.bind_some, hcycle]
  rw [Machine.rotate, hreplaces, steps]
  cases m.step? <;> rfl

/-- The listener is told of the change that it is called for, if it is called. -/
theorem notices_notify (w : World) (k : List Frame) (change : Membership) :
    ∃ told, (notify w k change).world.notices = w.notices ++ told ∧
      (told.map Notice.change).Sublist [change] := by
  have hsilent : ∃ told, w.notices = w.notices ++ told ∧
      (told.map Notice.change).Sublist [change] :=
    ⟨[], (List.append_nil _).symm, List.nil_sublist _⟩
  rw [notify]
  split
  · exact hsilent
  · next s _ =>
    split
    · refine ⟨[⟨change, s.rotation.targets, w.clock.floor⟩], ?_, List.Sublist.refl _⟩
      rw [world_runScript]
      exact World.notices_emit w (.notice ⟨change, s.rotation.targets, w.clock.floor⟩)
    · exact hsilent

/-- **A transition that replaces no targets tells the listener of a target that its step takes out
or puts back, or nothing.** -/
theorem Uneventful.notices (hu : m.Uneventful) (h : Reachable m) (hnone : m.world.callback = none) :
    ∃ told, m.next.world.notices = m.world.notices ++ told ∧
      (told.map Notice.change).Sublist (m.steps.filterMap Step.membership?) := by
  cases halteration : m.alteration? with
  | none =>
    refine ⟨[], ?_, List.nil_sublist _⟩
    rw [List.append_nil]
    exact (untold_next halteration).notices
  | some a =>
    cases hcontrol : m.control with
    | deliver outcome =>
      have hstays := h.alteration?_of_deliver hnone hcontrol hu.bindsNothing hu.findsNothing
      cases hstays.symm.trans halteration
    | perform step =>
      -- the step takes out a target or puts one back
      have hmembership : m.steps.filterMap Step.membership? = [a.change] := by
        rw [alteration?, hcontrol] at halteration
        obtain ⟨s, hs, hstep⟩ := Option.bind_eq_some_iff.mp halteration
        have hstep? : m.step? = some step := by
          rw [step?, hcontrol]
          exact if_pos (by rw [hs]; rfl)
        rw [steps, hstep?]
        cases step with
        | reset service endpoints => exact absurd hcontrol (hu.noReset service endpoints)
        | remove target | recover target =>
          obtain ⟨r, -, rfl⟩ := Option.map_eq_some_iff.mp hstep
          rfl
        | _ => cases hstep
      obtain ⟨w, k, hnext, hcompletes⟩ := next_of_alteration halteration
      obtain ⟨told, htold, hsub⟩ := notices_notify w k a.change
      refine ⟨told, ?_, hmembership ▸ hsub⟩
      rw [hnext, htold, hcompletes.mute.notices]

/-- **A transition that replaces no targets advances the strategy by its step.** -/
theorem Uneventful.advances (hu : m.Uneventful) (h : Reachable m)
    (hnone : m.world.callback = none) : Advances m m.steps m.next where
  strategy s hs := by
    obtain ⟨hthere, -⟩ := World.strategy?_eq_some.mp hs
    obtain ⟨s', hs', hbinding⟩ := hu.binding h hnone hs
    obtain ⟨hthere', -⟩ := World.strategy?_eq_some.mp hs'
    obtain ⟨s₀, hs₀, hrotation⟩ := (hthere' ▸ h.evolves_next).exists_of_some
    obtain rfl : s₀ = s := Option.some.inj (hs₀.symm.trans hthere)
    exact ⟨s', hs', hrotation.trans (hu.rotate h hnone _), hbinding⟩
  snapshots _ _ hn := hu.snapshot? h hnone hn
  notices := hu.notices h hnone

/-- **Along a stretch in which no targets are replaced the strategy advances by the steps on it.**
-/
theorem Stretch.advances {seen : List Step} (hb : Stretch Uneventful steps m seen b)
    (h : Reachable m) (hs : m.world.strategy? = some s) : Advances m seen b := by
  have hnone : ∀ {a seen}, Reachable a → Advances m seen a → a.world.callback = none := by
    intro a seen ha hadvances
    obtain ⟨s', hs', -⟩ := hadvances.strategy s hs
    exact ha.callback_eq_none (World.strategy?_eq_some.mp hs').1
  induction hb with
  | refl => exact .refl m
  | @next seen a hstretch allowed ih =>
    have ha : Reachable a := h.run hstretch.run
    exact ih.trans (allowed.advances ha (hnone ha ih))
  | @enter seen a b hstretch enters ih =>
    have ha : Reachable a := h.run hstretch.run
    have hadvances := ih.trans (ha.unmoved_of_enters (hnone ha ih) enters).advances
    rwa [List.append_nil] at hadvances

/-- **Polls that find nothing new cannot be seen.** A poll may fail, or return for the bound service
the list that the refresher saw last, where a list that is missing is empty. Then none of its
transitions, from the firing of the timer to the end of the cycle, moves anything: the targets in
service and those taken out, with their order and weights, the sequence and the cursor, the binding
with its endpoints and what every refresher remembers are the same after it, and the listener is not
called. So along any stretch of a session in which the targets are not replaced otherwise, with
however many such polls and whatever elections, removals and recoveries between and inside them, the
rotation is what the steps have made of it, the binding and what refreshers remember are the same,
and the listener is told only of targets that the steps took out or put back, in their order. -/
theorem Reachable.unchanged_polls_are_invisible (h : Reachable m) (hs : m.world.strategy? = some s) :
    (∀ number m', Rechecks number m m' → Unmoved m m') ∧
    ∀ seen b, Stretch Uneventful steps m seen b → Advances m seen b :=
  ⟨fun _ _ hrechecks => hrechecks.unmoved h (h.callback_eq_none (World.strategy?_eq_some.mp hs).1),
    fun _ _ hb => hb.advances h hs⟩

/-- Whether the next transition replaces no targets, as it can be evaluated. -/
def uneventful? (m : Machine) : Bool :=
  (match m.control with | .perform (.reset ..) => false | _ => true) &&
  (m.job?.bind Job.binds?).isNone &&
  m.resumed?.all fun cycle => (m.world.core? cycle.refresher).all fun r =>
    r.generation != cycle.generation || (m.world.strategy.bind Strategy.binding).all fun b =>
      Endpoint.sameList (r.seen b.service) ((cycle.latest.get? b.service).getD [])

theorem uneventful_of_check (h : m.uneventful? = true) : m.Uneventful := by
  simp only [uneventful?, Bool.and_eq_true, Option.isNone_iff_eq_none] at h
  obtain ⟨⟨hreset, hbinds⟩, hfinds⟩ := h
  refine ⟨fun service endpoints hcontrol => ?_, fun call service provider listing hjob => ?_, ?_⟩
  · rw [hcontrol] at hreset
    cases hreset
  · rw [hjob] at hbinds
    cases hbinds
  · intro cycle r s b hresumed hr hgeneration hpolls
    rw [hresumed, Option.all_some, hr, Option.all_some, hgeneration, hpolls.strategy,
      Option.bind_some, hpolls.bound, Option.all_some, bne_self_eq_false, Bool.false_or] at hfinds
    exact hfinds

/-- A strategy of two targets polls here. One target is taken out, the other one is elected, and
then a poll returns the list that was seen last: after the poll, as before, one target is out and
the other one is elected next. -/
theorem unchanged_polls_are_invisible_after_removal :
    ∃ m s seen b s', Reachable m ∧ m.Running 0 ∧ m.world.strategy? = some s ∧
      Stretch Uneventful steps m seen b ∧ seen.length = 3 ∧
      seen.filterMap Step.membership? = [.removed "10.0.0.1:80"] ∧ Advances m seen b ∧
      b.polled? "echo" = some (0, 1, [⟨"10.0.0.1", .ofNat 80⟩, ⟨"10.0.0.2", .ofNat 80⟩]) ∧
      Rechecks 0 b b.next ∧ Unmoved b b.next ∧ b.next.world.strategy? = some s' ∧
      s'.rotation.targets = ["10.0.0.2:80"] ∧ s'.rotation.failedTargets = ["10.0.0.1:80"] := by
  let m := polling
  let a₁ := run 4 (m.world.machine (.remove "10.0.0.1:80"))
  let a₂ := run 4 (a₁.world.machine (.elect 1))
  let b := run 4 (a₂.world.machine (.advance (.ofNat 1000)))
  have h₁ : Stretch Uneventful steps m _ a₁ :=
    stretch_of_step steps (by decide +kernel) _ 4 fun i hi =>
      uneventful_of_check (by revert i; decide +kernel)
  have h₂ : Stretch Uneventful steps a₁ _ a₂ :=
    stretch_of_step steps (by decide +kernel) _ 4 fun i hi =>
      uneventful_of_check (by revert i; decide +kernel)
  have h₃ : Stretch Uneventful steps a₂ _ b :=
    stretch_of_step steps (by decide +kernel) _ 4 fun i hi =>
      uneventful_of_check (by revert i; decide +kernel)
  have hthere : m.world.strategy?.isSome = true := by decide +kernel
  obtain ⟨s, hs⟩ := Option.isSome_iff_exists.mp hthere
  obtain ⟨-, hadvances⟩ := reachable_polling.unchanged_polls_are_invisible hs
  have hstretch := (h₁.trans h₂).trans h₃
  -- the poll has returned the list that was seen last
  have hpolled : b.polled? "echo" =
      some (0, 1, [⟨"10.0.0.1", .ofNat 80⟩, ⟨"10.0.0.2", .ofNat 80⟩]) := by decide +kernel
  obtain ⟨origin, services, listing, hjob, -⟩ := exists_of_polled? hpolled
  have hrechecks : Rechecks 0 b b.next :=
    (uneventful_of_check (m := b) (by decide +kernel)).findsNothing.rechecks hjob
  obtain ⟨s₁, hs₁, -⟩ := (hadvances _ _ hstretch).strategy s hs
  have hb := reachable_polling.run hstretch.run
  obtain ⟨hunmoved, -⟩ := hb.unchanged_polls_are_invisible hs₁
  obtain ⟨s', hs', -⟩ := (hunmoved 0 _ hrechecks).strategy s₁ hs₁
  have htargets : (b.next.world.strategy?.map fun s =>
      (s.rotation.targets, s.rotation.failedTargets)) = some (["10.0.0.2:80"], ["10.0.0.1:80"]) := by
    decide +kernel
  rw [hs', Option.map_some, Option.some.injEq, Prod.mk.injEq] at htargets
  have hrunning : (m.world.core? 0).map Refresher.running = some true := by decide +kernel
  exact ⟨m, s, _, b, s', reachable_polling, Option.map_eq_some_iff.mp hrunning, hs, hstretch,
    by decide +kernel, by decide +kernel, hadvances _ _ hstretch, hpolled, hrechecks,
    hunmoved 0 _ hrechecks, hs', htargets⟩

end Machine

end Balancer.Session
