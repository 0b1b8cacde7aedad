import Balancer.Proofs.Session.Flights
import Balancer.Proofs.Session.Runs

/-!
# Stops and the timers that they leave

A stop clears the timers that the refresher knows of. It knows of all of them, unless its later
polls began while it knew of a timer for them already: then the older timer fires for ever. For that
to happen the refresher must have been stopped and started again while its naming service was being
asked by a first poll.

* `Balancer.Session.World.Knows` – a refresher knows of its timers.
* `Balancer.Session.Machine.Halts` – **a stop of a refresher is done.**
* `Balancer.Session.Machine.Overwrites` – **the later polls of a refresher begin while it knows of a
  timer for them.**
* `Balancer.Session.Machine.Opens.stops_clear_timers` – **a stop leaves no timer, unless one has
  been overwritten**, and this comes of a stop inside a first poll.
-/

namespace Balancer.Session

namespace World

/-- **A refresher knows of its timers**: there is one for the later polls at most. -/
def Knows (w : World) (number : Nat) : Prop :=
  ∀ i, (.period number, i) ∈ w.handles → w.periodOf number = some i

variable {w w' : World} {n : Nat}

theorem knows_congr (hhandles : ∀ i, (.period n, i) ∈ w'.handles ↔ (.period n, i) ∈ w.handles)
    (hperiod : w'.periodOf n = w.periodOf n) : w'.Knows n ↔ w.Knows n := by
  simp only [Knows, hhandles, hperiod]

/-- A refresher that waits for its first poll only knows of its timers. -/
theorem knows_of_delay {t : Timer} (h : w.timersOf n = [t]) (howner : t.owner = .delay n) :
    w.Knows n := by
  intro i hi
  obtain ⟨u, hu, hperiod, -⟩ := mem_handles.mp hi
  have hmem : u ∈ w.timersOf n := mem_timersOf.mpr ⟨hu, by rw [hperiod]; rfl⟩
  rw [h, List.mem_singleton] at hmem
  rw [hmem, howner] at hperiod
  cases hperiod

theorem SameTime.knows_iff (h : w.SameTime w') : w'.Knows n ↔ w.Knows n :=
  knows_congr (fun i => by rw [handles, h.timers, handles]) (by rw [periodOf, h.clockwork, periodOf])

theorem period_mem_startRefresher (w : World) (number : Nat) (services : Listing) (i : Nat) :
    (.period n, i) ∈ (w.startRefresher number services).handles ↔ (.period n, i) ∈ w.handles := by
  rcases w.startRefresher_cases number services with ⟨-, heq⟩ | ⟨r, -, -, heq⟩
  · rw [heq]
  · rw [heq, handles_modifyRefresher, handles_setTimer]
    simp

theorem knows_startRefresher (w : World) (number : Nat) (services : Listing) :
    (w.startRefresher number services).Knows n ↔ w.Knows n := by
  refine knows_congr (w.period_mem_startRefresher number services) ?_
  rw [periodOf, clockwork?_startRefresher, periodOf]
  split
  · rw [Option.bind_map]
    refine congrArg _ (funext fun r => ?_)
    rw [Function.comp, startClock]
    split <;> rfl
  · rfl

theorem knows_pollWith (w : World) (binding : Binding) (timings : Timings) :
    (w.pollWith binding timings).Knows n ↔ w.Knows n := by
  refine knows_congr (fun i => period_mem_startRefresher _ _ _ i) ?_
  rw [periodOf, clockwork?_pollWith, periodOf]
  split
  · next heq =>
    rw [clockwork?_eq_none_iff.mpr (Nat.le_of_eq heq)]
    rfl
  · rfl

theorem Timekept.knows_stopRefresher (h : w.Timekept) (number : Nat) :
    (w.stopRefresher number).Knows n ↔ w.Knows n := by
  have hmem := w.mem_handles_stopRefresher number (.period n)
  by_cases hn : number = n
  · subst hn
    have hnone : (w.stopRefresher number).periodOf number = none := by
      rw [periodOf, clockwork?_stopRefresher, if_pos rfl]
      cases w.clockwork? number <;> rfl
    rw [Knows, hnone]
    constructor
    · intro hleft i hi
      by_contra hperiod
      refine absurd (hleft i ((hmem i).mpr ⟨hi, fun hdelay => ?_, hperiod⟩)) (by simp)
      exact absurd (h.owner_eq hi ((h.delays number i).mpr hdelay)) (by simp)
    · intro hknows i hi
      obtain ⟨hold, -, hperiod⟩ := (hmem i).mp hi
      exact absurd (hknows i hold) hperiod
  · refine knows_congr (fun i => ?_) ?_
    · rw [hmem]
      exact ⟨And.left, fun hi => ⟨hi, h.not_known (by simpa [TimerOwner.refresher?] using Ne.symm hn) hi⟩⟩
    · rw [periodOf, clockwork?_stopRefresher, if_neg hn, periodOf]

/-- **The later polls begin**: the refresher still knows of its timers if there was none for
them. -/
theorem Timekept.knows_armPeriod (h : w.Timekept) (number : Nat) :
    (w.armPeriod number).Knows n ↔ w.Knows n ∧ ¬ (number = n ∧ (w.periodOf n).isSome = true) := by
  by_cases hn : number = n
  · subst hn
    rcases w.armPeriod_cases number with ⟨hnone, heq⟩ | ⟨r, hr, heq⟩
    · rw [heq, periodOf, hnone]
      simp
    · have hperiod : (w.armPeriod number).periodOf number = some (w.timerCount + 1) := by
        rw [periodOf, clockwork?_armPeriod, if_pos rfl, clockwork?_of_getElem? hr]
        rfl
      have hmem : ∀ i, (.period number, i) ∈ (w.armPeriod number).handles ↔
          (.period number, i) ∈ w.handles ∨ i = w.timerCount + 1 := fun i => by
        rw [heq, handles_modifyRefresher, handles_setTimer]
        simp
      rw [Knows, hperiod, Knows]
      constructor
      · intro hknows
        -- an older timer would have a number of its own
        have hnone : ∀ i, (.period number, i) ∉ w.handles := fun i hi => by
          have hle := h.counted _ hi
          have heq := Option.some.inj (hknows i ((hmem i).mpr (.inl hi)))
          simp only at hle
          omega
        refine ⟨fun i hi => absurd hi (hnone i), fun hover => ?_⟩
        obtain ⟨i, hi⟩ := Option.isSome_iff_exists.mp hover.2
        exact hnone i (h.periods number i hi)
      · rintro ⟨hknows, hnone⟩ i hi
        rcases (hmem i).mp hi with hold | rfl
        · exact absurd ⟨rfl, by rw [hknows i hold]; rfl⟩ hnone
        · rfl
  · have hsame : (w.armPeriod number).Knows n ↔ w.Knows n := by
      refine knows_congr (fun i => ?_) (by rw [periodOf, clockwork?_armPeriod, if_neg hn, periodOf])
      rcases w.armPeriod_cases number with ⟨-, heq⟩ | ⟨r, -, heq⟩
      · rw [heq]
      · rw [heq, handles_modifyRefresher, handles_setTimer]
        simp [Ne.symm hn]
    simpa [hn] using hsame

theorem Timekept.knows_strike (h : w.Timekept) {t : Timer} (ht : t ∈ w.timers) :
    (w.strike t).Knows n ↔ w.Knows n := by
  have hhandle : (t.owner, t.id) ∈ w.handles := mem_handles.mpr ⟨t, ht, rfl, rfl⟩
  refine knows_congr (fun i => ?_) ?_
  · rw [handles, timers_strike, ← handles, handles_reach]
    split
    · rfl
    · next hevery =>
      rw [List.mem_filter]
      refine ⟨And.left, fun hi => ⟨hi, decide_eq_true fun heq => hevery ?_⟩⟩
      -- a timer for the later polls fires again
      have hid : i = t.id := heq
      subst hid
      exact (h.regular t ht).2 n (h.owner_eq hhandle hi)
  · rw [periodOf, clockwork?_strike, periodOf]
    split
    · rw [Option.bind_map]
      rfl
    · split
      · rw [Option.bind_map]
        rfl
      · rfl

end World

namespace Machine

variable {m₀ m m' : Machine} {b : Beat} {n : Nat}

/-! ### Overwriting -/

/-- The refresher whose first poll is done with the next transition. -/
def arming? (m : Machine) : Option Nat :=
  match m.stack, m.control with
  | f :: _, .deliver _ => f.arm?
  | _, _ => none

/-- **The later polls of a refresher begin with the next transition, while it knows of a timer for
them**, whose number is lost then. -/
def Overwrites (m : Machine) (number : Nat) : Prop :=
  m.arming? = some number ∧ (m.world.periodOf number).isSome = true

instance (m : Machine) (number : Nat) : Decidable (m.Overwrites number) :=
  inferInstanceAs (Decidable (_ ∧ _))

theorem inside_of_arming (h : m.arming? = some n) : m.Inside n := by
  obtain ⟨w, k, step | outcome⟩ := m
  · cases k <;> cases h
  · cases k with
    | nil => cases h
    | cons f k => exact List.mem_filterMap.mpr ⟨f, List.mem_cons_self, h⟩

/-- The later polls of a refresher begin where its first poll is done. -/
theorem Beats.armed_eq (h : Beats b m m') : b.armed = m.arming?.toList := by
  have hframes := h.frames
  obtain ⟨w, k, step | outcome⟩ := m
  · have hnone : b.armed = [] := List.append_left_eq_self.mp hframes.symm
    cases k <;> exact hnone
  · cases k with
    | nil => exact (List.append_eq_nil_iff.mp hframes.symm).1
    | cons f k =>
      refine List.append_cancel_right (hframes.symm.trans ?_)
      show (f :: k).filterMap Frame.arm? = f.arm?.toList ++ k.filterMap Frame.arm?
      cases harm : f.arm? <;> simp [harm]

theorem Beats.arming_iff (h : Beats b m m') : b = .arm n ↔ m.arming? = some n := by
  have harmed := h.armed_eq
  constructor
  · rintro rfl
    exact Option.toList_eq_singleton_iff.mp harmed.symm
  · intro heq
    rw [heq] at harmed
    cases b <;> simp_all [Beat.armed]

theorem Fits.knows_iff (h : m.Fits b) (hm : m.world.Timekept) :
    (b.world m.world).Knows n ↔
      m.world.Knows n ∧ ¬ (b = .arm n ∧ (m.world.periodOf n).isSome = true) := by
  have hother : ∀ {w' : World}, b ≠ .arm n → (w'.Knows n ↔ m.world.Knows n) →
      (w'.Knows n ↔ m.world.Knows n ∧ ¬ (b = .arm n ∧ (m.world.periodOf n).isSome = true)) :=
    fun hb hsame => by rw [hsame, and_iff_left fun h => hb h.1]
  cases b with
  | rest => exact hother (by simp) Iff.rfl
  | start services => exact hother (by simp) (m.world.knows_startRefresher 0 services)
  | stop refresher => exact hother (by simp) (hm.knows_stopRefresher refresher)
  | poll binding timings => exact hother (by simp) (m.world.knows_pollWith binding timings)
  | arm refresher =>
    rw [Beat.arm.injEq]
    exact hm.knows_armPeriod refresher
  | release refresher =>
    refine hother (by simp) (World.knows_congr (fun i => Iff.rfl) ?_)
    rw [World.periodOf, Beat.world, World.clockwork?_modifyRefresher m.world
      (g := fun r => { r with inFlight := false }) (fun _ => rfl), World.periodOf]
    split
    · rw [Option.bind_map]
      rfl
    · rfl
  | pass time => exact hother (by simp) (World.knows_congr (fun i => Iff.rfl) rfl)
  | strike t => exact hother (by simp) (hm.knows_strike h.mem_timers)

/-- **A refresher knows of its timers until one is overwritten.** -/
theorem Reachable.knows_iff (h : Reachable m) (hl : Leads m m') :
    m'.world.Knows n ↔ m.world.Knows n ∧ ¬ m.Overwrites n := by
  obtain ⟨b, hb⟩ := h.exists_beats hl
  rw [hb.still.time.knows_iff, hb.fits.knows_iff h.timekept, hb.arming_iff]
  rfl

/-- Only a transition comes next where a first poll is done. -/
theorem eq_next_of_arming (hl : Leads m m') (h : m.arming? = some n) : m' = m.next := by
  cases hl with
  | next => rfl
  | perform => cases h
  | interject => cases h
  | fire => cases h

/-- **A refresher that does not know of its timers has overwritten one.** -/
theorem Opens.knows_or_overwrites (hopen : Opens m₀) (hrun : Run m₀ m) :
    m.world.Knows n ↔ ¬ ∃ a, Run m₀ a ∧ Run a.next m ∧ a.Overwrites n := by
  constructor
  · rintro hknows ⟨a, ha, hm, hover⟩
    have hlost : ¬ a.next.world.Knows n := fun h =>
      (((hopen.reachable.run ha).knows_iff (.next a)).mp h).2 hover
    refine absurd hknows ?_
    -- what is not known of once is not known of later
    clear hrun hknows
    induction hm with
    | refl => exact hlost
    | tail hm hl ih =>
      have hreach := (hopen.reachable.run (ha.tail (.next a))).run hm
      exact fun h => ih ((hreach.knows_iff hl).mp h).1
  · intro hnone
    induction hrun with
    | refl =>
      obtain ⟨x, hblank, hbeats⟩ := hopen.exists_blank
      refine hbeats.still.time.knows_iff.mpr fun i hi => ?_
      obtain ⟨t, ht, -⟩ := World.mem_handles.mp hi
      exact absurd ht (by rw [Beat.world, hblank.timers]; exact List.not_mem_nil)
    | @tail a m hrun hl ih =>
      refine ((hopen.reachable.run hrun).knows_iff hl).mpr ⟨ih ?_, fun hover => ?_⟩
      · rintro ⟨b, hb, hm, hover⟩
        exact hnone ⟨b, hb, hm.tail hl, hover⟩
      · exact hnone ⟨a, hrun, by rw [eq_next_of_arming hl hover.1], hover⟩

/-! ### Stops -/

/-- **A stop of a refresher is done**: a generation begins in which it does not run. -/
def Halts (number : Nat) (m m' : Machine) : Prop :=
  ∃ r r', m.world.core? number = some r ∧ m'.world.core? number = some r' ∧
    r'.generation = r.generation + 1 ∧ r'.running = false

theorem Stops.halts (h : m.Stops n) {r : Refresher} (hr : m.world.core? n = some r) :
    Halts n m m.next :=
  ⟨r, r.halt, hr, by rw [h.core?_next, hr]; rfl, rfl, rfl⟩

/-- **Only a stop halts a refresher.** -/
theorem Beats.eq_stop_of_halts (h : Beats b m m') (hhalts : Halts n m m') : b = .stop n := by
  obtain ⟨r, r', hr, hr', hgeneration, hrunning⟩ := hhalts
  obtain ⟨q, hq, hqr⟩ := World.exists_clockwork_of_core? hr
  obtain ⟨q', hq', hqr'⟩ := World.exists_clockwork_of_core? hr'
  by_contra hstop
  obtain ⟨p, hp, -, hkept⟩ := b.exists_clockwork_world hstop hq
  rw [h.still.time.clockwork, hp, Option.some.injEq] at hq'
  subst hq'
  rcases hkept with ⟨-, hsame⟩ | ⟨-, hruns, -⟩
  · have hbefore := hqr.2.1
    have hafter := hqr'.2.1
    omega
  · rw [hqr'.1, hrunning] at hruns
    cases hruns

theorem Beats.clockwork_of_stop (h : Beats (.stop n) m m') :
    m'.world.clockwork? n = (m.world.clockwork? n).map Refresher.halt := by
  rw [h.still.time.clockwork, Beat.world, World.clockwork?_stopRefresher, if_pos rfl]

theorem Beats.halts_of_stop (h : Beats (.stop n) m m') (hthere : (m.world.clockwork? n).isSome = true) :
    Halts n m m' := by
  have hfound := h.clockwork_of_stop
  obtain ⟨q, hq⟩ := Option.isSome_iff_exists.mp hthere
  rw [hq, Option.map_some] at hfound
  obtain ⟨r, hr, hrunning, hgeneration⟩ := World.exists_core?_of_clockwork hq
  obtain ⟨r', hr', hrunning', hgeneration'⟩ := World.exists_core?_of_clockwork hfound
  exact ⟨r, r', hr, hr', by rw [hgeneration', hgeneration]; rfl, hrunning'⟩

/-- **What a stop leaves**: the timers that the refresher did not know of. -/
theorem Reachable.timersOf_of_halts (h : Reachable m) (hl : Leads m m') (hhalts : Halts n m m') :
    m'.world.timersOf n = [] ↔ m'.world.Knows n := by
  obtain ⟨b, hb⟩ := h.exists_beats hl
  have hstop := hb.eq_stop_of_halts hhalts
  subst hstop
  have hfound := hb.clockwork_of_stop
  have hdelay : m'.world.delayOf n = none := by
    rw [World.delayOf, hfound]
    cases m.world.clockwork? n <;> rfl
  have hperiod : m'.world.periodOf n = none := by
    rw [World.periodOf, hfound]
    cases m.world.clockwork? n <;> rfl
  have hkept := (h.leads hl).timekept
  rw [World.timersOf_eq_nil_iff, World.Knows, hperiod]
  constructor
  · exact fun hnone i hi => absurd hi (hnone.2 i)
  · refine fun hknows => ⟨fun i hi => ?_, fun i hi => absurd (hknows i hi) (by simp)⟩
    rw [hkept.delays, hdelay] at hi
    exact absurd hi (by simp)

/-! ### First polls in which nothing is stopped -/

/-- How many timers a refresher knows of. -/
def waits (r : Option Refresher) : Nat :=
  (r.bind Refresher.delayTimer).isSome.toNat + (r.bind Refresher.periodTimer).isSome.toNat

/-- **A refresher that runs waits for one thing**: for its first poll, in it, or for a later poll;
one that does not run waits for nothing. -/
def Single (number : Nat) (m : Machine) : Prop :=
  waits (m.world.clockwork? number) + m.arms.count number =
    ((m.world.clockwork? number).any Refresher.running).toNat

theorem Single.not_overwrites (h : m.Single n) : ¬ m.Overwrites n := by
  rintro ⟨harming, hperiod⟩
  have hinside := List.count_pos_iff.mpr (inside_of_arming harming)
  have hone := Bool.toNat_le ((m.world.clockwork? n).any Refresher.running)
  have hknown : ((m.world.clockwork? n).bind Refresher.periodTimer).isSome.toNat = 1 := by
    rw [← World.periodOf, hperiod]
    rfl
  have hsum : _ = _ := h
  rw [waits, hknown] at hsum
  omega

/-! The beats one by one: how much a refresher waits for changes with its own start, stop, first
poll and later polls, and whether it runs with its start and stop. -/

/-- A beat changes nothing here that neither changes what a refresher waits for nor whether it
runs. -/
theorem Beats.single_congr (h : Beats b m m') (harm : b ≠ .arm n)
    (hstrike : ∀ t, b = .strike t → t.owner ≠ .delay n)
    (hwaits : waits ((b.world m.world).clockwork? n) = waits (m.world.clockwork? n))
    (hruns : ((b.world m.world).clockwork? n).any Refresher.running =
      (m.world.clockwork? n).any Refresher.running) (hs : m.Single n) : m'.Single n := by
  rw [Single, h.still.time.clockwork, h.count_arms_eq harm hstrike, hwaits, hruns]
  exact hs

/-- A refresher that does not run waits for its first poll when it is started. -/
theorem Beats.single_of_start {services : Listing} (h : Beats (.start services) m m')
    (hs : m.Single n) : m'.Single n := by
  have hbefore : _ = _ := hs
  rw [Single, h.still.time.clockwork, h.count_arms_eq (by simp) (by simp), Beat.world,
    World.clockwork?_startRefresher]
  split
  · rcases hq : m.world.clockwork? n with _ | q
    · rw [hq] at hbefore
      exact hbefore
    · rw [hq] at hbefore
      rw [Option.map_some, World.startClock]
      split
      · exact hbefore
      · next hidle =>
        simp only [Bool.or_eq_true, not_or, Bool.not_eq_true] at hidle
        simp only [waits, Option.bind_some, Option.any_some, hidle.2, Bool.toNat_false] at hbefore
        simp only [waits, Option.bind_some, Option.any_some, Refresher.begin, Option.isSome_some,
          Bool.toNat_true]
        omega
  · exact hbefore

/-- A refresher that is stopped waits for nothing, unless its first poll is being made. -/
theorem Beats.single_of_stop {refresher : Nat} (h : Beats (.stop refresher) m m')
    (hs : m.Single n) (hfree : refresher = n → m.arms.count n = 0) : m'.Single n := by
  rw [Single, h.still.time.clockwork, h.count_arms_eq (by simp) (by simp), Beat.world,
    World.clockwork?_stopRefresher]
  split
  · next hn =>
    subst hn
    rw [hfree rfl]
    cases m.world.clockwork? refresher <;> rfl
  · exact hs

/-- A new refresher waits for its first poll. -/
theorem Beats.single_of_poll {binding : Binding} {timings : Timings}
    (h : Beats (.poll binding timings) m m') (hs : m.Single n) : m'.Single n := by
  have hbefore : _ = _ := hs
  rw [Single, h.still.time.clockwork, h.count_arms_eq (by simp) (by simp), Beat.world,
    World.clockwork?_pollWith]
  split
  · next hn =>
    rw [World.clockwork?_eq_none_iff.mpr (Nat.le_of_eq hn)] at hbefore
    have hzero : m.arms.count n = 0 := by simpa [waits] using hbefore
    rw [hzero]
    rfl
  · exact hbefore

/-- A refresher whose first poll is done waits for a later one instead. -/
theorem Beats.single_of_arm (h : Beats (.arm n) m m') (hs : m.Single n) : m'.Single n := by
  have hbefore : _ = _ := hs
  have hdone := h.count_arms n
  rw [count_arming (by simp), Beat.armed, List.count_singleton_self] at hdone
  have hone := Bool.toNat_le ((m.world.clockwork? n).any Refresher.running)
  rw [Single, h.still.time.clockwork, Beat.world, World.clockwork?_armPeriod, if_pos rfl]
  rcases hq : m.world.clockwork? n with _ | q
  · rw [hq] at hbefore
    simp only [Option.any_none, Bool.toNat_false] at hbefore
    omega
  · rw [hq] at hbefore hone
    simp only [waits, Option.bind_some, Option.any_some, Option.map_some, Option.isSome_some,
      Bool.toNat_true] at hbefore hone ⊢
    omega

/-- A refresher that waits for its first poll makes it when its timer fires. -/
theorem Beats.single_of_delay {t : Timer} (h : Beats (.strike t) m m') (hm : m.world.Timekept)
    (howner : t.owner = .delay n) (hs : m.Single n) : m'.Single n := by
  have hbefore : _ = _ := hs
  have hbegins := h.count_arms n
  rw [count_arming_of_delay howner, count_armed (by simp)] at hbegins
  have hdelay : m.world.delayOf n = some t.id :=
    (hm.delays n t.id).mp (World.mem_handles.mpr ⟨t, h.fits.mem_timers, howner, rfl⟩)
  rw [Single, h.still.time.clockwork, Beat.world, World.clockwork?_strike, if_pos howner]
  rcases hq : m.world.clockwork? n with _ | q
  · rw [World.delayOf, hq] at hdelay
    exact absurd hdelay (by simp)
  · rw [World.delayOf, hq, Option.bind_some] at hdelay
    rw [hq] at hbefore
    simp only [waits, Option.bind_some, Option.any_some, hdelay, Option.isSome_some,
      Bool.toNat_true] at hbefore
    simp only [waits, Option.map_some, Option.bind_some, Option.any_some, Option.isSome_none,
      Bool.toNat_false]
    omega

/-- **Every beat keeps this**, but for a stop inside a first poll. -/
theorem Beats.single (h : Beats b m m') (hm : m.world.Timekept) (hs : m.Single n)
    (hfree : b = .stop n → m.arms.count n = 0) : m'.Single n := by
  cases b with
  | rest | pass => exact h.single_congr (by simp) (by simp) rfl rfl hs
  | start services => exact h.single_of_start hs
  | stop refresher => exact h.single_of_stop hs fun hn => hfree (by rw [hn])
  | poll binding timings => exact h.single_of_poll hs
  | arm refresher =>
    by_cases hn : refresher = n
    · subst hn
      exact h.single_of_arm hs
    · have hclock : ((Beat.arm refresher).world m.world).clockwork? n = m.world.clockwork? n := by
        rw [Beat.world, World.clockwork?_armPeriod, if_neg hn]
      exact h.single_congr (by simpa using hn) (by simp) (by rw [hclock]) (by rw [hclock]) hs
  | release refresher =>
    refine h.single_congr (by simp) (by simp) ?_ ?_ hs <;>
    · rw [Beat.world, World.clockwork?_modifyRefresher m.world
        (g := fun r => { r with inFlight := false }) fun _ => rfl]
      split
      · cases m.world.clockwork? n <;> rfl
      · rfl
  | strike t =>
    by_cases howner : t.owner = .delay n
    · exact h.single_of_delay hm howner hs
    · refine h.single_congr (by simp) (fun u hu => Beat.strike.inj hu ▸ howner) ?_ ?_ hs <;>
      · rw [Beat.world, World.clockwork?_strike, if_neg howner]
        split
        · cases m.world.clockwork? n <;> rfl
        · rfl

/-- **What a refresher waits for is one thing**, unless it has been stopped inside a first poll. -/
theorem Opens.single_or_halts_inside (hopen : Opens m₀) (hrun : Run m₀ m) :
    m.Single n ∨ ∃ b c, Run m₀ b ∧ Leads b c ∧ Run c m ∧ Halts n b c ∧ b.Inside n := by
  induction hrun with
  | refl =>
    left
    obtain ⟨x, hblank, hbeats⟩ := hopen.exists_blank
    refine hbeats.single ?_ ?_ fun h => absurd h (by simp)
    · exact hblank.timekept
    · rw [Single, hblank.arms]
      rcases hq : x.world.clockwork? n with _ | q
      · rfl
      · obtain ⟨provider, handler, timings, -, rfl⟩ := hblank.idle n q hq
        rfl
  | @tail a m hrun hl ih =>
    rcases ih with hsingle | ⟨b, c, hb, hbc, hca, hhalts, hinside⟩
    · have hreach := hopen.reachable.run hrun
      obtain ⟨b, hbeat⟩ := hreach.exists_beats hl
      by_cases hstop : b = .stop n ∧ a.Inside n
      · obtain ⟨rfl, hinside⟩ := hstop
        refine .inr ⟨a, m, hrun, hl, .refl, hbeat.halts_of_stop ?_, hinside⟩
        -- a refresher whose first poll is being made is there
        have hpos : 0 < a.arms.count n := List.count_pos_iff.mpr hinside
        have hsum : _ = _ := hsingle
        rcases hq : a.world.clockwork? n with _ | q
        · rw [hq, Option.any_none, Bool.toNat_false] at hsum
          omega
        · rfl
      · refine .inl (hbeat.single hreach.timekept hsingle fun h => ?_)
        exact List.count_eq_zero.mpr fun hinside => hstop ⟨h, hinside⟩
    · exact .inr ⟨b, c, hb, hbc, hca.tail hl, hhalts, hinside⟩

/-! ### All stops -/

/-- **A stop leaves no timer, unless one has been overwritten.** A stop by a step is one. Whatever
happened before, none of the timers that the refresher ever set is registered when a stop is done,
exactly if its later polls have never begun while it knew of a timer for them. And before they did
so, the refresher was stopped while its naming service was being asked by a first poll. -/
theorem Opens.stops_clear_timers (hopen : Opens m₀) (hrun : Run m₀ m) (n : Nat) :
    (∀ r, m.Stops n → m.world.core? n = some r → Halts n m m.next) ∧
    (∀ m', Leads m m' → Halts n m m' →
      (m'.world.timersOf n = [] ↔ ¬ ∃ a, Run m₀ a ∧ Run a.next m' ∧ a.Overwrites n)) ∧
    (∀ a, Run m₀ a → Run a.next m → a.Overwrites n →
      ∃ b c, Run m₀ b ∧ Leads b c ∧ Run c a ∧ Halts n b c ∧ b.Inside n) := by
  refine ⟨fun r hstops hr => hstops.halts hr, fun m' hl hhalts => ?_, fun a ha _ hover => ?_⟩
  · rw [(hopen.reachable.run hrun).timersOf_of_halts hl hhalts]
    exact hopen.knows_or_overwrites (hrun.tail hl)
  · exact (hopen.single_or_halts_inside ha).resolve_left fun hsingle => hsingle.not_overwrites hover

/-- A refresher polls twice and is stopped. -/
theorem stop_clears_timers_after_polls : ∃ m₀ m, Opens m₀ ∧ Run m₀ m ∧ m.Stops 0 ∧
    m.world.timersOf 0 ≠ [] ∧ Halts 0 m m.next ∧ m.next.world.timersOf 0 = [] ∧
    ¬ ∃ a, Run m₀ a ∧ Run a.next m.next ∧ a.Overwrites 0 := by
  let m₀ : Machine := ⟨secondly .empty [] [], [], .deliver (.ok .nothing)⟩
  let m₁ := run 2 (m₀.world.machine (.start (.ofList [("echo", [])])))
  let m₂ := run 16 (m₁.world.machine (.advance (.ofNat 2000)))
  let m := m₂.world.machine .stop
  have hopen : Opens m₀ := opens_secondly .empty [] []
  have hrun : Run m₀ m :=
    ((run_of_step (by decide +kernel) _ 2).trans (run_of_step (by decide +kernel) _ 16)).trans
      (run_of_step (by decide +kernel) .stop 0)
  have hstops : m.Stops 0 := .inl ⟨rfl, rfl, by decide +kernel⟩
  have hthere : (m.world.core? 0).isSome = true := by decide +kernel
  obtain ⟨r, hr⟩ := Option.isSome_iff_exists.mp hthere
  obtain ⟨hhalts, hclears, -⟩ := hopen.stops_clear_timers hrun 0
  have hnone : m.next.world.timersOf 0 = [] := by decide +kernel
  exact ⟨m₀, m, hopen, hrun, hstops, by decide +kernel, hhalts r hstops hr, hnone,
    (hclears m.next (.next m) (hhalts r hstops hr)).mp hnone⟩

/-- **A naming service that stops and starts the refresher** while a first poll asks it leaves a
timer that the stop after the second poll does not clear. -/
theorem stop_leaves_overwritten_timer : ∃ m₀ m, Opens m₀ ∧ Run m₀ m ∧ m.stack = [.settle none] ∧
    m.Stops 0 ∧ Halts 0 m m.next ∧ m.next.world.timersOf 0 ≠ [] := by
  let services : Listing := .ofList [("echo", [])]
  let script : List Response := [(.settled (.listing services), [.stop, .start services])]
  let m₀ : Machine := ⟨secondly .empty script [], [], .deliver (.ok .nothing)⟩
  let m₁ := run 2 (m₀.world.machine (.start services))
  let m₂ := run 12 (m₁.world.machine (.advance (.ofNat 1000)))
  let m₃ := run 12 (m₂.world.machine (.advance (.ofNat 1000)))
  let m := m₃.world.machine .stop
  have hrun : Run m₀ m :=
    (((run_of_step (by decide +kernel) _ 2).trans (run_of_step (by decide +kernel) _ 12)).trans
      (run_of_step (by decide +kernel) _ 12)).trans (run_of_step (by decide +kernel) .stop 0)
  have hstops : m.Stops 0 := .inl ⟨rfl, rfl, by decide +kernel⟩
  have hthere : (m.world.core? 0).isSome = true := by decide +kernel
  obtain ⟨r, hr⟩ := Option.isSome_iff_exists.mp hthere
  exact ⟨m₀, m, opens_secondly .empty script [], hrun, rfl, hstops, hstops.halts hr, by decide +kernel⟩

end Machine

end Balancer.Session
