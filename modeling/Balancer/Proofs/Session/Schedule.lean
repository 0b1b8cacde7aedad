import Balancer.Proofs.Session.Punctual
import Balancer.Proofs.Whole

/-!
# The polls of a run

While a refresher runs, one timer of it is registered, but for the moment in which it is asked by
its first poll. The timer is due when the delay has passed, and from then on once in every period,
whatever collaborators do. At each of these times a cycle begins, unless one is in flight that a
timer began.

* `Balancer.Session.Schedule` – **when polls are due**: `Balancer.Session.Schedule.instant`.
* `Balancer.Session.Machine.Tick` – **a timer of a refresher that fires**;
  `Balancer.Session.Machine.Timeline` lists the ticks of a stretch of a session.
* `Balancer.Session.Machine.OnTime` – **a refresher keeps its schedule.**
* `Balancer.Session.Machine.Reachable.polls_keep_schedule` – **polls are made as scheduled**, except
  while a cycle is in flight.
-/

namespace Balancer.Session

/-! ### Schedules -/

/-- **When polls are due**, in whole milliseconds. -/
structure Schedule where
  /-- When the run begins. -/
  start : Int
  /-- The wait before the first poll. -/
  delay : Int
  /-- The time between polls. -/
  period : Int
  /-- The clock shows the beginning exactly. -/
  start_lt : start.natAbs < 2 ^ 53
  /-- The first poll waits. -/
  delay_pos : 0 < delay
  /-- The later polls do so as well. -/
  period_pos : 0 < period

namespace Schedule

variable (s : Schedule) (k : Nat)

/-- **When a poll is due**, counted from zero. -/
def instant : Int := s.start + s.delay + k * s.period

theorem instant_zero : s.instant 0 = s.start + s.delay := by
  simp [instant]

theorem instant_succ : s.instant (k + 1) = s.instant k + s.period := by
  simp only [instant, Nat.cast_add, Nat.cast_one, Int.add_mul, Int.one_mul]
  omega

theorem start_le_instant : s.start ≤ s.instant k := by
  have hdelay := s.delay_pos
  have hpolls : 0 ≤ (k : Int) * s.period :=
    Int.mul_nonneg (Int.natCast_nonneg k) (Int.le_of_lt s.period_pos)
  simp only [instant]
  omega

/-- **The timer for a poll**, counted from zero. The first has one of its own, and all later ones
share one, which fires again and again. -/
def timer (number : Nat) (every : Binary64) (id : Nat) : Nat → Timer
  | 0 => ⟨id, .ofInt (s.instant 0), none, .delay number⟩
  | k + 1 => ⟨id, .ofInt (s.instant (k + 1)), some every, .period number⟩

variable (number : Nat) (every : Binary64) (id : Nat)

theorem due_timer : (s.timer number every id k).due = .ofInt (s.instant k) := by
  cases k <;> rw [timer]

end Schedule

namespace Machine

variable {m m₁ a : Machine} {t : Timer} {n k : Nat}

/-! ### Ticks -/

/-- **A timer of a refresher that fires.** -/
structure Tick where
  /-- The time at which it does. -/
  instant : Binary64
  /-- Whether time passes while other code runs. -/
  nested : Bool
  /-- The cycles that timers of the refresher began and that have not settled then. -/
  unsettled : Nat
  /-- The ones that have settled and have not been released. -/
  landed : Nat
  /-- The lookups that are made. -/
  asked : List (String × List String)

/-- Whether time passes next while other code runs. -/
def nested (m : Machine) : Bool :=
  match m.stack with
  | .advance _ settling :: _ => !settling
  | _ => false

/-- The tick of a refresher with the next transition, if there is one. -/
def ticks (number : Nat) (m : Machine) : List Tick :=
  match m.due? with
  | some t =>
    if t.owner.refresher? = some number then
      [⟨m.next.world.clock, m.nested, m.unsettled number, m.landed number,
        (m.next.world.polls number).drop (m.world.polls number).length⟩]
    else []
  | none => []

/-- **A stretch of a session with the ticks of a refresher.** Timers fire as time passes only, which
it does not while a first poll of the refresher asks its naming service; and the clock shows whole
milliseconds. -/
inductive Timeline (number : Nat) (m : Machine) : List Tick → Machine → Prop
  /-- It begins. -/
  | refl : Timeline number m [] m
  /-- A transition is made. -/
  | next {seen : List Tick} {a : Machine} (h : Timeline number m seen a)
      (stands : a.Inside number → a.elapses = false)
      (whole : a.next.world.clock.whole?.isSome = true) :
      Timeline number m (seen ++ a.ticks number) a.next
  /-- The next step is performed. -/
  | perform {seen : List Tick} {w : World} {outcome : Outcome}
      (h : Timeline number m seen ⟨w, [], .deliver outcome⟩) (step : Step) :
      Timeline number m seen (w.machine step)
  /-- A further step is performed, before the next piece of waiting work is done. -/
  | interject {seen : List Tick} {w : World} {first : Option Outcome} {outcome : Outcome}
      (h : Timeline number m seen ⟨w, [.settle first], .deliver outcome⟩) (step : Step) :
      Timeline number m seen ⟨w, [.settle first], .perform step⟩

theorem Timeline.run {seen : List Tick} (h : Timeline n m seen a) : Run m a := by
  induction h with
  | refl => exact .refl
  | next _ _ _ ih => exact ih.tail (.next _)
  | perform _ step ih => exact ih.tail (.perform _ _ step)
  | interject _ step ih => exact ih.tail (.interject _ _ _ step)

/-- A number of transitions. -/
theorem timeline_transitions {seen : List Tick} (h : Timeline n m seen a) (k : Nat)
    (hstands : ∀ i < k, (run i a).Inside n → (run i a).elapses = false)
    (hwhole : ∀ i < k, (run i a).next.world.clock.whole?.isSome = true) :
    Timeline n m (seen ++ (List.range k).flatMap fun i => (run i a).ticks n) (run k a) := by
  induction k with
  | zero => rwa [List.range_zero, List.flatMap_nil, List.append_nil]
  | succ k ih =>
    have hfirst := ih (fun i hi => hstands i (Nat.lt_succ_of_lt hi)) fun i hi =>
      hwhole i (Nat.lt_succ_of_lt hi)
    rw [List.range_succ, List.flatMap_append, List.flatMap_singleton, ← List.append_assoc, run_succ_last]
    exact hfirst.next (hstands k (Nat.lt_succ_self k)) (hwhole k (Nat.lt_succ_self k))

/-- Where nothing remains to be done, a step and a number of transitions. -/
theorem timeline_step {seen : List Tick} (h : Timeline n m seen a) (hfinished : a.finished = true)
    (step : Step) (k : Nat)
    (hstands : ∀ i < k, (run i (a.world.machine step)).Inside n →
      (run i (a.world.machine step)).elapses = false)
    (hwhole : ∀ i < k, (run i (a.world.machine step)).next.world.clock.whole?.isSome = true) :
    Timeline n m (seen ++ (List.range k).flatMap fun i => (run i (a.world.machine step)).ticks n)
      (run k (a.world.machine step)) := by
  obtain ⟨w, _ | ⟨f, k⟩, step' | outcome⟩ := a
  · exact absurd hfinished (by simp [finished])
  · exact timeline_transitions (.perform h step) _ hstands hwhole
  · exact absurd hfinished (by simp [finished])
  · exact absurd hfinished (by simp [finished])

/-- **What has been released is no longer held**, once all waiting work has been done. -/
theorem landed_eq_zero (h : m.world.jobs = []) : m.landed n = 0 := by
  have horigin : ∀ (origin : Origin) (k : Nat), (origin.tokens k).count (.landed n) = 0 := by
    intro origin k
    cases origin <;> rfl
  have hframe : ∀ f : Frame, f.tokens.count (.landed n) = 0 := by
    intro f
    cases f with
    | lookup _ _ _ caller => cases caller <;> rfl
    | callback _ cycle => exact (List.count_cons_of_ne (by simp)).trans (horigin _ _)
    | taken cycle => exact horigin _ _
    | _ => rfl
  have hlookup : ∀ l : OpenLookup, l.tokens.count (.landed n) = 0 := by
    intro l
    refine (List.count_cons_of_ne (by simp)).trans ?_
    cases l.waiter with
    | binding => rfl
    | cycle => exact horigin _ _
  have hcallback : ∀ o : OpenCallback, o.tokens.count (.landed n) = 0 :=
    fun o => (List.count_cons_of_ne (by simp)).trans (horigin _ _)
  have hall : ∀ {α : Type} {f : α → List Token} (xs : List α),
      (∀ x, (f x).count (.landed n) = 0) → (xs.flatMap f).count (.landed n) = 0 := by
    intro α f xs hf
    rw [List.count_eq_zero]
    intro hmem
    obtain ⟨x, -, hx⟩ := List.mem_flatMap.mp hmem
    exact List.count_eq_zero.mp (hf x) hx
  rw [landed, tokens, World.tokens, h, List.flatMap_nil, List.nil_append, List.count_append,
    List.count_append, hall _ hframe, hall _ hlookup, Nat.zero_add, Nat.zero_add]
  cases m.world.callback with
  | none => rfl
  | some b => exact hall _ hcallback

/-- Outside other code, time passes once all waiting work has been done. -/
theorem jobs_eq_nil_of_due? (h : m.due? = some t) (hnested : m.nested = false) : m.world.jobs = [] := by
  obtain ⟨time, huntil, -⟩ := exists_of_due? h
  unfold until? at huntil
  split at huntil
  · split at huntil
    · cases huntil
    · next settling _ _ hwaits =>
      have hsettling : settling = true := by simpa [nested] using hnested
      by_contra hjobs
      exact hwaits ⟨hsettling, hjobs⟩
  · cases huntil

/-! ### Keeping a schedule -/

/-- **A refresher keeps its schedule**, after a number of polls. -/
inductive OnTime (s : Schedule) (number : Nat) (every : Binary64) : Nat → Machine → Prop
  /-- Its one timer is that for the next poll. -/
  | waits {m : Machine} {k : Nat} (id : Nat) (outside : ¬ m.Inside number)
      (timers : m.world.timersOf number = [s.timer number every id k]) : OnTime s number every k m
  /-- The first poll is being made, and no timer is registered. -/
  | asks {m : Machine} (inside : m.arms.count number = 1) (timers : m.world.timersOf number = [])
      (clock : m.world.clock.whole? = some (s.instant 0)) : OnTime s number every 1 m

variable {a' : Machine} {s : Schedule} {every : Binary64} {q : Refresher}

theorem OnTime.exists_timer (h : OnTime s n every k a) (houtside : ¬ a.Inside n) :
    ∃ id, a.world.timersOf n = [s.timer n every id k] := by
  cases h with
  | waits id outside timers => exact ⟨id, timers⟩
  | asks inside timers clock => exact absurd (List.count_pos_iff.mp (by omega)) houtside

theorem OnTime.congr (h : OnTime s n every k a) (harms : a'.arms.count n = a.arms.count n)
    (htimers : a'.world.timersOf n = a.world.timersOf n)
    (hclock : a.Inside n → a'.world.clock = a.world.clock) : OnTime s n every k a' := by
  have hinside : a'.Inside n ↔ a.Inside n := by
    rw [Inside, Inside, ← List.count_pos_iff, ← List.count_pos_iff, harms]
  cases h with
  | waits id outside timers => exact .waits id (fun h => outside (hinside.mp h)) (htimers.trans timers)
  | asks inside timers clock =>
    have hin : a.Inside n := List.count_pos_iff.mp (by omega)
    exact .asks (harms.trans inside) (htimers.trans timers) (by rw [hclock hin, clock])

/-- **The later polls begin**: the second one is due a period after the first. -/
theorem OnTime.arm (h : OnTime s n every k a) (hb : Beats (.arm n) a a')
    (hq : a.world.clockwork? n = some q) (htimings : q.timings.period = every)
    (hevery : every.whole? = some s.period) : OnTime s n every k a' := by
  have harms := hb.count_arms n
  rw [count_arming (by simp), Beat.armed, List.count_singleton_self] at harms
  cases h with
  | waits _ outside => exact absurd (List.count_pos_iff.mp (by omega)) outside
  | asks inside timers clock =>
    have hclock := (Binary64.whole?_eq_some.mp clock).1
    have hperiod := (Binary64.whole?_eq_some.mp hevery).1
    have hdue : a.world.clock + every = .ofInt (s.instant 1) := by
      rw [Binary64.add_of_toInt? hclock hperiod s.period_pos, ← s.instant_succ]
    refine .waits (a.world.timerCount + 1) (fun hin => ?_) ?_
    · have hpos := List.count_pos_iff.mpr hin
      omega
    · rw [hb.timersOf_of_arm hq, timers, htimings, hdue]
      rfl

/-- **A tick comes at its time**, and the next one is due a period later. -/
theorem OnTime.tick (h : OnTime s n every k a) (hdue : a.due? = some t)
    (howner : t.owner.refresher? = some n) (hwhole : a.next.world.clock.whole?.isSome = true)
    (hevery : every.whole? = some s.period) :
    a.next.world.clock.whole? = some (s.instant k) ∧ OnTime s n every (k + 1) a.next := by
  have hb := beats_of_due? hdue
  have hmem : t ∈ a.world.timersOf n := World.mem_timersOf.mpr ⟨hb.fits.mem_timers, howner⟩
  cases h with
  | asks inside timers =>
    rw [timers] at hmem
    exact absurd hmem List.not_mem_nil
  | waits id outside timers =>
    rw [timers, List.mem_singleton] at hmem
    subst hmem
    obtain ⟨c, hc⟩ := Option.isSome_iff_exists.mp hwhole
    have hclock := hb.clock_of_strike
    rw [s.due_timer] at hclock
    have hinstant : c = s.instant k := by
      rw [hclock] at hc
      exact Binary64.eq_of_whole?_ofInt hc
    rw [hinstant] at hc
    have hnone : a.arms.count n = 0 := List.count_eq_zero.mpr outside
    have harms := hb.count_arms n
    refine ⟨hc, ?_⟩
    cases k with
    | zero =>
      rw [count_arming_of_delay rfl, count_armed (by simp)] at harms
      refine .asks (by omega) ?_ hc
      rw [hb.timersOf_of_strike, World.timersOf_reach, timers]
      simp [Schedule.timer]
    | succ k =>
      rw [count_arming (by simp [Schedule.timer]), count_armed (by simp)] at harms
      have hnext : (Binary64.ofInt (s.instant (k + 1))) + every = .ofInt (s.instant (k + 2)) := by
        rw [hclock] at hc
        rw [Binary64.add_of_toInt? (Binary64.whole?_eq_some.mp hc).1
          (Binary64.whole?_eq_some.mp hevery).1 s.period_pos, ← s.instant_succ]
      refine .waits id (List.count_eq_zero.mp (by omega)) ?_
      rw [hb.timersOf_of_strike, World.timersOf_reach, timers]
      simp [Schedule.timer, hnext]

/-- **Anything else leaves the refresher on time**, and the clock does not pass the next poll. -/
theorem OnTime.next (h : OnTime s n every k a) (hreach : Reachable a)
    (hq : a.world.clockwork? n = some q) (hrunning : q.running = true)
    (hgoes : a.next.InRun n q.generation) (htimings : q.timings.period = every)
    (hevery : every.whole? = some s.period)
    (hclock : ∃ c, a.world.clock.whole? = some c ∧ c ≤ s.instant k)
    (hstands : a.Inside n → a.elapses = false) (hwhole : a.next.world.clock.whole?.isSome = true)
    (hother : ∀ t, a.due? = some t → t.owner.refresher? ≠ some n) :
    OnTime s n every k a.next ∧ ∃ c, a.next.world.clock.whole? = some c ∧ c ≤ s.instant k := by
  obtain ⟨c, hc⟩ := Option.isSome_iff_exists.mp hwhole
  -- time passes up to the next poll only
  have hupto : a.elapses = true → (∀ u ∈ a.world.timers, s.instant k < c → u.due ≠ .ofInt (s.instant k)) →
      ¬ a.Inside n ∧ c ≤ s.instant k := by
    intro helapses hdue
    have houtside : ¬ a.Inside n := fun hin => by
      rw [hstands hin] at helapses
      cases helapses
    obtain ⟨id, htimers⟩ := h.exists_timer houtside
    have hmem : s.timer n every id k ∈ a.world.timersOf n := by
      rw [htimers]
      exact List.mem_cons_self
    refine ⟨houtside, Int.not_lt.mp fun hlate => ?_⟩
    exact hdue _ (World.mem_timersOf.mp hmem).1 hlate (s.due_timer k n every id)
  rcases hdue : a.due? with _ | t
  · obtain ⟨b, hb, hstrike⟩ := hreach.beats_of_not_due hdue
    have hstop := ((hb.inRun_iff hq hrunning).1).mp hgoes
    by_cases harm : b = .arm n
    · subst harm
      refine ⟨h.arm hb hq htimings hevery, ?_⟩
      rw [hb.clock_eq hstrike (by simp)]
      exact hclock
    have harms := hb.count_arms_eq harm fun t ht => absurd ht (hstrike t)
    have htimers := hb.timersOf_eq hreach.timekept hq hrunning hstop harm fun t ht =>
      absurd ht (hstrike t)
    by_cases hpass : ∃ time, b = .pass time
    · obtain ⟨time, rfl⟩ := hpass
      have hnow : a.next.world.clock = time := hb.still.time.clock
      rw [hnow] at hc
      obtain ⟨houtside, hle⟩ := hupto (by rw [elapses, hb.fits.1]; rfl) fun u hu hlate heq => by
        have hnone := Timer.le_of_firstDue?_eq_none hb.fits.2 u hu
        rw [heq, Binary64.le_of_whole? hc s.start_lt (s.start_le_instant k) (Int.le_of_lt hlate)] at hnone
        cases hnone
      exact ⟨h.congr harms htimers fun hin => absurd hin houtside, c, hnow ▸ hc, hle⟩
    · have hsame := hb.clock_eq hstrike fun time heq => hpass ⟨time, heq⟩
      refine ⟨h.congr harms htimers fun _ => hsame, ?_⟩
      rw [hsame]
      exact hclock
  · have hb := beats_of_due? hdue
    obtain ⟨time, huntil, hfirst⟩ := exists_of_due? hdue
    have howner := hother t hdue
    have hnow := hb.clock_of_strike
    obtain ⟨houtside, hle⟩ := hupto (by rw [elapses, huntil]; rfl) fun u hu hlate heq => by
      have hnone := (Timer.firstDue?_spec hfirst).2.2 u hu
      rw [hnow] at hc
      rw [heq, Binary64.lt_of_whole? hc s.start_lt (s.start_le_instant k) hlate] at hnone
      cases hnone
    refine ⟨h.congr (hb.count_arms_eq (by simp) ?_) ?_ fun hin => absurd hin houtside, c, hc, hle⟩
    · intro u hu hdelay
      cases hu
      exact howner (by rw [hdelay]; rfl)
    · refine hb.timersOf_eq hreach.timekept hq hrunning (by simp) (by simp) fun u hu => ?_
      cases hu
      exact howner

theorem OnTime.not_overwrites (h : OnTime s n every k a) (ha : a.world.Timekept) : ¬ a.Overwrites n := by
  rintro ⟨harming, hperiod⟩
  cases h with
  | waits _ outside => exact outside (inside_of_arming harming)
  | asks _ timers =>
    obtain ⟨i, hi⟩ := Option.isSome_iff_exists.mp hperiod
    exact (World.timersOf_eq_nil_iff.mp timers).2 i (ha.periods n i hi)

/-! ### All ticks of a run -/

/-- **What a refresher keeps to** while the ticks of a stretch of a session come. -/
structure Scheduled (s : Schedule) (number : Nat) (every : Binary64) (call : String × List String)
    (since : Machine) (seen : List Tick) (m : Machine) : Prop where
  /-- It keeps its schedule. -/
  onTime : OnTime s number every seen.length m
  /-- The clock has not passed the next poll. -/
  clock : ∃ c, m.world.clock.whole? = some c ∧ c ≤ s.instant seen.length
  /-- Ticks come at their times. -/
  instants : seen.map (fun tick => tick.instant.whole?) =
    (List.range seen.length).map fun k => some (s.instant k)
  /-- Its timers ask in ticks only. -/
  polls : m.world.polls number = since.world.polls number ++ seen.flatMap Tick.asked
  /-- Each tick asks once, unless a cycle is in flight that a timer began. -/
  asked : ∀ tick ∈ seen,
    tick.asked = if tick.unsettled = 0 ∧ tick.landed = 0 then [call] else []
  /-- A cycle that has settled is still in flight only while other code runs. -/
  released : ∀ tick ∈ seen, tick.nested = false → tick.landed = 0
  /-- It knows of its timers. -/
  knows : m.world.Knows number

variable {call : String × List String} {since : Machine} {seen : List Tick}

theorem Scheduled.congr (h : Scheduled s n every call since seen a) (hworld : a'.world = a.world)
    (harms : a'.arms = a.arms) : Scheduled s n every call since seen a' where
  onTime := h.onTime.congr (by rw [harms]) (by rw [hworld]) fun _ => by rw [hworld]
  clock := by rw [hworld]; exact h.clock
  instants := h.instants
  polls := by rw [hworld]; exact h.polls
  asked := h.asked
  released := h.released
  knows := by rw [hworld]; exact h.knows

/-- What a tick asks for. -/
theorem ticks_of_due? (hdue : a.due? = some t) (howner : t.owner.refresher? = some n) :
    a.ticks n = [⟨a.next.world.clock, a.nested, a.unsettled n, a.landed n, a.world.asks n⟩] := by
  have hpolls := (beats_of_due? hdue).polls_of_strike (n := n)
  rw [if_pos howner] at hpolls
  rw [ticks, hdue]
  dsimp only
  rw [if_pos howner, hpolls, List.drop_left]

theorem ticks_eq_nil (hother : ∀ t, a.due? = some t → t.owner.refresher? ≠ some n) :
    a.ticks n = [] := by
  rw [ticks]
  split
  · next t hdue => exact if_neg (hother t hdue)
  · rfl

theorem Reachable.polls_of_not_tick (h : Reachable a)
    (hother : ∀ t, a.due? = some t → t.owner.refresher? ≠ some n) :
    a.next.world.polls n = a.world.polls n := by
  rcases hdue : a.due? with _ | t
  · obtain ⟨b, hb, hstrike⟩ := h.beats_of_not_due hdue
    exact hb.polls_eq hstrike
  · rw [(beats_of_due? hdue).polls_of_strike, if_neg (hother t hdue), List.append_nil]

/-- **A transition leaves a refresher with its schedule** while it runs. -/
theorem Scheduled.next (h : Scheduled s n every call since seen a) (hreach : Reachable a)
    (hq : a.world.clockwork? n = some q) (hrunning : q.running = true)
    (hgoes : a.next.InRun n q.generation) (htimings : q.timings.period = every)
    (hevery : every.whole? = some s.period)
    (hasks : a.world.asks n = if a.world.inFlight n = true then [] else [call])
    (hstands : a.Inside n → a.elapses = false) (hwhole : a.next.world.clock.whole?.isSome = true) :
    Scheduled s n every call since (seen ++ a.ticks n) a.next := by
  have hknows : a.next.world.Knows n :=
    (hreach.knows_iff (.next a)).mpr ⟨h.knows, h.onTime.not_overwrites hreach.timekept⟩
  by_cases htick : ∃ t, a.due? = some t ∧ t.owner.refresher? = some n
  · obtain ⟨t, hdue, howner⟩ := htick
    obtain ⟨hinstant, honTime⟩ := h.onTime.tick hdue howner hwhole hevery
    have hpolls := (beats_of_due? hdue).polls_of_strike (n := n)
    rw [if_pos howner] at hpolls
    rw [ticks_of_due? hdue howner]
    refine ⟨?_, ⟨_, hinstant, ?_⟩, ?_, ?_, fun tick htick => ?_, fun tick htick => ?_, hknows⟩
    · rwa [List.length_append]
    · have hpos := s.period_pos
      rw [List.length_append, List.length_singleton, s.instant_succ]
      omega
    · rw [List.map_append, h.instants, List.length_append, List.length_singleton, List.range_succ,
        List.map_append, List.map_singleton, List.map_singleton, hinstant]
    · rw [hpolls, h.polls, List.flatMap_append, List.flatMap_singleton, List.append_assoc]
    · rcases List.mem_append.mp htick with hold | hnew
      · exact h.asked tick hold
      · have hmark := hreach.marked n
        rw [flights_eq] at hmark
        rw [List.mem_singleton.mp hnew, hasks]
        cases hflag : a.world.inFlight n <;> rw [hflag] at hmark <;> simp at hmark ⊢ <;> omega
    · rcases List.mem_append.mp htick with hold | hnew
      · exact h.released tick hold
      · rw [List.mem_singleton.mp hnew]
        exact fun hnested => landed_eq_zero (jobs_eq_nil_of_due? hdue hnested)
  · have hother : ∀ t, a.due? = some t → t.owner.refresher? ≠ some n :=
      fun t hdue howner => htick ⟨t, hdue, howner⟩
    obtain ⟨honTime, hclock⟩ := h.onTime.next hreach hq hrunning hgoes htimings hevery h.clock hstands
      hwhole hother
    rw [ticks_eq_nil hother, List.append_nil]
    exact ⟨honTime, hclock, h.instants, (hreach.polls_of_not_tick hother).trans h.polls, h.asked,
      h.released, hknows⟩

/-- A refresher keeps its timings. -/
theorem Reachable.timings_of_run (h : Reachable m) (hq : m.world.clockwork? n = some q) (hr : Run m a) :
    ∃ q', a.world.clockwork? n = some q' ∧ q'.timings = q.timings := by
  induction hr with
  | refl => exact ⟨q, hq, rfl⟩
  | @tail a a' hr hl ih =>
    obtain ⟨p, hp, htimings⟩ := ih
    obtain ⟨b, hb⟩ := (h.run hr).exists_beats hl
    by_cases hstop : b = .stop n
    · subst hstop
      rw [hb.clockwork_of_stop, hp]
      exact ⟨p.halt, rfl, htimings⟩
    · rw [hb.still.time.clockwork]
      obtain ⟨p', hp', htimings', -⟩ := b.exists_clockwork_world hstop hp
      exact ⟨p', hp', htimings'.trans htimings⟩

/-- **A refresher keeps its schedule** throughout a run. -/
theorem Timeline.scheduled (ht : Timeline n m seen a) (h : Reachable m) {r : Refresher}
    (hr : m.world.core? n = some r) (hrunning : r.running = true) {provider : String}
    (hprovider : r.provider = some provider) (htimings : r.timings.period = every)
    (hevery : every.whole? = some s.period)
    (hm : Scheduled s n every (provider, r.snapshot.keys) m [] m) (ha : a.InRun n r.generation) :
    Scheduled s n every (provider, r.snapshot.keys) m seen a := by
  have hin : m.InRun n r.generation := ⟨r, hr, hrunning, rfl⟩
  induction ht with
  | refl => exact hm
  | @next seen a ht stands whole ih =>
    have hreach := h.run ht.run
    have hgoes := h.inRun_of_leads hin ht.run (.next a) ha
    obtain ⟨r', hr', hruns, hsame, hkeys⟩ := h.tracks_of_run hr hrunning ht.run hgoes
    obtain ⟨q, hq, hrunning', hgeneration'⟩ := inRun_iff_clockwork.mp hgoes
    obtain ⟨q₀, hq₀, -, -, -, htimings₀⟩ := World.exists_clockwork_of_core? hr
    obtain ⟨q', hq', htimings'⟩ := h.timings_of_run hq₀ ht.run
    rw [hq] at hq'
    cases hq'
    have hasks := World.asks_eq hr' hruns (hsame.trans hprovider)
    rw [hkeys] at hasks
    exact (ih hgoes).next hreach hq hrunning' (hgeneration' ▸ ha)
      (by rw [htimings', htimings₀, htimings]) hevery hasks stands whole
  | @perform seen w outcome ht step ih =>
    exact (ih (h.inRun_of_leads hin ht.run (.perform w outcome step) ha)).congr rfl rfl
  | @interject seen w first outcome ht step ih =>
    have hbefore := h.inRun_of_leads hin ht.run (.interject w first outcome step) ha
    exact (ih hbefore).congr rfl rfl

/-- **Polls are made as scheduled.** Let a start of a refresher take effect while it has no timer
and is not being asked by a first poll, with a clock and timings in whole milliseconds. In a stretch
of the run that it begins, timers of the refresher fire exactly when the delay has passed and then
once in every period, and they make the lookups for the services that the start named, one each,
unless a cycle is in flight that a timer began. But for a first poll that is being made, exactly one
timer is registered, for the next poll; and none is when the run has ended. -/
theorem Reachable.polls_keep_schedule (h : Reachable m) (hl : Leads m m₁) (hbegins : Begins n m m₁)
    (hfree : m.world.timersOf n = []) (houtside : ¬ m.Inside n) {r : Refresher}
    (hr : m₁.world.core? n = some r) {start delay period : Int}
    (hstart : m₁.world.clock.whole? = some start) (hdelay : r.timings.delay.whole? = some delay)
    (hperiod : r.timings.period.whole? = some period) :
    ∃ (s : Schedule) (provider : String), s.start = start ∧ s.delay = delay ∧ s.period = period ∧
      r.provider = some provider ∧
      (∀ services, m.control = .perform (.start services) → n = 0 → m₁ = m.next →
        r.snapshot = services) ∧
      ∀ seen a, Timeline n m₁ seen a → a.InRun n r.generation →
        Scheduled s n r.timings.period (provider, r.snapshot.keys) m₁ seen a ∧
        (¬ a.Inside n → ∃ id,
          a.world.timersOf n = [s.timer n r.timings.period id seen.length]) ∧
        ∀ b, Leads a b → ¬ b.InRun n r.generation → ¬ a.Inside n → b.world.timersOf n = [] := by
  obtain ⟨q, provider, i, hq, hrunning, hprovider, htimers, hclock, harms⟩ := h.exists_of_begins hl hbegins
  obtain ⟨q', hq', hqrunning, -, hqprovider, hqtimings⟩ := World.exists_clockwork_of_core? hr
  rw [hq] at hq'
  cases hq'
  have hreach := h.leads hl
  have hrunning' : r.running = true := hqrunning.symm.trans hrunning
  have hprovider' : r.provider = some provider := hqprovider.symm.trans hprovider
  obtain ⟨hstart', hbound⟩ := Binary64.whole?_eq_some.mp hstart
  obtain ⟨hdelay', -⟩ := Binary64.whole?_eq_some.mp hdelay
  obtain ⟨hperiod', -⟩ := Binary64.whole?_eq_some.mp hperiod
  have hchecked := hreach.timekept.checked n q hq
  rw [hqtimings] at hchecked
  obtain ⟨hdelay_pos, hperiod_pos⟩ := Timings.pos_of_check hchecked hdelay' hperiod'
  let s : Schedule := ⟨start, delay, period, hbound, hdelay_pos, hperiod_pos⟩
  have hfirst : m₁.world.timersOf n = [s.timer n r.timings.period i 0] := by
    rw [htimers, hfree, ← hclock, hqtimings, Binary64.add_of_toInt? hstart' hdelay' hdelay_pos,
      List.nil_append, Schedule.timer, s.instant_zero]
  have hinside : ¬ m₁.Inside n := by
    rw [Inside, harms]
    exact houtside
  have hbase : Scheduled s n r.timings.period (provider, r.snapshot.keys) m₁ [] m₁ :=
    { onTime := .waits i hinside hfirst
      clock := ⟨start, hstart, s.start_le_instant 0⟩
      instants := rfl
      polls := (List.append_nil _).symm
      asked := fun tick htick => absurd htick List.not_mem_nil
      released := fun tick htick => absurd htick List.not_mem_nil
      knows := World.knows_of_delay hfirst rfl }
  refine ⟨s, provider, rfl, rfl, rfl, hprovider', fun _ => snapshot_of_start hbegins hr,
    fun seen a ht ha => ?_⟩
  have hscheduled := ht.scheduled hreach hr hrunning' hprovider' rfl hperiod hbase ha
  refine ⟨hscheduled, hscheduled.onTime.exists_timer, fun b hl hended hout => ?_⟩
  have hreach' := hreach.run ht.run
  refine (hreach'.timersOf_of_halts hl (hreach'.halts_of_leaves ha hl hended)).mpr ?_
  exact (hreach'.knows_iff hl).mpr ⟨hscheduled.knows, hscheduled.onTime.not_overwrites hreach'.timekept⟩

/-- A refresher that is started polls three times in three seconds, and is stopped then. -/
theorem polls_keep_schedule_thrice : ∃ m a seen, Reachable m ∧
    m.control = .perform (.start (.ofList [("echo", [])])) ∧ Begins 0 m m.next ∧
    Timeline 0 m.next seen a ∧ a.InRun 0 1 ∧
    seen.map (fun tick => tick.instant.whole?) = [some 1000, some 2000, some 3000] ∧
    a.world.polls 0 = [("registry", ["echo"]), ("registry", ["echo"]), ("registry", ["echo"])] ∧
    a.control = .perform .stop ∧ a.world.timersOf 0 ≠ [] ∧ a.next.world.timersOf 0 = [] := by
  let services : Listing := .ofList [("echo", [])]
  let m₀ : Machine := ⟨secondly .empty [] [], [], .deliver (.ok .nothing)⟩
  let m := m₀.world.machine (.start services)
  have hm : Reachable m :=
    (opens_secondly .empty [] []).reachable.run (run_of_step (by decide +kernel) (.start services) 0)
  have hbegins : Begins 0 m m.next := by decide +kernel
  have hthere : (m.next.world.core? 0).isSome = true := by decide +kernel
  obtain ⟨r, hr⟩ := Option.isSome_iff_exists.mp hthere
  have hvalues : (m.next.world.core? 0).map (fun r => (r.generation, r.timings.delay.whole?,
      r.timings.period.whole?)) = some (1, some 1000, some 1000) := by decide +kernel
  rw [hr, Option.map_some, Option.some.injEq, Prod.mk.injEq, Prod.mk.injEq] at hvalues
  obtain ⟨hgeneration, hdelay, hperiod⟩ := hvalues
  have hstart : m.next.world.clock.whole? = some 0 := by decide +kernel
  obtain ⟨s, provider, hstart', hdelay', hperiod', hprovider, hservices, hkeeps⟩ :=
    hm.polls_keep_schedule (.next m) hbegins (by decide +kernel) (by decide +kernel) hr hstart hdelay
      hperiod
  rw [hgeneration] at hkeeps
  -- three seconds pass, and the stop is next
  let m₁ := run 16 ((run 1 m.next).world.machine (.advance (.ofNat 3000)))
  let a := m₁.world.machine .stop
  obtain ⟨seen, hline, hlength, hcalls⟩ : ∃ seen, Timeline 0 m.next seen a ∧ seen.length = 3 ∧
      seen.flatMap Tick.asked =
        [("registry", ["echo"]), ("registry", ["echo"]), ("registry", ["echo"])] := by
    have hsetup := timeline_transitions (.refl : Timeline 0 m.next [] m.next) 1 (by decide +kernel)
      (by decide +kernel)
    have hpolled := timeline_step hsetup (by decide +kernel) (.advance (.ofNat 3000)) 16
      (by decide +kernel) (by decide +kernel)
    exact ⟨_, timeline_step hpolled (by decide +kernel) .stop 0 (by decide +kernel) (by decide +kernel),
      by decide +kernel, by decide +kernel⟩
  have hin : a.InRun 0 1 := by decide +kernel
  have hout : ¬ a.Inside 0 := by decide +kernel
  obtain ⟨hscheduled, htimer, hleft⟩ := hkeeps seen a hline hin
  obtain ⟨id, htimers⟩ := htimer hout
  refine ⟨m, a, seen, hm, rfl, hbegins, hline, hin, ?_, ?_, rfl, ?_, ?_⟩
  · rw [hscheduled.instants, hlength]
    simp [Schedule.instant, hstart', hdelay', hperiod', List.range_succ]
  · have hnone : m.next.world.polls 0 = [] := by decide +kernel
    rw [hscheduled.polls, hnone, hcalls, List.nil_append]
  · rw [htimers]
    exact List.cons_ne_nil _ _
  · exact hleft a.next (.next a) (by decide +kernel) hout

/-- **A cycle that has settled can hold up a poll**, where a callback lets time pass before the work
that its settling made ready is done. -/
theorem poll_skipped_after_settling : ∃ m a seen, Reachable m ∧
    m.control = .perform (.start (.ofList [("echo", [])])) ∧ m.world.timersOf 0 = [] ∧
    m.unsettled 0 = 0 ∧ Begins 0 m m.next ∧ Timeline 0 m.next seen a ∧ a.InRun 0 1 ∧
    ∃ tick ∈ seen, tick.unsettled = 0 ∧ tick.asked = [] := by
  let services : Listing := .ofList [("echo", [])]
  let endpoints : Listing := .ofList [("echo", [⟨"a", .ofNat 1⟩])]
  let answers : List Step :=
    [.settle (.number 1) (.listing services), .settle (.number 2) (.listing endpoints)]
  let script : List Response := [(.pending, []), (.pending, []), (.pending, answers)]
  let reaction : Reaction := ⟨[.advance (.ofNat 1000)], .returns⟩
  let m₀ : Machine := ⟨secondly .empty script [reaction], [], .deliver (.ok .nothing)⟩
  let m := m₀.world.machine (.start services)
  have hm : Reachable m := (opens_secondly .empty script [reaction]).reachable.run
    (run_of_step (by decide +kernel) (.start services) 0)
  have hsetup := timeline_transitions (.refl : Timeline 0 m.next [] m.next) 1 (by decide +kernel)
    (by decide +kernel)
  have hpolled := timeline_step hsetup (by decide +kernel) (.advance (.ofNat 1000)) 6
    (by decide +kernel) (by decide +kernel)
  have hrefreshed := timeline_step hpolled (by decide +kernel) .refresh 3 (by decide +kernel)
    (by decide +kernel)
  have hline := timeline_step hrefreshed (by decide +kernel) .refresh 16 (by decide +kernel)
    (by decide +kernel)
  exact ⟨m, _, _, hm, rfl, by decide +kernel, by decide +kernel, by decide +kernel, hline,
    by decide +kernel, by decide +kernel⟩

end Machine

end Balancer.Session
