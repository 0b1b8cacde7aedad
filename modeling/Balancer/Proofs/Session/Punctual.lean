import Balancer.Proofs.Session.Clearing
import Balancer.Proofs.Session.Snapshot

/-!
# The first poll of a run

While a refresher runs, its timers change in two ways only: one fires, or its later polls begin. A
start sets the timer of the first poll, and that timer stays as it is until it fires. What it does
then depends on what is in flight: a cycle of an earlier run may be, since the mark of a refresher
outlives its runs.

* `Balancer.Session.World.asks` – **what a timer that fires asks for.**
* `Balancer.Session.Machine.Fires` – **a timer fires.**
* `Balancer.Session.Machine.Beats.timersOf_eq` – **the timers of a refresher that runs** stay as
  they are in any other beat.
* `Balancer.Session.Machine.Reachable.first_poll_asks_unless_in_flight` – **the first poll of a run
  asks at its time, unless a cycle is in flight.**
-/

namespace Balancer.Session

namespace World

variable {w w' : World} {n : Nat}

/-! ### What a timer that fires asks for -/

/-- **What a timer of a refresher asks for** when it fires: the naming service and the services, if
the refresher runs and no cycle is in flight that a timer began. -/
def asks (w : World) (number : Nat) : List (String × List String) :=
  match w.refreshers[number]? with
  | none => []
  | some r =>
    if r.inFlight then []
    else match r.running, r.provider with
      | true, some provider => [(provider, r.snapshot.keys)]
      | _, _ => []

theorem asks_eq {r : Refresher} {provider : String} (hr : w.core? n = some r)
    (hrunning : r.running = true) (hprovider : r.provider = some provider) :
    w.asks n = if w.inFlight n = true then [] else [(provider, r.snapshot.keys)] := by
  obtain ⟨q, hq, rfl⟩ := Option.map_eq_some_iff.mp hr
  have hrunning' : q.running = true := hrunning
  have hprovider' : q.provider = some provider := hprovider
  have hmark : w.inFlight n = q.inFlight := by
    rw [inFlight, clockwork?_of_getElem? hq]
    rfl
  simp only [asks, hq, hrunning', hprovider', hmark]
  rfl

theorem polls_of_trace (h : w'.trace = w.trace) : w'.polls n = w.polls n := by
  rw [polls, h, polls]

theorem polls_launch (w : World) (number : Nat) :
    (w.launch number).polls n = w.polls n ++ if number = n then w.asks n else [] := by
  rw [launch, asks]
  by_cases hn : number = n
  · subst hn
    rw [if_pos rfl]
    rcases w.refreshers[number]? with _ | r
    · exact (List.append_nil _).symm
    · dsimp only
      split
      · exact (List.append_nil _).symm
      · rcases r.running with _ | _ <;> rcases r.provider with _ | provider
        · exact (List.append_nil _).symm
        · exact (List.append_nil _).symm
        · exact (List.append_nil _).symm
        · rw [polls_emit, Event.poll?, if_pos rfl]
          rfl
  · rw [if_neg hn, List.append_nil]
    split
    · rfl
    · split
      · rfl
      · dsimp only
        split
        · rw [polls_emit, Event.poll?, if_neg hn]
          exact List.append_nil _
        · rfl

theorem asks_reached (w : World) (t : Timer) : (w.reached t).asks n = w.asks n := by
  rw [reached]
  split
  · next number _ =>
    rcases hr : w.refreshers[n]? with _ | r
    · simp only [asks, modifyRefresher, List.getElem?_modify, reach, hr, Option.map_eq_map,
        Option.map_none]
    · by_cases hn : number = n <;>
        simp only [asks, modifyRefresher, List.getElem?_modify, reach, hr, Option.map_eq_map,
          Option.map_some, hn, if_true, if_false]
  · rfl

/-- **What a timer that fires asks for.** -/
theorem polls_strike (w : World) (t : Timer) :
    (w.strike t).polls n =
      w.polls n ++ if t.owner.refresher? = some n then w.asks n else [] := by
  have hreached : (w.reached t).polls n = w.polls n := by
    rw [reached]
    split <;> rfl
  rw [strike]
  cases howner : t.owner with
  | delay number =>
    simp only [polls_launch, hreached, asks_reached, TimerOwner.refresher?, Option.some.injEq]
  | period number =>
    simp only [polls_launch, hreached, asks_reached, TimerOwner.refresher?, Option.some.injEq]
  | alarm => simp [hreached, TimerOwner.refresher?]

theorem clock_strike (w : World) (t : Timer) : (w.strike t).clock = t.due :=
  strike_keeps (P := fun v => v.clock = t.due) w t rfl (fun _ _ _ h => h) fun _ _ h => h

/-! ### Timers of one refresher -/

theorem timersOf_setTimer (w : World) (wait : Binary64) (every : Option Binary64) (o : TimerOwner) :
    (w.setTimer wait every o).timersOf n = w.timersOf n ++
      if o.refresher? = some n then [⟨w.timerCount + 1, w.clock + wait, every, o⟩] else [] := by
  rw [timersOf, setTimer, List.filter_append, timersOf, List.filter_singleton]
  by_cases ho : o.refresher? = some n <;> simp [ho]

/-- **A run begins** with the timer of its first poll. -/
theorem timersOf_startRefresher {q : Refresher} (hq : w.clockwork? n = some q)
    (hidle : (q.provider.isNone || q.running) = false) (services : Listing) :
    (w.startRefresher n services).timersOf n =
      w.timersOf n ++ [⟨w.timerCount + 1, w.clock + q.timings.delay, none, .delay n⟩] := by
  rcases w.startRefresher_cases n services with ⟨hstays, -⟩ | ⟨r, hr, -, heq⟩
  · rw [hstays q hq] at hidle
    cases hidle
  · rw [clockwork?_of_getElem? hr, Option.some.injEq] at hq
    subst hq
    have howner : (TimerOwner.delay n).refresher? = some n := rfl
    have hset := w.timersOf_setTimer (n := n) r.timings.delay none (.delay n)
    rw [if_pos howner] at hset
    rw [heq]
    exact hset

theorem timersOf_startRefresher_of_ne {number : Nat} (hn : number ≠ n) (services : Listing) :
    (w.startRefresher number services).timersOf n = w.timersOf n := by
  rcases w.startRefresher_cases number services with ⟨-, heq⟩ | ⟨r, -, -, heq⟩
  · rw [heq]
  · have hset := w.timersOf_setTimer (n := n) r.timings.delay none (.delay number)
    rw [if_neg (by simpa [TimerOwner.refresher?] using hn), List.append_nil] at hset
    rw [heq]
    exact hset

theorem timersOf_clearTimer {id : Option Nat} (h : ∀ t ∈ w.timersOf n, some t.id ≠ id) :
    (w.clearTimer id).timersOf n = w.timersOf n := by
  cases id with
  | none => rfl
  | some id =>
    rw [timersOf, clearTimer, List.filter_filter, timersOf]
    refine List.filter_congr fun t ht => ?_
    by_cases howner : t.owner.refresher? = some n
    · have hne : t.id ≠ id := fun heq => h t (mem_timersOf.mpr ⟨ht, howner⟩) (congrArg some heq)
      simp [howner, hne]
    · simp [howner]

theorem Timekept.timersOf_stopRefresher (h : w.Timekept) {number : Nat} (hn : number ≠ n) :
    (w.stopRefresher number).timersOf n = w.timersOf n := by
  rcases w.stopRefresher_cases number with ⟨-, heq⟩ | ⟨r, hr, heq⟩
  · rw [heq]
  have hr' := clockwork?_of_getElem? hr
  have hkept : ∀ t ∈ w.timersOf n, some t.id ≠ r.delayTimer ∧ some t.id ≠ r.periodTimer := by
    intro t ht
    obtain ⟨hmem, howner⟩ := mem_timersOf.mp ht
    have hknown : w.delayOf number ≠ some t.id ∧ w.periodOf number ≠ some t.id :=
      h.not_known (by rw [howner]; simpa using Ne.symm hn) (mem_handles.mpr ⟨t, hmem, rfl, rfl⟩)
    rw [delayOf, periodOf, hr'] at hknown
    exact ⟨Ne.symm hknown.1, Ne.symm hknown.2⟩
  have hfirst : (w.clearTimer r.delayTimer).timersOf n = w.timersOf n :=
    timersOf_clearTimer fun t ht => (hkept t ht).1
  rw [heq]
  exact (timersOf_clearTimer fun t ht => (hkept t (hfirst ▸ ht)).2).trans hfirst

/-- **The timers of a refresher when the clock comes to one of them.** -/
theorem timersOf_reach (w : World) (t : Timer) :
    (w.reach t).timersOf n = match t.every with
      | some ms => (w.timersOf n).map fun u => if u.id = t.id then { u with due := t.due + ms } else u
      | none => (w.timersOf n).filter fun u => u.id != t.id := by
  rw [timersOf, reach]
  cases t.every with
  | none => exact List.filter_comm _ _ _
  | some ms =>
    dsimp only
    rw [List.filter_map]
    refine congrArg _ (List.filter_congr fun u _ => ?_)
    simp only [Function.comp]
    split <;> rfl

theorem Timekept.timersOf_reach_of_ne (h : w.Timekept) {t : Timer} (ht : t ∈ w.timers)
    (howner : t.owner.refresher? ≠ some n) : (w.reach t).timersOf n = w.timersOf n := by
  have hother : ∀ u ∈ w.timersOf n, u.id ≠ t.id := by
    intro u hu heq
    obtain ⟨hmem, hu'⟩ := mem_timersOf.mp hu
    exact howner (h.eq_of_id hmem ht heq ▸ hu')
  rw [timersOf_reach]
  split
  · refine (List.map_congr_left fun u hu => ?_).trans (List.map_id _)
    exact if_neg (hother u hu)
  · exact List.filter_eq_self.mpr fun u hu => bne_iff_ne.mpr (hother u hu)

end World

/-! ### Beats -/

/-- **Nothing but time moves the clock**, and nothing but a timer makes a timer's lookup. -/
theorem Beat.clock_world (b : Beat) (w : World) (hstrike : ∀ t, b ≠ .strike t) :
    (b.world w).trace = w.trace ∧ ((∀ time, b ≠ .pass time) → (b.world w).clock = w.clock) := by
  have hstart : ∀ (v : World) (number : Nat) (services : Listing),
      (v.startRefresher number services).trace = v.trace ∧
        (v.startRefresher number services).clock = v.clock := by
    intro v number services
    rcases v.startRefresher_cases number services with ⟨-, heq⟩ | ⟨r, -, -, heq⟩ <;>
      rw [heq] <;> exact ⟨rfl, rfl⟩
  have hclear : ∀ (v : World) (id : Option Nat),
      (v.clearTimer id).trace = v.trace ∧ (v.clearTimer id).clock = v.clock := by
    intro v id
    cases id <;> exact ⟨rfl, rfl⟩
  cases b with
  | rest => exact ⟨rfl, fun _ => rfl⟩
  | start services => exact ⟨(hstart w 0 services).1, fun _ => (hstart w 0 services).2⟩
  | stop refresher =>
    rcases w.stopRefresher_cases refresher with ⟨-, heq⟩ | ⟨r, -, heq⟩
    · rw [Beat.world, heq]
      exact ⟨rfl, fun _ => rfl⟩
    · have hfirst := hclear w r.delayTimer
      have hsecond := hclear (w.clearTimer r.delayTimer) r.periodTimer
      rw [Beat.world, heq]
      exact ⟨hsecond.1.trans hfirst.1, fun _ => hsecond.2.trans hfirst.2⟩
  | poll binding timings => exact ⟨(hstart _ _ _).1, fun _ => (hstart _ _ _).2⟩
  | arm refresher =>
    rcases w.armPeriod_cases refresher with ⟨-, heq⟩ | ⟨r, -, heq⟩ <;>
      rw [Beat.world, heq] <;> exact ⟨rfl, fun _ => rfl⟩
  | release refresher => exact ⟨rfl, fun _ => rfl⟩
  | pass time => exact ⟨rfl, fun h => absurd rfl (h time)⟩
  | strike t => exact absurd rfl (hstrike t)

/-- **A run begins** with a start, or with the polling of the strategy. -/
theorem Beat.eq_of_begins (b : Beat) {w : World} {n : Nat} (hidle : (w.clockwork? n).any Refresher.running = false)
    (hruns : ((b.world w).clockwork? n).any Refresher.running = true) :
    (∃ services, b = .start services ∧ n = 0) ∨
      ∃ binding timings, b = .poll binding timings ∧ n = w.refreshers.length := by
  obtain ⟨q', hq', hrunning⟩ := (Option.any_eq_true _ _).mp hruns
  rcases hq : w.clockwork? n with _ | q
  · exact .inr (b.eq_poll_of_clockwork hq (by rw [hq']; rfl))
  · left
    rw [hq, Option.any_some] at hidle
    have hstop : b ≠ .stop n := by
      rintro rfl
      rw [Beat.world, World.clockwork?_stopRefresher, if_pos rfl, hq] at hq'
      cases hq'
      cases hrunning
    obtain ⟨p, hp, -, hkept⟩ := b.exists_clockwork_world hstop hq
    rw [hp, Option.some.injEq] at hq'
    subst hq'
    rcases hkept with ⟨hsame, -⟩ | ⟨-, -, hstart⟩
    · rw [hsame, hidle] at hrunning
      cases hrunning
    · exact hstart

namespace Machine

variable {m m' m₁ a : Machine} {b : Beat} {t : Timer} {n g : Nat}

/-! ### Timers that fire -/

/-- **A timer fires**: it is due as time passes, or nothing remains to be done. -/
inductive Fires (t : Timer) : Machine → Machine → Prop
  /-- As time passes. -/
  | due {m : Machine} (h : m.due? = some t) : Fires t m m.next
  /-- Where nothing remains to be done. -/
  | fire (w : World) (outcome : Outcome) (h : t ∈ w.timers) :
      Fires t ⟨w, [], .deliver outcome⟩ (Machine.fire w [.settle none] t)

theorem Fires.beats (h : Fires t m m') : Beats (.strike t) m m' := by
  cases h with
  | due h => exact beats_of_due? h
  | fire w outcome ht => exact beats_fire w outcome ht

/-- Where no timer is due, another beat comes with the next transition. -/
theorem Reachable.beats_of_not_due (h : Reachable m) (hdue : m.due? = none) :
    ∃ b, Beats b m m.next ∧ ∀ t, b ≠ .strike t := by
  by_cases hfinished : m.finished = true
  · rw [next_of_finished hfinished]
    obtain ⟨w, _ | ⟨f, k⟩, step | outcome⟩ := m
    · exact absurd hfinished (by simp [finished])
    · exact ⟨.rest, .of_still (Still.refl w [] _) rfl, fun t => by simp⟩
    · exact absurd hfinished (by simp [finished])
    · exact absurd hfinished (by simp [finished])
  · obtain ⟨b, hb⟩ := h.exists_beats (.next m)
    refine ⟨b, hb, ?_⟩
    rintro t rfl
    rcases hb.fits with heq | ⟨hfinished', -⟩
    · rw [hdue] at heq
      cases heq
    · exact hfinished hfinished'

/-- **Either a timer fires, or another beat comes.** -/
theorem Reachable.fires_or_beats (h : Reachable m) (hl : Leads m m') :
    (∃ t, Fires t m m') ∨ ∃ b, Beats b m m' ∧ ∀ t, b ≠ .strike t := by
  cases hl with
  | next =>
    rcases hdue : m.due? with _ | t
    · exact .inr (h.beats_of_not_due hdue)
    · exact .inl ⟨t, .due hdue⟩
  | perform w outcome step => exact .inr ⟨.rest, beats_step w outcome step, fun t => by simp⟩
  | interject w first outcome step =>
    exact .inr ⟨.rest, beats_interject w first outcome step, fun t => by simp⟩
  | fire w outcome ht => exact .inl ⟨_, .fire w outcome ht⟩

/-! ### Beats of a refresher that runs -/

theorem Beats.polls_eq (h : Beats b m m') (hstrike : ∀ t, b ≠ .strike t) :
    m'.world.polls n = m.world.polls n := by
  rw [h.still.time.polls]
  exact World.polls_of_trace (b.clock_world m.world hstrike).1

theorem Beats.clock_eq (h : Beats b m m') (hstrike : ∀ t, b ≠ .strike t)
    (hpass : ∀ time, b ≠ .pass time) : m'.world.clock = m.world.clock := by
  rw [h.still.time.clock]
  exact (b.clock_world m.world hstrike).2 hpass

/-- **The timers of a refresher that runs** stay as they are, unless one fires or its later polls
begin. -/
theorem Beats.timersOf_eq (h : Beats b m m') (hm : m.world.Timekept) {q : Refresher}
    (hq : m.world.clockwork? n = some q) (hrunning : q.running = true) (hstop : b ≠ .stop n)
    (harm : b ≠ .arm n) (hstrike : ∀ t, b = .strike t → t.owner.refresher? ≠ some n) :
    m'.world.timersOf n = m.world.timersOf n := by
  rw [h.still.time.timersOf]
  cases b with
  | rest | release | pass => rfl
  | start services =>
    by_cases hn : n = 0
    · subst hn
      -- a refresher that runs is not started again
      rcases m.world.startRefresher_cases 0 services with ⟨-, heq⟩ | ⟨r, hr, hidle, -⟩
      · rw [Beat.world, heq]
      · rw [World.clockwork?_of_getElem? hr] at hq
        cases hq
        exact absurd (by simpa using .inr hrunning) hidle
    · exact World.timersOf_startRefresher_of_ne (Ne.symm hn) services
  | stop refresher => exact hm.timersOf_stopRefresher fun heq => hstop (heq ▸ rfl)
  | poll binding timings =>
    have hn : m.world.refreshers.length ≠ n := fun heq => by
      rw [World.clockwork?_eq_none_iff.mpr (Nat.le_of_eq heq)] at hq
      exact absurd hq (by simp)
    exact World.timersOf_startRefresher_of_ne hn _
  | arm refresher =>
    have hn : refresher ≠ n := fun heq => harm (heq ▸ rfl)
    rcases m.world.armPeriod_cases refresher with ⟨-, heq⟩ | ⟨r, -, heq⟩
    · rw [Beat.world, heq]
    · have hset := m.world.timersOf_setTimer (n := n) r.timings.period (some r.timings.period)
        (.period refresher)
      rw [if_neg (by simpa [TimerOwner.refresher?] using hn), List.append_nil] at hset
      rw [Beat.world, heq]
      exact hset
  | strike t =>
    rw [World.timersOf, Beat.world, World.timers_strike, ← World.timersOf]
    exact hm.timersOf_reach_of_ne h.fits.mem_timers (hstrike t rfl)

theorem Beats.timersOf_of_strike (h : Beats (.strike t) m m') :
    m'.world.timersOf n = (m.world.reach t).timersOf n := by
  rw [h.still.time.timersOf, World.timersOf, Beat.world, World.timers_strike, ← World.timersOf]

theorem Beats.clock_of_strike (h : Beats (.strike t) m m') : m'.world.clock = t.due :=
  h.still.time.clock.trans (m.world.clock_strike t)

theorem Beats.polls_of_strike (h : Beats (.strike t) m m') :
    m'.world.polls n =
      m.world.polls n ++ if t.owner.refresher? = some n then m.world.asks n else [] :=
  (h.still.time.polls n).trans (m.world.polls_strike t)

/-- **The later polls of a refresher begin**: it has one timer more. -/
theorem Beats.timersOf_of_arm (h : Beats (.arm n) m m') {q : Refresher}
    (hq : m.world.clockwork? n = some q) :
    m'.world.timersOf n = m.world.timersOf n ++ [⟨m.world.timerCount + 1,
      m.world.clock + q.timings.period, some q.timings.period, .period n⟩] := by
  rw [h.still.time.timersOf, Beat.world]
  rcases m.world.armPeriod_cases n with ⟨hnone, -⟩ | ⟨r, hr, heq⟩
  · rw [hq] at hnone
    cases hnone
  · rw [World.clockwork?_of_getElem? hr] at hq
    cases hq
    have howner : (TimerOwner.period n).refresher? = some n := rfl
    have hset := m.world.timersOf_setTimer (n := n) r.timings.period (some r.timings.period) (.period n)
    rw [if_pos howner] at hset
    rw [heq]
    exact hset

/-! ### Runs -/

theorem inRun_iff_clockwork : m.InRun n g ↔
    ∃ q, m.world.clockwork? n = some q ∧ q.running = true ∧ q.generation = g := by
  constructor
  · rintro ⟨r, hr, hrunning, hgeneration⟩
    obtain ⟨q, hq, hqr, hqg, -⟩ := World.exists_clockwork_of_core? hr
    exact ⟨q, hq, hqr.trans hrunning, hqg.trans hgeneration⟩
  · rintro ⟨q, hq, hrunning, hgeneration⟩
    obtain ⟨r, hr, hrq, hrg⟩ := World.exists_core?_of_clockwork hq
    exact ⟨r, hr, hrq.trans hrunning, hrg.trans hgeneration⟩

/-- **What a run keeps**: the timings, and a run goes on until it is stopped. -/
theorem Beats.inRun_iff (h : Beats b m m') {q : Refresher} (hq : m.world.clockwork? n = some q)
    (hrunning : q.running = true) :
    (m'.InRun n q.generation ↔ b ≠ .stop n) ∧
      (b ≠ .stop n → ∃ q', m'.world.clockwork? n = some q' ∧ q'.running = true ∧
        q'.generation = q.generation ∧ q'.timings = q.timings) := by
  have hgoes : b ≠ .stop n → ∃ q', m'.world.clockwork? n = some q' ∧ q'.running = true ∧
      q'.generation = q.generation ∧ q'.timings = q.timings := by
    intro hstop
    obtain ⟨q', hq', htimings, hkept⟩ := b.exists_clockwork_world hstop hq
    rcases hkept with ⟨hruns, hgeneration⟩ | ⟨hidle, -⟩
    · exact ⟨q', (h.still.time.clockwork n).trans hq', hruns.trans hrunning, hgeneration, htimings⟩
    · rw [hrunning] at hidle
      cases hidle
  refine ⟨⟨fun hrun => ?_, fun hstop => ?_⟩, hgoes⟩
  · rintro rfl
    obtain ⟨q', hq', hruns, -⟩ := inRun_iff_clockwork.mp hrun
    rw [h.clockwork_of_stop, hq] at hq'
    cases hq'
    cases hruns
  · obtain ⟨q', hq', hruns, hgeneration, -⟩ := hgoes hstop
    exact inRun_iff_clockwork.mpr ⟨q', hq', hruns, hgeneration⟩

theorem running_iff_clockwork : m.Running n ↔ (m.world.clockwork? n).any Refresher.running = true := by
  rw [Option.any_eq_true]
  constructor
  · rintro ⟨r, hr, hrunning⟩
    obtain ⟨q, hq, hqr, -⟩ := World.exists_clockwork_of_core? hr
    exact ⟨q, hq, hqr.trans hrunning⟩
  · rintro ⟨q, hq, hrunning⟩
    obtain ⟨r, hr, hrq, -⟩ := World.exists_core?_of_clockwork hq
    exact ⟨r, hr, hrq.trans hrunning⟩

/-- **A run begins** with the timer of its first poll, and nothing else happens to the clockwork. -/
theorem Reachable.exists_of_begins (h : Reachable m) (hl : Leads m m') (hbegins : Begins n m m') :
    ∃ q provider i, m'.world.clockwork? n = some q ∧ q.running = true ∧ q.provider = some provider ∧
      m'.world.timersOf n =
        m.world.timersOf n ++ [⟨i, m.world.clock + q.timings.delay, none, .delay n⟩] ∧
      m'.world.clock = m.world.clock ∧ m'.arms = m.arms := by
  obtain ⟨b, hb⟩ := h.exists_beats hl
  have hidle : (m.world.clockwork? n).any Refresher.running = false :=
    Bool.eq_false_iff.mpr fun hrunning => hbegins.1 (running_iff_clockwork.mpr hrunning)
  have hruns : ((b.world m.world).clockwork? n).any Refresher.running = true := by
    rw [← hb.still.time.clockwork]
    exact running_iff_clockwork.mp hbegins.2
  have hbeat := b.eq_of_begins hidle hruns
  have hclock : m'.world.clock = m.world.clock := by
    rcases hbeat with ⟨services, rfl, -⟩ | ⟨binding, timings, rfl, -⟩ <;>
      exact hb.clock_eq (fun _ => by simp) fun _ => by simp
  have harms : m'.arms = m.arms := by
    rcases hbeat with ⟨services, rfl, -⟩ | ⟨binding, timings, rfl, -⟩ <;> exact hb.arms_eq
  have htimers := hb.still.time.timersOf n
  have hclockwork := hb.still.time.clockwork n
  rcases hbeat with ⟨services, rfl, rfl⟩ | ⟨binding, timings, rfl, rfl⟩
  · rcases m.world.startRefresher_cases 0 services with ⟨-, heq⟩ | ⟨r, hr, hnew, -⟩
    · rw [Beat.world, heq, hidle] at hruns
      cases hruns
    · have hr' := World.clockwork?_of_getElem? hr
      have hstarts : World.startClock (m.world.timerCount + 1) r.clockwork =
          r.clockwork.begin Table.empty (m.world.timerCount + 1) := if_neg hnew
      rw [Beat.world, World.clockwork?_startRefresher, if_pos rfl, hr', Option.map_some,
        hstarts] at hclockwork
      have hset := World.timersOf_startRefresher hr' (Bool.not_eq_true _ ▸ hnew) services
      have hprovider : r.provider.isSome = true := by
        simp only [Bool.or_eq_true, not_or, Bool.not_eq_true, Option.isNone_eq_false_iff] at hnew
        exact hnew.1
      obtain ⟨provider, hprovider⟩ := Option.isSome_iff_exists.mp hprovider
      exact ⟨_, provider, _, hclockwork, rfl, hprovider, htimers.trans hset, hclock, harms⟩
  · let q := Refresher.idle (some binding.provider) .strategy timings
    let w : World := ({ m.world with refreshers := m.world.refreshers ++ [q] } : World).modifyStrategy
      fun s => s.pollBy m.world.refreshers.length timings
    have hq : w.clockwork? m.world.refreshers.length = some q.clockwork :=
      (m.world.clockwork?_addRefresher q _).trans (if_pos rfl)
    have hset := World.timersOf_startRefresher hq rfl (Table.empty.insert binding.service binding.endpoints)
    rw [Beat.world, World.clockwork?_pollWith, if_pos rfl] at hclockwork
    exact ⟨_, binding.provider, _, hclockwork, rfl, rfl, htimers.trans hset, hclock, harms⟩

/-- **A run ends with a stop.** -/
theorem Reachable.halts_of_leaves (h : Reachable m) (hin : m.InRun n g) (hl : Leads m m')
    (hended : ¬ m'.InRun n g) : Halts n m m' := by
  obtain ⟨q, hq, hrunning, rfl⟩ := inRun_iff_clockwork.mp hin
  obtain ⟨b, hb⟩ := h.exists_beats hl
  have hstop : b = .stop n := by
    by_contra hgoes
    exact hended ((hb.inRun_iff hq hrunning).1.mpr hgoes)
  subst hstop
  exact hb.halts_of_stop (by rw [hq]; rfl)

/-- What a refresher saw last when a start takes effect is what it was given. -/
theorem snapshot_of_start (hbegins : Begins n m m') {r : Refresher} (hr : m'.world.core? n = some r)
    {services : Listing} (hcontrol : m.control = .perform (.start services)) (hn : n = 0)
    (hnext : m' = m.next) : r.snapshot = services := by
  subst hn hnext
  have hsnapshot := snapshot?_of_start hcontrol hbegins
  rw [World.snapshot?, hr] at hsnapshot
  exact Option.some.inj hsnapshot

/-- A run that lasts has lasted before. -/
theorem Reachable.inRun_of_leads (h : Reachable m) (hin : m.InRun n g) (hr : Run m a) {a' : Machine}
    (hl : Leads a a') (ha : a'.InRun n g) : a.InRun n g := by
  by_contra hended
  exact h.not_inRun_run hin hr hended (.single hl) ha

/-- **What holds at the beginning of a run and is kept while it lasts holds throughout.** -/
theorem Reachable.induction_run {P : Machine → Prop} (h : Reachable m) (hin : m.InRun n g) (hm : P m)
    (hstep : ∀ a a', Run m a → Leads a a' → a.InRun n g → a'.InRun n g → P a → P a') (hr : Run m a)
    (ha : a.InRun n g) : P a := by
  induction hr with
  | refl => exact hm
  | @tail a a' hr hl ih =>
    have hbefore := h.inRun_of_leads hin hr hl ha
    exact hstep a a' hr hl hbefore ha (ih hbefore)

/-- **A run tracks the same services throughout**, and asks the same naming service. -/
theorem Reachable.tracks_of_run (h : Reachable m) {r : Refresher} (hr : m.world.core? n = some r)
    (hrunning : r.running = true) (hrun : Run m a) (ha : a.InRun n r.generation) :
    ∃ r', a.world.core? n = some r' ∧ r'.running = true ∧ r'.provider = r.provider ∧
      r'.snapshot.keys = r.snapshot.keys := by
  have hkeys : (a.world.snapshot? n).map Table.keys = (m.world.snapshot? n).map Table.keys := by
    refine h.induction_run (P := fun a => (a.world.snapshot? n).map Table.keys =
      (m.world.snapshot? n).map Table.keys) ⟨r, hr, hrunning, rfl⟩ rfl ?_ hrun ha
    intro a a' hma hl hbefore _ ih
    have hreach := h.run hma
    rcases leads_iff.mp hl with rfl | henters
    · exact (hreach.seen?_next fun hbegins => hbegins.1 hbefore.running).2.trans ih
    · rw [World.snapshot?, hreach.core?_of_enters henters, ← World.snapshot?]
      exact ih
  obtain ⟨r', hr', hgrows⟩ := (h.grow hrun).old n r hr
  obtain ⟨r'', hr'', hrunning', -⟩ := ha
  rw [hr'] at hr''
  cases hr''
  rw [World.snapshot?, World.snapshot?, hr', hr] at hkeys
  exact ⟨r', hr', hrunning', hgrows.provider, Option.some.inj hkeys⟩

/-! ### The timer of a first poll -/

/-- **No timer for a first poll comes in a run.** -/
theorem Beats.delay_mem (h : Beats b m m') (hm : m.world.Timekept) (hin : m.InRun n g)
    (hin' : m'.InRun n g) {u : Timer} (hu : u ∈ m'.world.timers) (howner : u.owner = .delay n) :
    u ∈ m.world.timers := by
  obtain ⟨q, hq, hrunning, rfl⟩ := inRun_iff_clockwork.mp hin
  have hstop := ((h.inRun_iff hq hrunning).1).mp hin'
  have hof : u ∈ m'.world.timersOf n := World.mem_timersOf.mpr ⟨hu, by rw [howner]; rfl⟩
  by_cases harm : b = .arm n
  · subst harm
    rw [h.timersOf_of_arm hq, List.mem_append, List.mem_singleton] at hof
    rcases hof with hold | rfl
    · exact (World.mem_timersOf.mp hold).1
    · cases howner
  by_cases hstrike : ∃ t, b = .strike t ∧ t.owner.refresher? = some n
  · obtain ⟨t, rfl, ht⟩ := hstrike
    have hmem := h.fits.mem_timers
    rw [h.timersOf_of_strike, World.timersOf_reach] at hof
    split at hof
    · next ms hevery =>
      obtain ⟨v, hv, rfl⟩ := List.mem_map.mp hof
      obtain ⟨hv', -⟩ := World.mem_timersOf.mp hv
      split at howner
      · next hid =>
        -- a timer that fires again makes no first poll
        have hdelay : t.owner = .delay n := by
          rw [← hm.eq_of_id hv' hmem hid]
          exact howner
        rw [(hm.regular t hmem).1 n hdelay] at hevery
        cases hevery
      · next hid =>
        rw [if_neg hid]
        exact hv'
    · exact (World.mem_timersOf.mp (List.mem_filter.mp hof).1).1
  · rw [h.timersOf_eq hm hq hrunning hstop harm fun t ht howner' => hstrike ⟨t, ht, howner'⟩] at hof
    exact (World.mem_timersOf.mp hof).1

/-- **The timer of a first poll stays until it fires.** -/
theorem Beats.delay_mem_of_stays (h : Beats b m m') (hm : m.world.Timekept) (hin : m.InRun n g)
    (hin' : m'.InRun n g) {u : Timer} (hu : u ∈ m.world.timers) (howner : u.owner = .delay n)
    (hstays : b ≠ .strike u) : u ∈ m'.world.timers := by
  obtain ⟨q, hq, hrunning, rfl⟩ := inRun_iff_clockwork.mp hin
  have hstop := ((h.inRun_iff hq hrunning).1).mp hin'
  have hof : u ∈ m.world.timersOf n := World.mem_timersOf.mpr ⟨hu, by rw [howner]; rfl⟩
  refine (World.mem_timersOf (n := n).mp ?_).1
  by_cases harm : b = .arm n
  · subst harm
    rw [h.timersOf_of_arm hq]
    exact List.mem_append_left _ hof
  by_cases hstrike : ∃ t, b = .strike t ∧ t.owner.refresher? = some n
  · obtain ⟨t, rfl, ht⟩ := hstrike
    have hne : u.id ≠ t.id := fun hid =>
      hstays (congrArg Beat.strike (hm.eq_of_id hu h.fits.mem_timers hid).symm)
    rw [h.timersOf_of_strike, World.timersOf_reach]
    split
    · exact List.mem_map.mpr ⟨u, hof, if_neg hne⟩
    · exact List.mem_filter.mpr ⟨hof, bne_iff_ne.mpr hne⟩
  · rw [h.timersOf_eq hm hq hrunning hstop harm fun t ht howner' => hstrike ⟨t, ht, howner'⟩]
    exact hof

/-- **The timer of a first poll waits until it fires**, as long as the run lasts. -/
theorem Reachable.delay_waits_or_fires (h : Reachable m) (hin : m.InRun n g) (ht : t ∈ m.world.timers)
    (howner : t.owner = .delay n) (hr : Run m a) (ha : a.InRun n g) :
    t ∈ a.world.timers ∨ ∃ b c, Run m b ∧ Fires t b c ∧ Run c a := by
  refine h.induction_run (P := fun a => t ∈ a.world.timers ∨ ∃ b c, Run m b ∧ Fires t b c ∧ Run c a) hin
    (.inl ht) ?_ hr ha
  rintro a a' ha hl hin hin' (ht | ⟨b, c, hb, hfires, hc⟩)
  · have hreach := h.run ha
    rcases hreach.fires_or_beats hl with ⟨u, hfires⟩ | ⟨b, hb, hstrike⟩
    · by_cases htu : u = t
      · exact .inr ⟨a, a', ha, htu ▸ hfires, .refl⟩
      · exact .inl (hfires.beats.delay_mem_of_stays hreach.timekept hin hin' ht howner
          fun heq => htu (Beat.strike.inj heq))
    · exact .inl (hb.delay_mem_of_stays hreach.timekept hin hin' ht howner (hstrike t))
  · exact .inr ⟨b, c, hb, hfires, hc.tail hl⟩

/-- **There is one time for a first poll**, as long as the run lasts. -/
theorem Reachable.delay_due_of_run (h : Reachable m) (hin : m.InRun n g) (ht : t ∈ m.world.timers)
    (howner : t.owner = .delay n) (hr : Run m a) (ha : a.InRun n g) :
    ∀ u ∈ a.world.timers, u.owner = .delay n → u.due = t.due := by
  refine h.induction_run (P := fun a => ∀ u ∈ a.world.timers, u.owner = .delay n → u.due = t.due) hin ?_ ?_
    hr ha
  · -- the refresher knows of one timer for a first poll
    intro u hu hou
    have hkept := h.timekept
    have hid : u.id = t.id := by
      have hknown := (hkept.delays n u.id).mp (World.mem_handles.mpr ⟨u, hu, hou, rfl⟩)
      rw [(hkept.delays n t.id).mp (World.mem_handles.mpr ⟨t, ht, howner, rfl⟩)] at hknown
      exact (Option.some.inj hknown).symm
    rw [hkept.eq_of_id hu ht hid]
  · intro a a' ha hl hin hin' ih u hu hou
    obtain ⟨b, hb⟩ := (h.run ha).exists_beats hl
    exact ih u (hb.delay_mem (h.run ha).timekept hin hin' hu hou) hou

/-- **The first poll of a run asks at its time, unless a cycle is in flight.** A start of a
refresher that takes effect sets a timer, which is due when the delay has passed and stays until it
fires. When it does so in that run, the clock shows this time, and the naming service is asked for
the services that the start named, exactly if no cycle that a timer of the refresher began is in
flight, be it of this run or of an earlier one. -/
theorem Reachable.first_poll_asks_unless_in_flight (h : Reachable m) (hl : Leads m m₁)
    (hbegins : Begins n m m₁) :
    ∃ r provider, m₁.world.core? n = some r ∧ r.provider = some provider ∧
      (∀ services, m.control = .perform (.start services) → n = 0 → m₁ = m.next →
        r.snapshot = services) ∧
      (∀ a, Run m₁ a → a.InRun n r.generation →
        (∃ t ∈ a.world.timers, t.owner = .delay n ∧ t.due = m₁.world.clock + r.timings.delay) ∨
        ∃ t b c, Run m₁ b ∧ Fires t b c ∧ Run c a ∧ t.owner = .delay n) ∧
      ∀ a t b, Run m₁ a → a.InRun n r.generation → Fires t a b → t.owner = .delay n →
        t.due = m₁.world.clock + r.timings.delay ∧ b.world.clock = t.due ∧
        b.world.polls n = a.world.polls n ++
          if a.flights n = 0 then [(provider, r.snapshot.keys)] else [] := by
  obtain ⟨q, provider, i, hq, hrunning, hprovider, htimers, hclock, -⟩ := h.exists_of_begins hl hbegins
  obtain ⟨r, hr, hrunning', hgeneration'⟩ := World.exists_core?_of_clockwork hq
  obtain ⟨q', hq', -, -, hprovider', htimings'⟩ := World.exists_clockwork_of_core? hr
  rw [hq] at hq'
  cases hq'
  have hreach := h.leads hl
  have hin : m₁.InRun n r.generation := ⟨r, hr, hrunning'.trans hrunning, rfl⟩
  obtain ⟨t₁, ht₁, howner₁, hdue₁⟩ : ∃ t ∈ m₁.world.timers, t.owner = .delay n ∧
      t.due = m₁.world.clock + r.timings.delay := by
    have hmem : (⟨i, m.world.clock + q.timings.delay, none, .delay n⟩ : Timer) ∈ m₁.world.timersOf n := by
      rw [htimers]
      exact List.mem_append_right _ List.mem_cons_self
    exact ⟨_, (World.mem_timersOf.mp hmem).1, rfl, by rw [htimings', ← hclock]⟩
  refine ⟨r, provider, hr, hprovider'.symm.trans hprovider, fun _ => snapshot_of_start hbegins hr,
    fun a ha hain => ?_, fun a t b ha hain hfires howner => ?_⟩
  · rcases hreach.delay_waits_or_fires hin ht₁ howner₁ ha hain with hwaits | ⟨b, c, hb, hfires, hc⟩
    · exact .inl ⟨t₁, hwaits, howner₁, hdue₁⟩
    · exact .inr ⟨t₁, b, c, hb, hfires, hc, howner₁⟩
  · have hreach' := hreach.run ha
    have hbeats := hfires.beats
    have hdue := hreach.delay_due_of_run hin ht₁ howner₁ ha hain t hbeats.fits.mem_timers howner
    obtain ⟨r', hr', hruns, hsame, hkeys⟩ :=
      hreach.tracks_of_run hr (hrunning'.trans hrunning) ha hain
    refine ⟨hdue.trans hdue₁, hbeats.clock_of_strike, ?_⟩
    have howner' : t.owner.refresher? = some n := by rw [howner]; rfl
    have hmark := hreach'.marked n
    rw [hbeats.polls_of_strike, if_pos howner', World.asks_eq hr' hruns
      (hsame.trans (hprovider'.symm.trans hprovider)), hkeys]
    cases hflag : a.world.inFlight n <;> rw [hflag] at hmark <;> simp [hmark]

/-- A refresher that is started again asks at its first poll, since the cycle of its first run has
been released. -/
theorem first_poll_asks_after_restart : ∃ m a t, Reachable m ∧ Begins 0 m m.next ∧ Run m.next a ∧
    Fires t a a.next ∧ t.owner = .delay 0 ∧ m.world.polls 0 = [("registry", ["echo"])] ∧
    a.next.world.polls 0 = [("registry", ["echo"]), ("registry", ["echo"])] := by
  let services : Listing := .ofList [("echo", [])]
  let m₀ : Machine := ⟨secondly .empty [] [], [], .deliver (.ok .nothing)⟩
  let m₁ := run 2 (m₀.world.machine (.start services))
  let m₂ := run 12 (m₁.world.machine (.advance (.ofNat 1000)))
  let m₃ := run 2 (m₂.world.machine .stop)
  let m := m₃.world.machine (.start services)
  let a := run 1 ((run 1 m.next).world.machine (.advance (.ofNat 1000)))
  have hm : Reachable m := (opens_secondly .empty [] []).reachable.run
    ((((run_of_step (by decide +kernel) _ 2).trans (run_of_step (by decide +kernel) _ 12)).trans
      (run_of_step (by decide +kernel) _ 2)).trans (run_of_step (by decide +kernel) (.start services) 0))
  have hbegins : Begins 0 m m.next := by decide +kernel
  have ha : Run m.next a :=
    (run_of_transitions 1 m.next).trans (run_of_step (by decide +kernel) (.advance (.ofNat 1000)) 1)
  have hdue : a.due?.map Timer.owner = some (.delay 0) := by decide +kernel
  obtain ⟨t, ht, howner⟩ := Option.map_eq_some_iff.mp hdue
  obtain ⟨r, provider, hr, hprovider, hservices, -, hasks⟩ :=
    hm.first_poll_asks_unless_in_flight (.next m) hbegins
  have hin : a.InRun 0 r.generation := by
    have hgeneration : (m.next.world.core? 0).map Refresher.generation = some 3 := by decide +kernel
    rw [hr] at hgeneration
    rw [Option.some.inj hgeneration]
    decide +kernel
  obtain ⟨-, -, hpolls⟩ := hasks a t a.next ha hin (.due ht) howner
  have hprovider' : (m.next.world.core? 0).bind Refresher.provider = some "registry" := by
    decide +kernel
  rw [hr, Option.bind_some, hprovider] at hprovider'
  rw [if_pos (by decide +kernel), hservices services rfl rfl rfl, Option.some.inj hprovider'] at hpolls
  have hbefore : a.world.polls 0 = [("registry", ["echo"])] := by decide +kernel
  rw [hbefore] at hpolls
  exact ⟨m, a, t, hm, hbegins, ha, .due ht, howner, by decide +kernel, hpolls⟩

/-- **A cycle of an earlier run holds up a restart**: its lookup is open when the timer of the first
poll fires, and nothing is asked then. -/
theorem first_poll_skipped_after_restart : ∃ m a t, Reachable m ∧
    m.control = .perform (.start (.ofList [("echo", [])])) ∧ Begins 0 m m.next ∧ Run m.next a ∧
    a.InRun 0 3 ∧ Fires t a a.next ∧ t.owner = .delay 0 ∧
    a.next.world.clock = m.next.world.clock + .ofNat 1000 ∧
    a.next.world.polls 0 = a.world.polls 0 := by
  let services : Listing := .ofList [("echo", [])]
  let m₀ : Machine := ⟨secondly .empty [(.pending, [])] [], [], .deliver (.ok .nothing)⟩
  let m₁ := run 2 (m₀.world.machine (.start services))
  let m₂ := run 12 (m₁.world.machine (.advance (.ofNat 1000)))
  let m₃ := run 2 (m₂.world.machine .stop)
  let m := m₃.world.machine (.start services)
  let a := run 1 ((run 1 m.next).world.machine (.advance (.ofNat 1000)))
  have hm : Reachable m := (opens_secondly .empty [(.pending, [])] []).reachable.run
    ((((run_of_step (by decide +kernel) _ 2).trans (run_of_step (by decide +kernel) _ 12)).trans
      (run_of_step (by decide +kernel) _ 2)).trans (run_of_step (by decide +kernel) (.start services) 0))
  have ha : Run m.next a :=
    (run_of_transitions 1 m.next).trans (run_of_step (by decide +kernel) (.advance (.ofNat 1000)) 1)
  have hdue : a.due?.map Timer.owner = some (.delay 0) := by decide +kernel
  obtain ⟨t, ht, howner⟩ := Option.map_eq_some_iff.mp hdue
  exact ⟨m, a, t, hm, rfl, by decide +kernel, ha, by decide +kernel, .due ht, howner, by decide +kernel,
    by decide +kernel⟩

end Machine

end Balancer.Session
