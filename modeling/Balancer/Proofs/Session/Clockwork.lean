import Balancer.Proofs.Session.Beat
import Balancer.Proofs.Whole

/-!
# Timers and what refreshers know of them

What each beat makes of the registered timers and of the clockwork of the refreshers.

* `Balancer.Session.Timer.firstDue?_spec` – **the timer that fires next is the first that is due.**
* `Balancer.Session.World.timersOf` – **the registered timers of a refresher**;
  `Balancer.Session.World.handles` lists all timers, by what they are for and their numbers.
* `Balancer.Session.World.delayOf`, `Balancer.Session.World.periodOf` – the timers that a refresher
  knows of.
* `Balancer.Session.World.clockwork?_startRefresher`, `Balancer.Session.World.clockwork?_strike` and
  so on – **the clockwork after a beat.**
-/

namespace Balancer.Session

/-! ### The timer that fires next -/

/-- The refresher whose polls a timer makes. -/
def TimerOwner.refresher? : TimerOwner → Option Nat
  | .delay number | .period number => some number
  | .alarm => none

namespace Timer

/-- What fires first is not before what it is put before. -/
theorem lt_of_earlier {t u : Timer} (h : t.earlier u = true) : u.due.lt t.due = false := by
  simp only [earlier, Bool.or_eq_true, Bool.and_eq_true, Bool.not_eq_true'] at h
  rcases h with hlt | ⟨hlt, -⟩
  · exact Binary64.lt_asymm hlt
  · exact hlt

theorem lt_of_not_earlier {t u : Timer} (h : ¬ t.earlier u = true) : t.due.lt u.due = false := by
  simp only [earlier, Bool.or_eq_true, not_or, Bool.not_eq_true] at h
  exact h.1

/-- The first of some timers is one of them, and none is due before it. -/
theorem first_spec (us : List Timer) (u : Timer) (hnumber : ∀ v ∈ u :: us, v.due.units?.isSome = true) :
    us.foldl (fun best t => if t.earlier best then t else best) u ∈ u :: us ∧
      ∀ v ∈ u :: us,
        v.due.lt (us.foldl (fun best t => if t.earlier best then t else best) u).due = false := by
  induction us generalizing u with
  | nil =>
    refine ⟨List.mem_cons_self, fun v hv => ?_⟩
    rw [List.mem_singleton.mp hv]
    exact Binary64.lt_irrefl _
  | cons w us ih =>
    rw [List.foldl_cons]
    by_cases hearlier : w.earlier u = true
    · rw [if_pos hearlier]
      obtain ⟨hmem, hleast⟩ := ih w fun v hv => hnumber v (List.mem_cons_of_mem _ hv)
      refine ⟨List.mem_cons_of_mem _ hmem, fun v hv => ?_⟩
      rcases List.mem_cons.mp hv with rfl | hv
      · exact Binary64.lt_false_trans (hnumber w (by simp)) (lt_of_earlier hearlier)
          (hleast w List.mem_cons_self)
      · exact hleast v hv
    · rw [if_neg hearlier]
      obtain ⟨hmem, hleast⟩ := ih u fun v hv => by
        rcases List.mem_cons.mp hv with rfl | hv
        · exact hnumber v List.mem_cons_self
        · exact hnumber v (List.mem_cons_of_mem _ (List.mem_cons_of_mem _ hv))
      refine ⟨?_, fun v hv => ?_⟩
      · rcases List.mem_cons.mp hmem with heq | hmem
        · rw [heq]
          exact List.mem_cons_self
        · exact List.mem_cons_of_mem _ (List.mem_cons_of_mem _ hmem)
      · rcases List.mem_cons.mp hv with rfl | hv
        · exact hleast v List.mem_cons_self
        · rcases List.mem_cons.mp hv with rfl | hv
          · exact Binary64.lt_false_trans (hnumber u List.mem_cons_self) (lt_of_not_earlier hearlier)
              (hleast u List.mem_cons_self)
          · exact hleast v (List.mem_cons_of_mem _ hv)

/-- **The timer that fires next is due, and none is due before it.** -/
theorem firstDue?_spec {timers : List Timer} {time : Binary64} {t : Timer}
    (h : firstDue? timers time = some t) :
    t ∈ timers ∧ t.due.le time = true ∧ ∀ u ∈ timers, u.due.lt t.due = false := by
  rw [firstDue?] at h
  have hdue : ∀ u, u ∈ timers.filter (fun t => t.due.le time) ↔ u ∈ timers ∧ u.due.le time = true :=
    fun u => List.mem_filter
  cases hlist : timers.filter fun t => t.due.le time with
  | nil => rw [hlist] at h; exact absurd h (by simp [first?])
  | cons u us =>
    rw [hlist] at h hdue
    obtain ⟨hmem, hleast⟩ := first_spec us u fun v hv => Binary64.isSome_of_le ((hdue v).mp hv).2
    have heq : _ = t := Option.some.inj h
    rw [heq] at hmem hleast
    obtain ⟨ht, hle⟩ := (hdue t).mp hmem
    refine ⟨ht, hle, fun v hv => ?_⟩
    by_cases hv' : v.due.le time = true
    · exact hleast v ((hdue v).mpr ⟨hv, hv'⟩)
    · exact Binary64.lt_false_of_le hle (Bool.not_eq_true _ ▸ hv')

theorem le_of_firstDue?_eq_none {timers : List Timer} {time : Binary64}
    (h : firstDue? timers time = none) : ∀ t ∈ timers, t.due.le time = false := by
  intro t ht
  rw [firstDue?] at h
  by_contra hle
  have hmem : t ∈ timers.filter fun t => t.due.le time :=
    List.mem_filter.mpr ⟨ht, by simpa using hle⟩
  cases hlist : timers.filter fun t => t.due.le time with
  | nil => rw [hlist] at hmem; exact absurd hmem List.not_mem_nil
  | cons u us => rw [hlist, first?] at h; exact absurd h (by simp)

end Timer

namespace World

/-! ### Registered timers -/

/-- **The registered timers of a refresher.** -/
def timersOf (w : World) (number : Nat) : List Timer :=
  w.timers.filter fun t => t.owner.refresher? = some number

/-- The registered timers, by what they are for and their numbers. -/
def handles (w : World) : List (TimerOwner × Nat) := w.timers.map fun t => (t.owner, t.id)

/-- The timer of the first poll that a refresher knows of. -/
def delayOf (w : World) (number : Nat) : Option Nat := (w.clockwork? number).bind Refresher.delayTimer

/-- The timer of the later polls that a refresher knows of. -/
def periodOf (w : World) (number : Nat) : Option Nat :=
  (w.clockwork? number).bind Refresher.periodTimer

variable {w w' : World} {n : Nat}

theorem mem_handles {o : TimerOwner} {i : Nat} :
    (o, i) ∈ w.handles ↔ ∃ t ∈ w.timers, t.owner = o ∧ t.id = i := by
  simp only [handles, List.mem_map, Prod.mk.injEq]

theorem mem_timersOf {t : Timer} :
    t ∈ w.timersOf n ↔ t ∈ w.timers ∧ t.owner.refresher? = some n := by
  simp only [timersOf, List.mem_filter, decide_eq_true_eq]

theorem timersOf_eq_nil_iff :
    w.timersOf n = [] ↔ (∀ i, (.delay n, i) ∉ w.handles) ∧ ∀ i, (.period n, i) ∉ w.handles := by
  rw [List.eq_nil_iff_forall_not_mem]
  constructor
  · refine fun h => ⟨fun i hi => ?_, fun i hi => ?_⟩ <;>
    · obtain ⟨t, ht, howner, -⟩ := mem_handles.mp hi
      exact h t (mem_timersOf.mpr ⟨ht, by rw [howner]; rfl⟩)
  · intro ⟨hdelay, hperiod⟩ t ht
    obtain ⟨hmem, howner⟩ := mem_timersOf.mp ht
    cases ho : t.owner with
    | delay number =>
      rw [ho] at howner
      cases howner
      exact hdelay t.id (mem_handles.mpr ⟨t, hmem, ho, rfl⟩)
    | period number =>
      rw [ho] at howner
      cases howner
      exact hperiod t.id (mem_handles.mpr ⟨t, hmem, ho, rfl⟩)
    | alarm =>
      rw [ho] at howner
      cases howner

theorem SameTime.timersOf (hw : w.SameTime w') (n : Nat) : w'.timersOf n = w.timersOf n := by
  rw [World.timersOf, hw.timers, World.timersOf]

/-! ### Single moves -/

theorem handles_modifyRefresher (w : World) (number : Nat) (f : Refresher → Refresher) :
    (w.modifyRefresher number f).handles = w.handles := rfl

theorem handles_setTimer (w : World) (wait : Binary64) (every : Option Binary64) (o : TimerOwner) :
    (w.setTimer wait every o).handles = w.handles ++ [(o, w.timerCount + 1)] := by
  simp only [handles, setTimer, List.map_append, List.map_cons, List.map_nil]

theorem handles_clearTimer (w : World) (id : Option Nat) :
    (w.clearTimer id).handles = w.handles.filter fun h => some h.2 ≠ id := by
  cases id with
  | none => simp [clearTimer]
  | some id =>
    simp only [handles, clearTimer, List.filter_map]
    congr 2
    funext t
    simp only [Function.comp, bne, beq_eq_decide, ne_eq, Option.some.injEq, decide_not]

/-- What is left when the clock has come to a timer. -/
theorem handles_reach (w : World) (t : Timer) :
    (w.reach t).handles =
      if t.every.isSome = true then w.handles else w.handles.filter fun h => h.2 ≠ t.id := by
  unfold handles reach
  cases t.every with
  | none =>
    simp only [Option.isSome_none, Bool.false_eq_true, if_false, List.filter_map]
    congr 2
    funext u
    simp only [Function.comp, bne, beq_eq_decide, ne_eq, decide_not]
  | some ms =>
    simp only [Option.isSome_some, if_true, List.map_map]
    congr 1
    funext u
    simp only [Function.comp]
    split <;> rfl

theorem timers_strike (w : World) (t : Timer) : (w.strike t).timers = (w.reach t).timers :=
  strike_keeps (P := fun v => v.timers = (w.reach t).timers) w t rfl (fun _ _ _ h => h) fun _ _ h => h

/-- **A run of a refresher begins** with a timer, if it does not run and has a naming service. -/
theorem startRefresher_cases (w : World) (number : Nat) (services : Listing) :
    (∀ r, w.clockwork? number = some r → (r.provider.isNone || r.running) = true) ∧
        w.startRefresher number services = w ∨
      ∃ r, w.refreshers[number]? = some r ∧ ¬ (r.provider.isNone || r.running) = true ∧
        w.startRefresher number services =
          (w.setTimer r.timings.delay none (.delay number)).modifyRefresher number fun r =>
            r.begin services (w.timerCount + 1) := by
  rcases hr : w.refreshers[number]? with _ | r
  · left
    simp only [clockwork?, startRefresher, hr, Option.map_none, reduceCtorEq, false_imp_iff,
      implies_true, and_self]
  · by_cases hidle : (r.provider.isNone || r.running) = true
    · left
      simp only [clockwork?, startRefresher, hr, if_pos hidle, Option.map_some, Option.some.injEq]
      exact ⟨fun r' hr' => hr' ▸ hidle, trivial⟩
    · right
      refine ⟨r, rfl, hidle, ?_⟩
      simp only [startRefresher, hr, if_neg hidle]
      rfl

/-- **A run of a refresher ends**, if there is one of this number. -/
theorem stopRefresher_cases (w : World) (number : Nat) :
    w.clockwork? number = none ∧ w.stopRefresher number = w ∨
      ∃ r, w.refreshers[number]? = some r ∧ w.stopRefresher number =
        ((w.clearTimer r.delayTimer).clearTimer r.periodTimer).modifyRefresher number
          Refresher.halt := by
  rcases hr : w.refreshers[number]? with _ | r
  · left
    simp only [clockwork?, stopRefresher, hr, Option.map_none, and_self]
  · right
    refine ⟨r, rfl, ?_⟩
    simp only [stopRefresher, hr]

/-- **The later polls of a refresher begin**, if there is one of this number. -/
theorem armPeriod_cases (w : World) (number : Nat) :
    w.clockwork? number = none ∧ w.armPeriod number = w ∨
      ∃ r, w.refreshers[number]? = some r ∧ w.armPeriod number =
        (w.setTimer r.timings.period (some r.timings.period) (.period number)).modifyRefresher number
          fun r => { r with periodTimer := some (w.timerCount + 1) } := by
  rcases hr : w.refreshers[number]? with _ | r
  · left
    simp only [clockwork?, armPeriod, hr, Option.map_none, and_self]
  · right
    refine ⟨r, rfl, ?_⟩
    simp only [armPeriod, hr]
    rfl

theorem clockwork?_of_getElem? {r : Refresher} (h : w.refreshers[n]? = some r) :
    w.clockwork? n = some r.clockwork := by
  rw [clockwork?, h]
  rfl

theorem clockwork?_clearTimer (w : World) (id : Option Nat) (n : Nat) :
    (w.clearTimer id).clockwork? n = w.clockwork? n := by
  cases id <;> rfl

/-- The clockwork of a refresher at the beginning of a run, if it does not run and has a naming
service. -/
def startClock (timer : Nat) (r : Refresher) : Refresher :=
  if r.provider.isNone || r.running then r else r.begin Table.empty timer

theorem clockwork?_startRefresher (w : World) (number : Nat) (services : Listing) (n : Nat) :
    (w.startRefresher number services).clockwork? n =
      if number = n then (w.clockwork? n).map (startClock (w.timerCount + 1)) else w.clockwork? n := by
  rcases w.startRefresher_cases number services with ⟨hstays, heq⟩ | ⟨r, hr, hidle, heq⟩
  · rw [heq]
    split
    · next hn =>
      subst hn
      rcases hr : w.clockwork? number with _ | r
      · rfl
      · rw [Option.map_some, startClock, if_pos (hstays r hr)]
    · rfl
  · rw [heq, clockwork?_modifyRefresher _
      (g := fun r => r.begin Table.empty (w.timerCount + 1)) fun _ => rfl]
    split
    · next hn =>
      subst hn
      have hstart : startClock (w.timerCount + 1) r.clockwork =
          r.clockwork.begin Table.empty (w.timerCount + 1) := if_neg hidle
      show (w.clockwork? number).map _ = _
      rw [clockwork?_of_getElem? hr, Option.map_some, Option.map_some, hstart]
    · rfl

theorem clockwork?_stopRefresher (w : World) (number n : Nat) :
    (w.stopRefresher number).clockwork? n =
      if number = n then (w.clockwork? n).map Refresher.halt else w.clockwork? n := by
  rcases w.stopRefresher_cases number with ⟨hnone, heq⟩ | ⟨r, hr, heq⟩
  · rw [heq]
    split
    · next hn => rw [← hn, hnone]; rfl
    · rfl
  · rw [heq, clockwork?_modifyRefresher _ (g := Refresher.halt) fun _ => rfl, clockwork?_clearTimer,
      clockwork?_clearTimer]

theorem clockwork?_armPeriod (w : World) (number n : Nat) :
    (w.armPeriod number).clockwork? n =
      if number = n then
        (w.clockwork? n).map fun r => { r with periodTimer := some (w.timerCount + 1) }
      else w.clockwork? n := by
  rcases w.armPeriod_cases number with ⟨hnone, heq⟩ | ⟨r, hr, heq⟩
  · rw [heq]
    split
    · next hn => rw [← hn, hnone]; rfl
    · rfl
  · rw [heq, clockwork?_modifyRefresher _
      (g := fun r => { r with periodTimer := some (w.timerCount + 1) }) fun _ => rfl]
    rfl

theorem clockwork?_eq_none_iff {n : Nat} : w.clockwork? n = none ↔ w.refreshers.length ≤ n := by
  rw [clockwork?, Option.map_eq_none_iff, List.getElem?_eq_none_iff]

theorem clockwork?_addRefresher (w : World) (r : Refresher) (n : Nat) :
    ({ w with refreshers := w.refreshers ++ [r] } : World).clockwork? n =
      if w.refreshers.length = n then some r.clockwork else w.clockwork? n := by
  simp only [clockwork?]
  split
  · next heq =>
    subst heq
    rw [List.getElem?_concat_length]
    rfl
  · next hne =>
    by_cases hlt : n < w.refreshers.length
    · rw [List.getElem?_append_left hlt]
    · rw [List.getElem?_eq_none (by simp; omega), List.getElem?_eq_none (by omega)]

theorem clockwork?_pollWith (w : World) (binding : Binding) (timings : Timings) (n : Nat) :
    (w.pollWith binding timings).clockwork? n =
      if w.refreshers.length = n then
        some ((Refresher.idle (some binding.provider) .strategy timings).begin Table.empty
          (w.timerCount + 1))
      else w.clockwork? n := by
  have hadd := w.clockwork?_addRefresher (Refresher.idle (some binding.provider) .strategy timings) n
  simp only [pollWith, clockwork?_startRefresher]
  show (if _ then Option.map _ (clockwork? _ n) else clockwork? _ n) = _
  split
  · next heq =>
    rw [if_pos heq] at hadd
    exact (congrArg _ hadd).trans rfl
  · next hne =>
    rw [if_neg hne] at hadd
    exact hadd

theorem clockwork?_reached (w : World) (t : Timer) (n : Nat) :
    (w.reached t).clockwork? n =
      if t.owner = .delay n then (w.clockwork? n).map fun r => { r with delayTimer := none }
      else w.clockwork? n := by
  rw [reached]
  split
  · next number howner =>
    rw [clockwork?_modifyRefresher _ (g := fun r => { r with delayTimer := none }) fun _ => rfl, howner]
    simp only [TimerOwner.delay.injEq]
    rfl
  · next hother => rw [if_neg (hother n)]; rfl

theorem clockwork?_launch (w : World) (number n : Nat) :
    (w.launch number).clockwork? n =
      if number = n then (w.clockwork? n).map fun r => { r with inFlight := true }
      else w.clockwork? n := by
  have hmarks : ((w.modifyRefresher number fun r => { r with inFlight := true }).clockwork? n) =
      if number = n then (w.clockwork? n).map fun r => { r with inFlight := true }
      else w.clockwork? n :=
    clockwork?_modifyRefresher w (g := fun r => { r with inFlight := true }) (fun _ => rfl) number n
  rw [launch]
  split
  · next hnone =>
    split
    · next hn => rw [← hn, clockwork?, hnone]; rfl
    · rfl
  · next r hr =>
    split
    · next hflight =>
      split
      · next hn =>
        rw [← hn, clockwork?_of_getElem? hr, Option.map_some]
        congr 1
        rw [← hflight]
        rfl
      · rfl
    · dsimp only
      split <;> exact hmarks

theorem clockwork?_strike (w : World) (t : Timer) (n : Nat) :
    (w.strike t).clockwork? n =
      if t.owner = .delay n then
        (w.clockwork? n).map fun r => { r with delayTimer := none, inFlight := true }
      else if t.owner = .period n then (w.clockwork? n).map fun r => { r with inFlight := true }
      else w.clockwork? n := by
  rw [strike]
  split
  · next number howner =>
    rw [clockwork?_launch, clockwork?_reached, howner]
    simp only [TimerOwner.delay.injEq, reduceCtorEq, if_false]
    split
    · rw [Option.map_map]
      rfl
    · rfl
  · next number howner =>
    rw [clockwork?_launch, clockwork?_reached, howner]
    simp only [TimerOwner.period.injEq, reduceCtorEq, if_false]
  · next howner =>
    rw [clockwork?_reached, howner]
    simp only [reduceCtorEq, if_false]

end World

end Balancer.Session
