import Balancer.Proofs.Session.Clockwork
import Mathlib.Data.List.Nodup

/-!
# What timers and refreshers know of each other

A refresher that waits for its first poll knows the number of the timer, and so does one that has
begun its later polls. A timer for the first poll is never registered without its refresher's
knowing; a timer for the later polls may be, and then nothing clears it.

* `Balancer.Session.World.Timekept` – **what timers and refreshers know of each other**, which
  every beat keeps (`Balancer.Session.Machine.Beats.timekept`).
-/

namespace Balancer.Session

/-- A timer for the first poll fires once, and one for the later polls again and again. -/
def Timer.Regular (t : Timer) : Prop :=
  (∀ n, t.owner = .delay n → t.every = none) ∧ ∀ n, t.owner = .period n → t.every.isSome = true

namespace World

/-- **Timers are told apart by their numbers.** -/
structure Enrolled (w : World) : Prop where
  /-- A number stands for one timer. -/
  once : (w.handles.map Prod.snd).Nodup
  /-- Timers are counted. -/
  counted : ∀ h ∈ w.handles, h.2 ≤ w.timerCount
  /-- Timers are such as are set for polls. -/
  regular : ∀ t ∈ w.timers, t.Regular

/-- **What timers and refreshers know of each other.** -/
structure Timekept (w : World) : Prop extends w.Enrolled where
  /-- The timer of a first poll is registered exactly while the refresher knows of it. -/
  delays : ∀ n i, (.delay n, i) ∈ w.handles ↔ w.delayOf n = some i
  /-- A timer of the later polls that the refresher knows of is registered. -/
  periods : ∀ n i, w.periodOf n = some i → (.period n, i) ∈ w.handles
  /-- A refresher that does not run does not wait for a first poll. -/
  idle : ∀ n r, w.clockwork? n = some r → r.running = false → r.delayTimer = none
  /-- Timings are good. -/
  checked : ∀ n r, w.clockwork? n = some r → r.timings.check = .ok ()

variable {w w' : World} {n : Nat}

/-- **A number stands for one timer.** -/
theorem Enrolled.owner_eq (h : w.Enrolled) {o o' : TimerOwner} {i : Nat} (ho : (o, i) ∈ w.handles)
    (ho' : (o', i) ∈ w.handles) : o = o' :=
  congrArg Prod.fst (List.inj_on_of_nodup_map h.once ho ho' rfl)

theorem Enrolled.eq_of_id (h : w.Enrolled) {t u : Timer} (ht : t ∈ w.timers) (hu : u ∈ w.timers)
    (hid : t.id = u.id) : t = u := by
  have hnodup : (w.timers.map Timer.id).Nodup := by
    have honce := h.once
    rwa [handles, List.map_map] at honce
  exact List.inj_on_of_nodup_map hnodup ht hu hid

theorem Enrolled.modifyRefresher (h : w.Enrolled) {number : Nat} {f : Refresher → Refresher} :
    (w.modifyRefresher number f).Enrolled :=
  ⟨h.once, h.counted, h.regular⟩

theorem Timekept.congr (h : w.Timekept) (hw : w.SameTime w') : w'.Timekept where
  once := by rw [handles, hw.timers]; exact h.once
  counted := by rw [handles, hw.timers, hw.timerCount]; exact h.counted
  regular := by rw [hw.timers]; exact h.regular
  delays n i := by rw [handles, hw.timers, delayOf, hw.clockwork]; exact h.delays n i
  periods n i := by rw [handles, hw.timers, periodOf, hw.clockwork]; exact h.periods n i
  idle n r := by rw [hw.clockwork]; exact h.idle n r
  checked n r := by rw [hw.clockwork]; exact h.checked n r

/-! ### Timers that come and go -/

theorem Enrolled.setTimer (h : w.Enrolled) (wait : Binary64) (every : Option Binary64) (o : TimerOwner)
    (hregular : Timer.Regular ⟨w.timerCount + 1, w.clock + wait, every, o⟩) :
    (w.setTimer wait every o).Enrolled where
  once := by
    rw [handles_setTimer, List.map_append, List.nodup_append]
    refine ⟨h.once, by simp, fun i hi j hj heq => ?_⟩
    -- the new number is greater than all others
    obtain ⟨handle, hmem, rfl⟩ := List.mem_map.mp hi
    have hle := h.counted handle hmem
    simp only [List.map_cons, List.map_nil, List.mem_singleton] at hj
    omega
  counted handle hmem := by
    rw [handles_setTimer, List.mem_append, List.mem_singleton] at hmem
    show _ ≤ w.timerCount + 1
    rcases hmem with hold | rfl
    · exact Nat.le_succ_of_le (h.counted handle hold)
    · exact Nat.le_refl _
  regular t ht := by
    rcases List.mem_append.mp ht with hold | hnew
    · exact h.regular t hold
    · rw [List.mem_singleton.mp hnew]
      exact hregular

theorem Enrolled.clearTimer (h : w.Enrolled) (id : Option Nat) : (w.clearTimer id).Enrolled where
  once := by
    rw [handles_clearTimer]
    exact h.once.sublist (List.filter_sublist.map _)
  counted handle hmem := by
    rw [handles_clearTimer] at hmem
    have hle := h.counted handle (List.mem_filter.mp hmem).1
    cases id <;> exact hle
  regular t ht := by
    cases id with
    | none => exact h.regular t ht
    | some id => exact h.regular t (List.mem_filter.mp ht).1

theorem Enrolled.reach (h : w.Enrolled) (t : Timer) : (w.reach t).Enrolled where
  once := by
    rw [handles_reach]
    split
    · exact h.once
    · exact h.once.sublist (List.filter_sublist.map _)
  counted handle hmem := by
    rw [handles_reach] at hmem
    split at hmem
    · exact h.counted handle hmem
    · exact h.counted handle (List.mem_filter.mp hmem).1
  regular u hu := by
    simp only [World.reach] at hu
    split at hu
    · obtain ⟨v, hv, rfl⟩ := List.mem_map.mp hu
      split <;> exact h.regular v hv
    · exact h.regular u (List.mem_filter.mp hu).1

/-! ### Beats -/

/-- **One refresher changes, and its timers with it.** -/
theorem Timekept.of_modify (h : w.Timekept) (henrolled : w'.Enrolled) (number : Nat)
    {g : Refresher → Refresher}
    (hfound : ∀ k, w'.clockwork? k =
      if number = k then (w.clockwork? k).map g else w.clockwork? k)
    (hdelay : ∀ i, (.delay number, i) ∈ w'.handles ↔
      (w.clockwork? number).bind (fun r => (g r).delayTimer) = some i)
    (hperiod : ∀ i, (w.clockwork? number).bind (fun r => (g r).periodTimer) = some i →
      (.period number, i) ∈ w'.handles)
    (hother : ∀ o i, o.refresher? ≠ some number → ((o, i) ∈ w'.handles ↔ (o, i) ∈ w.handles))
    (hidle : ∀ r, w.clockwork? number = some r → (g r).running = false → (g r).delayTimer = none)
    (htimings : ∀ r, (g r).timings = r.timings) : w'.Timekept where
  toEnrolled := henrolled
  delays k i := by
    by_cases hk : number = k
    · subst hk
      rw [hdelay, delayOf, hfound, if_pos rfl, Option.bind_map]
      rfl
    · rw [hother _ _ (by simpa [TimerOwner.refresher?] using Ne.symm hk), h.delays, delayOf, delayOf,
        hfound, if_neg hk]
  periods k i hi := by
    rw [periodOf, hfound] at hi
    by_cases hk : number = k
    · subst hk
      rw [if_pos rfl, Option.bind_map] at hi
      exact hperiod i hi
    · rw [if_neg hk] at hi
      exact (hother _ _ (by simpa [TimerOwner.refresher?] using Ne.symm hk)).mpr (h.periods k i hi)
  idle k r hr hrunning := by
    rw [hfound] at hr
    split at hr
    · next hk =>
      subst hk
      obtain ⟨r₀, hr₀, rfl⟩ := Option.map_eq_some_iff.mp hr
      exact hidle r₀ hr₀ hrunning
    · exact h.idle k r hr hrunning
  checked k r hr := by
    rw [hfound] at hr
    split at hr
    · obtain ⟨r₀, hr₀, rfl⟩ := Option.map_eq_some_iff.mp hr
      rw [htimings]
      exact h.checked k r₀ hr₀
    · exact h.checked k r hr

theorem Timekept.startRefresher (h : w.Timekept) (number : Nat) (services : Listing) :
    (w.startRefresher number services).Timekept := by
  rcases w.startRefresher_cases number services with ⟨-, heq⟩ | ⟨r, hr, hidle, heq⟩
  · rwa [heq]
  have hr' := clockwork?_of_getElem? hr
  have hrunning : r.running = false := by
    simp only [Bool.or_eq_true, not_or, Bool.not_eq_true] at hidle
    exact hidle.2
  have hnone : w.delayOf number = none := by
    rw [delayOf, hr']
    exact h.idle number _ hr' hrunning
  have hhandles := w.handles_setTimer r.timings.delay none (.delay number)
  rw [heq]
  refine h.of_modify (h.toEnrolled.setTimer r.timings.delay none (.delay number)
      ⟨fun _ _ => rfl, fun _ howner => absurd howner (by simp)⟩).modifyRefresher
    number (clockwork?_modifyRefresher _ (g := fun r => r.begin Table.empty (w.timerCount + 1))
      (fun _ => rfl) number) (fun i => ?_) (fun i hi => ?_)
    (fun o i ho => ?_) (fun _ _ hidle => absurd hidle (by simp [Refresher.begin])) (fun _ => rfl)
  all_goals rw [handles_modifyRefresher, hhandles, List.mem_append, List.mem_singleton]
  · rw [h.delays, hnone, hr']
    simp [Refresher.begin, eq_comm]
  · exact .inl (h.periods number i hi)
  · have hne : (o, i) ≠ (.delay number, w.timerCount + 1) := by
      rintro ⟨⟩
      exact ho rfl
    simp [hne]

/-- **Another refresher's timers have other numbers.** -/
theorem Timekept.not_known (h : w.Timekept) {number : Nat} {o : TimerOwner} {i : Nat}
    (ho : o.refresher? ≠ some number) (hi : (o, i) ∈ w.handles) :
    w.delayOf number ≠ some i ∧ w.periodOf number ≠ some i := by
  refine ⟨fun hdelay => ho ?_, fun hperiod => ho ?_⟩
  · rw [h.owner_eq hi ((h.delays number i).mpr hdelay)]
    rfl
  · rw [h.owner_eq hi (h.periods number i hperiod)]
    rfl

/-- The timers that are left where a run ends. -/
theorem mem_handles_stopRefresher (w : World) (number : Nat) (o : TimerOwner) (i : Nat) :
    (o, i) ∈ (w.stopRefresher number).handles ↔
      (o, i) ∈ w.handles ∧ w.delayOf number ≠ some i ∧ w.periodOf number ≠ some i := by
  rcases w.stopRefresher_cases number with ⟨hnone, heq⟩ | ⟨r, hr, heq⟩
  · rw [heq, delayOf, periodOf, hnone]
    simp
  · rw [heq, handles_modifyRefresher, handles_clearTimer, List.mem_filter, handles_clearTimer,
      List.mem_filter, delayOf, periodOf, clockwork?_of_getElem? hr]
    simp only [decide_eq_true_eq, and_assoc, Option.bind_some, ne_eq]
    rw [eq_comm (a := some i), eq_comm (a := some i)]
    rfl

theorem Timekept.stopRefresher (h : w.Timekept) (number : Nat) :
    (w.stopRefresher number).Timekept := by
  have hmem := w.mem_handles_stopRefresher number
  rcases w.stopRefresher_cases number with ⟨-, heq⟩ | ⟨r, hr, heq⟩
  · rwa [heq]
  rw [heq] at hmem ⊢
  have hr' := clockwork?_of_getElem? hr
  refine h.of_modify ((h.toEnrolled.clearTimer _).clearTimer _).modifyRefresher number (g := Refresher.halt)
    (fun k => ?_) (fun i => ?_) (fun i hi => absurd hi ?_) (fun o i ho => ?_) (fun _ _ _ => rfl)
    fun _ => rfl
  · rw [clockwork?_modifyRefresher _ (g := Refresher.halt) (fun _ => rfl), clockwork?_clearTimer,
      clockwork?_clearTimer]
  · rw [hmem, h.delays, hr', Option.bind_some]
    exact ⟨fun hi => absurd hi.1 hi.2.1, fun hi => absurd hi (by simp [Refresher.halt])⟩
  · rw [hr']
    simp [Refresher.halt]
  · rw [hmem]
    exact ⟨And.left, fun hi => ⟨hi, h.not_known ho hi⟩⟩

theorem Timekept.armPeriod (h : w.Timekept) (number : Nat) : (w.armPeriod number).Timekept := by
  rcases w.armPeriod_cases number with ⟨-, heq⟩ | ⟨r, hr, heq⟩
  · rwa [heq]
  have hr' := clockwork?_of_getElem? hr
  have hhandles := w.handles_setTimer r.timings.period (some r.timings.period) (.period number)
  rw [heq]
  refine h.of_modify (h.toEnrolled.setTimer r.timings.period _ (.period number)
      ⟨fun _ howner => absurd howner (by simp), fun _ _ => rfl⟩).modifyRefresher
    number (clockwork?_modifyRefresher _
      (g := fun r => { r with periodTimer := some (w.timerCount + 1) }) (fun _ => rfl) number) (fun i => ?_) (fun i hi => ?_)
    (fun o i ho => ?_) (fun r hr hidle => h.idle number r hr hidle) (fun _ => rfl)
  all_goals rw [handles_modifyRefresher, hhandles, List.mem_append, List.mem_singleton]
  · rw [h.delays, delayOf]
    simp
  · rw [hr'] at hi
    cases hi
    exact .inr rfl
  · have hne : (o, i) ≠ (.period number, w.timerCount + 1) := by
      rintro ⟨⟩
      exact ho rfl
    simp [hne]

/-- A refresher that is changed otherwise keeps its timers. -/
theorem Timekept.modify (h : w.Timekept) (g : Refresher → Refresher)
    (hdelay : ∀ r, (g r).delayTimer = r.delayTimer) (hperiod : ∀ r, (g r).periodTimer = r.periodTimer)
    (hrunning : ∀ r, (g r).running = r.running) (htimings : ∀ r, (g r).timings = r.timings)
    (hclockwork : ∀ r, (g r).clockwork = g r.clockwork) (number : Nat) :
    (w.modifyRefresher number g).Timekept := by
  refine h.of_modify h.toEnrolled.modifyRefresher number (clockwork?_modifyRefresher w hclockwork number)
    (fun i => ?_) (fun i hi => ?_) (fun o i _ => Iff.rfl)
    (fun r hr hidle => (hdelay r).trans (h.idle number r hr ((hrunning r).symm.trans hidle))) htimings
  · simp only [hdelay]
    exact h.delays number i
  · simp only [hperiod] at hi
    exact h.periods number i hi

theorem Timekept.addRefresher (h : w.Timekept) (provider : Option String) (handler : Handler)
    {timings : Timings} (hcheck : timings.check = .ok ()) :
    ({ w with refreshers := w.refreshers ++ [Refresher.idle provider handler timings] } :
      World).Timekept := by
  have hfound := w.clockwork?_addRefresher (Refresher.idle provider handler timings)
  have hnone : w.clockwork? w.refreshers.length = none := clockwork?_eq_none_iff.mpr (Nat.le_refl _)
  refine ⟨⟨h.once, h.counted, h.regular⟩, fun k i => (h.delays k i).trans ?_, fun k i hi => ?_,
    fun k r hr hidle => ?_, fun k r hr => ?_⟩
  · rw [delayOf, delayOf, hfound]
    split
    · next heq => simp [← heq, hnone, Refresher.idle, Refresher.clockwork]
    · rfl
  · rw [periodOf, hfound] at hi
    split at hi
    · exact absurd hi (by simp [Refresher.idle, Refresher.clockwork])
    · exact h.periods k i hi
  all_goals
    rw [hfound] at hr
    split at hr
  · cases hr
    rfl
  · exact h.idle k r hr hidle
  · cases hr
    exact hcheck
  · exact h.checked k r hr

theorem Timekept.reached (h : w.Timekept) {t : Timer} (ht : t ∈ w.timers) :
    (w.reached t).Timekept := by
  have hregular := h.regular t ht
  have hhandle : (t.owner, t.id) ∈ w.handles := mem_handles.mpr ⟨t, ht, rfl, rfl⟩
  have hreach := w.handles_reach t
  -- what has another purpose has another number
  have hkept : ∀ o i, o ≠ t.owner → ((o, i) ∈ (w.reach t).handles ↔ (o, i) ∈ w.handles) := by
    intro o i ho
    rw [hreach]
    split
    · exact Iff.rfl
    · rw [List.mem_filter]
      refine ⟨And.left, fun hi => ⟨hi, decide_eq_true fun heq => ho ?_⟩⟩
      have heq' : i = t.id := heq
      subst heq'
      exact h.owner_eq hi hhandle
  rw [World.reached]
  split
  · next number howner =>
    have hevery : t.every = none := hregular.1 number howner
    rw [hevery, if_neg (by simp)] at hreach
    have hdelay : w.delayOf number = some t.id := (h.delays number t.id).mp (howner ▸ hhandle)
    refine h.of_modify (h.toEnrolled.reach t).modifyRefresher number
      (clockwork?_modifyRefresher _ (g := fun r => { r with delayTimer := none }) (fun _ => rfl) number) (fun i => ?_) (fun i hi => ?_)
      (fun o i ho => ?_) (fun _ _ _ => rfl) (fun _ => rfl)
    all_goals rw [handles_modifyRefresher]
    · rw [hreach, List.mem_filter, h.delays, hdelay, Option.bind_fun_none]
      exact ⟨fun hi => absurd (Option.some.inj hi.1).symm (of_decide_eq_true hi.2),
        fun hi => absurd hi (by simp)⟩
    · exact (hkept _ i (by rw [howner]; simp)).mpr (h.periods number i hi)
    · exact hkept o i fun heq => ho (by rw [heq, howner]; rfl)
  · next hnone =>
    have hdelays : ∀ k i, (.delay k, i) ∈ (w.reach t).handles ↔ (.delay k, i) ∈ w.handles :=
      fun k i => hkept _ i fun heq => hnone k heq.symm
    refine ⟨h.toEnrolled.reach t, fun k i => (hdelays k i).trans (h.delays k i), fun k i hi => ?_,
      h.idle, h.checked⟩
    have hmem := h.periods k i hi
    by_cases heq : TimerOwner.period k = t.owner
    · rw [hreach, if_pos (hregular.2 k heq.symm)]
      exact hmem
    · exact (hkept _ i heq).mpr hmem

theorem Timekept.launch (h : w.Timekept) (number : Nat) : (w.launch number).Timekept := by
  rw [World.launch]
  split
  · exact h
  · split
    · exact h
    · have hmarked : (w.modifyRefresher number fun r => { r with inFlight := true }).Timekept :=
        h.modify (fun r => { r with inFlight := true }) (fun _ => rfl) (fun _ => rfl) (fun _ => rfl)
          (fun _ => rfl) (fun _ => rfl) number
      dsimp only
      split
      · exact ⟨⟨hmarked.once, hmarked.counted, hmarked.regular⟩, hmarked.delays, hmarked.periods,
          hmarked.idle, hmarked.checked⟩
      · exact hmarked

theorem Timekept.strike (h : w.Timekept) {t : Timer} (ht : t ∈ w.timers) : (w.strike t).Timekept := by
  rw [World.strike]
  split
  · exact (h.reached ht).launch _
  · exact (h.reached ht).launch _
  · exact h.reached ht

theorem Timekept.pollWith (h : w.Timekept) (binding : Binding) {timings : Timings}
    (hcheck : timings.check = .ok ()) : (w.pollWith binding timings).Timekept := by
  rw [World.pollWith]
  refine Timekept.startRefresher ?_ _ _
  have hadd := h.addRefresher (some binding.provider) .strategy hcheck
  exact ⟨⟨hadd.once, hadd.counted, hadd.regular⟩, hadd.delays, hadd.periods, hadd.idle, hadd.checked⟩

theorem Timekept.pass (h : w.Timekept) (time : Binary64) : ({ w with clock := time } : World).Timekept :=
  ⟨⟨h.once, h.counted, h.regular⟩, h.delays, h.periods, h.idle, h.checked⟩

end World

/-! ### Machines -/

namespace Machine

variable {m m' : Machine} {b : Beat} {t : Timer}

theorem Fits.mem_timers (h : m.Fits (.strike t)) : t ∈ m.world.timers := by
  rcases h with hdue | ⟨-, hmem⟩
  · obtain ⟨time, -, hfirst⟩ := exists_of_due? hdue
    exact (Timer.firstDue?_spec hfirst).1
  · exact hmem

theorem Fits.timekept (h : m.Fits b) (hm : m.world.Timekept) : (b.world m.world).Timekept := by
  cases b with
  | rest => exact hm
  | start services => exact hm.startRefresher 0 services
  | stop refresher => exact hm.stopRefresher refresher
  | poll binding timings => exact hm.pollWith binding h
  | arm refresher => exact hm.armPeriod refresher
  | release refresher =>
    exact hm.modify (fun r => { r with inFlight := false }) (fun _ => rfl) (fun _ => rfl)
      (fun _ => rfl) (fun _ => rfl) (fun _ => rfl) refresher
  | pass time => exact hm.pass time
  | strike t => exact hm.strike h.mem_timers

/-- **Every beat keeps what timers and refreshers know of each other.** -/
theorem Beats.timekept (h : Beats b m m') (hm : m.world.Timekept) : m'.world.Timekept :=
  (h.fits.timekept hm).congr h.still.time

end Machine

end Balancer.Session
