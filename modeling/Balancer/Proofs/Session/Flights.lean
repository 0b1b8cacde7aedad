import Balancer.Proofs.Session.Timekept

/-!
# Cycles in flight

A refresher marks itself while a cycle that one of its timers began has not been released. Every
point of a session comes from the one before by a beat, so what beats keep holds everywhere; in
particular the mark says exactly whether there is such a cycle, and there is never more than one.

* `Balancer.Session.Machine.Reachable.exists_beats` – **one point of a session leads to another by a
  beat.**
* `Balancer.Session.Machine.Reachable.induction_beats` – **what holds before a session and is kept
  by every beat holds at every reachable point.**
* `Balancer.Session.Machine.Reachable.marked` – **the mark of a refresher says whether a cycle that
  a timer began is in flight.**
* `Balancer.Session.Machine.Inside` – the first poll of a refresher is being made.
-/

namespace Balancer.Session

namespace World

variable {w : World} {n : Nat}

/-! ### What beats leave alone -/

theorem sameTokens_strike (w : World) (t : Timer) : w.SameTokens (w.strike t) :=
  strike_keeps (P := w.SameTokens) w t ⟨rfl, rfl, rfl, rfl⟩ (fun _ _ _ h => ⟨h.1, h.2, h.3, h.4⟩)
    fun v e h => h.trans (v.sameTokens_emit e)

/-- **Whether a refresher is marked** as having a cycle in flight that a timer began. -/
def inFlight (w : World) (number : Nat) : Bool := (w.clockwork? number).any Refresher.inFlight

/-- The cycle that a timer begins. -/
theorem flights_struck (w : World) (t : Timer) (n : Nat) :
    Session.flights n (w.struck t) =
      if t.owner.refresher? = some n ∧ (w.clockwork? n).isSome = true ∧ w.inFlight n = false then 1
      else 0 := by
  have hreached : ∀ k, ((w.reached t).refreshers[k]?).map Refresher.inFlight =
      (w.clockwork? k).map Refresher.inFlight := by
    intro k
    have hfound := w.clockwork?_reached t k
    have hmap : ((w.reached t).clockwork? k).map Refresher.inFlight =
        (w.clockwork? k).map Refresher.inFlight := by
      rw [hfound]
      split
      · rw [Option.map_map]
        rfl
      · rfl
    rw [clockwork?, Option.map_map] at hmap
    exact hmap
  have hlaunched : ∀ k, Session.flights n ((w.reached t).launched k) =
      if k = n ∧ (w.clockwork? n).isSome = true ∧ w.inFlight n = false then 1 else 0 := by
    intro k
    have hk := hreached k
    rw [launched]
    split
    · next hnone =>
      rw [hnone, Option.map_none, eq_comm, Option.map_eq_none_iff] at hk
      rw [if_neg fun hidle => absurd hidle.2.1 (by rw [← hidle.1, hk]; simp)]
      rfl
    · next r hr =>
      rw [hr, Option.map_some, eq_comm, Option.map_eq_some_iff] at hk
      obtain ⟨r', hr', heq⟩ := hk
      by_cases hkn : k = n
      · subst hkn
        rw [inFlight, hr', Option.any_some, heq]
        cases r.inFlight <;> simp [Session.flights]
      · have hother : ¬ (k = n ∧ (w.clockwork? n).isSome = true ∧ w.inFlight n = false) :=
          fun h => hkn h.1
        rw [if_neg hother]
        split
        · rfl
        · simp [Session.flights, hkn]
  rw [struck]
  cases howner : t.owner with
  | delay k => simpa [TimerOwner.refresher?] using hlaunched k
  | period k => simpa [TimerOwner.refresher?] using hlaunched k
  | alarm => rfl

theorem count_ticket_struck (w : World) (t : Timer) (d : Desk) (i : Nat) :
    (w.struck t).count (.ticket d i) = 0 := by
  have hlaunched : ∀ (v : World) (k : Nat), (v.launched k).count (.ticket d i) = 0 := by
    intro v k
    rw [launched]
    split
    · rfl
    · split <;> rfl
  rw [struck]
  split
  · exact hlaunched _ _
  · exact hlaunched _ _
  · rfl

end World

theorem Beat.sameTokens (b : Beat) (w : World) : w.SameTokens (b.world w) := by
  cases b with
  | rest => exact ⟨rfl, rfl, rfl, rfl⟩
  | start services => exact w.sameTokens_startRefresher 0 services
  | stop refresher => exact w.sameTokens_stopRefresher refresher
  | poll binding timings => exact w.sameTokens_pollWith binding timings
  | arm refresher => exact w.sameTokens_armPeriod refresher
  | release refresher => exact ⟨rfl, rfl, rfl, rfl⟩
  | pass time => exact ⟨rfl, rfl, rfl, rfl⟩
  | strike t => exact w.sameTokens_strike t

/-! ### Runs of a refresher -/

/-- What the core of a refresher shows of a run, its clockwork shows as well. -/
theorem World.exists_clockwork_of_core? {w : World} {n : Nat} {r : Refresher}
    (h : w.core? n = some r) : ∃ q, w.clockwork? n = some q ∧ q.running = r.running ∧
      q.generation = r.generation ∧ q.provider = r.provider ∧ q.timings = r.timings := by
  obtain ⟨q, hq, rfl⟩ := Option.map_eq_some_iff.mp h
  exact ⟨_, World.clockwork?_of_getElem? hq, rfl, rfl, rfl, rfl⟩

/-- And the other way about. -/
theorem World.exists_core?_of_clockwork {w : World} {n : Nat} {q : Refresher}
    (h : w.clockwork? n = some q) :
    ∃ r, w.core? n = some r ∧ r.running = q.running ∧ r.generation = q.generation := by
  obtain ⟨r, hr, rfl⟩ := Option.map_eq_some_iff.mp h
  exact ⟨_, World.core?_of_getElem? hr, rfl, rfl⟩

/-- **Only a stop ends a run, and only a start begins one**; a refresher keeps its timings. -/
theorem Beat.exists_clockwork_world (b : Beat) {w : World} {n : Nat} {q : Refresher}
    (hstop : b ≠ .stop n) (hq : w.clockwork? n = some q) :
    ∃ q', (b.world w).clockwork? n = some q' ∧ q'.timings = q.timings ∧
      (q'.running = q.running ∧ q'.generation = q.generation ∨
        q.running = false ∧ q'.running = true ∧ ∃ services, b = .start services ∧ n = 0) := by
  have hmap : ∀ {v : World} {g : Refresher → Refresher} {p : Prop} [Decidable p],
      (g q).timings = q.timings → (g q).running = q.running → (g q).generation = q.generation →
      v.clockwork? n = (if p then (w.clockwork? n).map g else w.clockwork? n) →
      ∃ q', v.clockwork? n = some q' ∧ q'.timings = q.timings ∧
        (q'.running = q.running ∧ q'.generation = q.generation ∨
          q.running = false ∧ q'.running = true ∧ ∃ services, b = .start services ∧ n = 0) := by
    intro v g p _ htimings hrunning hgeneration hv
    rw [hv, hq]
    split
    · exact ⟨g q, rfl, htimings, .inl ⟨hrunning, hgeneration⟩⟩
    · exact ⟨q, rfl, rfl, .inl ⟨rfl, rfl⟩⟩
  cases b with
  | rest => exact ⟨q, hq, rfl, .inl ⟨rfl, rfl⟩⟩
  | pass time => exact ⟨q, hq, rfl, .inl ⟨rfl, rfl⟩⟩
  | start services =>
    rw [Beat.world, World.clockwork?_startRefresher]
    split
    · next hn =>
      rw [hq, Option.map_some, World.startClock]
      split
      · exact ⟨q, rfl, rfl, .inl ⟨rfl, rfl⟩⟩
      · next hidle =>
        simp only [Bool.or_eq_true, not_or, Bool.not_eq_true] at hidle
        exact ⟨_, rfl, rfl, .inr ⟨hidle.2, rfl, services, rfl, hn.symm⟩⟩
    · exact ⟨q, hq, rfl, .inl ⟨rfl, rfl⟩⟩
  | stop refresher =>
    have hne : refresher ≠ n := fun heq => hstop (heq ▸ rfl)
    refine ⟨q, ?_, rfl, .inl ⟨rfl, rfl⟩⟩
    rw [Beat.world, World.clockwork?_stopRefresher, if_neg hne, hq]
  | poll binding timings =>
    refine ⟨q, ?_, rfl, .inl ⟨rfl, rfl⟩⟩
    have hne : w.refreshers.length ≠ n := fun heq => by
      rw [World.clockwork?_eq_none_iff.mpr (Nat.le_of_eq heq)] at hq
      exact absurd hq (by simp)
    rw [Beat.world, World.clockwork?_pollWith, if_neg hne, hq]
  | arm refresher =>
    exact hmap (g := fun r => { r with periodTimer := some (w.timerCount + 1) }) rfl rfl rfl
      (w.clockwork?_armPeriod refresher n)
  | release refresher =>
    exact hmap (g := fun r => { r with inFlight := false }) rfl rfl rfl
      (World.clockwork?_modifyRefresher w (g := fun r => { r with inFlight := false }) (fun _ => rfl)
        refresher n)
  | strike t =>
    rw [Beat.world, World.clockwork?_strike, hq]
    split
    · exact ⟨_, rfl, rfl, .inl ⟨rfl, rfl⟩⟩
    · split
      · exact ⟨_, rfl, rfl, .inl ⟨rfl, rfl⟩⟩
      · exact ⟨q, rfl, rfl, .inl ⟨rfl, rfl⟩⟩

/-- A refresher that comes into being polls for the strategy. -/
theorem Beat.eq_poll_of_clockwork (b : Beat) {w : World} {n : Nat} (hnone : w.clockwork? n = none)
    (hsome : ((b.world w).clockwork? n).isSome = true) :
    ∃ binding timings, b = .poll binding timings ∧ n = w.refreshers.length := by
  cases b with
  | poll binding timings =>
    refine ⟨binding, timings, rfl, ?_⟩
    rw [Beat.world, World.clockwork?_pollWith] at hsome
    split at hsome
    · next hn => exact hn.symm
    · rw [hnone] at hsome
      cases hsome
  | rest | pass => exact absurd hsome (by simpa [World.clockwork?, Beat.world] using hnone)
  | release refresher =>
    have hfound := World.clockwork?_modifyRefresher w (f := fun r => { r with inFlight := false })
      (g := fun r => { r with inFlight := false }) (fun _ => rfl) refresher n
    rw [hnone, Option.map_none, ite_self] at hfound
    rw [Beat.world, hfound] at hsome
    cases hsome
  | _ =>
    simp [Beat.world, World.clockwork?_startRefresher, World.clockwork?_stopRefresher,
      World.clockwork?_armPeriod, World.clockwork?_strike, hnone] at hsome

/-! ### Marks and first polls -/

theorem Beat.inFlight_world (b : Beat) (w : World) {n : Nat} (hrelease : b ≠ .release n)
    (hstrike : ∀ t, b = .strike t → t.owner.refresher? ≠ some n) :
    (b.world w).inFlight n = w.inFlight n := by
  have hmap : ∀ {v : World} {g : Refresher → Refresher} {p : Prop} [Decidable p],
      (∀ r, (g r).inFlight = r.inFlight) →
      v.clockwork? n = (if p then (w.clockwork? n).map g else w.clockwork? n) →
      v.inFlight n = w.inFlight n := by
    intro v g p _ hg hv
    rw [World.inFlight, hv, World.inFlight]
    split
    · rw [Option.any_map]
      exact congrArg (Option.any · _) (funext hg)
    · rfl
  cases b with
  | rest | pass => rfl
  | start services =>
    refine hmap (fun r => ?_) (w.clockwork?_startRefresher 0 services n)
    rw [World.startClock]
    split <;> rfl
  | stop refresher => exact hmap (g := Refresher.halt) (fun _ => rfl) (w.clockwork?_stopRefresher refresher n)
  | poll binding timings =>
    rw [World.inFlight, Beat.world, World.clockwork?_pollWith]
    split
    · next heq =>
      rw [World.inFlight, World.clockwork?_eq_none_iff.mpr (Nat.le_of_eq heq)]
      rfl
    · rfl
  | arm refresher =>
    exact hmap (g := fun r => { r with periodTimer := some (w.timerCount + 1) }) (fun _ => rfl)
      (w.clockwork?_armPeriod refresher n)
  | release refresher =>
    have hne : refresher ≠ n := fun heq => hrelease (heq ▸ rfl)
    have hfound := World.clockwork?_modifyRefresher w
      (f := fun r => { r with inFlight := false }) (g := fun r => { r with inFlight := false })
      (fun _ => rfl) refresher n
    rw [if_neg hne] at hfound
    rw [World.inFlight, Beat.world, hfound, World.inFlight]
  | strike t =>
    have howner := hstrike t rfl
    rw [World.inFlight, Beat.world, World.clockwork?_strike, World.inFlight,
      if_neg fun heq => howner (by rw [heq]; rfl), if_neg fun heq => howner (by rw [heq]; rfl)]

theorem World.inFlight_strike (w : World) {t : Timer} {n : Nat} (h : t.owner.refresher? = some n) :
    (w.strike t).inFlight n = (w.clockwork? n).isSome := by
  have hmarks : ∀ {g : Refresher → Refresher}, (∀ r, (g r).inFlight = true) →
      ((w.clockwork? n).map g).any Refresher.inFlight = (w.clockwork? n).isSome := by
    intro g hg
    cases w.clockwork? n with
    | none => rfl
    | some r => exact hg r
  rw [World.inFlight, World.clockwork?_strike]
  cases howner : t.owner with
  | delay number =>
    rw [howner] at h
    cases h
    rw [if_pos rfl]
    exact hmarks fun _ => rfl
  | period number =>
    rw [howner] at h
    cases h
    rw [if_neg (by simp), if_pos rfl]
    exact hmarks fun _ => rfl
  | alarm =>
    rw [howner] at h
    cases h

/-- The first poll that begins with a beat. -/
def Beat.arming : Beat → List Nat
  | .strike t => t.armed.filterMap Frame.arm?
  | _ => []

namespace Machine

variable {m m' : Machine} {b : Beat} {n : Nat}

/-! ### Numbers of calls -/

theorem Beats.numbered (h : Beats b m m') (hm : m.Numbered) : m'.Numbered := by
  have hissued : (b.world m.world).issued = m.world.issued := (b.sameTokens m.world).issued
  have hgiven : ∀ d i, (b.given m.world).count (.ticket d i) = 0 := by
    intro d i
    cases b with
    | strike t => exact m.world.count_ticket_struck t d i
    | _ => rfl
  have hcount : ∀ d i, m'.tokens.count (.ticket d i) ≤ m.tokens.count (.ticket d i) +
      if m.world.issued d < i ∧ i ≤ m'.world.issued d then 1 else 0 := by
    intro d i
    have htickets := h.still.tickets d i
    rw [hissued, List.count_append, hgiven] at htickets
    omega
  have hgrows : ∀ d, m.world.issued d ≤ m'.world.issued d := fun d => hissued ▸ h.still.issued d
  refine ⟨fun d i => ?_, fun d i hi => ?_, fun d => ?_⟩
  · have hle := hcount d i
    have honce := hm.once d i
    split at hle
    · next hnew =>
      -- a number that is new was not held before
      have hfree := hm.issued d i hnew.1
      omega
    · omega
  · have hle := hcount d i
    have hfree := hm.issued d i (Nat.lt_of_le_of_lt (hgrows d) hi)
    rw [if_neg (by omega)] at hle
    omega
  · have hle := hcount d 0
    have hzero := hm.pos d
    rw [if_neg (by omega)] at hle
    omega

/-! ### Before a session -/

/-- **A machine before a session**: nothing is held, no timer is registered and no refresher has
been started. -/
structure Blank (m : Machine) : Prop where
  /-- Nothing is held. -/
  tokens : m.tokens = []
  /-- No first poll is being made. -/
  arms : m.arms = []
  /-- No timer is registered. -/
  timers : m.world.timers = []
  /-- Refreshers have not been started. -/
  idle : ∀ n r, m.world.clockwork? n = some r → ∃ provider handler timings,
    timings.check = .ok () ∧ r = Refresher.idle provider handler timings

theorem Blank.numbered (h : m.Blank) : m.Numbered := by
  refine ⟨fun d i => ?_, fun d i _ => ?_, fun d => ?_⟩
  all_goals
    rw [h.tokens]
    simp

/-- **A session begins** as if nothing were changed. -/
theorem Opens.exists_blank (h : Opens m) : ∃ x, x.Blank ∧ Beats .rest x m := by
  cases h with
  | strategy setup options weights =>
    refine ⟨⟨openStrategy setup options weights, [], .deliver (.ok .nothing)⟩,
      ⟨rfl, rfl, rfl, fun n r hr => ?_⟩, .of_still (Still.refl _ [] _) rfl⟩
    exact absurd hr (by simp [World.clockwork?, openStrategy, Setup.world])
  | bound setup options service provider =>
    let w : World := { setup.world strategyScope with strategy := some (Strategy.awaiting options) }
    refine ⟨⟨w, [.settle none], .perform .inspect⟩, ⟨rfl, rfl, rfl, fun n r hr => ?_⟩,
      .of_still ((Still.refl w _ (.perform .inspect)).lookup_untimed _ _ rfl) rfl⟩
    exact absurd hr (by simp [World.clockwork?, w, Setup.world])
  | @refresher setup provider timings reactions w h =>
    have hcheck : timings.check = .ok () := by
      rw [openRefresher] at h
      rcases hcheck : timings.check with failure | u
      · rw [hcheck] at h
        cases h
      · rfl
    rw [openRefresher_eq_ok h]
    let w : World := { setup.world refresherScope with
      refreshers := [Refresher.idle provider .callback timings]
      callback := some ⟨reactions, 0, [], []⟩ }
    refine ⟨⟨w, [], .deliver (.ok .nothing)⟩, ⟨rfl, rfl, rfl, fun n r hr => ?_⟩,
      .of_still (Still.refl w [] _) rfl⟩
    cases n with
    | zero =>
      cases hr
      exact ⟨provider, .callback, timings, hcheck, rfl⟩
    | succ n => exact absurd hr (by simp [World.clockwork?, w])

/-! ### All points of a session -/

theorem Reachable.numbered (h : Reachable m) : m.Numbered := by
  refine h.induction (fun m hopen => ?_) fun a b ha hnumbered hl => ?_
  · obtain ⟨x, hblank, hbeats⟩ := hopen.exists_blank
    exact hbeats.numbered hblank.numbered
  · obtain ⟨beat, hbeats⟩ := hnumbered.exists_beats ha.backed hl
    exact hbeats.numbered hnumbered

/-- **One point of a session leads to another by a beat.** -/
theorem Reachable.exists_beats (h : Reachable m) (hl : Leads m m') : ∃ b, Beats b m m' :=
  h.numbered.exists_beats h.backed hl

/-- **What holds before a session and is kept by every beat holds at every reachable point.** -/
theorem Reachable.induction_beats {P : Machine → Prop} (hblank : ∀ m, m.Blank → P m)
    (hbeats : ∀ b m m', P m → Beats b m m' → P m') (h : Reachable m) : P m := by
  refine h.induction (fun m hopen => ?_) fun a b ha hP hl => ?_
  · obtain ⟨x, hx, hx'⟩ := hopen.exists_blank
    exact hbeats _ _ _ (hblank x hx) hx'
  · obtain ⟨beat, hbeat⟩ := ha.exists_beats hl
    exact hbeats _ _ _ hP hbeat

theorem Blank.timekept (hm : m.Blank) : m.world.Timekept := by
  have hhandles : m.world.handles = [] := by rw [World.handles, hm.timers]; rfl
  refine ⟨⟨by rw [hhandles]; exact List.nodup_nil, fun handle hmem => ?_, fun t ht => ?_⟩,
    fun n i => ?_, fun n i hi => ?_, fun n r hr _ => ?_, fun n r hr => ?_⟩
  · rw [hhandles] at hmem
    exact absurd hmem List.not_mem_nil
  · rw [hm.timers] at ht
    exact absurd ht List.not_mem_nil
  · rw [hhandles, World.delayOf]
    refine ⟨fun hmem => absurd hmem List.not_mem_nil, fun hi => ?_⟩
    obtain ⟨r, hr, hdelay⟩ := Option.bind_eq_some_iff.mp hi
    obtain ⟨provider, handler, timings, -, rfl⟩ := hm.idle n r hr
    cases hdelay
  · obtain ⟨r, hr, hperiod⟩ := Option.bind_eq_some_iff.mp hi
    obtain ⟨provider, handler, timings, -, rfl⟩ := hm.idle n r hr
    cases hperiod
  · obtain ⟨provider, handler, timings, -, rfl⟩ := hm.idle n r hr
    rfl
  · obtain ⟨provider, handler, timings, hcheck, rfl⟩ := hm.idle n r hr
    exact hcheck

/-- **What timers and refreshers know of each other**, everywhere. -/
theorem Reachable.timekept (h : Reachable m) : m.world.Timekept :=
  h.induction_beats (P := fun m => m.world.Timekept) (fun _ hm => hm.timekept)
    fun _ _ _ hm hb => hb.timekept hm

/-! ### Marks -/

theorem Beats.flights_eq (h : Beats b m m') (n : Nat) :
    Session.flights n b.taken + m'.flights n = Session.flights n (b.given m.world) + m.flights n := by
  rw [h.still.flights, flights_append]
  rfl

/-- **The mark of a refresher says whether a cycle that a timer began is in flight**; there is never
more than one. -/
theorem Reachable.marked (h : Reachable m) (n : Nat) : m.flights n = (m.world.inFlight n).toNat := by
  refine h.induction_beats (P := fun m => m.flights n = (m.world.inFlight n).toNat) (fun m hm => ?_)
    fun b m m' hm hb => ?_
  · have hnone : m.world.inFlight n = false := by
      rw [World.inFlight, Option.any_eq_false]
      intro r hr
      obtain ⟨provider, handler, timings, -, rfl⟩ := hm.idle n r hr
      simp [Refresher.idle]
    rw [flights, hm.tokens, hnone]
    rfl
  have hflights := hb.flights_eq n
  have hafter : m'.world.inFlight n = (b.world m.world).inFlight n := by
    rw [World.inFlight, hb.still.time.clockwork, World.inFlight]
  rw [hafter]
  by_cases hrelease : b = .release n
  · subst hrelease
    have hdone : (Beat.world (.release n) m.world).inFlight n = false := by
      rw [World.inFlight, Beat.world, World.clockwork?_modifyRefresher m.world
        (g := fun r => { r with inFlight := false }) (fun _ => rfl), if_pos rfl, Option.any_map]
      cases m.world.clockwork? n <;> rfl
    have htaken : Session.flights n (Beat.taken (.release n)) = 1 := by
      simp [Session.flights, Beat.taken]
    have hle := Bool.toNat_le (m.world.inFlight n)
    rw [hdone, Bool.toNat_false]
    rw [htaken, hm] at hflights
    have hgiven : Session.flights n (Beat.given (.release n) m.world) = 0 := rfl
    omega
  have htaken : Session.flights n b.taken = 0 := by
    cases b with
    | release refresher =>
      have hne : refresher ≠ n := fun heq => hrelease (heq ▸ rfl)
      simp [Session.flights, Beat.taken, hne]
    | _ => rfl
  by_cases hstrike : ∃ t, b = .strike t ∧ t.owner.refresher? = some n
  · obtain ⟨t, rfl, howner⟩ := hstrike
    have hgiven : Session.flights n (Beat.given (.strike t) m.world) = _ := m.world.flights_struck t n
    rw [hgiven, htaken, hm] at hflights
    rw [show Beat.world (.strike t) m.world = m.world.strike t from rfl, World.inFlight_strike _ howner]
    simp only [howner, true_and] at hflights
    cases hthere : m.world.clockwork? n with
    | none =>
      rw [World.inFlight, hthere] at hflights
      simpa using hflights
    | some r =>
      rw [hthere] at hflights
      cases hmark : m.world.inFlight n <;> rw [hmark] at hflights <;> simpa using hflights
  · have hgiven : Session.flights n (b.given m.world) = 0 := by
      cases b with
      | strike t =>
        rw [Beat.given, World.flights_struck, if_neg fun h => hstrike ⟨t, rfl, h.1⟩]
      | _ => rfl
    rw [b.inFlight_world m.world hrelease fun t ht howner => hstrike ⟨t, ht, howner⟩]
    omega

/-! ### First polls -/

/-- **The first poll of a refresher is being made**: its naming service has not returned yet. -/
def Inside (m : Machine) (number : Nat) : Prop := number ∈ m.arms

instance (m : Machine) (number : Nat) : Decidable (m.Inside number) :=
  inferInstanceAs (Decidable (number ∈ m.arms))

/-- **First polls begin and end** with beats. -/
theorem Beats.arms_eq (h : Beats b m m') : b.armed ++ m'.arms = b.arming ++ m.arms := by
  obtain ⟨fs, hstack, hnone⟩ := h.still.stack
  have hfs : fs.filterMap Frame.arm? = [] := List.filterMap_eq_nil_iff.mpr hnone
  have hafter : m'.arms = (m.base b).filterMap Frame.arm? := by
    rw [arms, hstack, List.filterMap_append, hfs, List.nil_append]
  rw [hafter]
  cases b with
  | strike t =>
    rw [base, List.filterMap_append, Beat.arming]
    refine congrArg (_ ++ ·) ?_
    rw [arms]
    cases m.stack with
    | nil => rfl
    | cons f k => rfl
  | _ => exact h.frames.symm

/-- How many first polls of one refresher are being made. -/
theorem Beats.count_arms (h : Beats b m m') (n : Nat) :
    b.armed.count n + m'.arms.count n = b.arming.count n + m.arms.count n := by
  rw [← List.count_append, h.arms_eq, List.count_append]

theorem count_armed (harm : b ≠ .arm n) : b.armed.count n = 0 := by
  cases b with
  | arm refresher => exact List.count_singleton.trans (if_neg (by simpa using harm))
  | _ => rfl

theorem count_arming (hstrike : ∀ t, b = .strike t → t.owner ≠ .delay n) : b.arming.count n = 0 := by
  cases b with
  | strike t =>
    have howner := hstrike t rfl
    rw [Beat.arming, Timer.armed]
    cases ho : t.owner with
    | delay k => exact List.count_singleton.trans (if_neg fun heq => howner (by rw [ho, beq_iff_eq.mp heq]))
    | _ => rfl
  | _ => rfl

theorem count_arming_of_delay {t : Timer} (howner : t.owner = .delay n) :
    (Beat.arming (.strike t)).count n = 1 := by
  rw [Beat.arming, Timer.armed, howner]
  exact List.count_singleton.trans (if_pos (beq_self_eq_true n))

/-- **First polls of a refresher go on** in any beat that neither begins nor ends one. -/
theorem Beats.count_arms_eq (h : Beats b m m') (harm : b ≠ .arm n)
    (hstrike : ∀ t, b = .strike t → t.owner ≠ .delay n) : m'.arms.count n = m.arms.count n := by
  have hcount := h.count_arms n
  rw [count_armed harm, count_arming hstrike] at hcount
  omega

/-! ### A session -/

/-- **A session of a refresher that polls every second** a naming service with a script. -/
def secondly (registry : Registry) (script : List Response) (reactions : List Reaction) : World :=
  let setup : Setup := ⟨.zero, ⟨none, none⟩, false, .ofList [("registry", ⟨registry, script⟩)]⟩
  { setup.world refresherScope with
    refreshers := [Refresher.idle (some "registry") .callback ⟨.ofNat 1000, .ofNat 1000⟩]
    callback := some ⟨reactions, 0, [], []⟩ }

theorem opens_secondly (registry : Registry) (script : List Response) (reactions : List Reaction) :
    Opens ⟨secondly registry script reactions, [], .deliver (.ok .nothing)⟩ := by
  let setup : Setup := ⟨.zero, ⟨none, none⟩, false, .ofList [("registry", ⟨registry, script⟩)]⟩
  have hcheck : Timings.check ⟨.ofNat 1000, .ofNat 1000⟩ = .ok () := by decide +kernel
  have hopen : openRefresher setup (some "registry") ⟨.ofNat 1000, .ofNat 1000⟩ reactions =
      .ok (secondly registry script reactions) := by
    rw [openRefresher, hcheck]
    rfl
  exact .refresher hopen

end Machine

end Balancer.Session
