import Balancer.Proofs.Session.Membership

/-!
# A strategy that waits for its first list

A strategy that is to follow a service is building until its first lookup has ended. Until then no
step reaches it, so that nothing is asked a second time and nothing polls; the only change of its
membership is to take the list that the lookup was answered with.

* `Balancer.Session.World.Awaits` – **what is known while the strategy is building.**
* `Balancer.Session.Machine.Reachable.awaits` – it is so at every point of a session.
* `Balancer.Session.Machine.Reachable.alteration_of_building` – **the only change of the
  membership.**
-/

namespace Balancer.Session

/-! ### Worlds -/

/-- **What is known while the strategy waits for its first list**: nothing polls, and no lookup was
made but the first one. -/
structure World.Awaits (w : World) : Prop where
  /-- There is no refresher. -/
  refreshers : w.refreshers = []
  /-- There is no callback. -/
  callback : w.callback = none
  /-- One lookup was made. -/
  lookupCount : w.lookupCount = 1

namespace World

variable {w w' : World}

theorem Awaits.of_eq (h : w.Awaits) (hrefreshers : w'.refreshers = w.refreshers)
    (hcallback : w'.callback = w.callback) (hcount : w'.lookupCount = w.lookupCount) : w'.Awaits :=
  ⟨hrefreshers.trans h.refreshers, hcallback.trans h.callback, hcount.trans h.lookupCount⟩

theorem Awaits.emit (h : w.Awaits) (e : Event) : (w.emit e).Awaits := h.of_eq rfl rfl rfl

theorem Awaits.log (h : w.Awaits) (level : Level) (message : String) (failure : Option Failure) :
    (w.log level message failure).1.Awaits := by
  rw [World.log]
  split
  · exact h.emit _
  · split
    · exact h.emit _
    · exact h

theorem Awaits.logFailure (h : w.Awaits) (failure : Failure) : (w.logFailure failure).1.Awaits := by
  rw [World.logFailure]
  cases failure.reason with
  | ok reason => exact h.log _ _ _
  | error thrown => exact h

theorem Awaits.modifyStrategy (h : w.Awaits) (f : Strategy → Strategy) :
    (w.modifyStrategy f).Awaits :=
  h.of_eq rfl rfl rfl

theorem Awaits.modifyProvider (h : w.Awaits) (name : String) (f : Provider → Provider) :
    (w.modifyProvider name f).Awaits :=
  h.of_eq rfl rfl rfl

theorem Awaits.dequeue (h : w.Awaits) (jobs : List Job) : ({ w with jobs := jobs } : World).Awaits :=
  h.of_eq rfl rfl rfl

theorem Awaits.modifyRefresher (h : w.Awaits) (number : Nat) (f : Refresher → Refresher) :
    (w.modifyRefresher number f).Awaits := by
  refine h.of_eq ?_ rfl rfl
  show w.refreshers.modify number f = w.refreshers
  rw [h.refreshers]
  exact List.modify_nil ..

theorem Awaits.stopPolling_eq (h : w.Awaits) : w.stopPolling = w := by
  rw [stopPolling]
  split
  · rfl
  · rw [stopRefresher, h.refreshers]
    rfl

theorem Awaits.endCycle (h : w.Awaits) (refresher : Nat) (origin : Origin)
    (outcome : Except Failure Unit) : (w.endCycle refresher origin outcome).Awaits := by
  cases origin <;> exact h.of_eq rfl rfl rfl

theorem Awaits.failCycle (h : w.Awaits) (refresher : Nat) (origin : Origin) (failure : Failure) :
    (w.failCycle refresher origin failure).Awaits :=
  (h.logFailure failure).endCycle _ _ _

/-- After a call that binds the strategy has ended, the strategy is not building. -/
theorem built_of_endBinding {call : Nat} {outcome : Except Failure Unit} {s : Strategy}
    (h : (w.endBinding call outcome).strategy = some s) : s.building = false := by
  cases outcome with
  | ok =>
    obtain ⟨s₀, -, rfl⟩ := Option.map_eq_some_iff.mp h
    rfl
  | error => simpa using (Option.filter_eq_some_iff.mp h).2

end World

/-! ### The machine -/

/-- The strategy waits for its first list at a point. -/
def Machine.Awaiting (m : Machine) : Prop := m.world.Awaits

theorem World.Awaits.awaiting {w : World} (h : w.Awaits) {k : List Frame} {c : Control} :
    Machine.Awaiting ⟨w, k, c⟩ := h

namespace Machine

variable {w : World} {k : List Frame} {m m' : Machine}

theorem awaiting_of_eq (h : w.Awaits) (hrefreshers : m.world.refreshers = w.refreshers)
    (hcallback : m.world.callback = w.callback) (hcount : m.world.lookupCount = w.lookupCount) :
    m.Awaiting :=
  h.of_eq hrefreshers hcallback hcount

theorem awaiting_runScript (h : w.Awaits) (steps : List Step) :
    Awaiting (runScript w k steps) := by
  cases steps <;> exact h.awaiting

theorem awaiting_goOn (h : w.Awaits) (cycle : Cycle) : Awaiting (goOn w k cycle) := by
  rw [goOn, h.refreshers]
  exact h

theorem awaiting_tick (h : w.Awaits) (number : Nat) : Awaiting (tick w k number) := by
  rw [tick, h.refreshers]
  exact h

theorem awaiting_fire (h : w.Awaits) (t : Timer) : Awaiting (fire w k t) := by
  have hreach : (w.reach t).Awaits := h.of_eq rfl rfl rfl
  unfold fire
  dsimp only
  split
  · exact awaiting_tick (hreach.modifyRefresher _ _) _
  · exact awaiting_tick hreach _
  · exact hreach

theorem awaiting_notify (h : w.Awaits) (change : Membership) : Awaiting (notify w k change) := by
  rw [notify]
  split
  · exact h
  · split
    · exact awaiting_runScript ((h.emit _).modifyStrategy _) _
    · exact h

theorem awaiting_work (h : w.Awaits) (job : Job) : Awaiting (work w k job) := by
  unfold work
  split
  · exact awaiting_of_eq h rfl rfl rfl
  · dsimp only
    rw [h.stopPolling_eq]
    exact awaiting_notify ((h.modifyStrategy _).modifyStrategy _) _
  · exact (h.failCycle _ _ _).awaiting
  · exact awaiting_goOn h _
  · exact awaiting_goOn h _
  · exact (h.failCycle _ _ _).awaiting
  · exact (h.log _ _ _).awaiting
  · exact (h.modifyRefresher _ _).awaiting

theorem awaiting_answer (h : w.Awaits) (provider : String) (number : Nat) (services : List String)
    (caller : Caller) (reply : Answer) :
    Awaiting (answer w k provider number services caller reply) := by
  have hcounted : ({ w with callCount := w.callCount + 1 } : World).Awaits := h.of_eq rfl rfl rfl
  unfold answer
  cases caller with
  | binding service => cases reply <;> exact awaiting_of_eq h rfl rfl rfl
  | poll refresher generation =>
    cases reply with
    | throws failure => exact (h.failCycle _ _ _).awaiting
    | _ => exact awaiting_of_eq h rfl rfl rfl
  | refresh refresher generation =>
    cases reply with
    | throws failure => exact (hcounted.failCycle _ _ _).awaiting
    | _ => exact awaiting_of_eq h rfl rfl rfl

/-- What returned is taken up: where the strategy begins to poll, it is no longer building. -/
theorem awaiting_resume (h : w.Awaits) {f : Frame} {outcome : Outcome} {s : Strategy}
    (hs : (resume w k outcome f).world.strategy = some s) (hbuilding : s.building = true) :
    Awaiting (resume w k outcome f) := by
  cases f with
  | script rest =>
    exact awaiting_runScript (h.emit _) _
  | listener ending =>
    cases ending with
    | throws failure => exact (h.log _ _ _).awaiting
    | _ => exact awaiting_of_eq h rfl rfl rfl
  | lookup => exact awaiting_answer h _ _ _ _ _
  | callback number cycle ending =>
    cases ending with
    | throws failure => exact (h.failCycle _ _ _).awaiting
    | pending | deferred =>
      refine h.of_eq rfl ?_ rfl
      show w.callback.map _ = w.callback
      rw [h.callback]
      rfl
    | _ => exact awaiting_of_eq h rfl rfl rfl
  | taken cycle =>
    cases outcome with
    | ok result => exact awaiting_of_eq h rfl rfl rfl
    | error failure => exact (h.failCycle _ _ _).awaiting
  | bound call timings =>
    have hbuilt : s.building = false := by
      cases outcome with
      | error failure => exact World.built_of_endBinding hs
      | ok result => cases timings <;> exact World.built_of_endBinding hs
    rw [hbuilt] at hbuilding
    exact absurd hbuilding Bool.false_ne_true
  | arm refresher =>
    rw [resume, World.armPeriod, h.refreshers]
    exact h
  | advance time settling =>
    unfold resume
    dsimp only
    split
    · exact awaiting_work (h.dequeue _) _
    · split
      · exact awaiting_fire h _
      · exact awaiting_of_eq h rfl rfl rfl
  | settle first =>
    unfold resume
    dsimp only
    split
    · exact awaiting_work (h.dequeue _) _
    · exact h

/-- No step reaches a strategy that is building, and there is no other refresher to drive. -/
theorem awaiting_perform (h : w.Awaits) (hs : w.strategy? = none) (step : Step) :
    Awaiting (perform w k step) := by
  unfold perform
  split
  · exact h
  · exact awaiting_of_eq h rfl rfl rfl
  · exact awaiting_of_eq h rfl rfl rfl
  · exact awaiting_of_eq h rfl rfl rfl
  · exact awaiting_of_eq h rfl rfl rfl
  · rw [settle]
    split
    · exact h
    · exact awaiting_of_eq h rfl rfl rfl
  · rw [h.callback, hs]
    split <;> exact h

theorem strategy?_of_building {s : Strategy} (hs : w.strategy = some s)
    (hbuilding : s.building = true) : w.strategy? = none := by
  rw [World.strategy?, hs, Option.filter_some, hbuilding]
  rfl

/-- A strategy that is building was building before. -/
theorem Reachable.building_before (h : Reachable m) (hl : Leads m m') {s' : Strategy}
    (hs' : m'.world.strategy = some s') (hbuilding : s'.building = true) :
    ∃ s, m.world.strategy = some s ∧ s.building = true := by
  have hevolves : ∃ f, Strategy.Evolves f m.world.strategy (some s') := by
    rcases leads_iff.mp hl with rfl | henters
    · exact ⟨_, hs' ▸ h.evolves_next⟩
    · exact ⟨_, hs' ▸ h.evolves_of_enters henters⟩
  obtain ⟨f, hf⟩ := hevolves
  generalize hbefore : m.world.strategy = before at hf
  cases hf with
  | kept rotation building => exact ⟨_, rfl, building hbuilding⟩

/-- **While the strategy is building, it awaits its first list.** -/
theorem Reachable.awaits (h : Reachable m) {s : Strategy} (hs : m.world.strategy = some s)
    (hbuilding : s.building = true) : m.world.Awaits := by
  refine h.induction (P := fun m => ∀ s, m.world.strategy = some s → s.building = true →
    m.world.Awaits) ?_ ?_ s hs hbuilding
  · intro m hopen s hs hbuilding
    cases hopen with
    | strategy setup options weights =>
      cases hs
      exact absurd hbuilding Bool.false_ne_true
    | bound setup options service provider =>
      have hasked : ({ setup.world strategyScope with
          strategy := some (Strategy.awaiting options), lookupCount := 1 } : World).Awaits :=
        ⟨rfl, rfl, rfl⟩
      exact awaiting_runScript ((hasked.emit _).modifyProvider _ _) _
    | refresher hopen =>
      rw [openRefresher_eq_ok hopen] at hs
      cases hs
  · intro m m' hreach ih hl s' hs' hbuilding'
    obtain ⟨s, hs, hbuilding⟩ := hreach.building_before hl hs' hbuilding'
    have hm : m.world.Awaits := ih s hs hbuilding
    rcases leads_iff.mp hl with rfl | henters
    · obtain ⟨w, k, step | outcome⟩ := m
      · exact awaiting_perform hm (strategy?_of_building hs hbuilding) step
      · cases k with
        | nil => exact hm
        | cons f k => exact awaiting_resume hm hs' hbuilding'
    · cases henters with
      | perform => exact hm
      | interject => exact hm
      | fire => exact awaiting_fire hm _

/-- **The only change that a building strategy makes** is to take the list that its first lookup was
answered with. -/
theorem Reachable.alteration_of_building (h : Reachable m) {s : Strategy}
    (hs : m.world.strategy = some s) (hbuilding : s.building = true) {a : Alteration}
    (ha : m.alteration? = some a) :
    m.world.lookupCount = 1 ∧ ∃ call service provider listing,
      m.job? = some (.answered (.binding call service provider) (.ok listing)) ∧
      a = .reset service (listed listing service) := by
  have hawaits := h.awaits hs hbuilding
  refine ⟨hawaits.lookupCount, ?_⟩
  obtain ⟨w, k, step | outcome⟩ := m
  · obtain ⟨s₀, hs₀, -⟩ := Option.bind_eq_some_iff.mp ha
    exact absurd ((strategy?_of_building hs hbuilding).symm.trans hs₀) (by simp)
  · obtain ⟨job, hjob, hjoba⟩ := Option.bind_eq_some_iff.mp ha
    rcases Option.or_eq_some_iff.mp hjoba with hbinds | ⟨-, hresumes⟩
    · unfold Job.alteration? at hbinds
      split at hbinds
      · next call service provider listing =>
        cases hbinds
        exact ⟨call, service, provider, listing, hjob, rfl⟩
      · cases hbinds
    · -- no cycle goes on without a refresher
      obtain ⟨cycle, -, hcyclea⟩ := Option.bind_eq_some_iff.mp hresumes
      obtain ⟨r, -, hr, -⟩ := World.alteration?_eq_some.mp hcyclea
      have hrefreshers : w.refreshers = [] := hawaits.refreshers
      rw [hrefreshers] at hr
      cases hr

end Machine

end Balancer.Session
