import Balancer.Proofs.Session.Sync

/-!
# The rotation along a session

Four steps touch the rotation, and two kinds of waiting work: a lookup that binds the strategy, and
a cycle that found a changed list. Everything else – what reads, polling that begins or ends, a
lookup that is open or fails, a cycle that finds nothing new, whatever a listener does – leaves it
as it is. This file says exactly which transition makes what of it, and packages the induction over
a stretch of a session.

* `Balancer.Session.Machine.replacement?` – the endpoints that the next transition replaces all
  targets with, if it does.
* `Balancer.Session.Machine.rotate` – **what the next transition makes of the rotation**, which is
  what `Balancer.Session.Machine.Reachable.evolves_next` says.
* `Balancer.Session.Machine.Stretch` – **a stretch of a session**, with what it is watched for.
* `Balancer.Session.Machine.Stretch.keeps` – what every transition of a stretch keeps.
-/

namespace Balancer.Session

/-! ### Strategies whose rotation evolves -/

/-- **A rotation evolves** while its strategy is kept, or the strategy is given up while it is
building. -/
inductive Strategy.Evolves (f : Rotation → Rotation) : Option Strategy → Option Strategy → Prop
  /-- There is none. -/
  | absent : Evolves f none none
  /-- It is kept. -/
  | kept {s s' : Strategy} (rotation : s'.rotation = f s.rotation)
      (building : s'.building = true → s.building = true) : Evolves f (some s) (some s')
  /-- It is given up. -/
  | lost {s : Strategy} (building : s.building = true) : Evolves f (some s) none

/-- The rotation evolves where the strategy changes, and is kept after that. -/
theorem Strategy.Kept.evolves_of {f : Rotation → Rotation} {s s₁ : Strategy} {s' : Option Strategy}
    (h : Kept (some s₁) s') (hrotation : s₁.rotation = f s.rotation)
    (hbuilding : s₁.building = true → s.building = true) : Evolves f (some s) s' := by
  cases h with
  | kept agrees =>
    exact .kept (agrees.rotation.trans hrotation) fun hb => hbuilding (agrees.building hb)
  | lost building => exact .lost (hbuilding building)

/-- So does one that is kept before as well. -/
theorem Strategy.Kept.evolves_map {f : Rotation → Rotation} {g : Strategy → Strategy}
    {s x s' : Option Strategy} (before : Kept s x) (after : Kept (x.map g) s')
    (hrotation : ∀ s, (g s).rotation = f s.rotation)
    (hbuilding : ∀ s, (g s).building = s.building) : Evolves f s s' := by
  cases before with
  | absent =>
    cases after
    exact .absent
  | @kept s x agrees =>
    refine after.evolves_of ?_ fun hb => agrees.building ((hbuilding x).symm.trans hb)
    rw [hrotation x, agrees.rotation]
  | lost building =>
    cases after
    exact .lost building

theorem Strategy.Kept.evolves {s s' : Option Strategy} (h : Kept s s') : Evolves id s s' := by
  cases h with
  | absent => exact .absent
  | kept agrees => exact .kept agrees.rotation agrees.building
  | lost building => exact .lost building

theorem Strategy.Evolves.exists_of_some {f : Rotation → Rotation} {s : Option Strategy}
    {s' : Strategy} (h : Evolves f s (some s')) :
    ∃ s₀, s = some s₀ ∧ s'.rotation = f s₀.rotation := by
  cases h with
  | kept rotation => exact ⟨_, rfl, rotation⟩

/-- A strategy that is built stays so. -/
theorem Strategy.Evolves.exists_of_built {f : Rotation → Rotation} {s : Strategy}
    {s' : Option Strategy} (h : Evolves f (some s) s') (hbuilt : s.building = false) :
    ∃ s₁, s' = some s₁ ∧ s₁.building = false := by
  cases h with
  | kept _ building =>
    refine ⟨_, rfl, Bool.eq_false_iff.mpr fun hb => ?_⟩
    exact absurd (building hb) (by rw [hbuilt]; exact Bool.false_ne_true)
  | lost building => exact absurd building (by rw [hbuilt]; exact Bool.false_ne_true)

/-! ### What a transition makes of the rotation -/

/-- Whether a step may touch the rotation. -/
def Step.touches : Step → Bool
  | .elect _ | .remove _ | .recover _ | .reset .. => true
  | _ => false

/-- **What a step makes of a rotation** without replacing the targets. -/
def Step.rotate (step : Step) (r : Rotation) : Rotation :=
  match step with
  | .elect times => (Machine.electTimes times #[] r).toOption.elim r Prod.snd
  | .remove target => (r.remove? target).getD r
  | .recover target => (r.recover? target).getD r
  | _ => r

/-- The endpoints that a step replaces all targets with. -/
def Step.resets? : Step → Option (List Endpoint)
  | .reset _ endpoints => some endpoints
  | _ => none

/-- The endpoints that a lookup has returned for the service to bind. -/
def Job.binds? : Job → Option (List Endpoint)
  | .answered (.binding _ service _) (.ok listing) => some (Machine.listed listing service)
  | _ => none

/-- The endpoints of the changed list that a cycle goes on to hand to the strategy: its run has not
ended, and the log call goes through. -/
def World.hands? (w : World) (cycle : Cycle) : Option (List Endpoint) :=
  (w.refreshers[cycle.refresher]?).bind fun r =>
    if r.generation = cycle.generation ∧ r.handler = .strategy ∧ w.logs = true then
      (r.nextChange? cycle.latest cycle.remaining).map Refresher.Change.endpoints
    else none

theorem Rotates.touches {step : Step} {r r' : Rotation} (h : Rotates step r r') :
    step.touches = true := by
  cases h <;> rfl

theorem Step.resets?_of_not_touches {step : Step} (h : step.touches = false) :
    step.resets? = none := by
  cases step with
  | reset => exact absurd h (by simp [touches])
  | _ => rfl

theorem Step.rotate_of_not_touches {step : Step} (h : step.touches = false) (r : Rotation) :
    step.rotate r = r := by
  cases step with
  | elect => exact absurd h (by simp [touches])
  | remove => exact absurd h (by simp [touches])
  | recover => exact absurd h (by simp [touches])
  | _ => rfl

namespace Machine

variable {m m' x y : Machine}

/-- **The step that is performed on the strategy next**, if one is. -/
def step? (m : Machine) : Option Step :=
  match m.control with
  | .perform step => if m.world.strategy?.isSome then some step else none
  | .deliver _ => none

/-- **The endpoints that the next transition replaces all targets with**, if it does: a step resets
them, a lookup that binds the strategy has ended, or a cycle hands over a changed list. -/
def replacement? (m : Machine) : Option (List Endpoint) :=
  match m.control with
  | .perform _ => m.step?.bind Step.resets?
  | .deliver _ => m.job?.bind fun job => job.binds?.or (job.resumed?.bind m.world.hands?)

/-- **What the next transition makes of the rotation.** -/
def rotate (m : Machine) (r : Rotation) : Rotation :=
  match m.replacement? with
  | some endpoints => .ofEndpoints endpoints
  | none => m.step?.elim r fun step => step.rotate r

theorem control_of_step? {step : Step} (h : m.step? = some step) :
    m.control = .perform step ∧ m.world.strategy?.isSome = true := by
  unfold step? at h
  split at h
  · next step' heq =>
    split at h
    · next hsome =>
      cases h
      exact ⟨heq, hsome⟩
    · exact absurd h (by simp)
  · exact absurd h (by simp)

theorem step?_of_control {step : Step} (h : m.control = .perform step)
    (hbuilt : m.world.strategy?.isSome = true) : m.step? = some step := by
  rw [step?, h]
  exact if_pos hbuilt

theorem rotate_of_replacement {endpoints : List Endpoint} (h : m.replacement? = some endpoints)
    (r : Rotation) : m.rotate r = .ofEndpoints endpoints := by
  rw [rotate, h]

theorem rotate_of_step {step : Step} (h : m.replacement? = none) (hstep : m.step? = some step)
    (r : Rotation) : m.rotate r = step.rotate r := by
  rw [rotate, h, hstep]
  rfl

theorem rotate_of_still (h : m.replacement? = none) (hstep : m.step? = none) : m.rotate = id := by
  refine funext fun r => ?_
  rw [rotate, h, hstep]
  rfl

/-! ### Every transition -/

/-- An act on the strategy, with calm before and after. -/
theorem Calm.evolves {f : Rotation → Rotation} {g : Strategy → Strategy} (before : Calm m x)
    (hact : y.world.strategy = x.world.strategy.map g) (after : Calm y m')
    (hrotation : ∀ s, (g s).rotation = f s.rotation)
    (hbuilding : ∀ s, (g s).building = s.building) :
    Strategy.Evolves f m.world.strategy m'.world.strategy :=
  before.strategy.evolves_map (hact ▸ after.strategy) hrotation hbuilding

/-- No job is done where a step is performed. -/
theorem job?_of_perform {step : Step} (h : m.control = .perform step) : m.job? = none := by
  unfold job?
  split <;> simp_all

/-- **What leaves the rotation alone**: no step touches it, no lookup binds the strategy, and no
cycle finds a changed list to hand to it. -/
theorem Turn.evolves_id (h : Turn m m')
    (hstep : ∀ step, m.control = .perform step → step.touches = false)
    (hbinds : m.job?.bind Job.binds? = none)
    (hfinds : ∀ cycle r, m.resumed? = some cycle → m.world.core? cycle.refresher = some r →
      r.generation = cycle.generation → r.handler = .strategy →
      r.nextChange? cycle.latest cycle.remaining = none) :
    Strategy.Evolves id m.world.strategy m'.world.strategy := by
  have hsame : ∀ {x y : Machine}, Calm m x → Calm y m' → y.world.strategy = x.world.strategy →
      Strategy.Evolves id m.world.strategy m'.world.strategy := by
    intro x y before after hact
    exact before.evolves (g := id) (hact.trans (congrFun Option.map_id _).symm) after
      (fun _ => rfl) fun _ => rfl
  cases h with
  | calm h => exact h.strategy.evolves
  | rotate control _ _ rotates =>
    exact absurd (rotates.touches.symm.trans (hstep _ control)) Bool.noConfusion
  | reset control => exact absurd (hstep _ control) Bool.noConfusion
  | rebind job =>
    rw [job] at hbinds
    exact absurd hbinds (by simp [Job.binds?])
  | @start x services _ _ before after =>
    exact hsame before after (x.world.strategy_startRefresher 0 services)
  | @stop x number _ before after =>
    exact hsame before after (x.world.strategy_stopRefresher number)
  | @poll x _ binding timings _ before _ _ _ _ after =>
    exact before.evolves (g := fun s => s.pollBy x.world.refreshers.length timings)
      (x.world.strategy_pollWith binding timings) after (fun _ => rfl) fun _ => rfl
  | ask before _ _ _ _ after => exact hsame before after rfl
  | take finds held handler before after =>
    have happlies := applies_take finds held before after
    have hnone := hfinds _ _ happlies.resumed happlies.found happlies.generation handler
    exact absurd (hnone.symm.trans happlies.first) (by simp)
  | callBack _ _ _ before _ after => exact hsame before after rfl

/-- A job that leads on to a cycle takes the cycle up. -/
theorem work_of_resumed {job : Job} {cycle : Cycle} (h : job.resumed? = some cycle) (w : World)
    (k : List Frame) : work w k job = goOn w k cycle := by
  unfold Job.resumed? at h
  split at h
  · cases h
    rfl
  · cases h
    rfl
  · exact absurd h (by simp)

theorem hands?_eq_some {w : World} {cycle : Cycle} {endpoints : List Endpoint}
    (h : w.hands? cycle = some endpoints) :
    ∃ r change, w.refreshers[cycle.refresher]? = some r ∧ r.generation = cycle.generation ∧
      r.handler = .strategy ∧ w.logs = true ∧
      r.nextChange? cycle.latest cycle.remaining = some change ∧ change.endpoints = endpoints := by
  obtain ⟨r, hr, hhands⟩ := Option.bind_eq_some_iff.mp h
  split at hhands
  · next hgoes =>
    obtain ⟨change, hchange, heq⟩ := Option.map_eq_some_iff.mp hhands
    exact ⟨r, change, hr, hgoes.1, hgoes.2.1, hgoes.2.2, hchange, heq⟩
  · exact absurd hhands (by simp)

/-- Where a cycle goes on for the strategy and hands nothing over, it finds nothing new. -/
theorem nextChange?_eq_none_of_hands? {w : World} {cycle : Cycle} {r : Refresher}
    (h : w.hands? cycle = none) (hlogs : w.logs = true) (hr : w.core? cycle.refresher = some r)
    (hgeneration : r.generation = cycle.generation) (hhandler : r.handler = .strategy) :
    r.nextChange? cycle.latest cycle.remaining = none := by
  obtain ⟨r, hfound, rfl⟩ := Option.map_eq_some_iff.mp hr
  have hgoes : r.generation = cycle.generation ∧ r.handler = .strategy ∧ w.logs = true :=
    ⟨hgeneration, hhandler, hlogs⟩
  rw [World.hands?, hfound, Option.bind_some, if_pos hgoes] at h
  rw [Refresher.nextChange?_core]
  exact Option.map_eq_none_iff.mp h

/-- **A cycle that hands over a changed list** replaces all targets. -/
theorem evolves_of_hands {job : Job} {cycle : Cycle} {endpoints : List Endpoint}
    (hjob : m.job? = some job) (hresumed : job.resumed? = some cycle)
    (hhands : m.world.hands? cycle = some endpoints) :
    Strategy.Evolves (fun _ => .ofEndpoints endpoints) m.world.strategy m.next.world.strategy := by
  obtain ⟨r, change, hr, hgeneration, hhandler, hlogs, hchange, rfl⟩ := hands?_eq_some hhands
  obtain ⟨jobs, k, hcalm, hnext⟩ := exists_next_eq_work hjob
  let w : World := { m.world with jobs := jobs }
  have hfound : w.refreshers[cycle.refresher]? = some r := hr
  rw [hnext, work_of_resumed hresumed, goOn_of_changed hfound hgeneration hchange, hhandler]
  obtain ⟨w', hsame, htook⟩ := calm_applyChange_of_logs (w := w) hlogs k m.control cycle change
  exact (hcalm.same hsame).evolves
    (g := fun s => s.replaceTargets change.service change.endpoints) rfl htook (fun _ => rfl)
    fun _ => rfl

/-- Where log calls fail a cycle changes nothing. -/
theorem calm_of_not_logs {job : Job} {cycle : Cycle} (hjob : m.job? = some job)
    (hresumed : job.resumed? = some cycle) (hlogs : m.world.logs = false) : Calm m m.next := by
  obtain ⟨jobs, k, hcalm, hnext⟩ := exists_next_eq_work hjob
  rw [hnext, work_of_resumed hresumed, goOn]
  split
  · exact hcalm.control
  · split
    · exact (hcalm.endCycle _ _ _).control
    · split
      · exact (hcalm.endCycle _ _ _).control
      · exact hcalm.applyChange_of_not_logs hlogs _ _ _

/-- **A lookup that binds the strategy** replaces all targets. -/
theorem evolves_of_binds {job : Job} {endpoints : List Endpoint} (hjob : m.job? = some job)
    (hbinds : job.binds? = some endpoints) :
    Strategy.Evolves (fun _ => .ofEndpoints endpoints) m.world.strategy m.next.world.strategy := by
  unfold Job.binds? at hbinds
  split at hbinds
  · next call service provider listing =>
    cases hbinds
    obtain ⟨x, before, after⟩ := exists_rebound hjob
    exact before.evolves (x.strategy_rebound call service provider listing) after (fun _ => rfl)
      fun _ => rfl
  · exact absurd hbinds (by simp)

/-! ### Steps on the strategy -/

/-- A step on the strategy that does not drive a refresher. -/
theorem next_of_strategy {w : World} {k : List Frame} {step : Step} {s : Strategy}
    (hs : w.strategy? = some s) (htouches : step.touches = true) :
    next ⟨w, k, .perform step⟩ = performStrategy w k s step := by
  cases step with
  | elect | remove | recover | reset =>
    simp only [next, perform, Step.drivesRefresher, Bool.false_eq_true, if_false, hs]
  | _ => exact absurd htouches Bool.false_ne_true

/-- Without a strategy that is built, such a step is refused. -/
theorem next_of_no_strategy {w : World} {k : List Frame} {step : Step}
    (hs : w.strategy? = none) (htouches : step.touches = true) :
    next ⟨w, k, .perform step⟩ = refuse w k .noStrategy := by
  cases step with
  | elect | remove | recover | reset =>
    simp only [next, perform, Step.drivesRefresher, Bool.false_eq_true, if_false, hs]
  | _ => exact absurd htouches Bool.false_ne_true

/-- A change of the membership is made, if there is one, and the listener is told. -/
theorem evolves_changeMembership {w : World} {k : List Frame} {s : Strategy}
    {f : Rotation → Rotation} {rotation : Option Rotation} (hs : w.strategy = some s)
    (hf : f s.rotation = rotation.getD s.rotation) (change : Membership) :
    Strategy.Evolves f (some s) (changeMembership w k rotation change).world.strategy := by
  cases rotation with
  | none =>
    have hkept : Strategy.Kept (some s) (changeMembership w k none change).world.strategy :=
      hs ▸ .refl _
    exact hkept.evolves_of hf.symm id
  | some rotation =>
    have htold : Calm ⟨w.modifyStrategy fun s => { s with rotation := rotation }, k,
        .deliver (.ok .nothing)⟩ (changeMembership w k (some rotation) change) :=
      (Calm.refl _).notify change
    have hkept := htold.strategy
    simp only [World.modifyStrategy, hs, Option.map_some] at hkept
    exact hkept.evolves_of hf.symm id

/-- **A step on the strategy** makes of the rotation what it is to make. -/
theorem evolves_perform {w : World} {k : List Frame} {step : Step} {s : Strategy}
    (hs : w.strategy? = some s) (htouches : step.touches = true) (hresets : step.resets? = none) :
    Strategy.Evolves step.rotate w.strategy (next ⟨w, k, .perform step⟩).world.strategy := by
  have hthere : w.strategy = some s := (Option.filter_eq_some_iff.mp hs).1
  rw [next_of_strategy hs htouches, hthere]
  cases step with
  | elect times =>
    rw [performStrategy]
    cases helect : electTimes times #[] s.rotation with
    | ok elected =>
      have hkept : Strategy.Kept (some { s with rotation := elected.2 })
          (w.modifyStrategy fun s => { s with rotation := elected.2 }).strategy := by
        rw [World.modifyStrategy, hthere]
        exact .refl _
      refine hkept.evolves_of ?_ id
      rw [Step.rotate, helect]
      rfl
    | error failure =>
      have hkept : Strategy.Kept (some s) w.strategy := hthere ▸ .refl _
      refine hkept.evolves_of ?_ id
      rw [Step.rotate, helect]
      rfl
  | remove target =>
    exact evolves_changeMembership (f := Step.rotate (.remove target)) hthere rfl (.removed target)
  | recover target =>
    exact evolves_changeMembership (f := Step.rotate (.recover target)) hthere rfl
      (.recovered target)
  | reset => exact absurd hresets (by simp [Step.resets?])
  | _ => exact absurd htouches Bool.false_ne_true

/-- **A step that resets the strategy** replaces all targets. -/
theorem evolves_reset {w : World} {k : List Frame} {service : String} {endpoints : List Endpoint}
    {s : Strategy} (hs : w.strategy? = some s) :
    Strategy.Evolves (fun _ => .ofEndpoints endpoints) w.strategy
      (next ⟨w, k, .perform (.reset service endpoints)⟩).world.strategy := by
  rw [next_of_strategy hs rfl]
  have htold : Calm (replaced ⟨w, k, .perform (.reset service endpoints)⟩ service endpoints)
      (reset w k service endpoints) := (Calm.refl _).notify _
  exact (Calm.refl ⟨w, k, .perform (.reset service endpoints)⟩).evolves
    (g := fun s => s.replaceTargets service endpoints) rfl htold (fun _ => rfl) fun _ => rfl

/-! ### All transitions -/

/-- A step that is performed is the only one that may replace all targets. -/
theorem replacement?_of_perform {step : Step} (h : m.control = .perform step) :
    m.replacement? = m.step?.bind Step.resets? := by
  rw [replacement?, h]

/-- A step that does not touch the rotation makes nothing of it. -/
theorem rotate_of_not_touches {step : Step} (h : m.control = .perform step)
    (htouches : step.touches = false) : m.rotate = id := by
  refine funext fun r => ?_
  rcases hs : m.step? with _ | step'
  · rw [rotate_of_still (by rw [replacement?_of_perform h, hs]; rfl) hs]
  · obtain rfl : step = step' := Control.perform.inj (h.symm.trans (control_of_step? hs).1)
    have hresets : m.replacement? = none := by
      rw [replacement?_of_perform h, hs]
      exact Step.resets?_of_not_touches htouches
    rw [rotate_of_step hresets hs, Step.rotate_of_not_touches htouches]
    rfl

/-- What a step that is performed makes of the rotation. -/
theorem evolves_step {w : World} {k : List Frame} {step : Step}
    (h : Reachable ⟨w, k, .perform step⟩) :
    Strategy.Evolves (rotate ⟨w, k, .perform step⟩) w.strategy
      (next ⟨w, k, .perform step⟩).world.strategy := by
  let m : Machine := ⟨w, k, .perform step⟩
  have hreplaces : m.replacement? = m.step?.bind Step.resets? := replacement?_of_perform rfl
  have hjob : m.job? = none := job?_of_perform rfl
  change Strategy.Evolves m.rotate _ _
  cases htouches : step.touches with
  | false =>
    rw [rotate_of_not_touches rfl htouches]
    refine (h.turn (.next m)).evolves_id ?_ (by rw [hjob]; rfl) ?_
    · intro step' heq
      cases heq
      exact htouches
    · intro cycle r hresumed
      rw [resumed?, hjob] at hresumed
      exact absurd hresumed (by simp)
  | true =>
    rcases hs : w.strategy? with _ | s
    · have hstep : m.step? = none := if_neg (by rw [hs]; exact Bool.false_ne_true)
      rw [rotate_of_still (by rw [hreplaces, hstep]; rfl) hstep, next_of_no_strategy hs htouches]
      exact (Strategy.Kept.refl _).evolves
    · have hstep : m.step? = some step := step?_of_control rfl (by rw [hs]; rfl)
      rw [hstep, Option.bind_some] at hreplaces
      cases hresets : step.resets? with
      | some endpoints =>
        rw [funext (rotate_of_replacement (hreplaces.trans hresets))]
        cases step with
        | reset =>
          cases hresets
          exact evolves_reset hs
        | _ => exact absurd hresets (by simp [Step.resets?])
      | none =>
        rw [funext (rotate_of_step (hreplaces.trans hresets) hstep)]
        exact evolves_perform hs htouches hresets

/-- What a job that is done makes of the rotation. -/
theorem evolves_job (h : Reachable m) {outcome : Outcome} (hcontrol : m.control = .deliver outcome)
    {job : Job} (hjob : m.job? = some job) :
    Strategy.Evolves m.rotate m.world.strategy m.next.world.strategy := by
  have hresumed : m.resumed? = job.resumed? := by
    rw [resumed?, hjob]
    rfl
  have hstep : m.step? = none := by
    rw [step?, hcontrol]
  have hreplaces : m.replacement? = job.binds?.or (job.resumed?.bind m.world.hands?) := by
    rw [replacement?, hcontrol, hjob]
    rfl
  rcases hbinds : job.binds? with _ | endpoints
  · rw [hbinds, Option.none_or] at hreplaces
    rcases hhands : job.resumed?.bind m.world.hands? with _ | endpoints
    · rw [rotate_of_still (hreplaces.trans hhands) hstep]
      -- a cycle that finds a changed list hands it over, unless the log call fails
      by_cases hfails : ∃ cycle, job.resumed? = some cycle ∧ m.world.logs = false
      · obtain ⟨cycle, hcycle, hlogs⟩ := hfails
        exact (calm_of_not_logs hjob hcycle hlogs).strategy.evolves
      · refine (h.turn (.next m)).evolves_id ?_ (by rw [hjob]; exact hbinds) ?_
        · intro step heq
          rw [hcontrol] at heq
          exact absurd heq (by simp)
        · intro cycle r hcycle hr hgeneration hhandler
          rw [hresumed] at hcycle
          rw [hcycle, Option.bind_some] at hhands
          refine nextChange?_eq_none_of_hands? hhands ?_ hr hgeneration hhandler
          rw [← Bool.not_eq_false]
          exact fun hlogs => hfails ⟨cycle, hcycle, hlogs⟩
    · obtain ⟨cycle, hcycle, hhands'⟩ := Option.bind_eq_some_iff.mp hhands
      rw [funext (rotate_of_replacement (hreplaces.trans hhands))]
      exact evolves_of_hands hjob hcycle hhands'
  · have hreplaced : m.replacement? = some endpoints := by
      rw [hreplaces, hbinds]
      rfl
    rw [funext (rotate_of_replacement hreplaced)]
    exact evolves_of_binds hjob hbinds

/-- **What the next transition makes of the rotation**, at every point of a session. -/
theorem Reachable.evolves_next (h : Reachable m) :
    Strategy.Evolves m.rotate m.world.strategy m.next.world.strategy := by
  have hturn : Turn m m.next := h.turn (.next m)
  obtain ⟨w, k, step | outcome⟩ := m
  · exact evolves_step h
  · rcases hjob : job? ⟨w, k, .deliver outcome⟩ with _ | job
    · have hresumed : resumed? ⟨w, k, .deliver outcome⟩ = none := by
        rw [resumed?, hjob]
        rfl
      rw [rotate_of_still (by rw [replacement?, hjob]; rfl) rfl]
      refine hturn.evolves_id (fun _ heq => absurd heq (by simp)) (by rw [hjob]; rfl) ?_
      intro cycle r hcycle
      rw [hresumed] at hcycle
      exact absurd hcycle (by simp)
    · exact evolves_job h rfl hjob

/-- A session begins with the rotation of a table of weights. -/
theorem Opens.exists_ofWeights (h : Opens m) {s : Strategy} (hs : m.world.strategy = some s) :
    ∃ weights, s.rotation = .ofWeights weights := by
  cases h with
  | strategy setup options weights =>
    cases hs
    exact ⟨weights, rfl⟩
  | bound setup options service provider =>
    have hcalm := calm_boundMachine setup options service provider
    obtain ⟨s₀, hs₀, hagrees⟩ := (hs ▸ hcalm.strategy).exists_of_some
    cases hs₀
    exact ⟨Table.empty, hagrees.rotation⟩
  | refresher h =>
    rw [openRefresher_eq_ok h] at hs
    exact absurd hs (by simp [Setup.world])

/-! ### Points that lead on without a transition -/

/-- **A point is left for another one that is no transition of it**: the next step is performed, or
a timer fires. -/
inductive Enters : Machine → Machine → Prop
  /-- By the next step, where nothing remains to be done. -/
  | perform (w : World) (outcome : Outcome) (step : Step) :
      Enters ⟨w, [], .deliver outcome⟩ (w.machine step)
  /-- By a further step, made before the next piece of waiting work is done. -/
  | interject (w : World) (first : Option Outcome) (outcome : Outcome) (step : Step) :
      Enters ⟨w, [.settle first], .deliver outcome⟩ ⟨w, [.settle first], .perform step⟩
  /-- By a timer, where nothing remains to be done. -/
  | fire (w : World) (outcome : Outcome) {t : Timer} (h : t ∈ w.timers) :
      Enters ⟨w, [], .deliver outcome⟩ (Machine.fire w [.settle none] t)

theorem leads_iff : Leads m m' ↔ m' = m.next ∨ Enters m m' := by
  constructor
  · intro h
    cases h with
    | next => exact .inl rfl
    | perform w outcome step => exact .inr (.perform w outcome step)
    | interject w first outcome step => exact .inr (.interject w first outcome step)
    | fire w outcome h => exact .inr (.fire w outcome h)
  · rintro (rfl | h)
    · exact .next m
    · cases h with
      | perform w outcome step => exact .perform w outcome step
      | interject w first outcome step => exact .interject w first outcome step
      | fire w outcome h => exact .fire w outcome h

theorem Enters.leads (h : Enters m m') : Leads m m' := leads_iff.mpr (.inr h)

/-- **Nothing happens to the rotation then.** -/
theorem Reachable.evolves_of_enters (h : Reachable m) (he : Enters m m') :
    Strategy.Evolves id m.world.strategy m'.world.strategy := by
  have hturn : Turn m m' := h.turn he.leads
  cases he with
  | perform => exact (Strategy.Kept.refl _).evolves
  | interject => exact (Strategy.Kept.refl _).evolves
  | fire w outcome ht =>
    -- the stack is empty, and so no job is done
    refine hturn.evolves_id (fun _ heq => absurd heq (by simp)) rfl ?_
    exact fun cycle r hresumed => absurd hresumed (by simp [resumed?, job?])

/-! ### Stretches of a session -/

/-- **A stretch of a session**: the transitions are such as are allowed, and each is watched for
something, which is listed in order. -/
inductive Stretch {α : Type} (Allowed : Machine → Prop) (watch : Machine → List α) (m : Machine) :
    List α → Machine → Prop
  /-- It begins. -/
  | refl : Stretch Allowed watch m [] m
  /-- A transition is made. -/
  | next {seen : List α} {a : Machine} (h : Stretch Allowed watch m seen a) (allowed : Allowed a) :
      Stretch Allowed watch m (seen ++ watch a) a.next
  /-- A step is performed next, or a timer fires. -/
  | enter {seen : List α} {a b : Machine} (h : Stretch Allowed watch m seen a)
      (enters : Enters a b) : Stretch Allowed watch m seen b

variable {α : Type} {Allowed : Machine → Prop} {watch : Machine → List α} {seen : List α}

theorem Stretch.run (h : Stretch Allowed watch m seen m') : Run m m' := by
  induction h with
  | refl => exact .refl
  | @next _ a _ _ ih => exact ih.tail (.next a)
  | enter _ enters ih => exact ih.tail enters.leads

theorem Stretch.trans {seen' : List α} {m'' : Machine} (h : Stretch Allowed watch m seen m')
    (h' : Stretch Allowed watch m' seen' m'') : Stretch Allowed watch m (seen ++ seen') m'' := by
  induction h' with
  | refl => rwa [List.append_nil]
  | next _ allowed ih =>
    rw [← List.append_assoc]
    exact ih.next allowed
  | enter _ enters ih => exact ih.enter enters

/-- **What a stretch keeps**: a property of the rotation and of what has been seen, if every
transition that is allowed keeps it. -/
theorem Stretch.keeps {P : List α → Rotation → Prop} (h : Stretch Allowed watch m seen m')
    (hreach : Reachable m) (hm : ∀ s, m.world.strategy = some s → P [] s.rotation)
    (hnext : ∀ seen a s, Reachable a → Allowed a → a.world.strategy = some s →
      P seen s.rotation → P (seen ++ watch a) (a.rotate s.rotation)) :
    ∀ s, m'.world.strategy = some s → P seen s.rotation := by
  induction h with
  | refl => exact hm
  | @next seen a h allowed ih =>
    intro s' hs'
    have ha : Reachable a := hreach.run h.run
    obtain ⟨s, hs, hrotation⟩ := (hs' ▸ ha.evolves_next).exists_of_some
    rw [hrotation]
    exact hnext seen a s ha allowed hs (ih s hs)
  | @enter seen a b h enters ih =>
    intro s' hs'
    have ha : Reachable a := hreach.run h.run
    obtain ⟨s, hs, hrotation⟩ := (hs' ▸ ha.evolves_of_enters enters).exists_of_some
    rw [hrotation]
    exact ih s hs

/-- A strategy that is built is there, and built, at the end of a stretch. -/
theorem Stretch.exists_of_built (h : Stretch Allowed watch m seen m') (hreach : Reachable m)
    {s : Strategy} (hs : m.world.strategy = some s) (hbuilt : s.building = false) :
    ∃ s', m'.world.strategy = some s' ∧ s'.building = false := by
  induction h with
  | refl => exact ⟨s, hs, hbuilt⟩
  | @next _ a h _ ih =>
    obtain ⟨s₁, hs₁, hbuilt₁⟩ := ih
    exact (hs₁ ▸ (hreach.run h.run).evolves_next).exists_of_built hbuilt₁
  | @enter _ a b h enters ih =>
    obtain ⟨s₁, hs₁, hbuilt₁⟩ := ih
    exact (hs₁ ▸ (hreach.run h.run).evolves_of_enters enters).exists_of_built hbuilt₁

/-- The last of a number of transitions. -/
theorem run_succ_last (n : Nat) (m : Machine) : run (n + 1) m = (run n m).next := by
  induction n generalizing m with
  | zero => rw [run_succ, run, run]
  | succ n ih => rw [run_succ, ih, ← run_succ]

/-- A number of transitions, all of them allowed. -/
theorem stretch_of_transitions (watch : Machine → List α) (n : Nat) (m : Machine)
    (h : ∀ i < n, Allowed (run i m)) :
    Stretch Allowed watch m ((List.range n).flatMap fun i => watch (run i m)) (run n m) := by
  induction n with
  | zero => exact .refl
  | succ n ih =>
    have hfirst := ih fun i hi => h i (Nat.lt_succ_of_lt hi)
    rw [List.range_succ, List.flatMap_append, List.flatMap_singleton, run_succ_last]
    exact hfirst.next (h n (Nat.lt_succ_self n))

/-- Where nothing remains to be done, a step and a number of transitions, all of them allowed. -/
theorem stretch_of_step (watch : Machine → List α) (hfinished : m.finished = true) (step : Step)
    (n : Nat) (h : ∀ i < n, Allowed (run i (m.world.machine step))) :
    Stretch Allowed watch m
      ((List.range n).flatMap fun i => watch (run i (m.world.machine step)))
      (run n (m.world.machine step)) := by
  have hrest := stretch_of_transitions watch n (m.world.machine step) h
  obtain ⟨w, _ | ⟨f, k⟩, step' | outcome⟩ := m
  · exact absurd hfinished (by simp [finished])
  · exact Stretch.trans (Stretch.refl.enter (.perform w outcome step)) hrest
  · exact absurd hfinished (by simp [finished])
  · exact absurd hfinished (by simp [finished])

end Machine

end Balancer.Session
