import Balancer.Proofs.Session.Turn

/-!
# The generations of a refresher

Every start and every stop of a refresher begins a new generation, and nothing else does.
So a run of a refresher is told apart by its generation, and once it has ended it never
comes back.

* `Balancer.Refresher.Grows`, `Balancer.Session.World.Grow` – **the same refreshers, later.**
* `Balancer.Session.Machine.Reachable.turn` – at a reachable point every transition is a turn,
  since no refresher lacks its handler.
* `Balancer.Session.Machine.InRun` – a refresher runs in a generation.
* `Balancer.Session.Machine.Reachable.not_inRun_run` – **a run that has ended stays so.**
-/

namespace Balancer

/-! ### The same refresher, later -/

/-- **The same refresher, later.** -/
structure Refresher.Grows (r r' : Refresher) : Prop where
  /-- It asks the same naming service. -/
  provider : r'.provider = r.provider
  /-- It hands over to the same handler. -/
  handler : r'.handler = r.handler
  /-- Its generation has not become less. -/
  generation_le : r.generation ≤ r'.generation
  /-- In the same generation it runs if it ran. -/
  running : r'.generation = r.generation → r'.running = r.running

namespace Refresher

variable {r r' r'' : Refresher}

theorem Grows.refl (r : Refresher) : r.Grows r := ⟨rfl, rfl, Nat.le_refl _, fun _ => rfl⟩

theorem Grows.trans (h : r.Grows r') (h' : r'.Grows r'') : r.Grows r'' where
  provider := h'.provider.trans h.provider
  handler := h'.handler.trans h.handler
  generation_le := Nat.le_trans h.generation_le h'.generation_le
  running heq := by
    -- the generation in between is the same one
    have hle := h.generation_le
    have hle' := h'.generation_le
    rw [h'.running (by omega), h.running (by omega)]

theorem grows_begun (r : Refresher) (services : Listing) : r.Grows (r.begun services) :=
  ⟨rfl, rfl, Nat.le_succ _, fun heq => absurd heq (Nat.succ_ne_self _)⟩

theorem grows_halt (r : Refresher) : r.Grows r.halt :=
  ⟨rfl, rfl, Nat.le_succ _, fun heq => absurd heq (Nat.succ_ne_self _)⟩

theorem grows_see (r : Refresher) (service : String) (endpoints : List Endpoint) :
    r.Grows (r.see service endpoints) :=
  ⟨rfl, rfl, Nat.le_refl _, fun _ => rfl⟩

theorem grows_startCore (r : Refresher) (services : Listing) :
    r.Grows (Session.World.startCore services r) := by
  rw [Session.World.startCore]
  split
  · exact .refl r
  · exact r.grows_begun services

end Refresher

namespace Session

/-! ### The same refreshers, later -/

namespace World

/-- **The same refreshers, later**; a new one hands over to the strategy. -/
structure Grow (w w' : World) : Prop where
  /-- A refresher stays. -/
  old : ∀ n r, w.core? n = some r → ∃ r', w'.core? n = some r' ∧ r.Grows r'
  /-- A new refresher belongs to the strategy. -/
  new : ∀ n r', w.core? n = none → w'.core? n = some r' → r'.handler = .strategy

variable {w w' w'' : World}

theorem Grow.of_core_eq (h : ∀ n, w'.core? n = w.core? n) : w.Grow w' where
  old n r hr := ⟨r, (h n).trans hr, .refl r⟩
  new n r' hnone hr' := absurd (hnone.symm.trans ((h n).symm.trans hr')) (by simp)

theorem Grow.trans (h : w.Grow w') (h' : w'.Grow w'') : w.Grow w'' where
  old n r hr := by
    obtain ⟨r', hr', hgrows⟩ := h.old n r hr
    obtain ⟨r'', hr'', hgrows'⟩ := h'.old n r' hr'
    exact ⟨r'', hr'', hgrows.trans hgrows'⟩
  new n r'' hnone hr'' := by
    rcases hmid : w'.core? n with _ | r'
    · exact h'.new n r'' hmid hr''
    · obtain ⟨r₂, hr₂, hgrows⟩ := h'.old n r' hmid
      rw [hr''] at hr₂
      cases hr₂
      exact hgrows.handler.trans (h.new n r' hnone hmid)

/-- One refresher changes. -/
theorem Grow.of_core_map {f : Refresher → Refresher} (hf : ∀ r : Refresher, r.Grows (f r)) {p : Nat → Prop}
    [DecidablePred p] (h : ∀ n, w'.core? n = if p n then (w.core? n).map f else w.core? n) :
    w.Grow w' where
  old n r hr := by
    by_cases hn : p n
    · exact ⟨f r, by rw [h n, if_pos hn, hr, Option.map_some], hf r⟩
    · exact ⟨r, by rw [h n, if_neg hn, hr], .refl r⟩
  new n r' hnone hr' := by
    rw [h n, hnone, Option.map_none, ite_self] at hr'
    exact absurd hr' (by simp)

/-- The strategy gets a new refresher. -/
theorem grow_pollWith (w : World) (binding : Binding) (timings : Timings) :
    w.Grow (w.pollWith binding timings) where
  old n r hr := by
    have hne : w.refreshers.length ≠ n := by
      intro heq
      have hnone := core?_eq_none_iff.mpr (Nat.le_of_eq heq)
      rw [hr] at hnone
      exact absurd hnone (by simp)
    exact ⟨r, by rw [core?_pollWith, if_neg hne, hr], .refl r⟩
  new n r' hnone hr' := by
    rw [core?_pollWith] at hr'
    split at hr'
    · rw [← Option.some.inj hr']
      rfl
    · rw [hnone] at hr'
      exact absurd hr' (by simp)

end World

/-- Without a callback all lists are handed over to the strategy. -/
theorem World.Wired.handler_eq {w : World} (h : w.Wired) (hnone : w.callback = none) {n : Nat}
    {r : Refresher} (hr : w.core? n = some r) : r.handler = .strategy := by
  cases hhandler : r.handler with
  | strategy => rfl
  | callback =>
    obtain ⟨-, hsome⟩ := h n r hr hhandler
    rw [hnone] at hsome
    exact absurd hsome (by simp)

namespace Machine

variable {m m' m'' : Machine}

theorem Calm.grow (h : Calm m m') : m.world.Grow m'.world := .of_core_eq h.core

theorem grow_seen (x : Machine) (number : Nat) (change : Refresher.Change) :
    x.world.Grow (x.seen number change).world :=
  .of_core_map (f := fun r => r.see change.service change.endpoints)
    (fun r => r.grows_see change.service change.endpoints) (x.core?_seen number change)

/-- **Transitions keep the refreshers**, and their generations do not become less. -/
theorem Turn.grow (h : Turn m m') : m.world.Grow m'.world := by
  cases h with
  | calm h => exact h.grow
  | @rotate x _ _ rotation _ before _ _ after =>
    have hact : x.world.Grow (x.rotated rotation).world := .of_core_eq fun _ => rfl
    exact before.grow.trans (hact.trans after.grow)
  | @reset x service endpoints _ before after =>
    have hact : x.world.Grow (x.replaced service endpoints).world := .of_core_eq fun _ => rfl
    exact before.grow.trans (hact.trans after.grow)
  | @rebind x call service provider listing _ before after =>
    have hact : x.world.Grow (x.rebound call service provider listing).world :=
      .of_core_map Refresher.grows_halt (x.core?_rebound call service provider listing)
    exact before.grow.trans (hact.trans after.grow)
  | @start x services _ _ before after =>
    have hact : x.world.Grow (x.started 0 services).world :=
      .of_core_map (fun r => r.grows_startCore services) fun n =>
        x.world.core?_startRefresher 0 n services
    exact before.grow.trans (hact.trans after.grow)
  | @stop x number _ before after =>
    have hact : x.world.Grow (x.stopped number).world :=
      .of_core_map Refresher.grows_halt fun n => x.world.core?_stopRefresher number n
    exact before.grow.trans (hact.trans after.grow)
  | @poll x s binding timings _ before _ _ _ _ after =>
    exact before.grow.trans ((x.world.grow_pollWith binding timings).trans after.grow)
  | @ask x _ r provider caller answer before _ _ _ _ after =>
    have hact : x.world.Grow (x.asked provider r.snapshot.keys caller answer).world :=
      .of_core_eq fun _ => rfl
    exact before.grow.trans (hact.trans after.grow)
  | @take x cycle _ change _ _ _ before after =>
    have hact : x.world.Grow (x.took cycle change).world :=
      (x.grow_seen cycle.refresher change).trans (.of_core_eq fun _ => rfl)
    exact before.grow.trans (hact.trans after.grow)
  | @callBack x cycle _ change callback ending _ _ _ before _ after =>
    have hact : x.world.Grow (x.calledBack callback cycle change ending).world :=
      (x.grow_seen cycle.refresher change).trans (.of_core_eq fun _ => rfl)
    exact before.grow.trans (hact.trans after.grow)

/-- There is a callback if there was one. -/
theorem Turn.callback_isSome (h : Turn m m') :
    m'.world.callback.isSome = m.world.callback.isSome := by
  cases h with
  | calm h => exact h.callback
  | rotate _ before _ _ after => exact after.callback.trans before.callback
  | reset _ before after => exact after.callback.trans before.callback
  | @rebind x _ _ _ _ _ before after =>
    have hact := congrArg Option.isSome x.world.aside_stopPolling.callback
    exact after.callback.trans (hact.trans before.callback)
  | @start x services _ _ before after =>
    have hact := congrArg Option.isSome (x.world.aside_startRefresher 0 services).callback
    exact after.callback.trans (hact.trans before.callback)
  | @stop x number _ before after =>
    have hact := congrArg Option.isSome (x.world.aside_stopRefresher number).callback
    exact after.callback.trans (hact.trans before.callback)
  | @poll x _ binding timings _ before _ _ _ _ after =>
    have hact := congrArg Option.isSome (x.world.aside_pollWith binding timings).callback
    exact after.callback.trans (hact.trans before.callback)
  | ask before _ _ _ _ after => exact after.callback.trans before.callback
  | take _ _ _ before after => exact after.callback.trans before.callback
  | callBack _ _ _ before there after =>
    rw [after.callback, ← before.callback, there]
    rfl

theorem Turn.callback_eq_none (h : Turn m m') (hnone : m'.world.callback = none) :
    m.world.callback = none := by
  have heq := h.callback_isSome
  rw [hnone] at heq
  exact Option.isNone_iff_eq_none.mp (by simpa using heq.symm)

theorem Turn.callback_stays_none (h : Turn m m') (hnone : m.world.callback = none) :
    m'.world.callback = none := by
  rw [← Option.not_isSome_iff_eq_none, h.callback_isSome, hnone]
  exact Bool.false_ne_true

/-! ### Handlers are there -/

theorem Turn.wired (h : Turn m m') (hwired : m.world.Wired) : m'.world.Wired := by
  intro n r' hr' hhandler
  rw [h.callback_isSome]
  rcases hr : m.world.core? n with _ | r
  · have hstrategy := h.grow.new n r' hr hr'
    rw [hhandler] at hstrategy
    exact absurd hstrategy (by simp)
  · obtain ⟨r₂, hr₂, hgrows⟩ := h.grow.old n r hr
    rw [hr'] at hr₂
    cases hr₂
    exact hwired n r hr (hgrows.handler.symm.trans hhandler)

/-- A session that is to begin has no refresher, or one that has a callback. -/
theorem Opens.wired (h : Opens m) : m.world.Wired := by
  cases h with
  | strategy setup options weights =>
    intro n r hr
    exact absurd hr (by simp [openStrategy, Setup.world, World.core?])
  | bound setup options service provider =>
    intro n r hr
    rw [(calm_boundMachine setup options service provider).core n] at hr
    exact absurd hr (by simp [Setup.world, World.core?])
  | @refresher setup provider timings reactions w h =>
    rw [openRefresher_eq_ok h]
    intro n r hr _
    refine ⟨?_, rfl⟩
    cases n with
    | zero => rfl
    | succ n => exact absurd hr (by simp [World.core?])

/-- **No refresher lacks its handler.** -/
theorem Reachable.wired (h : Reachable m) : m.world.Wired :=
  h.induction (P := fun m => m.world.Wired) (fun _ => Opens.wired) fun _ _ _ hwired hl =>
    (hl.turn hwired).wired hwired

/-- **At a reachable point every transition is a turn.** -/
theorem Reachable.turn (h : Reachable m) (hl : Leads m m') : Turn m m' := hl.turn h.wired

/-! ### Runs of a refresher -/

/-- A run of a session keeps the refreshers. -/
theorem Reachable.grow (h : Reachable m) (hr : Run m m') : m.world.Grow m'.world := by
  induction hr with
  | refl => exact .of_core_eq fun _ => rfl
  | tail hr hl ih => exact ih.trans ((h.run hr).turn hl).grow

/-- **A refresher runs in a generation.** -/
def InRun (m : Machine) (number generation : Nat) : Prop :=
  ∃ r, m.world.core? number = some r ∧ r.running = true ∧ r.generation = generation

theorem inRun_iff {number generation : Nat} : m.InRun number generation ↔
    (m.world.core? number).map (fun r => (r.running, r.generation)) = some (true, generation) := by
  simp only [InRun, Option.map_eq_some_iff, Prod.mk.injEq]

instance (m : Machine) (number generation : Nat) : Decidable (m.InRun number generation) :=
  decidable_of_iff _ inRun_iff.symm

/-- The run of a generation that has come is there now, or never will be again. -/
theorem Reachable.inRun_of_run (h : Reachable m) (hr : Run m m') {number generation : Nat}
    {r : Refresher} (hcore : m.world.core? number = some r) (hle : generation ≤ r.generation)
    (hin : m'.InRun number generation) : m.InRun number generation := by
  obtain ⟨r', hcore', hgrows⟩ := (h.grow hr).old number r hcore
  obtain ⟨r'', hcore'', hrunning, heq⟩ := hin
  rw [hcore'] at hcore''
  cases hcore''
  -- the generation lies between the two, which are the same therefore
  have hsame : r'.generation = r.generation :=
    Nat.le_antisymm (heq ▸ hle) hgrows.generation_le
  refine ⟨r, hcore, ?_, hsame.symm.trans heq⟩
  rw [← hgrows.running hsame, hrunning]

/-- **A run that has ended never comes back.** -/
theorem Reachable.not_inRun_run (h : Reachable m) {number generation : Nat}
    (hin : m.InRun number generation) (hr : Run m m') (hended : ¬ m'.InRun number generation)
    (hr' : Run m' m'') : ¬ m''.InRun number generation := by
  obtain ⟨r, hcore, -, heq⟩ := hin
  obtain ⟨r', hcore', hgrows⟩ := (h.grow hr).old number r hcore
  intro hin'
  -- a run that is there later was there at every point from its generation on
  exact hended ((h.run hr).inRun_of_run hr' hcore' (heq ▸ hgrows.generation_le) hin')

end Machine

end Session

end Balancer
