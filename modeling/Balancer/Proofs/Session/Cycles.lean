import Balancer.Proofs.Session.Generation

/-!
# Cycles and the runs they began in

A cycle under way carries the generation that it began in. What it may still do depends on
how that stands to the refresher as it is now; the two are tied together by the lookup that
the cycle has made.

* `Balancer.Refresher.nextChange?_eq_some` – what a changed list is.
* `Balancer.Session.World.Asked` – a cycle of a run has made a lookup.
* `Balancer.Session.Machine.Backed` – **the invariant of cycles**: each has made a lookup for all
  services that the refresher tracked then, and tracks now if the run goes on.
* `Balancer.Session.Machine.Applies` – **a cycle hands over a changed list.**
* `Balancer.Session.Machine.Turn.backed` – every transition keeps the invariant.
-/

namespace Balancer

/-! ### Changed lists -/

/-- **A changed list is that of one of the services to compare**, the others come later. It is
the list in what the lookup returned, or the empty one, and differs from the one seen last. -/
theorem Refresher.nextChange?_eq_some {r : Refresher} {latest : Listing} {services : List String}
    {change : Refresher.Change} (h : r.nextChange? latest services = some change) :
    change.service :: change.remaining <:+ services ∧
      change.endpoints = (latest.get? change.service).getD [] ∧
      Endpoint.sameList (r.seen change.service) change.endpoints = false := by
  induction services with
  | nil => exact absurd h (by simp [nextChange?])
  | cons service services ih =>
    unfold nextChange? at h
    dsimp only at h
    split at h
    · obtain ⟨hsuffix, hchange⟩ := ih h
      exact ⟨hsuffix.trans (List.suffix_cons _ _), hchange⟩
    · next hdiffers =>
      cases h
      exact ⟨List.suffix_refl _, rfl, Bool.not_eq_true _ ▸ hdiffers⟩

/-- Of a single service the list is handed over where it differs from the one seen last. -/
theorem Refresher.nextChange?_singleton (r : Refresher) (latest : Listing) (service : String) :
    r.nextChange? latest [service] =
      if Endpoint.sameList (r.seen service) ((latest.get? service).getD []) then none
      else some ⟨service, (latest.get? service).getD [], []⟩ := rfl

/-- What has changed does not depend on the timers. -/
theorem Refresher.nextChange?_core (r : Refresher) (latest : Listing) (services : List String) :
    r.core.nextChange? latest services = r.nextChange? latest services := by
  induction services with
  | nil => rfl
  | cons service services ih =>
    rw [nextChange?]
    rw [ih]
    rfl

/-- A list of a tracked service that is seen does not change what is tracked. -/
theorem Refresher.keys_see {r : Refresher} {service : String} {endpoints : List Endpoint}
    (h : service ∈ r.snapshot.keys) : (r.see service endpoints).snapshot.keys = r.snapshot.keys := by
  rw [see, Table.keys_insert, if_pos h]

namespace Session

/-! ### Lookups of cycles -/

/-- **A cycle of a run of a refresher has asked** a naming service for services. -/
def World.Asked (w : World) (number generation : Nat) (provider : String)
    (services : List String) : Prop :=
  ∃ lookup caller, Event.lookup provider lookup services caller ∈ w.calls ∧
    caller.run? = some (number, generation)

instance (w : World) (number generation : Nat) (provider : String) (services : List String) :
    Decidable (w.Asked number generation provider services) :=
  decidable_of_iff (w.calls.any fun
    | .lookup asked _ listed caller =>
      asked == provider && listed == services && caller.run? == some (number, generation)
    | _ => false) (by
    rw [List.any_eq_true]
    constructor
    · rintro ⟨e, hmem, he⟩
      cases e with
      | lookup asked lookup listed caller =>
        simp only [Bool.and_eq_true, beq_iff_eq] at he
        obtain ⟨⟨rfl, rfl⟩, hrun⟩ := he
        exact ⟨lookup, caller, hmem, hrun⟩
      | _ => exact absurd he (by simp)
    · rintro ⟨lookup, caller, hmem, hrun⟩
      exact ⟨_, hmem, by simp [hrun]⟩)

theorem World.Asked.of_subset {w w' : World} {number generation : Nat} {provider : String}
    {services : List String} (hcalls : ∀ e ∈ w.calls, e ∈ w'.calls)
    (h : w.Asked number generation provider services) :
    w'.Asked number generation provider services := by
  obtain ⟨lookup, caller, hmem, hrun⟩ := h
  exact ⟨lookup, caller, hcalls _ hmem, hrun⟩

namespace Machine

/-- **The invariant of cycles.** -/
structure Backed (m : Machine) : Prop where
  /-- Every lookup of a cycle was made at the naming service of its refresher, in a generation
  that has come; if it is still the same, the refresher runs and tracks what was asked for. -/
  asked : ∀ n g provider services, m.world.Asked n g provider services →
    ∃ r, m.world.core? n = some r ∧ g ≤ r.generation ∧ r.provider = some provider ∧
      (r.generation = g → r.running = true ∧ r.snapshot.keys = services)
  /-- Every cycle under way has made a lookup for the services that it has to compare, and has
  compared none before the lookup has ended. -/
  suspended : ∀ t ∈ m.suspended, ∃ provider services,
    m.world.Asked t.refresher t.generation provider services ∧ t.services <:+ services ∧
      (t.waits = true → t.services = services)

variable {m m' x y : Machine}

/-- A piece of a cycle under way is backed like the cycle. -/
theorem Backed.of_holds (h : m.Backed) {t : Suspended} (ht : m.Holds t) :
    ∃ provider services, m.world.Asked t.refresher t.generation provider services ∧
      t.services <:+ services ∧ (t.waits = true → t.services = services) := by
  obtain ⟨u, hu, hcontinues⟩ := ht
  obtain ⟨provider, services, hasked, hsuffix, hall⟩ := h.suspended u hu
  rw [hcontinues.refresher, hcontinues.generation]
  refine ⟨provider, services, hasked, hcontinues.services.trans hsuffix, ?_⟩
  intro hwaits
  obtain ⟨hwaits', heq⟩ := hcontinues.waits hwaits
  exact heq.trans (hall hwaits')

/-- The invariant is kept where no cycle begins, and no refresher comes to track other services
within a generation. -/
theorem Backed.of_held (h : m.Backed) (hheld : ∀ t ∈ y.suspended, m.Holds t)
    (hasked : ∀ n g provider services, y.world.Asked n g provider services ↔
      m.world.Asked n g provider services)
    (hgrow : m.world.Grow y.world)
    (hkeys : ∀ n r r', m.world.core? n = some r → y.world.core? n = some r' →
      r'.generation = r.generation → r'.snapshot.keys = r.snapshot.keys) : y.Backed where
  asked n g provider services ha := by
    obtain ⟨r, hr, hle, hprovider, hsame⟩ := h.asked n g provider services ((hasked ..).mp ha)
    obtain ⟨r', hr', hgrows⟩ := hgrow.old n r hr
    refine ⟨r', hr', Nat.le_trans hle hgrows.generation_le, hgrows.provider.trans hprovider, ?_⟩
    intro heq
    -- the generation is the old one, which was that of the lookup
    have hold : r'.generation = r.generation :=
      Nat.le_antisymm (heq ▸ hle) hgrows.generation_le
    obtain ⟨hrunning, htracks⟩ := hsame (hold.symm.trans heq)
    exact ⟨(hgrows.running hold).trans hrunning, (hkeys n r r' hr hr' hold).trans htracks⟩
  suspended t ht := by
    obtain ⟨provider, services, ha, hservices⟩ := h.of_holds (hheld t ht)
    exact ⟨provider, services, (hasked ..).mpr ha, hservices⟩

theorem asked_iff_of_calls_eq (h : y.world.calls = m.world.calls) (n g : Nat) (provider : String)
    (services : List String) :
    y.world.Asked n g provider services ↔ m.world.Asked n g provider services := by
  unfold World.Asked
  rw [h]

/-- Bookkeeping keeps the invariant. -/
theorem Calm.backed (h : Calm m m') (hm : m.Backed) : m'.Backed := by
  refine hm.of_held h.held (asked_iff_of_calls_eq h.calls) h.grow ?_
  intro n r r' hr hr' _
  rw [h.core n, hr] at hr'
  cases hr'
  rfl

/-- An act that leaves the cycles alone keeps the invariant. -/
theorem Backed.aside (h : x.Backed) (haside : x.world.Aside y.world)
    (hstack : y.stack.filterMap Frame.suspended? = x.stack.filterMap Frame.suspended?)
    (hgrow : x.world.Grow y.world)
    (hkeys : ∀ n r r', x.world.core? n = some r → y.world.core? n = some r' →
      r'.generation = r.generation → r'.snapshot.keys = r.snapshot.keys) : y.Backed := by
  refine h.of_held ?_ (asked_iff_of_calls_eq haside.calls_eq) hgrow hkeys
  intro t ht
  rw [Machine.suspended, hstack, haside.suspended_eq] at ht
  exact ⟨t, ht, .refl t⟩

/-- An act that leaves the cycles and the refreshers alone keeps the invariant. -/
theorem Backed.aside_core (h : x.Backed) (haside : x.world.Aside y.world) (hstack : y.stack = x.stack)
    (hcore : ∀ n, y.world.core? n = x.world.core? n) : y.Backed := by
  refine h.aside haside (by rw [hstack]) (.of_core_eq hcore) ?_
  intro n r r' hr hr' _
  rw [hcore n, hr] at hr'
  cases hr'
  rfl

/-- An act that leaves the cycles alone and brings a refresher to another generation keeps the
invariant. -/
theorem Backed.aside_map (h : x.Backed) (haside : x.world.Aside y.world)
    (hstack : y.stack.filterMap Frame.suspended? = x.stack.filterMap Frame.suspended?)
    {f : Refresher → Refresher} {p : Nat → Prop} [DecidablePred p]
    (hcore : ∀ n, y.world.core? n = if p n then (x.world.core? n).map f else x.world.core? n)
    (hgrows : ∀ r : Refresher, r.Grows (f r))
    (hf : ∀ r, (f r).generation = r.generation → (f r).snapshot.keys = r.snapshot.keys) :
    y.Backed := by
  refine h.aside haside hstack (.of_core_map hgrows hcore) ?_
  intro n r r' hr hr' heq
  rw [hcore n, hr] at hr'
  split at hr'
  · cases hr'
    exact hf r heq
  · cases hr'
    rfl

/-- **A lookup of a cycle keeps the invariant**: it asks for what the refresher tracks. -/
theorem Backed.asked_run (h : x.Backed) {number : Nat} {r : Refresher} {provider : String}
    {caller : Caller} {answer : Answer} (found : x.world.refreshers[number]? = some r)
    (running : r.running = true) (asks : r.provider = some provider)
    (run : caller.run? = some (number, r.generation)) :
    (x.asked provider r.snapshot.keys caller answer).Backed := by
  have hsome : caller.run?.isSome = true := by rw [run]; rfl
  have hcalls : (x.asked provider r.snapshot.keys caller answer).world.calls = x.world.calls ++
      [.lookup provider (x.world.lookupCount + 1) r.snapshot.keys caller] := by
    refine (World.calls_emit _ _).trans ?_
    rw [Event.ofCycle, if_pos hsome]
    rfl
  have hnew : (x.asked provider r.snapshot.keys caller answer).world.Asked number r.generation
      provider r.snapshot.keys := by
    refine ⟨x.world.lookupCount + 1, caller, ?_, run⟩
    rw [hcalls]
    exact List.mem_append_right _ (List.mem_singleton.mpr rfl)
  constructor
  · rintro n g provider' services ⟨lookup, caller', hmem, hrun⟩
    rw [hcalls] at hmem
    rcases List.mem_append.mp hmem with hold | hnew
    · exact h.asked n g provider' services ⟨lookup, caller', hold, hrun⟩
    · cases List.mem_singleton.mp hnew
      rw [run] at hrun
      cases hrun
      exact ⟨r.core, World.core?_of_getElem? found, Nat.le_refl _, asks, fun _ => ⟨running, rfl⟩⟩
  · intro t ht
    -- the cycle that has just asked, or one that was under way
    rcases mem_suspended_push.mp ht with hfirst | hold
    · simp only [Frame.suspended?, Caller.suspended?, run, Option.map_some, Option.some.injEq] at hfirst
      subst hfirst
      exact ⟨provider, r.snapshot.keys, hnew, List.suffix_refl _, fun _ => rfl⟩
    · obtain ⟨provider', services, hasked, hservices⟩ := h.suspended t hold
      refine ⟨provider', services, hasked.of_subset ?_, hservices⟩
      intro e he
      rw [hcalls]
      exact List.mem_append_left _ he

/-! ### Handing over -/

/-- **A cycle hands over a changed list**, in the generation that it began in. -/
structure Applies (m m' : Machine) (cycle : Cycle) (r : Refresher) (change : Refresher.Change) :
    Prop where
  /-- The cycle is the one that the transition takes up. -/
  resumed : m.resumed? = some cycle
  /-- It is under way. -/
  held : m.Holds cycle.suspended
  /-- Its refresher. -/
  found : m.world.core? cycle.refresher = some r
  /-- The generation has not changed. -/
  generation : r.generation = cycle.generation
  /-- The first changed list. -/
  first : r.nextChange? cycle.latest cycle.remaining = some change
  /-- The refresher has seen the list then. -/
  sees : ∀ n, m'.world.core? n = if cycle.refresher = n then
    (m.world.core? n).map fun r => r.see change.service change.endpoints else m.world.core? n
  /-- The rest of the cycle waits until the list has been taken. -/
  rest : ∀ t ∈ m'.suspended, m.Holds t
  /-- No other cycle hands over a list. -/
  handovers : ∀ c, m'.handovers = c :: m.handovers →
    c = { cycle with remaining := change.remaining }
  /-- A callback is called, if the refresher has one. -/
  calls : m'.world.calls = m.world.calls ∨ r.handler = .callback ∧
    ∃ number, m'.world.calls = m.world.calls ++
      [.callback number change.service change.endpoints]
  /-- The strategy takes the list otherwise. -/
  taken : r.handler = .strategy → Strategy.Kept
    (m.world.strategy.map fun s => s.replaceTargets change.service change.endpoints)
    m'.world.strategy

variable {cycle : Cycle} {r : Refresher} {change : Refresher.Change}

/-- What is left of a cycle after its first changed list was left of it before. -/
theorem Holds.rest (held : m.Holds cycle.suspended)
    (first : r.nextChange? cycle.latest cycle.remaining = some change) :
    m.Holds ({ cycle with remaining := change.remaining } : Cycle).suspended := by
  obtain ⟨u, hu, hcontinues⟩ := held
  have hrest : change.remaining <:+ cycle.remaining :=
    (List.suffix_cons _ _).trans (Refresher.nextChange?_eq_some first).1
  refine ⟨u, hu, hcontinues.refresher, hcontinues.generation, ?_, fun hw => absurd hw (by simp [Cycle.suspended])⟩
  exact hrest.trans hcontinues.services

/-- A frame that waits for a handed over list is the only new one. -/
theorem eq_of_handovers {f : Frame} {c c' : Cycle} (hf : f.handover? = some c) (before : Calm m x)
    (hstack : y.stack = f :: x.stack) (after : Calm y m') (h : m'.handovers = c' :: m.handovers) :
    c' = c := by
  have hy : y.handovers = c :: x.handovers := by
    simp only [handovers, hstack, List.filterMap_cons, hf]
  -- the frames of a calm stretch are a suffix, so that none but the new one can be there
  have hsuffix := after.handovers
  rw [h, hy] at hsuffix
  have hle := before.handovers.length_le
  have heq : c' :: m.handovers = c :: x.handovers :=
    hsuffix.eq_of_length_le (by simp only [List.length_cons]; omega)
  exact (List.cons.inj heq).1

/-- **The strategy takes a changed list.** -/
theorem applies_take (finds : Finds m x cycle r change) (held : m.Holds cycle.suspended)
    (before : Calm m x) (after : Calm (x.took cycle change) m') :
    Applies m m' cycle r.core change where
  resumed := finds.resumed
  held := held
  found := (before.core _).symm.trans (World.core?_of_getElem? finds.found)
  generation := finds.generation
  first := (r.nextChange?_core _ _).trans finds.change
  sees n := by
    rw [after.core n, ← before.core n]
    exact x.core?_seen cycle.refresher change n
  rest t ht := by
    obtain ⟨u, hu, htu⟩ := after.held t ht
    rcases mem_suspended_push.mp hu with hfirst | hold
    · obtain ⟨v, hv, huv⟩ := held.rest finds.change
      cases hfirst
      exact ⟨v, hv, htu.trans huv⟩
    · exact before.holds ⟨u, hold, htu⟩
  handovers _ := eq_of_handovers rfl before rfl after
  calls := .inl (after.calls.trans before.calls)
  taken _ := (before.strategy.replaceTargets change.service change.endpoints).trans after.strategy

/-- **The callback is called** with a changed list. -/
theorem applies_callBack {callback : Callback} {ending : Ending} (finds : Finds m x cycle r change)
    (held : m.Holds cycle.suspended) (handler : r.handler = .callback) (before : Calm m x)
    (there : x.world.callback = some callback)
    (after : Calm (x.calledBack callback cycle change ending) m') :
    Applies m m' cycle r.core change where
  resumed := finds.resumed
  held := held
  found := (before.core _).symm.trans (World.core?_of_getElem? finds.found)
  generation := finds.generation
  first := (r.nextChange?_core _ _).trans finds.change
  sees n := by
    rw [after.core n, ← before.core n]
    exact x.core?_seen cycle.refresher change n
  rest t ht := by
    obtain ⟨u, hu, htu⟩ := after.held t ht
    rcases mem_suspended_push.mp hu with hfirst | hold
    · obtain ⟨v, hv, huv⟩ := held.rest finds.change
      cases hfirst
      exact ⟨v, hv, htu.trans huv⟩
    · refine before.holds ⟨u, ?_, htu⟩
      simp only [suspended, World.suspended, there]
      exact hold
  handovers _ := eq_of_handovers rfl before rfl after
  calls := by
    refine .inr ⟨handler, callback.count + 1, ?_⟩
    rw [after.calls, ← before.calls]
    exact (World.calls_emit _ _).trans (if_pos rfl)
  taken hstrategy := by
    have hcallback : r.handler = .strategy := hstrategy
    rw [handler] at hcallback
    exact absurd hcallback (by simp)

/-- The service of a changed list is one of those that the refresher tracks, which are those that
the cycle asked for. -/
theorem Applies.tracked (h : Applies m m' cycle r change) (hm : m.Backed) :
    ∃ provider, m.world.Asked cycle.refresher cycle.generation provider r.snapshot.keys ∧
      r.provider = some provider ∧ r.running = true ∧ change.service ∈ r.snapshot.keys := by
  obtain ⟨provider, services, hasked, hsuffix, -⟩ := hm.of_holds h.held
  obtain ⟨r₀, hr₀, -, hprovider, hsame⟩ := hm.asked _ _ _ _ hasked
  have hcore : m.world.core? cycle.refresher = some r₀ := hr₀
  rw [h.found] at hcore
  cases hcore
  -- the generation is the one of the lookup, so what was asked for is what is tracked
  obtain ⟨hrunning, rfl⟩ := hsame h.generation
  refine ⟨provider, hasked, hprovider, hrunning, hsuffix.subset ?_⟩
  exact (Refresher.nextChange?_eq_some h.first).1.subset List.mem_cons_self

/-- **A cycle that applies a list keeps the invariant**: the service is one that the refresher
tracks, so it tracks the same services after. -/
theorem Applies.backed (h : Applies m m' cycle r change) (hm : m.Backed) : m'.Backed := by
  have hmap : ∀ n, m'.world.core? n = if cycle.refresher = n then
      (m.world.core? n).map fun r => r.see change.service change.endpoints
      else m.world.core? n := h.sees
  obtain ⟨-, -, -, -, hservice⟩ := h.tracked hm
  refine hm.of_held h.rest ?_ (.of_core_map (fun r => r.grows_see _ _) hmap) ?_
  · intro n g provider services
    rcases h.calls with heq | ⟨-, number, heq⟩
    · exact asked_iff_of_calls_eq heq ..
    · unfold World.Asked
      simp only [heq, List.mem_append, List.mem_singleton, reduceCtorEq, or_false]
  · intro n r₁ r₂ hr₁ hr₂ _
    rw [hmap n, hr₁] at hr₂
    split at hr₂
    · next heq =>
      subst heq
      rw [h.found] at hr₁
      cases hr₁
      cases hr₂
      exact Refresher.keys_see hservice
    · cases hr₂
      rfl

/-! ### All transitions -/

/-- **Every transition keeps the invariant of cycles.** -/
theorem Turn.backed (h : Turn m m') (hm : m.Backed) : m'.Backed := by
  cases h with
  | calm h => exact h.backed hm
  | rotate _ before _ _ after =>
    exact after.backed ((before.backed hm).aside_core (World.aside_modifyStrategy _ _) rfl fun _ => rfl)
  | reset _ before after =>
    exact after.backed ((before.backed hm).aside_core (World.aside_modifyStrategy _ _) rfl fun _ => rfl)
  | @rebind x call service provider listing _ before after =>
    refine after.backed ((before.backed hm).aside_map (x.aside_rebound call service provider listing)
      rfl (x.core?_rebound call service provider listing) Refresher.grows_halt ?_)
    exact fun r heq => absurd heq (Nat.succ_ne_self r.generation)
  | @start x services _ _ before after =>
    have hcore := fun n => x.world.core?_startRefresher 0 n services
    refine after.backed ((before.backed hm).aside_map (x.world.aside_startRefresher 0 services) rfl
      hcore (fun r => r.grows_startCore services) ?_)
    intro r heq
    rw [World.startCore] at heq ⊢
    split at heq
    · next hidle => rw [if_pos hidle]
    · exact absurd heq (Nat.succ_ne_self r.generation)
  | @stop x number _ before after =>
    have hcore := fun n => x.world.core?_stopRefresher number n
    refine after.backed ((before.backed hm).aside_map (x.world.aside_stopRefresher number) rfl
      hcore Refresher.grows_halt ?_)
    exact fun r heq => absurd heq (Nat.succ_ne_self r.generation)
  | @poll x s binding timings _ before _ _ _ _ after =>
    have hgrow := x.world.grow_pollWith binding timings
    refine after.backed ((before.backed hm).aside (x.world.aside_pollWith binding timings) rfl
      hgrow ?_)
    intro n r r' hr hr' _
    -- the new refresher has a number that no old one has
    obtain ⟨hlt, -⟩ := List.getElem?_eq_some_iff.mp (Option.map_eq_some_iff.mp hr).choose_spec.1
    rw [polled, World.core?_pollWith, if_neg (Nat.ne_of_gt hlt), hr] at hr'
    cases hr'
    rfl
  | ask before found running asks run after =>
    exact after.backed ((before.backed hm).asked_run found running asks run)
  | take finds held _ before after => exact (applies_take finds held before after).backed hm
  | callBack finds held handler before there after =>
    exact (applies_callBack finds held handler before there after).backed hm

/-- A session begins with no cycle under way. -/
theorem Opens.backed (h : Opens m) : m.Backed := by
  have hnone : ∀ m : Machine, m.world.calls = [] → m.suspended = [] → m.Backed := by
    intro m hcalls hsuspended
    constructor
    · rintro n g provider services ⟨lookup, caller, hmem, -⟩
      rw [hcalls] at hmem
      exact absurd hmem (by simp)
    · intro t ht
      rw [hsuspended] at ht
      exact absurd ht (by simp)
  cases h with
  | strategy setup options weights => exact hnone _ rfl rfl
  | bound setup options service provider =>
    exact (calm_boundMachine setup options service provider).backed (hnone _ rfl rfl)
  | refresher h =>
    rw [openRefresher_eq_ok h]
    exact hnone _ rfl rfl

/-- **The invariant of cycles holds at every point of a session.** -/
theorem Reachable.backed (h : Reachable m) : m.Backed :=
  h.induction (fun _ => Opens.backed) fun _ _ hm hbacked hl => (hm.turn hl).backed hbacked

end Machine

end Session

end Balancer
