import Balancer.Proofs.Endpoint
import Balancer.Proofs.Rotation
import Balancer.Proofs.Session.Poller

/-!
# What polling keeps in step

The list that polling saw last is kept by the refresher, the list that was applied last by the
binding, and the targets by the rotation. A poll compares the new list with the first of these
and replaces the targets only where it differs. So the targets follow the naming service as long
as the three agree, and a reset by hand may put them out of step without polling ever noticing.

* `Balancer.Session.Machine.InSync` – **the three agree.**
* `Balancer.Session.Machine.Harmless` – a reset by hand leaves them so, which is exactly what
  `Balancer.Session.Machine.inSync_next_iff_harmless` says.
* `Balancer.Session.Machine.Quiet` – nothing replaces the targets.
* `Balancer.Session.Machine.Reachable.poll_syncs_iff` – **when the targets are those of the list
  after a poll.**
* `Balancer.Session.Machine.poll_ignores_reset` – a poll after which they are not.
-/

namespace Balancer.Session

/-! ### Known targets -/

/-- **A step changes what is known only where it replaces the targets.** -/
theorem Rotates.mem_known {step : Step} {r r' : Rotation} (h : Rotates step r r') (target : String) :
    target ∈ r'.known ↔ target ∈ r.known := by
  cases h with
  | elect h =>
    have hknown := Machine.electTimes_keeps (P := fun r' => r'.known = r.known)
      (fun _ _ _ hsame helect => (Rotation.known_elect helect).trans hsame) h rfl
    rw [hknown]
  | remove h => exact Rotation.mem_known_remove? h
  | recover h => exact Rotation.mem_known_recover? h

/-! ### Log calls -/

/-- Whether a log call goes through: on the console it needs a date. -/
def World.logs (w : World) : Bool :=
  match w.logging with
  | .recording => true
  | .console _ => (Calendar.stamp w.clock).isOk

theorem World.log_of_logs {w : World} (h : w.logs = true) (level : Level) (message : String)
    (failure : Option Failure) : ∃ w', w.log level message failure = (w', .ok ()) := by
  unfold logs at h
  rw [log]
  split
  · exact ⟨_, rfl⟩
  · next scope hscope =>
    rw [hscope] at h
    cases hstamp : Calendar.stamp w.clock with
    | ok stamp =>
      rw [Line.stamped, hstamp]
      exact ⟨_, rfl⟩
    | error reason =>
      rw [hstamp] at h
      exact absurd h (by simp [Except.isOk, Except.toBool])

theorem World.log_of_not_logs {w : World} (h : w.logs = false) (level : Level) (message : String)
    (failure : Option Failure) : ∃ reason, w.log level message failure = (w, .error reason) := by
  rw [logs] at h
  rw [log]
  split
  · next hrecording =>
    rw [hrecording] at h
    exact absurd h (by simp)
  · next scope hscope =>
    rw [hscope] at h
    cases hstamp : Calendar.stamp w.clock with
    | ok stamp =>
      rw [hstamp] at h
      exact absurd h (by simp [Except.isOk, Except.toBool])
    | error reason =>
      rw [Line.stamped, hstamp]
      exact ⟨reason, rfl⟩

namespace Machine

variable {m m' x : Machine}

/-! ### The end of a lookup -/

/-- A cycle ends where no list has changed. -/
theorem goOn_of_unchanged {w : World} {k : List Frame} {cycle : Cycle} {r : Refresher}
    (hr : w.refreshers[cycle.refresher]? = some r) (hgeneration : r.generation = cycle.generation)
    (hsame : r.nextChange? cycle.latest cycle.remaining = none) :
    goOn w k cycle = done (w.endCycle cycle.refresher cycle.origin (.ok ())) k := by
  simp only [goOn, hr, hgeneration, ne_eq, not_true_eq_false, if_false, hsame]

/-- A cycle applies the first list that has changed. -/
theorem goOn_of_changed {w : World} {k : List Frame} {cycle : Cycle} {r : Refresher}
    {change : Refresher.Change} (hr : w.refreshers[cycle.refresher]? = some r)
    (hgeneration : r.generation = cycle.generation)
    (hchange : r.nextChange? cycle.latest cycle.remaining = some change) :
    goOn w k cycle = applyChange w k cycle r.handler change := by
  simp only [goOn, hr, hgeneration, ne_eq, not_true_eq_false, if_false, hchange]

/-- The strategy takes the list that is applied, where log calls go through. -/
theorem calm_applyChange_of_logs {w : World} (hlogs : w.logs = true) (k : List Frame) (c : Control)
    (cycle : Cycle) (change : Refresher.Change) :
    ∃ w', w.Same w' ∧
      Calm (took ⟨w', k, c⟩ cycle change) (applyChange w k cycle .strategy change) := by
  obtain ⟨w', hlog⟩ := World.log_of_logs hlogs .warn ("A new changed list getting from naming service name='" ++
    change.service ++ "' value=" ++ Endpoint.listText change.endpoints) none
  have hsame := w.same_log .warn ("A new changed list getting from naming service name='" ++
    change.service ++ "' value=" ++ Endpoint.listText change.endpoints) none
  rw [hlog] at hsame
  refine ⟨w', hsame, ?_⟩
  simp only [applyChange, hlog]
  exact (Calm.refl _).notify _

/-- Where a log call fails the cycle ends, and nothing is applied. -/
theorem Calm.applyChange_of_not_logs {w : World} {k : List Frame} {c : Control}
    (h : Calm m ⟨w, k, c⟩) (hlogs : w.logs = false) (cycle : Cycle) (handler : Handler)
    (change : Refresher.Change) : Calm m (applyChange w k cycle handler change) := by
  obtain ⟨reason, hlog⟩ := World.log_of_not_logs hlogs .warn
    ("A new changed list getting from naming service name='" ++
      change.service ++ "' value=" ++ Endpoint.listText change.endpoints) none
  simp only [applyChange, hlog]
  exact (h.failCycle _ _ _).control

/-- The cycle of a poll compares the list of the service that is bound, and no other. -/
theorem Follows.services_eq (hbacked : m.Backed) {number generation : Nat} {origin : Origin}
    {services : List String} {listing : Option Listing} {r : Refresher} {s : Strategy} {b : Binding}
    (hjob : m.job? = some (.answered (.cycle number generation origin services) (.ok listing)))
    (hr : m.world.core? number = some r) (hgeneration : r.generation = generation)
    (hpolls : m.world.Polls number r s b) : services = [b.service] := by
  obtain ⟨provider, asked, hasked, -, hall⟩ := hbacked.of_holds (holds_of_job hjob rfl)
  obtain ⟨r', hr', -, -, hsame⟩ := hbacked.asked _ _ _ _ hasked
  have hcore : m.world.core? number = some r' := hr'
  rw [hr] at hcore
  cases hcore
  -- the lookup was made for what the refresher tracks, and none of it has been compared yet
  obtain ⟨-, htracks⟩ := hsame hgeneration
  rw [← hpolls.services, htracks]
  exact hall rfl

/-- **What a poll does with the list that its lookup returned**: it replaces the targets where the
list differs from the one seen last, unless logging fails, and leaves them alone otherwise. -/
theorem Follows.strategy_next (hm : m.Follows) (hbacked : m.Backed) (hwired : m.world.Wired)
    (hnone : m.world.callback = none) {number generation : Nat} {origin : Origin}
    {services : List String} {listing : Option Listing}
    (hjob : m.job? = some (.answered (.cycle number generation origin services) (.ok listing)))
    (hin : m.InRun number generation) :
    ∃ r s b, m.world.core? number = some r ∧ m.world.Polls number r s b ∧ s.building = false ∧
      (Endpoint.sameList (r.seen b.service) (listed listing b.service) = false ∧
          m.world.logs = true ∧
          Strategy.Kept (some (s.replaceTargets b.service (listed listing b.service)))
            m.next.world.strategy ∨
        (Endpoint.sameList (r.seen b.service) (listed listing b.service) = true ∨
            m.world.logs = false) ∧
          Strategy.Kept (some s) m.next.world.strategy) := by
  obtain ⟨r, hr, hrunning, hgeneration⟩ := hin
  obtain ⟨s, b, hpolls⟩ := hm.poller number r hr hrunning
  obtain ⟨s₀, hs₀, hbuilt⟩ := hm.built number r hr
  rw [hpolls.strategy] at hs₀
  cases hs₀
  refine ⟨r, s, b, hr, hpolls, hbuilt, ?_⟩
  have hservices : services = [b.service] := services_eq hbacked hjob hr hgeneration hpolls
  subst hservices
  obtain ⟨jobs, k, hcalm, hnext⟩ := exists_next_eq_work hjob
  obtain ⟨r₀, hr₀, rfl⟩ := Option.map_eq_some_iff.mp hr
  let w : World := { m.world with jobs := jobs }
  let cycle : Cycle :=
    ⟨number, generation, origin, [b.service], listing.getD Table.empty⟩
  have hnext' : m.next = goOn w k cycle := hnext
  have hfound : w.refreshers[cycle.refresher]? = some r₀ := hr₀
  have hcore : r₀.core.handler = .strategy := hwired.handler_eq hnone hr
  have hhandler : r₀.handler = .strategy := hcore
  have hkept : ∀ {y : Machine}, Calm m y → Strategy.Kept (some s) y.world.strategy := by
    intro y hy
    rw [← hpolls.strategy]
    exact hy.strategy
  -- the cycle compares one list, that of the service that is bound
  have hlisted : (cycle.latest.get? b.service).getD [] = listed listing b.service := by
    cases listing <;> rfl
  have hchange := r₀.nextChange?_singleton cycle.latest b.service
  rw [hlisted] at hchange
  change r₀.nextChange? cycle.latest cycle.remaining =
    if Endpoint.sameList (r₀.core.seen b.service) (listed listing b.service) then none
    else some ⟨b.service, listed listing b.service, []⟩ at hchange
  cases hsame : Endpoint.sameList (r₀.core.seen b.service) (listed listing b.service) with
  | true =>
    rw [hsame, if_pos rfl] at hchange
    refine .inr ⟨.inl rfl, ?_⟩
    rw [hnext', goOn_of_unchanged hfound hgeneration hchange]
    exact hkept ((hcalm.endCycle _ _ _).control)
  | false =>
    rw [hsame, if_neg Bool.false_ne_true] at hchange
    rw [hnext', goOn_of_changed hfound hgeneration hchange, hhandler]
    cases hlogs : m.world.logs with
    | true =>
      obtain ⟨w', hsame', htook⟩ := calm_applyChange_of_logs (w := w) hlogs k m.control cycle
        ⟨b.service, listed listing b.service, []⟩
      have htaken := (hkept (hcalm.same hsame')).replaceTargets b.service (listed listing b.service)
      exact .inl ⟨rfl, rfl, htaken.trans htook.strategy⟩
    | false =>
      exact .inr ⟨.inr rfl, hkept (hcalm.applyChange_of_not_logs hlogs _ _ _)⟩

/-! ### Quiet stretches -/

/-- **A transition that does not replace the targets**: no step resets them, no lookup binds the
strategy, and no cycle goes on to another service. -/
structure Quiet (m m' : Machine) : Prop where
  leads : Leads m m'
  noReset : ∀ service endpoints, m.control ≠ .perform (.reset service endpoints)
  noBinding : ∀ call service provider listing,
    m.job? ≠ some (.answered (.binding call service provider) (.ok listing))
  noCycle : ∀ cycle, m.resumed? = some cycle → m.InRun cycle.refresher cycle.generation →
    cycle.remaining = []

/-- The strategy of a world is there, is built, and knows the same targets as a rotation. -/
def Keeps (m : Machine) (r : Rotation) : Prop :=
  ∃ s, m.world.strategy = some s ∧ s.building = false ∧ ∀ target, target ∈ s.rotation.known ↔ target ∈ r.known

/-- A strategy that is built is kept with what it knows. -/
theorem keeps_of_kept {s : Strategy} (hbuilt : s.building = false)
    (h : Strategy.Kept (some s) m.world.strategy) : m.Keeps s.rotation := by
  obtain ⟨s', hs', hagrees⟩ := h.exists_of_built hbuilt
  refine ⟨s', hs', ?_, fun target => by rw [hagrees.rotation]⟩
  rcases hb : s'.building with _ | _
  · rfl
  · exact absurd (hagrees.building hb) (by rw [hbuilt]; simp)

theorem Calm.keeps (h : Calm m m') {r : Rotation} (hm : m.Keeps r) : m'.Keeps r := by
  obtain ⟨s, hs, hbuilt, hknown⟩ := hm
  obtain ⟨s', hs', hbuilt', hknown'⟩ := keeps_of_kept hbuilt (hs ▸ h.strategy)
  exact ⟨s', hs', hbuilt', fun target => (hknown' target).trans (hknown target)⟩

/-- An act keeps what the strategy knows if the strategy after it does. -/
theorem Keeps.map {y : Machine} {r : Rotation} (hx : x.Keeps r) {f : Strategy → Strategy}
    (hy : y.world.strategy = x.world.strategy.map f) (hbuilt : ∀ s, (f s).building = s.building)
    (hf : ∀ s, x.world.strategy = some s → ∀ target, target ∈ (f s).rotation.known ↔
      target ∈ s.rotation.known) : y.Keeps r := by
  obtain ⟨s, hs, hb, hknown⟩ := hx
  refine ⟨f s, by rw [hy, hs, Option.map_some], (hbuilt s).trans hb, ?_⟩
  exact fun target => (hf s hs target).trans (hknown target)

/-- **A quiet transition keeps what the strategy knows.** -/
theorem Quiet.keeps (h : Quiet m m') (hm : Reachable m) {r : Rotation} (hkeeps : m.Keeps r) :
    m'.Keeps r := by
  cases hm.turn h.leads with
  | calm hcalm => exact hcalm.keeps hkeeps
  | @rotate x step s rotation _ before strategy rotates after =>
    refine after.keeps ((before.keeps hkeeps).map (f := fun s => { s with rotation := rotation })
      rfl (fun _ => rfl) ?_)
    intro s' hs'
    rw [strategy] at hs'
    cases hs'
    exact rotates.mem_known
  | reset control => exact absurd control (h.noReset _ _)
  | rebind job => exact absurd job (h.noBinding _ _ _ _)
  | @start x services _ _ before after =>
    have hact := x.world.strategy_startRefresher 0 services
    refine after.keeps ((before.keeps hkeeps).map (f := id) ?_ (fun _ => rfl) fun _ _ _ => .rfl)
    exact hact.trans (congrFun Option.map_id _).symm
  | @stop x number _ before after =>
    have hact := x.world.strategy_stopRefresher number
    refine after.keeps ((before.keeps hkeeps).map (f := id) ?_ (fun _ => rfl) fun _ _ _ => .rfl)
    exact hact.trans (congrFun Option.map_id _).symm
  | @poll x s binding timings _ before _ _ _ _ after =>
    exact after.keeps ((before.keeps hkeeps).map (x.world.strategy_pollWith binding timings)
      (fun _ => rfl) fun _ _ _ => .rfl)
  | ask before _ _ _ _ after =>
    exact after.keeps ((before.keeps hkeeps).map (f := id) (congrFun Option.map_id _).symm
      (fun _ => rfl) fun _ _ _ => .rfl)
  | @take x cycle _ change finds held _ before after =>
    have happlies := applies_take finds held before after
    -- a cycle that goes on has no service left to compare, and so finds no changed list
    have hempty := h.noCycle cycle finds.resumed (happlies.inRun hm.backed)
    have hfirst := finds.change
    rw [hempty] at hfirst
    exact absurd hfirst (by simp [Refresher.nextChange?])
  | callBack _ _ _ before _ after =>
    exact after.keeps ((before.keeps hkeeps).map (f := id) (congrFun Option.map_id _).symm
      (fun _ => rfl) fun _ _ _ => .rfl)

/-- **A quiet stretch keeps what the strategy knows.** -/
theorem Reachable.keeps_of_quiet (h : Reachable m) {r : Rotation} (hm : m.Keeps r)
    (hquiet : Relation.ReflTransGen Quiet m m') : Reachable m' ∧ m'.Keeps r := by
  induction hquiet with
  | refl => exact ⟨h, hm⟩
  | tail _ hlast ih => exact ⟨ih.1.leads hlast.leads, hlast.keeps ih.1 ih.2⟩

/-! ### Agreement -/

/-- **What polling saw last, what was applied last and the targets agree.** -/
structure InSync (m : Machine) : Prop where
  /-- The targets are those of the list that the binding remembers. -/
  bound : ∀ s b, m.world.strategy = some s → s.binding = some b → s.rotation.Knows b.endpoints
  /-- The targets are those of the list that the poller saw last. -/
  seen : ∀ n r s b, m.world.core? n = some r → r.running = true → m.world.Polls n r s b →
    s.rotation.Knows (r.seen b.service)

/-- Lists of endpoints that stand for the same targets. -/
def SameTargets (as bs : List Endpoint) : Prop :=
  ∀ target, target ∈ as.map Endpoint.key ↔ target ∈ bs.map Endpoint.key

/-- **A reset by hand is harmless**, if one comes next: it is to the service that is bound, or to
the targets that the binding remembers, and while the strategy polls it is to the targets of the
list that the poller saw last. -/
structure Harmless (m : Machine) : Prop where
  bound : ∀ service endpoints s b, m.control = .perform (.reset service endpoints) →
    m.world.strategy = some s → s.binding = some b →
    b.service = service ∨ SameTargets endpoints b.endpoints
  seen : ∀ service endpoints n r s b, m.control = .perform (.reset service endpoints) →
    m.world.core? n = some r → r.running = true → m.world.Polls n r s b →
    SameTargets endpoints (r.seen b.service)

/-- What polls after a calm stretch polled before. -/
theorem Calm.polls (h : Calm m m') {n : Nat} {r : Refresher} {s' : Strategy} {b : Binding}
    (hpolls : m'.world.Polls n r s' b) : ∃ s, m.world.Polls n r s b ∧ s'.Agrees s := by
  obtain ⟨s, hs, hagrees⟩ := (hpolls.strategy ▸ h.strategy).exists_of_some
  refine ⟨s, ⟨hs, ?_, ?_, hpolls.provider, hpolls.services⟩, hagrees⟩
  · rw [← hagrees.refresher, hpolls.latest]
  · rw [← hagrees.binding, hpolls.bound]

theorem Calm.inSync (h : Calm m m') (hm : m.InSync) : m'.InSync where
  bound s' b hs' hb := by
    obtain ⟨s, hs, hagrees⟩ := (hs' ▸ h.strategy).exists_of_some
    rw [hagrees.rotation]
    exact hm.bound s b hs (hagrees.binding.symm.trans hb)
  seen n r s' b hr hrunning hpolls := by
    obtain ⟨s, hpolls', hagrees⟩ := h.polls hpolls
    rw [hagrees.rotation]
    exact hm.seen n r s b ((h.core n).symm.trans hr) hrunning hpolls'

/-- A harmless reset is so after a calm stretch. -/
theorem Calm.harmless (h : Calm m x) (hm : m.Harmless) {service : String} {endpoints : List Endpoint}
    (control : m.control = .perform (.reset service endpoints)) :
    Harmless { x with control := .perform (.reset service endpoints) } where
  bound service' endpoints' s' b hcontrol hs' hb := by
    cases hcontrol
    have hs'' : x.world.strategy = some s' := hs'
    obtain ⟨s, hs, hagrees⟩ := (hs'' ▸ h.strategy).exists_of_some
    exact hm.bound service endpoints s b control hs (hagrees.binding.symm.trans hb)
  seen service' endpoints' n r s' b hcontrol hr hrunning hpolls := by
    cases hcontrol
    obtain ⟨s, hpolls', -⟩ := h.polls hpolls
    exact hm.seen service endpoints n r s b control ((h.core n).symm.trans hr) hrunning hpolls'

/-- An act that keeps what the strategy knows and follows, and starts no refresher, keeps the
agreement. -/
theorem InSync.map {y : Machine} (hx : x.InSync) {f : Strategy → Strategy}
    (hstrategy : y.world.strategy = x.world.strategy.map f)
    (hbinding : ∀ s, (f s).binding = s.binding) (hlatest : ∀ s, (f s).refresher = s.refresher)
    (hknown : ∀ s, x.world.strategy = some s → ∀ target, target ∈ (f s).rotation.known ↔
      target ∈ s.rotation.known)
    (hcore : ∀ n r, y.world.core? n = some r → r.running = true → x.world.core? n = some r) :
    y.InSync where
  bound s' b hs' hb := by
    rw [hstrategy] at hs'
    obtain ⟨s, hs, rfl⟩ := Option.map_eq_some_iff.mp hs'
    intro target
    rw [hknown s hs]
    exact hx.bound s b hs ((hbinding s).symm.trans hb) target
  seen n r s' b hr hrunning hpolls := by
    have hs' := hpolls.strategy
    rw [hstrategy] at hs'
    obtain ⟨s, hs, rfl⟩ := Option.map_eq_some_iff.mp hs'
    have hpolls' : x.world.Polls n r s b :=
      ⟨hs, (hlatest s).symm.trans hpolls.latest, (hbinding s).symm.trans hpolls.bound,
        hpolls.provider, hpolls.services⟩
    intro target
    rw [hknown s hs]
    exact hx.seen n r s b (hcore n r hr hrunning) hrunning hpolls' target

/-- **A reset leaves the three in agreement exactly where it is harmless.** -/
theorem inSync_replaced_iff (x : Machine) (service : String) (endpoints : List Endpoint) :
    (x.replaced service endpoints).InSync ↔
      Harmless { x with control := .perform (.reset service endpoints) } := by
  have hstrategy : (x.replaced service endpoints).world.strategy =
      x.world.strategy.map fun s => s.replaceTargets service endpoints := rfl
  have hknows : ∀ s : Strategy, (s.replaceTargets service endpoints).rotation.Knows endpoints :=
    fun _ => Rotation.knows_ofEndpoints endpoints
  constructor
  · intro h
    constructor
    · intro service' endpoints' s b hcontrol hs hb
      cases hcontrol
      by_cases hservice : b.service = service
      · exact .inl hservice
      · right
        have hb' : (s.replaceTargets service endpoints).binding = some b := by
          rw [Strategy.replaceTargets, hb, Option.map_some, Binding.see, if_neg hservice]
        have hs' : (x.replaced service endpoints).world.strategy =
            some (s.replaceTargets service endpoints) := by
          rw [hstrategy, hs, Option.map_some]
        intro target
        rw [← h.bound _ b hs' hb' target, hknows s target]
    · intro service' endpoints' n r s b hcontrol hr hrunning hpolls
      cases hcontrol
      obtain ⟨b', hb', hservice, hprovider⟩ :=
        (s.stays_replaceTargets service endpoints).binding b hpolls.bound
      have hpolls' : (x.replaced service endpoints).world.Polls n r
          (s.replaceTargets service endpoints) b' := by
        refine ⟨?_, hpolls.latest, hb', ?_, ?_⟩
        · rw [hstrategy, hpolls.strategy, Option.map_some]
        · rw [hprovider, hpolls.provider]
        · rw [hservice, hpolls.services]
      intro target
      rw [← hservice, ← h.seen n r _ b' hr hrunning hpolls' target, hknows s target]
  · intro h
    constructor
    · intro s' b' hs' hb'
      rw [hstrategy] at hs'
      obtain ⟨s, hs, rfl⟩ := Option.map_eq_some_iff.mp hs'
      obtain ⟨b, hb, rfl⟩ := Option.map_eq_some_iff.mp hb'
      intro target
      rw [hknows s target]
      rw [Binding.see]
      split
      · rfl
      · next hother =>
        exact (h.bound service endpoints s b rfl hs hb).resolve_left hother target
    · intro n r s' b' hr hrunning hpolls
      have hs' := hpolls.strategy
      rw [hstrategy] at hs'
      obtain ⟨s, hs, rfl⟩ := Option.map_eq_some_iff.mp hs'
      obtain ⟨b, hb, hsee⟩ := Option.map_eq_some_iff.mp hpolls.bound
      have hservice : b'.service = b.service := by rw [← hsee, Binding.service_see]
      have hprovider : b'.provider = b.provider := by rw [← hsee, Binding.provider_see]
      have hpolls' : x.world.Polls n r s b :=
        ⟨hs, hpolls.latest, hb, by rw [← hprovider, hpolls.provider],
          by rw [← hservice, hpolls.services]⟩
      intro target
      rw [hknows s target, hservice]
      exact h.seen service endpoints n r s b rfl hr hrunning hpolls' target

/-- Where the strategy is built, the three agree before a calm stretch if they agree after it. -/
theorem Calm.inSync_of_built {y : Machine} (h : Calm x y) (hy : y.InSync) {s : Strategy}
    (hs : x.world.strategy = some s) (hbuilt : s.building = false) : x.InSync := by
  obtain ⟨s', hs', hagrees⟩ := (hs ▸ h.strategy).exists_of_built hbuilt
  constructor
  · intro s₁ b hs₁ hb
    cases hs.symm.trans hs₁
    rw [← hagrees.rotation]
    exact hy.bound s' b hs' (hagrees.binding.trans hb)
  · intro n r s₁ b hr hrunning hpolls
    cases hs.symm.trans hpolls.strategy
    have hpolls' : y.world.Polls n r s' b :=
      ⟨hs', hagrees.refresher.trans hpolls.latest, hagrees.binding.trans hpolls.bound,
        hpolls.provider, hpolls.services⟩
    rw [← hagrees.rotation]
    exact hy.seen n r s' b ((h.core n).trans hr) hrunning hpolls'

/-- **Where a reset is performed, the three agree after it exactly if it is harmless.** -/
theorem inSync_next_iff_harmless {service : String} {endpoints : List Endpoint}
    (hcontrol : m.control = .perform (.reset service endpoints))
    (hbuilt : m.world.strategy?.isSome = true) : m.next.InSync ↔ m.Harmless := by
  obtain ⟨w, k, c⟩ := m
  have hcontrol' : c = .perform (.reset service endpoints) := hcontrol
  subst hcontrol'
  obtain ⟨s, hs⟩ := Option.isSome_iff_exists.mp hbuilt
  have hs' : w.strategy? = some s := hs
  have hnext : next ⟨w, k, .perform (.reset service endpoints)⟩ = reset w k service endpoints := by
    simp only [next, perform, Step.drivesRefresher, Bool.false_eq_true, if_false, hs',
      performStrategy]
  have htold : Calm (replaced ⟨w, k, .perform (.reset service endpoints)⟩ service endpoints)
      (reset w k service endpoints) := (Calm.refl _).notify _
  obtain ⟨hthere, hnot⟩ := Option.filter_eq_some_iff.mp hs'
  have hbuilt' : s.building = false := by simpa using hnot
  have hreplaced := congrArg (Option.map fun s => s.replaceTargets service endpoints) hthere
  rw [hnext]
  constructor
  · intro hsync
    exact (inSync_replaced_iff _ service endpoints).mp
      (htold.inSync_of_built hsync hreplaced hbuilt')
  · intro hharmless
    exact htold.inSync ((inSync_replaced_iff _ service endpoints).mpr hharmless)

/-- After the strategy was bound anew the three agree. -/
theorem Follows.inSync_rebound (hx : x.Follows) (call : Nat) (service provider : String)
    (listing : Option Listing) : (x.rebound call service provider listing).InSync where
  bound s' b' hs' hb' := by
    rw [strategy_rebound] at hs'
    obtain ⟨s, -, rfl⟩ := Option.map_eq_some_iff.mp hs'
    have hb : (⟨service, provider, []⟩ : Binding).see service (listed listing service) = b' :=
      Option.some.inj hb'
    rw [Binding.see, if_pos rfl] at hb
    rw [← hb]
    exact Rotation.knows_ofEndpoints _
  seen n r _ _ hr hrunning _ :=
    absurd ⟨r, hr, hrunning⟩ (hx.not_running_rebound call service provider listing n)

/-- A poller begins with the list that the binding remembers. -/
theorem InSync.polled (hx : x.InSync) {s : Strategy} {binding : Binding} (timings : Timings)
    (hs : x.world.strategy = some s) (hb : s.binding = some binding) :
    (x.polled binding timings).InSync := by
  have hstrategy : (x.polled binding timings).world.strategy =
      some (s.pollBy x.world.refreshers.length timings) := by
    rw [Machine.polled, World.strategy_pollWith, hs, Option.map_some]
  constructor
  · intro s' b hs' hb'
    rw [hstrategy] at hs'
    cases hs'
    exact hx.bound s b hs hb'
  · intro n r s' b hr _ hpolls
    have hs' := hstrategy.symm.trans hpolls.strategy
    cases hs'
    -- it is the new refresher that polls
    have hn : x.world.refreshers.length = n := Option.some.inj hpolls.latest
    have hb' : binding = b := Option.some.inj (hb.symm.trans hpolls.bound)
    subst hn hb'
    rw [Machine.polled, World.core?_pollWith, if_pos rfl] at hr
    cases hr
    have hseen : ((Refresher.idle (some binding.provider) .strategy timings).begun
        (Table.empty.insert binding.service binding.endpoints)).seen binding.service =
        binding.endpoints := by
      have hget := Table.get?_insert Table.empty binding.service binding.service binding.endpoints
      rw [if_pos rfl] at hget
      exact congrArg (Option.getD · []) hget
    rw [hseen]
    exact hx.bound s binding hs hb

/-- After the strategy has taken a list the three agree. -/
theorem Follows.inSync_took (hx : x.Follows) {cycle : Cycle} {r : Refresher}
    {change : Refresher.Change} (hr : x.world.core? cycle.refresher = some r)
    (hrunning : r.running = true) (hservice : change.service ∈ r.snapshot.keys) :
    (x.took cycle change).InSync := by
  obtain ⟨s, b, hpolls⟩ := hx.poller _ r hr hrunning
  rw [hpolls.services] at hservice
  have hsee : b.see change.service change.endpoints = { b with endpoints := change.endpoints } := by
    rw [Binding.see, if_pos (List.mem_singleton.mp hservice).symm]
  have hstrategy : (x.took cycle change).world.strategy =
      some (s.replaceTargets change.service change.endpoints) :=
    congrArg (Option.map _) hpolls.strategy
  have hbinding : (s.replaceTargets change.service change.endpoints).binding =
      some { b with endpoints := change.endpoints } := by
    rw [Strategy.replaceTargets, hpolls.bound, Option.map_some, hsee]
  constructor
  · intro s' b' hs' hb'
    rw [hstrategy] at hs'
    cases hs'
    rw [hbinding] at hb'
    cases hb'
    exact Rotation.knows_ofEndpoints _
  · intro n r' s' b' hr' _ hpolls'
    have hs' := hstrategy.symm.trans hpolls'.strategy
    cases hs'
    have hb' := hbinding.symm.trans hpolls'.bound
    cases hb'
    -- the poller is the refresher that has just seen the list
    have hn : cycle.refresher = n := Option.some.inj (hpolls.latest.symm.trans hpolls'.latest)
    subst hn
    have hr₁ := (x.core?_seen cycle.refresher change cycle.refresher).symm.trans hr'
    rw [if_pos rfl, hr, Option.map_some] at hr₁
    cases hr₁
    have hseen : (r.see change.service change.endpoints).seen b.service = change.endpoints := by
      have hget := Table.get?_insert r.snapshot change.service b.service change.endpoints
      rw [if_pos (List.mem_singleton.mp hservice).symm] at hget
      exact congrArg (Option.getD · []) hget
    rw [hseen]
    exact Rotation.knows_ofEndpoints _

/-- **Every transition keeps the agreement, but for a reset that is not harmless.** -/
theorem Turn.inSync (h : Turn m m') (hm : m.InSync) (hfollows : m.Follows) (hbacked : m.Backed)
    (hnone : m.world.callback = none) (hharmless : m.Harmless) : m'.InSync := by
  cases h with
  | calm h => exact h.inSync hm
  | @rotate x step s rotation _ before strategy rotates after =>
    refine after.inSync ((before.inSync hm).map (f := fun s => { s with rotation := rotation })
      rfl (fun _ => rfl) (fun _ => rfl) ?_ fun _ _ hr _ => hr)
    intro s' hs'
    rw [strategy] at hs'
    cases hs'
    exact rotates.mem_known
  | @reset x service endpoints control before after =>
    -- the one place where the agreement may be lost
    exact after.inSync ((inSync_replaced_iff x service endpoints).mpr
      (before.harmless hharmless control))
  | rebind _ before after => exact after.inSync ((before.follows hfollows).inSync_rebound _ _ _ _)
  | start _ driven =>
    rw [hnone] at driven
    exact absurd driven (by simp)
  | @stop x number _ before after =>
    have hact := (x.world.strategy_stopRefresher number).trans (congrFun Option.map_id _).symm
    refine after.inSync ((before.inSync hm).map (f := id) hact (fun _ => rfl) (fun _ => rfl)
      (fun _ _ _ => .rfl) ?_)
    intro n r hr hrunning
    have hcore := (x.world.core?_stopRefresher number n).symm.trans hr
    split at hcore
    · obtain ⟨r₀, -, rfl⟩ := Option.map_eq_some_iff.mp hcore
      exact absurd hrunning (by simp)
    · exact hcore
  | poll _ before strategy bound _ _ after =>
    exact after.inSync ((before.inSync hm).polled _ strategy bound)
  | ask before _ _ _ _ after =>
    exact after.inSync ((before.inSync hm).map (f := id) (congrFun Option.map_id _).symm
      (fun _ => rfl) (fun _ => rfl) (fun _ _ _ => .rfl) fun _ _ hr _ => hr)
  | take finds held _ before after =>
    obtain ⟨-, -, -, hrunning, hservice⟩ := (applies_take finds held before (.refl _)).tracked hbacked
    exact after.inSync ((before.follows hfollows).inSync_took
      (World.core?_of_getElem? finds.found) hrunning hservice)
  | callBack _ _ _ before there =>
    exact absurd (there.symm.trans (before.callback_eq_none hnone)) (by simp)

/-- A session begins with nothing to disagree. -/
theorem Opens.inSync (h : Opens m) : m.InSync := by
  have hunbound : ∀ m : Machine, (∀ s, m.world.strategy = some s → s.binding = none) → m.InSync := by
    intro m hnone
    constructor
    · intro s b hs hb
      exact absurd ((hnone s hs).symm.trans hb) (by simp)
    · intro n r s b _ _ hpolls
      exact absurd ((hnone s hpolls.strategy).symm.trans hpolls.bound) (by simp)
  cases h with
  | strategy setup options weights =>
    refine hunbound _ ?_
    intro s hs
    cases hs
    rfl
  | bound setup options service provider =>
    refine (calm_boundMachine setup options service provider).inSync (hunbound _ ?_)
    intro s hs
    cases hs
    rfl
  | refresher h =>
    rw [openRefresher_eq_ok h]
    refine hunbound _ ?_
    intro s hs
    exact absurd hs (by simp [Setup.world])

/-! ### When a poll brings the targets in step -/

/-- A stretch of a session in which every reset by hand is harmless keeps the agreement. -/
theorem Opens.inSync_of_harmless (h : Opens m)
    (hrun : Relation.ReflTransGen (fun a b => Leads a b ∧ a.Harmless) m m') :
    Run m m' ∧ (m'.world.callback = none → m'.InSync) := by
  induction hrun with
  | refl => exact ⟨.refl, fun _ => h.inSync⟩
  | @tail a b _ hlast ih =>
    obtain ⟨hrun, hsync⟩ := ih
    have hreach : Reachable a := h.reachable.run hrun
    have hturn : Turn a b := hreach.turn hlast.1
    refine ⟨hrun.tail hlast.1, fun hnone => ?_⟩
    have hnone' : a.world.callback = none := hturn.callback_eq_none hnone
    exact hturn.inSync (hsync hnone') (hreach.follows hnone') hreach.backed hnone' hlast.2

/-- **When the targets are those of the list after a poll**: exactly if the list differs from the
one that polling saw last, or the targets are those of the list already, provided that log calls
go through. The latter is so wherever no reset by hand has put the targets out of step since the
session began. Without a reset, a lookup that binds the strategy and another list of a poll in
between, this stays so. -/
theorem Reachable.poll_syncs_iff (h : Reachable m) (hnone : m.world.callback = none)
    {number generation : Nat} {origin : Origin} {services : List String} {listing : Option Listing}
    (hjob : m.job? = some (.answered (.cycle number generation origin services) (.ok listing)))
    (hin : m.InRun number generation) :
    ∃ r s b, m.world.core? number = some r ∧ m.world.Polls number r s b ∧
      (∀ m', Relation.ReflTransGen Quiet m.next m' → ∃ s', m'.world.strategy = some s' ∧
        (s'.rotation.Knows (listed listing b.service) ↔
          Endpoint.sameList (r.seen b.service) (listed listing b.service) = false ∧
              m.world.logs = true ∨
            s.rotation.Knows (listed listing b.service))) ∧
      (∀ m₀, Opens m₀ → Relation.ReflTransGen (fun a b => Leads a b ∧ a.Harmless) m₀ m →
        m.world.logs = true → ∀ m', Relation.ReflTransGen Quiet m.next m' →
          ∃ s', m'.world.strategy = some s' ∧ s'.rotation.Knows (listed listing b.service)) := by
  have hfollows : m.Follows := h.follows hnone
  have hnext : Reachable m.next := h.leads (.next m)
  obtain ⟨r, s, b, hr, hpolls, hbuilt, hcourse⟩ :=
    hfollows.strategy_next h.backed h.wired hnone hjob hin
  have hrunning : r.running = true := by
    obtain ⟨r', hr', hrunning, -⟩ := hin
    rw [hr] at hr'
    cases hr'
    exact hrunning
  have hiff : ∀ m', Relation.ReflTransGen Quiet m.next m' → ∃ s', m'.world.strategy = some s' ∧
      (s'.rotation.Knows (listed listing b.service) ↔
        Endpoint.sameList (r.seen b.service) (listed listing b.service) = false ∧
            m.world.logs = true ∨
          s.rotation.Knows (listed listing b.service)) := by
    intro m' hquiet
    rcases hcourse with ⟨hdiffers, hlogs, hkept⟩ | ⟨hsame, hkept⟩
    · -- the targets are replaced by those of the list
      have hkeeps : m.next.Keeps (.ofEndpoints (listed listing b.service)) :=
        keeps_of_kept (s := s.replaceTargets b.service (listed listing b.service)) hbuilt hkept
      obtain ⟨-, s', hs', -, hknown⟩ := hnext.keeps_of_quiet hkeeps hquiet
      refine ⟨s', hs', fun _ => .inl ⟨hdiffers, hlogs⟩, fun _ target => ?_⟩
      rw [hknown, Rotation.knows_ofEndpoints _ target]
    · -- the targets stay as they are
      obtain ⟨-, s', hs', -, hknown⟩ := hnext.keeps_of_quiet (keeps_of_kept hbuilt hkept) hquiet
      refine ⟨s', hs', ?_, ?_⟩
      · intro hknows
        right
        intro target
        rw [← hknown, hknows target]
      · rintro (⟨hdiffers, hlogs⟩ | hknows) target
        · rcases hsame with heq | heq
          · rw [heq] at hdiffers
            exact absurd hdiffers (by simp)
          · rw [heq] at hlogs
            exact absurd hlogs (by simp)
        · rw [hknown, hknows target]
  refine ⟨r, s, b, hr, hpolls, hiff, ?_⟩
  intro m₀ hopen hharmless hlogs m' hquiet
  obtain ⟨s', hs', hknows⟩ := hiff m' hquiet
  refine ⟨s', hs', hknows.mpr ?_⟩
  cases hsame : Endpoint.sameList (r.seen b.service) (listed listing b.service) with
  | false => exact .inl ⟨rfl, hlogs⟩
  | true =>
    -- the list is the one seen last, so the targets are those of it already
    right
    intro target
    rw [← Endpoint.map_key_eq_of_sameList hsame]
    exact ((hopen.inSync_of_harmless hharmless).2 hnone).seen number r s b hr hrunning hpolls target

/-! ### Two polls -/

/-- A strategy of a service with two endpoints has begun to poll. -/
def polling : Machine :=
  let endpoints : List Endpoint := [⟨"10.0.0.1", .ofNat 80⟩, ⟨"10.0.0.2", .ofNat 80⟩]
  let setup : Setup := ⟨.zero, ⟨none, none⟩, false,
    .ofList [("registry", ⟨.ofList [("echo", endpoints)], []⟩)]⟩
  let bound := run 8 (boundMachine setup ⟨none, none, none⟩ "echo" "registry")
  run 4 (bound.world.machine (.startPolling (some (.ofNat 1000)) (some (.ofNat 1000))))

theorem reachable_polling : Reachable polling := by
  refine Reachable.run ?_ (run_of_step (by decide +kernel) _ _)
  exact (Opens.bound ..).reachable.run (run_of_transitions 8 _)

/-- Its first poll after a step, at the point where the lookup has ended. -/
def firstPoll (step : Step) : Machine :=
  run 4 ((run 4 (polling.world.machine step)).world.machine (.advance (.ofNat 1000)))

theorem reachable_firstPoll {step : Step}
    (h : (run 4 (polling.world.machine step)).finished = true) : Reachable (firstPoll step) :=
  (reachable_polling.run (run_of_step (by decide +kernel) step 4)).run (run_of_step h _ 4)

/-- What the lookup of a poll has returned for a service. -/
def polled? (m : Machine) (service : String) : Option (Nat × Nat × List Endpoint) :=
  m.job?.bind fun
    | .answered (.cycle number generation _ _) (.ok listing) =>
      some (number, generation, listed listing service)
    | _ => none

theorem exists_of_polled? {service : String} {number generation : Nat} {endpoints : List Endpoint}
    (h : m.polled? service = some (number, generation, endpoints)) :
    ∃ origin services listing,
      m.job? = some (.answered (.cycle number generation origin services) (.ok listing)) ∧
        listed listing service = endpoints := by
  obtain ⟨job, hjob, hpolled⟩ := Option.bind_eq_some_iff.mp h
  split at hpolled
  · next number generation origin services listing =>
    cases hpolled
    exact ⟨origin, services, listing, hjob, rfl⟩
  · exact absurd hpolled (by simp)

/-- A poll after the endpoints of the service have changed brings the targets in step. -/
theorem poll_syncs_after_change :
    ∃ m number generation origin services listing s', Reachable m ∧
      m.job? = some (.answered (.cycle number generation origin services) (.ok listing)) ∧
      m.InRun number generation ∧ m.next.world.strategy = some s' ∧
      s'.rotation.Knows [⟨"10.0.0.3", .ofNat 80⟩] := by
  let m := firstPoll (.register "registry" "echo" [⟨"10.0.0.3", .ofNat 80⟩])
  have hm : Reachable m := reachable_firstPoll (by decide +kernel)
  have hpolled : m.polled? "echo" = some (0, 1, [⟨"10.0.0.3", .ofNat 80⟩]) := by decide +kernel
  obtain ⟨origin, services, listing, hjob, hlisted⟩ := exists_of_polled? hpolled
  have hnone : m.world.callback.isNone = true := by decide +kernel
  have hin : m.InRun 0 1 := by decide +kernel
  obtain ⟨r, s, b, hr, hpolls, hiff, -⟩ :=
    hm.poll_syncs_iff (Option.isNone_iff_eq_none.mp hnone) hjob hin
  obtain ⟨s', hs', hknows⟩ := hiff m.next .refl
  -- the service is the one that is bound, and its list is not the one seen last
  have hbound : m.world.strategy.map (fun s => s.binding.map Binding.service) =
      some (some "echo") := by decide +kernel
  rw [hpolls.strategy, Option.map_some, hpolls.bound, Option.map_some] at hbound
  have hservice : b.service = "echo" := Option.some.inj (Option.some.inj hbound)
  have hdiffers : (m.world.core? 0).map
      (fun r => Endpoint.sameList (r.seen "echo") [⟨"10.0.0.3", .ofNat 80⟩]) = some false := by
    decide +kernel
  rw [hr, Option.map_some] at hdiffers
  rw [hservice, hlisted] at hknows
  exact ⟨m, 0, 1, origin, services, listing, s', hm, hjob, hin, hs',
    hknows.mpr (.inl ⟨Option.some.inj hdiffers, by decide +kernel⟩)⟩

/-- **A poll after which the targets are out of step**: they were reset by hand while the strategy
polled, and the lookup of the poll returns the list that polling saw last. The cycle ends, and
the targets are still those of the reset. -/
theorem poll_ignores_reset :
    ∃ m number generation origin services listing s' b, Reachable m ∧ m.world.callback = none ∧
      m.job? = some (.answered (.cycle number generation origin services) (.ok listing)) ∧
      m.InRun number generation ∧ m.world.logs = true ∧ m.next.suspended.length = 0 ∧
      m.next.world.strategy = some s' ∧ s'.binding = some b ∧
      ¬ s'.rotation.Knows (listed listing b.service) := by
  let m := firstPoll (.reset "echo" [⟨"10.0.0.9", .ofNat 80⟩])
  have hm : Reachable m := reachable_firstPoll (by decide +kernel)
  have hpolled : m.polled? "echo" =
      some (0, 1, [⟨"10.0.0.1", .ofNat 80⟩, ⟨"10.0.0.2", .ofNat 80⟩]) := by decide +kernel
  obtain ⟨origin, services, listing, hjob, hlisted⟩ := exists_of_polled? hpolled
  have hnone : m.world.callback.isNone = true := by decide +kernel
  have hafter : (m.next.world.strategy.bind fun s => s.binding.map fun b =>
      (b.service, decide (s.rotation.Knows [⟨"10.0.0.1", .ofNat 80⟩, ⟨"10.0.0.2", .ofNat 80⟩]))) =
        some ("echo", false) := by decide +kernel
  obtain ⟨s', hs', hbinding⟩ := Option.bind_eq_some_iff.mp hafter
  obtain ⟨b, hb, heq⟩ := Option.map_eq_some_iff.mp hbinding
  rw [Prod.mk.injEq, decide_eq_false_iff_not] at heq
  refine ⟨m, 0, 1, origin, services, listing, s', b, hm, Option.isNone_iff_eq_none.mp hnone, hjob,
    by decide +kernel, by decide +kernel, by decide +kernel, hs', hb, ?_⟩
  rw [heq.1, hlisted]
  exact heq.2

end Machine

end Balancer.Session
