import Balancer.Proofs.Session.Runs

/-!
# The poller of a strategy

A strategy may be bound anew, and its polling started and stopped, while older refreshers of it
still have lookups open. At most one of them runs, and that one polls for the service that the
strategy follows at that moment.

* `Balancer.Session.World.Polls` – **a refresher polls for the binding of the strategy.**
* `Balancer.Session.Machine.Follows` – **the invariant of a strategy that polls.**
* `Balancer.Session.Machine.Follows.rebound_next` – a lookup that binds the strategy ends the run
  of its refresher.
* `Balancer.Session.Machine.Reachable.polls_only_what_is_bound` – **one poller, always on the bound
  service.**
-/

namespace Balancer.Session

/-! ### The invariant -/

/-- **A refresher polls for the binding of the strategy**: it is the latest one, asks the naming
service of the binding, and tracks its service and no other. -/
structure World.Polls (w : World) (number : Nat) (r : Refresher) (s : Strategy) (b : Binding) :
    Prop where
  strategy : w.strategy = some s
  latest : s.refresher = some number
  bound : s.binding = some b
  provider : r.provider = some b.provider
  services : r.snapshot.keys = [b.service]

@[simp]
theorem Binding.service_see (b : Binding) (service : String) (endpoints : List Endpoint) :
    (b.see service endpoints).service = b.service := by
  rw [see]
  split <;> rfl

@[simp]
theorem Binding.provider_see (b : Binding) (service : String) (endpoints : List Endpoint) :
    (b.see service endpoints).provider = b.provider := by
  rw [see]
  split <;> rfl

/-- A strategy with the same refresher that follows the same service. -/
structure Strategy.Stays (s s' : Strategy) : Prop where
  refresher : s'.refresher = s.refresher
  binding : ∀ b, s.binding = some b →
    ∃ b', s'.binding = some b' ∧ b'.service = b.service ∧ b'.provider = b.provider
  building : s'.building = true → s.building = true

theorem Strategy.Agrees.stays {s s' : Strategy} (h : s'.Agrees s) : s.Stays s' :=
  ⟨h.refresher, fun b hb => ⟨b, h.binding.trans hb, rfl, rfl⟩, h.building⟩

theorem Strategy.stays_replaceTargets (s : Strategy) (service : String) (endpoints : List Endpoint) :
    s.Stays (s.replaceTargets service endpoints) where
  refresher := rfl
  binding b hb := by
    have hb' : (s.replaceTargets service endpoints).binding = some (b.see service endpoints) := by
      rw [replaceTargets, hb, Option.map_some]
    exact ⟨_, hb', b.service_see service endpoints, b.provider_see service endpoints⟩
  building := id

/-- Whether the strategy polls is whether its latest refresher runs. -/
theorem World.polling_iff {w : World} : w.polling = true ↔
    ∃ n r, w.poller? = some n ∧ w.core? n = some r ∧ r.running = true := by
  rw [polling]
  rcases hn : w.poller? with _ | n
  · simp
  · rcases hr : w.refreshers[n]? with _ | r
    · simp [hr, core?]
    · simp [hr, core?, Refresher.core]

namespace Machine

variable {m m' x y : Machine}

/-- **The invariant of a strategy that polls.** -/
structure Follows (m : Machine) : Prop where
  /-- Where there is a refresher, the strategy is there and is built. -/
  built : ∀ n r, m.world.core? n = some r →
    ∃ s, m.world.strategy = some s ∧ s.building = false
  /-- Polling is to begin again only where there is a refresher. -/
  restarts : m.restarts = true → ∃ n r, m.world.core? n = some r
  /-- A refresher that runs polls for the binding of the strategy. -/
  poller : ∀ n r, m.world.core? n = some r → r.running = true → ∃ s b, m.world.Polls n r s b

/-! ### What keeps it -/

/-- The invariant is kept where the strategy stays and no refresher comes to run or to poll for
something else. -/
theorem Follows.of_stays (hx : x.Follows) (hgrow : x.world.Grow y.world)
    (hback : ∀ n r', y.world.core? n = some r' → ∃ r, x.world.core? n = some r ∧
      (r'.running = true → r.running = true ∧ r'.snapshot.keys = r.snapshot.keys))
    (hstays : ∀ s, x.world.strategy = some s → s.building = false →
      ∃ s', y.world.strategy = some s' ∧ s.Stays s')
    (hrestarts : y.restarts = true → x.restarts = true) : y.Follows where
  built n r' hr' := by
    obtain ⟨r, hr, -⟩ := hback n r' hr'
    obtain ⟨s, hs, hbuilt⟩ := hx.built n r hr
    obtain ⟨s', hs', hstays⟩ := hstays s hs hbuilt
    refine ⟨s', hs', ?_⟩
    rcases hb : s'.building with _ | _
    · rfl
    · exact absurd (hstays.building hb) (by rw [hbuilt]; simp)
  restarts hr := by
    obtain ⟨n, r, hcore⟩ := hx.restarts (hrestarts hr)
    obtain ⟨r', hcore', -⟩ := hgrow.old n r hcore
    exact ⟨n, r', hcore'⟩
  poller n r' hr' hrunning := by
    obtain ⟨r, hr, hsame⟩ := hback n r' hr'
    obtain ⟨hran, hkeys⟩ := hsame hrunning
    obtain ⟨s, b, hpolls⟩ := hx.poller n r hr hran
    obtain ⟨s₀, hs₀, hbuilt⟩ := hx.built n r hr
    rw [hpolls.strategy] at hs₀
    cases hs₀
    obtain ⟨s', hs', hstays⟩ := hstays s hpolls.strategy hbuilt
    obtain ⟨b', hb', hservice, hprovider⟩ := hstays.binding b hpolls.bound
    -- the refresher asks the same naming service and tracks the same services as before
    obtain ⟨r₁, hr₁, hgrows⟩ := hgrow.old n r hr
    rw [hr'] at hr₁
    cases hr₁
    refine ⟨s', b', hs', hstays.refresher.trans hpolls.latest, hb', ?_, ?_⟩
    · rw [hgrows.provider, hpolls.provider, hprovider]
    · rw [hkeys, hpolls.services, hservice]

theorem Calm.follows (h : Calm m m') (hm : m.Follows) : m'.Follows := by
  refine hm.of_stays h.grow ?_ ?_ h.restarts
  · intro n r hr
    rw [h.core n] at hr
    exact ⟨r, hr, fun hrunning => ⟨hrunning, rfl⟩⟩
  · intro s hs hbuilt
    obtain ⟨s', hs', hagrees⟩ := (hs ▸ h.strategy).exists_of_built hbuilt
    exact ⟨s', hs', hagrees.stays⟩

/-- An act on the strategy alone keeps the invariant, if the strategy stays. -/
theorem Follows.map (hx : x.Follows) {f : Strategy → Strategy} (hf : ∀ s : Strategy, s.Stays (f s))
    (hcore : ∀ n, y.world.core? n = x.world.core? n)
    (hstrategy : y.world.strategy = x.world.strategy.map f)
    (hrestarts : y.restarts = x.restarts) : y.Follows := by
  refine hx.of_stays (.of_core_eq hcore) ?_ ?_ fun h => hrestarts ▸ h
  · intro n r hr
    rw [hcore n] at hr
    exact ⟨r, hr, fun hrunning => ⟨hrunning, rfl⟩⟩
  · intro s hs _
    exact ⟨f s, by rw [hstrategy, hs, Option.map_some], hf s⟩

/-- **The end of polling keeps the invariant.** -/
theorem Follows.stopped (hx : x.Follows) (number : Nat) : (x.stopped number).Follows := by
  have hcore := fun n => x.world.core?_stopRefresher number n
  have hstrategy := x.world.strategy_stopRefresher number
  refine hx.of_stays (.of_core_map Refresher.grows_halt hcore) ?_ ?_ id
  · intro n r' hr'
    have hr₀ := (hcore n).symm.trans hr'
    split at hr₀
    · obtain ⟨r, hr, rfl⟩ := Option.map_eq_some_iff.mp hr₀
      exact ⟨r, hr, fun hrunning => absurd hrunning (by simp)⟩
    · exact ⟨r', hr₀, fun hrunning => ⟨hrunning, rfl⟩⟩
  · intro s hs _
    exact ⟨s, hstrategy.trans hs, (Strategy.Agrees.refl s).stays⟩

/-- After polling has ended no refresher runs. -/
theorem Follows.not_running_rebound (hx : x.Follows) (call : Nat) (service provider : String)
    (listing : Option Listing) (n : Nat) : ¬ (x.rebound call service provider listing).Running n := by
  rintro ⟨r, hr, hrunning⟩
  rw [core?_rebound] at hr
  split at hr
  · obtain ⟨r₀, -, rfl⟩ := Option.map_eq_some_iff.mp hr
    exact absurd hrunning (by simp)
  · next hother =>
    obtain ⟨s, b, hpolls⟩ := hx.poller n r hr hrunning
    refine hother ?_
    rw [World.poller?, hpolls.strategy]
    exact hpolls.latest

/-- **The strategy may be bound anew**: nothing runs then. -/
theorem Follows.rebound (hx : x.Follows) (call : Nat) (service provider : String)
    (listing : Option Listing) : (x.rebound call service provider listing).Follows where
  built n r' hr' := by
    have hold : ∃ r, x.world.core? n = some r := by
      rw [core?_rebound] at hr'
      split at hr'
      · obtain ⟨r, hr, -⟩ := Option.map_eq_some_iff.mp hr'
        exact ⟨r, hr⟩
      · exact ⟨r', hr'⟩
    obtain ⟨r, hr⟩ := hold
    obtain ⟨s, hs, hbuilt⟩ := hx.built n r hr
    refine ⟨(s.bind service provider).replaceTargets service (listed listing service), ?_, hbuilt⟩
    have hstopped := x.world.strategy_stopPolling.trans hs
    simp only [Machine.rebound, World.modifyStrategy, hstopped, Option.map_some]
  restarts hr := by
    have hgrow := World.Grow.of_core_map Refresher.grows_halt
      (x.core?_rebound call service provider listing)
    -- the frame restarts polling only if the strategy polled before
    have hold : ∃ n r, x.world.core? n = some r := by
      rcases Bool.eq_false_or_eq_true x.restarts with hrestarts | hrestarts
      · exact hx.restarts hrestarts
      · have hsome : x.world.runningTimings.isSome = true := by
          have hnone : x.stack.any Frame.restarts = false := hrestarts
          have hany : (Frame.bound call x.world.runningTimings).restarts = true := by
            simpa only [Machine.restarts, Machine.rebound, List.any_cons, hnone,
              Bool.or_false] using hr
          rcases htimings : x.world.runningTimings with _ | timings
          · rw [htimings] at hany
            exact absurd hany (by simp [Frame.restarts])
          · rfl
        have hpolling : x.world.polling = true := by
          rw [World.runningTimings] at hsome
          split at hsome
          · assumption
          · exact absurd hsome (by simp)
        obtain ⟨n, r, -, hcore, -⟩ := World.polling_iff.mp hpolling
        exact ⟨n, r, hcore⟩
    obtain ⟨n, r, hcore⟩ := hold
    obtain ⟨r', hcore', -⟩ := hgrow.old n r hcore
    exact ⟨n, r', hcore'⟩
  poller n r hr hrunning :=
    absurd ⟨r, hr, hrunning⟩ (hx.not_running_rebound call service provider listing n)

/-- **Polling may begin where the strategy does not poll**: the new refresher is the only one that
runs. -/
theorem Follows.polled (hx : x.Follows) {s : Strategy} {binding : Binding} (timings : Timings)
    (hs : x.world.strategy = some s) (hbuilt : s.building = false)
    (hbound : s.binding = some binding) (hidle : x.world.polling = false) :
    (x.polled binding timings).Follows := by
  have hstrategy : (x.polled binding timings).world.strategy =
      some (s.pollBy x.world.refreshers.length timings) := by
    rw [Machine.polled, World.strategy_pollWith, hs, Option.map_some]
  have hcore := x.world.core?_pollWith binding timings
  constructor
  · exact fun n r hr => ⟨_, hstrategy, hbuilt⟩
  · exact fun _ => ⟨x.world.refreshers.length, _, (hcore _).trans (if_pos rfl)⟩
  · intro n r hr hrunning
    rw [Machine.polled, hcore n] at hr
    split at hr
    · next hnew =>
      cases hr
      subst hnew
      exact ⟨_, binding, hstrategy, rfl, hbound, rfl, rfl⟩
    · -- an old one would be the latest, which does not run
      obtain ⟨s', b, hpolls⟩ := hx.poller n r hr hrunning
      have hpoller : x.world.poller? = some n := by
        rw [World.poller?, hpolls.strategy]
        exact hpolls.latest
      rw [World.polling_iff.mpr ⟨n, r, hpoller, hr, hrunning⟩] at hidle
      exact absurd hidle (by simp)

/-- **A list that the strategy takes keeps the invariant**: its service is tracked already. -/
theorem Follows.took (hx : x.Follows) {cycle : Cycle} {r : Refresher} {change : Refresher.Change}
    (hr : x.world.core? cycle.refresher = some r) (hservice : change.service ∈ r.snapshot.keys) :
    (x.took cycle change).Follows := by
  have hcore : ∀ n, (x.took cycle change).world.core? n = if cycle.refresher = n then
      (x.world.core? n).map fun r => r.see change.service change.endpoints
      else x.world.core? n := x.core?_seen cycle.refresher change
  refine hx.of_stays (.of_core_map (fun r => r.grows_see _ _) hcore) ?_ ?_ id
  · intro n r' hr'
    rw [hcore n] at hr'
    split at hr'
    · next heq =>
      subst heq
      rw [hr, Option.map_some] at hr'
      cases hr'
      exact ⟨r, hr, fun hrunning => ⟨hrunning, Refresher.keys_see hservice⟩⟩
    · exact ⟨r', hr', fun hrunning => ⟨hrunning, rfl⟩⟩
  · intro s hs _
    refine ⟨s.replaceTargets change.service change.endpoints, ?_, s.stays_replaceTargets _ _⟩
    exact (congrArg (Option.map _) hs).trans rfl

/-! ### All transitions of a strategy -/

/-- **Every transition of a session without a callback keeps the invariant.** -/
theorem Turn.follows (h : Turn m m') (hnone : m.world.callback = none) (hbacked : m.Backed)
    (hm : m.Follows) : m'.Follows := by
  cases h with
  | calm h => exact h.follows hm
  | rotate _ before _ _ after =>
    refine after.follows ((before.follows hm).map (fun s => ?_) (fun _ => rfl) rfl rfl)
    exact ⟨rfl, fun b hb => ⟨b, hb, rfl, rfl⟩, id⟩
  | reset _ before after =>
    exact after.follows ((before.follows hm).map (fun s => s.stays_replaceTargets _ _)
      (fun _ => rfl) rfl rfl)
  | rebind _ before after => exact after.follows ((before.follows hm).rebound _ _ _ _)
  | start _ driven =>
    rw [hnone] at driven
    exact absurd driven (by simp)
  | stop _ before after => exact after.follows ((before.follows hm).stopped _)
  | @poll x s binding timings control before strategy bound idle _ after =>
    have hx := before.follows hm
    have hbuilt : s.building = false := by
      rcases control with ⟨-, hbuilt⟩ | hreopens
      · exact hbuilt
      · -- polling begins again, so there was a refresher before
        obtain ⟨n, r, hr⟩ := hm.restarts hreopens.restarts
        obtain ⟨s₀, hs₀, hbuilt⟩ := hx.built n r ((before.core n).trans hr)
        rw [strategy] at hs₀
        cases hs₀
        exact hbuilt
    exact after.follows (hx.polled _ strategy hbuilt bound idle)
  | ask before _ _ _ _ after =>
    exact after.follows ((before.follows hm).map (f := id) (fun s => (Strategy.Agrees.refl s).stays)
      (fun _ => rfl) (congrFun Option.map_id _).symm rfl)
  | take finds held _ before after =>
    obtain ⟨-, -, -, -, hservice⟩ := (applies_take finds held before (.refl _)).tracked hbacked
    have hr := World.core?_of_getElem? finds.found
    exact after.follows ((before.follows hm).took hr hservice)
  | callBack _ _ _ before there =>
    exact absurd (there.symm.trans (before.callback_eq_none hnone)) (by simp)

/-- A session begins without a refresher, or with a callback. -/
theorem Opens.follows (h : Opens m) (hnone : m.world.callback = none) : m.Follows := by
  have hempty : ∀ m : Machine, m.world.refreshers = [] → m.restarts = false → m.Follows := by
    intro m hrefreshers hrestarts
    have hcore : ∀ n r, m.world.core? n ≠ some r := by
      intro n r
      simp [World.core?, hrefreshers]
    refine ⟨fun n r hr => absurd hr (hcore n r), ?_, fun n r hr => absurd hr (hcore n r)⟩
    intro hr
    rw [hrestarts] at hr
    exact absurd hr (by simp)
  cases h with
  | strategy setup options weights => exact hempty _ rfl rfl
  | bound setup options service provider =>
    exact (calm_boundMachine setup options service provider).follows (hempty _ rfl rfl)
  | refresher h =>
    rw [openRefresher_eq_ok h] at hnone
    exact absurd hnone (by simp)

/-- **The invariant holds at every point of a session without a callback.** -/
theorem Reachable.follows (h : Reachable m) (hnone : m.world.callback = none) : m.Follows := by
  revert hnone
  refine h.induction (P := fun m => m.world.callback = none → m.Follows) (fun _ => Opens.follows) ?_
  intro a b ha hfollows hl hnone
  have hturn : Turn a b := ha.turn hl
  have hnone' : a.world.callback = none := hturn.callback_eq_none hnone
  exact hturn.follows hnone' ha.backed (hfollows hnone')

/-! ### What polling does -/

/-- A refresher that runs polls for the binding of the strategy. -/
theorem Follows.polls (hm : m.Follows) {n : Nat} (h : m.Running n) :
    ∃ r s b, m.world.core? n = some r ∧ m.world.Polls n r s b := by
  obtain ⟨r, hr, hrunning⟩ := h
  obtain ⟨s, b, hpolls⟩ := hm.poller n r hr hrunning
  exact ⟨r, s, b, hr, hpolls⟩

/-- **At most one refresher runs.** -/
theorem Follows.running_unique (hm : m.Follows) {n n' : Nat} (h : m.Running n) (h' : m.Running n') :
    n = n' := by
  obtain ⟨r, s, b, -, hpolls⟩ := hm.polls h
  obtain ⟨r', s', b', -, hpolls'⟩ := hm.polls h'
  -- both are the latest refresher of the one strategy
  have hs : some s = some s' := hpolls.strategy.symm.trans hpolls'.strategy
  cases hs
  exact Option.some.inj (hpolls.latest.symm.trans hpolls'.latest)

/-- **A lookup of polling asks the naming service that is bound for the service that is bound.** -/
theorem Turn.lookup_bound (h : Turn m m') (hm : m.Follows) {provider : String} {lookup : Nat}
    {services : List String} {caller : Caller}
    (hcalls : m'.world.calls = m.world.calls ++ [.lookup provider lookup services caller]) :
    ∃ s b, m.world.strategy = some s ∧ s.binding = some b ∧ provider = b.provider ∧
      services = [b.service] := by
  obtain ⟨n, r, hr, hrunning, hasks, -, hservices⟩ := h.exists_of_lookup hcalls
  obtain ⟨s, b, hpolls⟩ := hm.poller n r hr hrunning
  have hprovider : some provider = some b.provider := hasks.symm.trans hpolls.provider
  exact ⟨s, b, hpolls.strategy, hpolls.bound, Option.some.inj hprovider,
    hservices.trans hpolls.services⟩

/-- **A cycle of the strategy applies a list**: the strategy takes the list of the service that is
bound, and the cycle has asked the naming service that is bound for it. -/
structure Takes (m m' : Machine) (number : Nat) (cycle : Cycle) (s : Strategy) (b : Binding)
    (endpoints : List Endpoint) : Prop where
  resumed : m.resumed? = some cycle
  strategy : m.world.strategy = some s
  bound : s.binding = some b
  asked : cycle.refresher = number ∧ m.world.Asked number cycle.generation b.provider [b.service]
  listed : endpoints = (cycle.latest.get? b.service).getD []
  applied : ∃ s', m'.world.strategy = some s' ∧ s'.rotation = .ofEndpoints endpoints ∧
    s'.binding = some { b with endpoints := endpoints }

/-- **Where a changed list is applied, the strategy takes it**, for the service that is bound. -/
theorem Applies.takes {cycle : Cycle} {r : Refresher} {change : Refresher.Change}
    (h : Applies m m' cycle r change) (hm : m.Follows) (hbacked : m.Backed)
    (hwired : m.world.Wired) (hnone : m.world.callback = none) :
    ∃ s b, Takes m m' cycle.refresher cycle s b change.endpoints := by
  obtain ⟨provider, hasked, hprovider, hrunning, hservice⟩ := h.tracked hbacked
  obtain ⟨s, b, hpolls⟩ := hm.poller _ r h.found hrunning
  obtain ⟨s₀, hs₀, hbuilt⟩ := hm.built _ r h.found
  rw [hpolls.strategy] at hs₀
  cases hs₀
  -- there is no callback, so the strategy takes the list
  have htaken := h.taken (hwired.handler_eq hnone h.found)
  rw [hpolls.strategy, Option.map_some] at htaken
  obtain ⟨s', hs', hagrees⟩ := htaken.exists_of_built hbuilt
  -- the only service that is tracked is the one that is bound
  rw [hpolls.services] at hservice hasked
  have hbound : change.service = b.service := List.mem_singleton.mp hservice
  have hasks : some provider = some b.provider := hprovider.symm.trans hpolls.provider
  cases hasks
  refine ⟨s, b, h.resumed, hpolls.strategy, hpolls.bound, ⟨rfl, hasked⟩, ?_, s', hs', ?_, ?_⟩
  · rw [← hbound]
    exact (Refresher.nextChange?_eq_some h.first).2.1
  · exact hagrees.rotation
  · rw [hagrees.binding, Strategy.replaceTargets, hpolls.bound, hbound]
    simp [Binding.see]

/-! ### Binding the strategy anew -/

/-- **A lookup that binds the strategy** ends polling, and then binds it. -/
theorem exists_rebound {call : Nat} {service provider : String} {listing : Option Listing}
    (hjob : m.job? = some (.answered (.binding call service provider) (.ok listing))) :
    ∃ x, Calm m x ∧ Calm (x.rebound call service provider listing) m.next := by
  obtain ⟨jobs, k, hcalm, hnext⟩ := exists_next_eq_work hjob
  rw [hnext]
  exact ⟨_, hcalm, (Calm.refl _).notify _⟩

/-- Then no refresher runs, and the strategy follows the service. -/
theorem Follows.rebound_next (hm : m.Follows) {call : Nat} {service provider : String}
    {listing : Option Listing}
    (hjob : m.job? = some (.answered (.binding call service provider) (.ok listing))) :
    (∀ n, ¬ m.next.Running n) ∧ ∀ s, m.next.world.strategy = some s →
      s.binding = some ⟨service, provider, listed listing service⟩ := by
  obtain ⟨x, before, after⟩ := exists_rebound hjob
  constructor
  · intro n
    rw [after.running_iff]
    exact (before.follows hm).not_running_rebound call service provider listing n
  · intro s' hs'
    obtain ⟨s, hs, hagrees⟩ := (hs' ▸ after.strategy).exists_of_some
    rw [hagrees.binding]
    rw [strategy_rebound] at hs
    obtain ⟨s₀, -, rfl⟩ := Option.map_eq_some_iff.mp hs
    show some ((⟨service, provider, []⟩ : Binding).see service (listed listing service)) = _
    rw [Binding.see, if_pos rfl]

/-- **One poller, always on the service that is bound.** At most one refresher of a strategy runs;
it is the latest one, and it tracks the service of the binding at the naming service of the
binding. So polling looks up nothing else, and applies lists of no other service. Once a
lookup has bound the strategy anew, no list is applied that polling had asked for before. -/
theorem Reachable.polls_only_what_is_bound (h : Reachable m) (hnone : m.world.callback = none) :
    (∀ n, m.Running n → ∃ r s b, m.world.core? n = some r ∧ m.world.Polls n r s b) ∧
    (∀ n n', m.Running n → m.Running n' → n = n') ∧
    (∀ m' provider lookup services caller, Leads m m' →
      m'.world.calls = m.world.calls ++ [.lookup provider lookup services caller] →
      ∃ s b, m.world.strategy = some s ∧ s.binding = some b ∧ provider = b.provider ∧
        services = [b.service]) ∧
    (∀ m' n, Leads m m' → Affects n m m' →
      ∃ cycle s b endpoints, Takes m m' n cycle s b endpoints) ∧
    (∀ call service provider listing,
      m.job? = some (.answered (.binding call service provider) (.ok listing)) →
      (∀ s, m.next.world.strategy = some s →
        s.binding = some ⟨service, provider, listed listing service⟩) ∧
      ∀ a b n cycle, Run m.next a → Leads a b → Affects n a b → a.resumed? = some cycle →
        ∀ provider services, ¬ m.world.Asked n cycle.generation provider services) := by
  have hfollows : m.Follows := h.follows hnone
  refine ⟨fun n => hfollows.polls, fun n n' => hfollows.running_unique, ?_, ?_, ?_⟩
  · intro m' provider lookup services caller hl hcalls
    exact (h.turn hl).lookup_bound hfollows hcalls
  · intro m' n hl haffects
    obtain ⟨cycle, r, change, happlies, rfl⟩ := haffects.exists_applies (h.turn hl) h.wired
    obtain ⟨s, b, htakes⟩ := happlies.takes hfollows h.backed h.wired hnone
    exact ⟨cycle, s, b, change.endpoints, htakes⟩
  · intro call service provider listing hjob
    obtain ⟨hidle, hbinding⟩ := hfollows.rebound_next hjob
    refine ⟨hbinding, ?_⟩
    intro a b n cycle hrun hl haffects hresumed provider' services hasked
    -- the run that had asked has ended, and the cycle is of a run that has not
    obtain ⟨r, hr, hle, -, -⟩ := h.backed.asked _ _ _ _ hasked
    have hnext : Reachable m.next := h.leads (.next m)
    obtain ⟨r', hr', hgrows⟩ := (h.turn (.next m)).grow.old n r hr
    have hreach : Reachable a := hnext.run hrun
    obtain ⟨cycle', hresumed', -, hin⟩ := haffects.inRun (hreach.turn hl) hreach.backed hreach.wired
    rw [hresumed] at hresumed'
    cases hresumed'
    exact hidle n (hnext.inRun_of_run hrun hr' (Nat.le_trans hle hgrows.generation_le) hin).running

/-- What a lookup that binds the strategy anew has ended for: a service and a naming service. -/
def rebinds? (m : Machine) : Option (String × String) :=
  m.job?.bind fun
    | .answered (.binding _ service provider) (.ok _) => some (service, provider)
    | _ => none

theorem exists_of_rebinds? {service provider : String}
    (h : m.rebinds? = some (service, provider)) :
    ∃ call listing, m.job? = some (.answered (.binding call service provider) (.ok listing)) := by
  obtain ⟨job, hjob, hrebinds⟩ := Option.bind_eq_some_iff.mp h
  split at hrebinds
  · next call service provider listing =>
    cases hrebinds
    exact ⟨call, listing, hjob⟩
  · exact absurd hrebinds (by simp)

/-- Such a lookup ends here while a poll is open, which has asked for the service that was bound
before; no list of that run is applied from then on. -/
theorem polls_only_what_is_bound_after_rebinding :
    ∃ m, Reachable m ∧ m.world.callback = none ∧ m.InRun 0 1 ∧
      m.world.Asked 0 1 "registry" ["echo"] ∧
      ∀ a b cycle, Run m.next a → Leads a b → Affects 0 a b → a.resumed? = some cycle →
        cycle.generation ≠ 1 := by
  let setup : Setup := ⟨.zero, ⟨none, none⟩, false, .ofList [("registry", ⟨.empty, []⟩)]⟩
  let m₀ := run 8 (boundMachine setup ⟨none, none, none⟩ "echo" "registry")
  have h₀ : Reachable m₀ :=
    (Opens.bound setup ⟨none, none, none⟩ "echo" "registry").reachable.run (run_of_transitions 8 _)
  -- polling begins, and its first lookup stays open
  let m₁ := run 4 (m₀.world.machine (.prepare "registry" [(.pending, [])]))
  let m₂ := run 4 (m₁.world.machine (.startPolling (some (.ofNat 10)) (some (.ofNat 10))))
  let m₃ := run 8 (m₂.world.machine (.advance (.ofNat 10)))
  have h₁ : Run m₀ m₁ := run_of_step (by decide +kernel) _ _
  have h₂ : Run m₁ m₂ := run_of_step (by decide +kernel) _ _
  have h₃ : Run m₂ m₃ := run_of_step (by decide +kernel) _ _
  -- a lookup that is to bind the strategy has ended
  let m := run 2 (m₃.world.machine (.rebind "other" "registry"))
  have h₄ : Run m₃ m := run_of_step (by decide +kernel) _ _
  have hm : Reachable m := h₀.run (((h₁.trans h₂).trans h₃).trans h₄)
  have hnone : m.world.callback = none := by
    have hsome : m.world.callback.isNone = true := by decide +kernel
    exact Option.isNone_iff_eq_none.mp hsome
  have hin : m.InRun 0 1 := by decide +kernel
  have hasked : m.world.Asked 0 1 "registry" ["echo"] := by decide +kernel
  have hrebinds : m.rebinds? = some ("other", "registry") := by decide +kernel
  obtain ⟨call, listing, hjob⟩ := exists_of_rebinds? hrebinds
  obtain ⟨-, -, -, -, hrebound⟩ := hm.polls_only_what_is_bound hnone
  obtain ⟨-, hnever⟩ := hrebound call "other" "registry" listing hjob
  refine ⟨m, hm, hnone, hin, hasked, ?_⟩
  intro a b cycle hrun hl haffects hresumed heq
  exact hnever a b 0 cycle hrun hl haffects hresumed "registry" ["echo"] (heq ▸ hasked)

end Machine

end Balancer.Session
