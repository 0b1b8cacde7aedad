import Balancer.Proofs.Session.Poller

/-!
# Closing a strategy

A strategy that is closed polls no more until it is told to start again, with one exception. A
call that binds the strategy anew ends polling, tells the listener, and goes back to polling with
the timings that it found; if the listener closes the strategy, the call does so all the same.

* `Balancer.Session.Machine.Closes`, `Starts` – the steps that end and begin polling.
* `Balancer.Session.Machine.Silent` – **no refresher runs**, and so nothing is looked up or applied.
* `Balancer.Session.Machine.Ready` – what polling needs to begin again is there.
* `Balancer.Session.Machine.Reachable.closing_is_final_unless_rebinding` – **how long a strategy
  that was closed stays so.**
* `Balancer.Session.Machine.rebinding_undoes_closing` – a strategy that polls though it was closed.
-/

namespace Balancer.Session

/-! ### Steps that end and begin polling -/

/-- Whether a step ends polling. -/
def Control.closes : Control → Bool
  | .perform .stopPolling | .perform .close => true
  | _ => false

/-- Whether a step begins polling. -/
def Control.starts : Control → Bool
  | .perform (.startPolling ..) => true
  | _ => false

theorem Control.closes_iff {c : Control} :
    c.closes = true ↔ c = .perform .stopPolling ∨ c = .perform .close := by
  constructor
  · intro h
    unfold closes at h
    split at h
    · exact .inl rfl
    · exact .inr rfl
    · exact absurd h (by simp)
  · rintro (rfl | rfl) <;> rfl

theorem Control.starts_iff {c : Control} :
    c.starts = true ↔ ∃ delay period, c = .perform (.startPolling delay period) := by
  constructor
  · intro h
    unfold starts at h
    split at h
    · next delay period => exact ⟨delay, period, rfl⟩
    · exact absurd h (by simp)
  · rintro ⟨delay, period, rfl⟩
    rfl

namespace Machine

variable {m m' x y : Machine}

/-- **The step that comes next ends polling.** -/
def Closes (m : Machine) : Prop :=
  (m.control = .perform .stopPolling ∨ m.control = .perform .close) ∧
    m.world.strategy?.isSome = true

/-- **The step that comes next begins polling.** -/
def Starts (m : Machine) : Prop := ∃ delay period, m.control = .perform (.startPolling delay period)

instance (m : Machine) : Decidable m.Closes :=
  decidable_of_iff _ (and_congr_left fun _ => Control.closes_iff)

instance (m : Machine) : Decidable m.Starts := decidable_of_iff _ Control.starts_iff

/-! ### Silence -/

/-- **No refresher runs.** -/
def Silent (m : Machine) : Prop := ∀ n, ¬ m.Running n

theorem Calm.silent (h : Calm m m') (hm : m.Silent) : m'.Silent :=
  fun n hn => hm n (h.running_iff.mp hn)

theorem Silent.of_core_eq (hx : x.Silent) (h : ∀ n, y.world.core? n = x.world.core? n) :
    y.Silent := by
  rintro n ⟨r, hr, hrunning⟩
  exact hx n ⟨r, (h n).symm.trans hr, hrunning⟩

/-- An act that starts no refresher keeps the silence. -/
theorem Silent.of_core_map (hx : x.Silent) {f : Refresher → Refresher} {p : Nat → Prop}
    [DecidablePred p]
    (h : ∀ n, y.world.core? n = if p n then (x.world.core? n).map f else x.world.core? n)
    (hf : ∀ r, (f r).running = true → r.running = true) : y.Silent := by
  rintro n ⟨r', hr', hrunning⟩
  rw [h n] at hr'
  split at hr'
  · obtain ⟨r, hr, rfl⟩ := Option.map_eq_some_iff.mp hr'
    exact hx n ⟨r, hr, hf r hrunning⟩
  · exact hx n ⟨r', hr', hrunning⟩

/-- **Silence is broken only by a step that begins polling**, or by a call that goes back to
polling. -/
theorem Turn.silent (h : Turn m m') (hnone : m.world.callback = none) (hm : m.Silent)
    (hstarts : ¬ m.Starts) (hreopens : ¬ m.Reopens) : m'.Silent := by
  cases h with
  | calm h => exact h.silent hm
  | rotate _ before _ _ after => exact after.silent ((before.silent hm).of_core_eq fun _ => rfl)
  | reset _ before after => exact after.silent ((before.silent hm).of_core_eq fun _ => rfl)
  | @rebind x call service provider listing _ before after =>
    exact after.silent ((before.silent hm).of_core_map
      (x.core?_rebound call service provider listing) fun r hr => absurd hr (by simp))
  | start _ driven =>
    rw [hnone] at driven
    exact absurd driven (by simp)
  | @stop x number _ before after =>
    exact after.silent ((before.silent hm).of_core_map
      (fun n => x.world.core?_stopRefresher number n) fun r hr => absurd hr (by simp))
  | poll control =>
    rcases control with ⟨hcontrol, -⟩ | hcontrol
    · exact absurd hcontrol hstarts
    · exact absurd hcontrol hreopens
  | ask before _ _ _ _ after => exact after.silent ((before.silent hm).of_core_eq fun _ => rfl)
  | @take x cycle _ change _ _ _ before after =>
    exact after.silent ((before.silent hm).of_core_map
      (f := fun r => r.see change.service change.endpoints) (x.core?_seen cycle.refresher change)
      fun _ hr => hr)
  | callBack _ _ _ before there =>
    exact absurd (there.symm.trans (before.callback_eq_none hnone)) (by simp)

/-- **In silence no lookup is made and nothing is applied.** -/
theorem Silent.calls_eq (hm : m.Silent) (h : Turn m m') (hbacked : m.Backed)
    (hwired : m.world.Wired) :
    m'.world.calls = m.world.calls ∧ ∀ n, ¬ Affects n m m' := by
  constructor
  · rcases h.aloof_or_applies with haloof | ⟨cycle, r, change, happlies⟩
    · rcases haloof.calls with heq | ⟨n, r, provider, lookup, caller, hr, hrunning, -⟩
      · exact heq
      · exact absurd ⟨r, hr, hrunning⟩ (hm n)
    · exact absurd (happlies.inRun hbacked).running (hm cycle.refresher)
  · intro n haffects
    obtain ⟨cycle, -, -, hin⟩ := haffects.inRun h hbacked hwired
    exact hm n hin.running

theorem Silent.polling_eq (hm : m.Silent) : m.world.polling = false := by
  rw [← Bool.not_eq_true, World.polling_iff]
  rintro ⟨n, r, -, hr, hrunning⟩
  exact hm n ⟨r, hr, hrunning⟩

/-! ### Closing -/

theorem Closes.next_eq (h : m.Closes) : m.next = done m.world.stopPolling m.stack := by
  obtain ⟨w, k, c⟩ := m
  obtain ⟨hcontrol, hbuilt⟩ := h
  obtain ⟨s, hs⟩ := Option.isSome_iff_exists.mp hbuilt
  have hs' : w.strategy? = some s := hs
  rcases hcontrol with hc | hc <;>
  · have hc' : c = _ := hc
    subst hc'
    simp only [next, perform, Step.drivesRefresher, Bool.false_eq_true, if_false, hs',
      performStrategy]

/-- **After a strategy was closed no refresher runs**, older ones of it included. -/
theorem Reachable.silent_next (h : Reachable m) (hnone : m.world.callback = none)
    (hcloses : m.Closes) : m.next.Silent := by
  intro n hn
  have hturn : Turn m m.next := h.turn (.next m)
  have hnone' : m.next.world.callback = none := hturn.callback_stays_none hnone
  obtain ⟨r, s, b, -, hpolls⟩ := ((h.leads (.next m)).follows hnone').polls hn
  obtain ⟨s', hs'⟩ := Option.isSome_iff_exists.mp hcloses.2
  have hstrategy : m.world.strategy = some s' := (Option.filter_eq_some_iff.mp hs').1
  have hkept : m.next.world.strategy = m.world.strategy := by
    rw [hcloses.next_eq]
    exact m.world.strategy_stopPolling
  -- what runs would be the latest refresher, which has been stopped
  have hsame : some s' = some s := hstrategy.symm.trans (hkept.symm.trans hpolls.strategy)
  cases hsame
  have hstops : m.Stops n := .inr ⟨hcloses.1, s, hs', hpolls.latest⟩
  exact hstops.not_running_next hn

/-! ### Calls that go back to polling -/

/-- **In silence no call comes to be that goes back to polling.** -/
theorem Turn.restarts_of_silent (h : Turn m m') (hm : m.Silent) (hr : m.restarts = false) :
    m'.restarts = false := by
  have hsame : ∀ {x y : Machine}, Calm m x → Calm y m' → y.restarts = x.restarts →
      m'.restarts = false := by
    intro x y before after hact
    rw [← Bool.not_eq_true] at hr ⊢
    exact fun hr' => hr (before.restarts (hact.symm.trans (after.restarts hr')))
  -- but for a call that binds the strategy, an act pushes no frame that goes back to polling
  cases h with
  | calm h => exact hsame h (.refl m') rfl
  | rotate _ before _ _ after => exact hsame before after rfl
  | reset _ before after => exact hsame before after rfl
  | @rebind x call service provider listing _ before after =>
    have hidle : x.world.runningTimings = none := by
      rw [World.runningTimings, (before.silent hm).polling_eq, if_neg Bool.false_ne_true]
    refine hsame before after ?_
    simp only [restarts, rebound, hidle, List.any_cons, Frame.restarts, Bool.false_or]
  | start _ _ before after => exact hsame before after rfl
  | stop _ before after => exact hsame before after rfl
  | poll _ before _ _ _ _ after => exact hsame before after rfl
  | ask before _ _ _ _ after => exact hsame before after rfl
  | take _ _ _ before after => exact hsame before after rfl
  | callBack _ _ _ before _ after => exact hsame before after rfl

/-- **What polling needs to begin again is there**: good timings, and a strategy that follows a
service. -/
structure Ready (m : Machine) : Prop where
  /-- The timings of the latest refresher are good. -/
  chosen : ∀ s timings, m.world.strategy = some s → s.timings = some timings →
    timings.check = .ok ()
  /-- So are those with which a call is to go back to polling, and then there is a binding. -/
  restarts : ∀ timings ∈ m.restartTimings, timings.check = .ok () ∧
    ∃ s b, m.world.strategy = some s ∧ s.building = false ∧ s.binding = some b

theorem Calm.ready (h : Calm m m') (hm : m.Ready) : m'.Ready where
  chosen s' timings hs' htimings := by
    obtain ⟨s, hs, hagrees⟩ := (hs' ▸ h.strategy).exists_of_some
    exact hm.chosen s timings hs (hagrees.timings.symm.trans htimings)
  restarts timings htimings := by
    obtain ⟨hcheck, s, b, hs, hbuilt, hb⟩ := hm.restarts timings (h.restartTimings.subset htimings)
    obtain ⟨s', hs', hagrees⟩ := (hs ▸ h.strategy).exists_of_built hbuilt
    refine ⟨hcheck, s', b, hs', ?_, hagrees.binding.trans hb⟩
    rw [← Bool.not_eq_true]
    exact fun hbuilding => absurd (hagrees.building hbuilding) (by rw [hbuilt]; simp)

/-- An act on the strategy keeps it ready. -/
theorem Ready.map (hx : x.Ready) {f : Strategy → Strategy}
    (hstrategy : y.world.strategy = x.world.strategy.map f)
    (hstack : y.restartTimings = x.restartTimings)
    (htimings : ∀ s timings, (f s).timings = some timings →
      s.timings = some timings ∨ timings.check = .ok ())
    (hbuilding : ∀ s, (f s).building = s.building)
    (hbinding : ∀ s : Strategy, s.binding.isSome = true → (f s).binding.isSome = true) :
    y.Ready where
  chosen s' timings hs' hchosen := by
    rw [hstrategy] at hs'
    obtain ⟨s, hs, rfl⟩ := Option.map_eq_some_iff.mp hs'
    exact (htimings s timings hchosen).elim (hx.chosen s timings hs) id
  restarts timings hmem := by
    rw [hstack] at hmem
    obtain ⟨hcheck, s, b, hs, hbuilt, hb⟩ := hx.restarts timings hmem
    obtain ⟨b', hb'⟩ := Option.isSome_iff_exists.mp (hbinding s (by rw [hb]; rfl))
    exact ⟨hcheck, f s, b', by rw [hstrategy, hs, Option.map_some], (hbuilding s).trans hbuilt, hb'⟩

/-- **A call that binds the strategy remembers good timings.** -/
theorem Ready.rebound (hx : x.Ready) (hfollows : x.Follows) (call : Nat) (service provider : String)
    (listing : Option Listing) : (x.rebound call service provider listing).Ready where
  chosen s' timings hs' hchosen := by
    rw [strategy_rebound] at hs'
    obtain ⟨s, hs, rfl⟩ := Option.map_eq_some_iff.mp hs'
    exact hx.chosen s timings hs hchosen
  restarts timings hmem := by
    -- the timings are those of a call that was under way, or those of the refresher that ran
    have hold : timings.check = .ok () ∧ ∃ s, x.world.strategy = some s ∧ s.building = false := by
      rcases htimings : x.world.runningTimings with _ | running
      · rw [restartTimings, Machine.rebound, htimings] at hmem
        obtain ⟨hcheck, s, -, hs, hbuilt, -⟩ := hx.restarts timings hmem
        exact ⟨hcheck, s, hs, hbuilt⟩
      · rw [restartTimings, Machine.rebound, htimings] at hmem
        rcases List.mem_cons.mp hmem with rfl | hmem
        · rw [World.runningTimings] at htimings
          split at htimings
          · next hpolling =>
            obtain ⟨n, r, -, hr, -⟩ := World.polling_iff.mp hpolling
            obtain ⟨s, hs, hbuilt⟩ := hfollows.built n r hr
            rw [hs] at htimings
            exact ⟨hx.chosen s timings hs htimings, s, hs, hbuilt⟩
          · exact absurd htimings (by simp)
        · obtain ⟨hcheck, s, -, hs, hbuilt, -⟩ := hx.restarts timings hmem
          exact ⟨hcheck, s, hs, hbuilt⟩
    obtain ⟨hcheck, s, hs, hbuilt⟩ := hold
    refine ⟨hcheck, (s.bind service provider).replaceTargets service (listed listing service),
      (⟨service, provider, []⟩ : Binding).see service (listed listing service), ?_, hbuilt, rfl⟩
    rw [strategy_rebound, hs, Option.map_some]

theorem Turn.ready (h : Turn m m') (hnone : m.world.callback = none) (hfollows : m.Follows)
    (hm : m.Ready) : m'.Ready := by
  have hsame : ∀ {x y : Machine}, x.Ready → y.world.strategy = x.world.strategy →
      y.restartTimings = x.restartTimings → y.Ready := by
    intro x y hx hstrategy hstack
    exact hx.map (f := id) (hstrategy.trans (congrFun Option.map_id _).symm) hstack
      (fun _ _ => .inl) (fun _ => rfl) fun _ => id
  have hreplaces : ∀ (s : Strategy) service endpoints, s.binding.isSome = true →
      (s.replaceTargets service endpoints).binding.isSome = true := by
    intro s service endpoints hs
    rw [Strategy.replaceTargets, Option.isSome_map, hs]
  cases h with
  | calm h => exact h.ready hm
  | @rotate x step s rotation _ before _ _ after =>
    exact after.ready ((before.ready hm).map (f := fun s => { s with rotation := rotation }) rfl rfl
      (fun _ _ => .inl) (fun _ => rfl) fun _ => id)
  | @reset x service endpoints _ before after =>
    exact after.ready ((before.ready hm).map (f := fun s => s.replaceTargets service endpoints) rfl
      rfl (fun _ _ => .inl) (fun _ => rfl) fun s => hreplaces s service endpoints)
  | rebind _ before after =>
    exact after.ready ((before.ready hm).rebound (before.follows hfollows) _ _ _ _)
  | start _ driven =>
    rw [hnone] at driven
    exact absurd driven (by simp)
  | @stop x number _ before after =>
    exact after.ready (hsame (before.ready hm) (x.world.strategy_stopRefresher number) rfl)
  | @poll x _ binding timings _ before _ _ _ checked after =>
    refine after.ready ((before.ready hm).map (x.world.strategy_pollWith binding timings) rfl
      (fun s timings' hs => ?_) (fun _ => rfl) fun _ => id)
    cases hs
    exact .inr checked
  | ask before _ _ _ _ after => exact after.ready (hsame (before.ready hm) rfl rfl)
  | @take x cycle _ change _ _ _ before after =>
    exact after.ready ((before.ready hm).map
      (f := fun s => s.replaceTargets change.service change.endpoints) rfl rfl (fun _ _ => .inl)
      (fun _ => rfl) fun s => hreplaces s change.service change.endpoints)
  | callBack _ _ _ before there =>
    exact absurd (there.symm.trans (before.callback_eq_none hnone)) (by simp)

/-- A session begins with no timings chosen. -/
theorem Opens.ready (h : Opens m) : m.Ready := by
  have hunchosen : ∀ m : Machine, (∀ s, m.world.strategy = some s → s.timings = none) →
      m.restartTimings = [] → m.Ready := by
    intro m hnone hstack
    constructor
    · intro s timings hs htimings
      exact absurd ((hnone s hs).symm.trans htimings) (by simp)
    · intro timings hmem
      rw [hstack] at hmem
      exact absurd hmem (by simp)
  cases h with
  | strategy setup options weights =>
    refine hunchosen _ ?_ rfl
    intro s hs
    cases hs
    rfl
  | bound setup options service provider =>
    refine (calm_boundMachine setup options service provider).ready (hunchosen _ ?_ rfl)
    intro s hs
    cases hs
    rfl
  | refresher h =>
    rw [openRefresher_eq_ok h]
    refine hunchosen _ ?_ rfl
    intro s hs
    exact absurd hs (by simp [Setup.world])

theorem Reachable.ready (h : Reachable m) (hnone : m.world.callback = none) : m.Ready := by
  revert hnone
  refine h.induction (P := fun m => m.world.callback = none → m.Ready) (fun _ h _ => h.ready) ?_
  intro a b ha hready hl hnone
  have hturn : Turn a b := ha.turn hl
  have hnone' : a.world.callback = none := hturn.callback_eq_none hnone
  exact hturn.ready hnone' (ha.follows hnone') (hready hnone')

/-- **A call that goes back to polling does so**, whatever has happened since it began. -/
theorem Ready.running_next (hm : m.Ready) (hsilent : m.Silent) (h : m.Reopens) :
    ∃ n, m.next.Running n := by
  obtain ⟨w, k, c⟩ := m
  obtain ⟨call, timings, rest, result, hstack, hcontrol⟩ := h
  have hk : k = .bound call (some timings) :: rest := hstack
  have hc : c = .deliver (.ok result) := hcontrol
  subst hk hc
  obtain ⟨hcheck, s, b, hs, -, hb⟩ := hm.restarts timings List.mem_cons_self
  have hs' : w.strategy = some s := hs
  have hidle : w.polling = false := hsilent.polling_eq
  have hstart : w.startPolling (some timings.delay) (some timings.period) =
      (w.pollWith b timings).log .info
        ("Refreshing \"" ++ b.service ++ "\" from naming service") none := by
    simp only [World.startPolling, hs', hb, hidle, Bool.false_eq_true, if_false,
      Strategy.chooseTimings_of_check hcheck]
  have hcalm : Calm ⟨w.pollWith b timings, rest, .deliver (.ok result)⟩
      (next ⟨w, .bound call (some timings) :: rest, .deliver (.ok result)⟩) := by
    simp only [next, resume, hstart]
    exact Calm.control ((Calm.log (Calm.refl _) _ _ _).endBinding call _)
  refine ⟨w.refreshers.length, hcalm.running_iff.mpr ⟨(Refresher.idle (some b.provider) .strategy
    timings).begun (Table.empty.insert b.service b.endpoints), ?_, rfl⟩⟩
  exact (w.core?_pollWith b timings _).trans (if_pos rfl)

/-! ### All runs -/

/-- **A run in which no step begins polling.** -/
abbrev Unstarted : Machine → Machine → Prop :=
  Relation.ReflTransGen fun a b => Leads a b ∧ ¬ a.Starts

/-- **A run in which, besides, no call goes back to polling.** -/
abbrev Shut : Machine → Machine → Prop :=
  Relation.ReflTransGen fun a b => Leads a b ∧ ¬ a.Starts ∧ ¬ a.Reopens

theorem Shut.run (h : Shut m m') : Run m m' := by
  induction h with
  | refl => exact .refl
  | tail _ hl ih => exact ih.tail hl.1

/-- **In a run in which nothing begins polling, no refresher runs.** -/
theorem Shut.silent (h : Shut m m') (hreach : Reachable m) (hnone : m.world.callback = none)
    (hm : m.Silent) : m'.Silent ∧ m'.world.callback = none := by
  induction h with
  | refl => exact ⟨hm, hnone⟩
  | @tail a b hrun hl ih =>
    obtain ⟨hsilent, hcallback⟩ := ih
    have hturn : Turn a b := (hreach.run (Shut.run hrun)).turn hl.1
    exact ⟨hturn.silent hcallback hsilent hl.2.1 hl.2.2, hturn.callback_stays_none hcallback⟩

/-- **Where no call is to go back to polling**, none does before a step begins polling. -/
theorem Unstarted.shut (h : Unstarted m m') (hreach : Reachable m)
    (hnone : m.world.callback = none) (hm : m.Silent) (hr : m.restarts = false) : Shut m m' := by
  have hboth : Shut m m' ∧ m'.restarts = false := by
    induction h with
    | refl => exact ⟨.refl, hr⟩
    | @tail a b _ hl ih =>
      obtain ⟨hshut, hrests⟩ := ih
      have hreopens : ¬ a.Reopens := fun hreopens => by
        rw [hreopens.restarts] at hrests
        exact absurd hrests (by simp)
      have hturn : Turn a b := (hreach.run hshut.run).turn hl.1
      exact ⟨hshut.tail ⟨hl.1, hl.2, hreopens⟩,
        hturn.restarts_of_silent (hshut.silent hreach hnone hm).1 hrests⟩
  exact hboth.1

/-- **How long a strategy that was closed stays so.** From the moment at which the call that closes
it has returned, no refresher runs, no lookup of polling is made and no list is applied, until a
step begins polling or a call that binds the strategy goes back to polling. Such a call does
begin polling, whatever came in between; but only one that had taken the place of the binding
before the strategy was closed does so. A call whose lookup was still open does not. -/
theorem Reachable.closing_is_final_unless_rebinding (h : Reachable m)
    (hnone : m.world.callback = none) (hcloses : m.Closes) :
    (∀ a, Shut m.next a →
      (∀ n, ¬ a.Running n) ∧
      (∀ b, Leads a b → b.world.calls = a.world.calls ∧ ∀ n, ¬ Affects n a b) ∧
      (a.Reopens → ∃ n, a.next.Running n)) ∧
    (m.restarts = false → ∀ a, Unstarted m.next a → Shut m.next a) := by
  have hnext : Reachable m.next := h.leads (.next m)
  have hsilent : m.next.Silent := h.silent_next hnone hcloses
  have hkept : m.next.world.callback = none := (h.turn (.next m)).callback_stays_none hnone
  constructor
  · intro a hshut
    have hreach : Reachable a := hnext.run hshut.run
    obtain ⟨hrests, hcallback⟩ := hshut.silent hnext hkept hsilent
    refine ⟨hrests, ?_, (hreach.ready hcallback).running_next hrests⟩
    exact fun b hl => hrests.calls_eq (hreach.turn hl) hreach.backed hreach.wired
  · intro hrests a hrun
    refine Unstarted.shut hrun hnext hkept hsilent ?_
    rw [hcloses.next_eq]
    exact hrests

/-! ### Two closings -/

/-- A strategy follows a service, and its listener has steps to run when it is first told of a
change. -/
def following (steps : List Step) : Machine :=
  let endpoints : List Endpoint := [⟨"10.0.0.1", .ofNat 80⟩, ⟨"10.0.0.2", .ofNat 80⟩]
  let setup : Setup := ⟨.zero, ⟨none, none⟩, false,
    .ofList [("registry", ⟨.ofList [("echo", endpoints)], []⟩)]⟩
  run 8 (boundMachine setup ⟨none, none, some [⟨steps, .returns⟩]⟩ "echo" "registry")

/-- It polls. -/
def followingPolls (steps : List Step) : Machine :=
  run 4 ((following steps).world.machine (.startPolling (some (.ofNat 1000)) (some (.ofNat 1000))))

theorem reachable_followingPolls {steps : List Step} (h : (following steps).finished = true) :
    Reachable (followingPolls steps) :=
  ((Opens.bound ..).reachable.run (run_of_transitions 8 _)).run (run_of_step h _ 4)

/-- A number of transitions in which no step begins polling. -/
theorem unstarted_of_transitions (n : Nat) (m : Machine) (h : ∀ i < n, ¬ (run i m).Starts) :
    Unstarted m (run n m) := by
  induction n generalizing m with
  | zero => exact .refl
  | succ n ih =>
    rw [run_succ]
    refine .head ⟨.next m, h 0 (Nat.succ_pos n)⟩ (ih m.next fun i hi => ?_)
    rw [← run_succ]
    exact h (i + 1) (Nat.succ_lt_succ hi)

/-- A strategy is closed here while the lookup of a call that is to bind it anew is open: it
polls no more, though the lookup may end. -/
theorem closing_is_final_while_binding :
    ∃ m, Reachable m ∧ m.world.callback = none ∧ m.Closes ∧ m.world.polling = true ∧
      m.world.lookups.length = 1 ∧
      ∀ a b, Unstarted m.next a → Leads a b →
        b.world.calls = a.world.calls ∧ ∀ n, ¬ Affects n a b := by
  let m₀ := followingPolls []
  have h₀ : Reachable m₀ := reachable_followingPolls (by decide +kernel)
  -- the lookup of the call stays open
  let m₁ := run 4 (m₀.world.machine (.prepare "registry" [(.pending, [])]))
  let m₂ := run 4 (m₁.world.machine (.rebind "other" "registry"))
  have h₁ : Run m₀ m₁ := run_of_step (by decide +kernel) _ _
  have h₂ : Run m₁ m₂ := run_of_step (by decide +kernel) _ _
  let m := run 0 (m₂.world.machine .close)
  have h₃ : Run m₂ m := run_of_step (by decide +kernel) _ _
  have hm : Reachable m := ((h₀.run h₁).run h₂).run h₃
  have hnone : m.world.callback.isNone = true := by decide +kernel
  have hcallback : m.world.callback = none := Option.isNone_iff_eq_none.mp hnone
  have hcloses : m.Closes := by decide +kernel
  obtain ⟨hshut, hunstarted⟩ := hm.closing_is_final_unless_rebinding hcallback hcloses
  refine ⟨m, hm, hcallback, hcloses, by decide +kernel, by decide +kernel, ?_⟩
  intro a b hrun hl
  obtain ⟨-, hrests, -⟩ := hshut a (hunstarted (by decide +kernel) a hrun)
  exact hrests b hl

/-- **A strategy that polls though it was closed**: its listener closed it when a call that binds
the strategy anew told it of the targets. The call then began polling again, and the timer that
fires makes a lookup. -/
theorem rebinding_undoes_closing :
    ∃ m a b, Reachable m ∧ m.world.callback = none ∧ m.Closes ∧ Unstarted m.next a ∧
      Leads a b ∧ ¬ a.world.Asked 1 1 "registry" ["echo"] ∧
      b.world.Asked 1 1 "registry" ["echo"] := by
  let m₀ := followingPolls [.close]
  have h₀ : Reachable m₀ := reachable_followingPolls (by decide +kernel)
  let m := run 3 (m₀.world.machine (.rebind "echo" "registry"))
  have hm : Reachable m := h₀.run (run_of_step (by decide +kernel) _ _)
  have hnone : m.world.callback.isNone = true := by decide +kernel
  have hcloses : m.Closes := by decide +kernel
  -- the listener returns, and so does the call
  let a := run 5 m.next
  have hrun : Unstarted m.next a := unstarted_of_transitions 5 _ (by decide +kernel)
  have htimer : (a.world.timers.head?.map fun t => decide
      ((fire a.world [.settle none] t).world.Asked 1 1 "registry" ["echo"])) = some true := by
    decide +kernel
  obtain ⟨t, ht, hasked⟩ := Option.map_eq_some_iff.mp htimer
  exact ⟨m, a, fire a.world [.settle none] t, hm, Option.isNone_iff_eq_none.mp hnone, hcloses, hrun,
    leads_fire (by decide +kernel) (List.mem_of_mem_head? ht), by decide +kernel,
    of_decide_eq_true hasked⟩

end Machine

end Balancer.Session
