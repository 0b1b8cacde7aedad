import Balancer.Proofs.Session.Awaiting
import Balancer.Proofs.Session.Closing
import Balancer.Proofs.Session.Solitary

/-!
# Binding the strategy anew

A call that binds the strategy waits for a lookup, while anything may happen. When the lookup has
returned, the call ends polling, binds the strategy to the service, takes its list and begins
polling again if the strategy polled at that moment, all at once unless the listener makes calls of
its own.

* `Balancer.Session.World.Remembers` – the timings that a strategy remembers are those of its
  refresher.
* `Balancer.Session.World.Told` – **a listener that makes no calls leaves all of polling alone.**
* `Balancer.Session.Strategy.Fresh` – the strategy as a call leaves it that binds it;
  `Balancer.Session.Machine.PollsAnew` is polling as it leaves it.
* `Balancer.Session.Machine.Commits` – **what a call leaves that has bound the strategy.**
* `Balancer.Session.Machine.Reachable.rebinding_commits` – **binding, targets and polling all come
  from the same call**, the one that has bound the strategy last.
-/

namespace Balancer

open Session

/-! ### The rotation of a list -/

namespace Table

variable {α β : Type}

theorem mapValues_insert (f : α → β) (t : Table α) (key : String) (value : α) :
    (t.insert key value).mapValues f = (t.mapValues f).insert key (f value) := by
  have hput : ∀ entries : List (String × α), (put key value entries).map (fun e => (e.1, f e.2)) =
      put key (f value) (entries.map fun e => (e.1, f e.2)) := by
    intro entries
    induction entries with
    | nil => rfl
    | cons e entries ih =>
      obtain ⟨k, v⟩ := e
      by_cases hk : k = key
      · simp [put, hk]
      · simp [put, hk, ih]
  exact Table.ext (hput t.entries)

theorem mapValues_ofList (f : α → β) (entries : List (String × α)) :
    (ofList entries).mapValues f = ofList (entries.map fun e => (e.1, f e.2)) := by
  have hfold : ∀ (entries : List (String × α)) (t : Table α),
      (entries.foldl (fun t e => t.insert e.1 e.2) t).mapValues f =
        (entries.map fun e => (e.1, f e.2)).foldl (fun t e => t.insert e.1 e.2)
        (t.mapValues f) := by
    intro entries
    induction entries with
    | nil => exact fun _ => rfl
    | cons e entries ih =>
      intro t
      rw [List.map_cons, List.foldl_cons, List.foldl_cons, ih, mapValues_insert]
  exact hfold entries empty

end Table

/-- **The targets of a list of endpoints all have weight 1.** -/
theorem Rotation.active_ofEndpoints (endpoints : List Endpoint) :
    (ofEndpoints endpoints).active = Table.ofList (endpoints.map fun e => (e.key, 1)) := by
  have hone : Weight.normalize endpointWeight = 1 := by decide +kernel
  rw [ofEndpoints, ofWeights, restart, Table.mapValues_ofList, List.map_map]
  refine congrArg Table.ofList (List.map_congr_left fun e _ => ?_)
  rw [Function.comp_apply, hone]

namespace Session

/-! ### Timings that are remembered -/

/-- **The timings that a strategy remembers are those of its latest refresher.** -/
def World.Remembers (w : World) : Prop :=
  ∀ s n r, w.strategy = some s → s.refresher = some n → w.core? n = some r →
    s.timings = some r.timings

/-- It is so where no refresher comes and none gets other timings. -/
theorem World.Remembers.of_stays {w w' : World} (h : w.Remembers)
    (hcore : ∀ n r', w'.core? n = some r' → ∃ r, w.core? n = some r ∧ r'.timings = r.timings)
    (hstrategy : ∀ s', w'.strategy = some s' → ∃ s, w.strategy = some s ∧
      s'.refresher = s.refresher ∧ s'.timings = s.timings) : w'.Remembers := by
  intro s' n r' hs' hn hr'
  obtain ⟨s, hs, hrefresher, htimings⟩ := hstrategy s' hs'
  obtain ⟨r, hr, heq⟩ := hcore n r' hr'
  rw [htimings, heq]
  exact h s n r hs (hrefresher.symm.trans hn) hr

namespace Machine

variable {m m' x : Machine}

theorem Calm.remembers (h : Calm m m') (hm : m.world.Remembers) : m'.world.Remembers := by
  refine hm.of_stays (fun n r' hr' => ⟨r', (h.core n).symm.trans hr', rfl⟩) fun s' hs' => ?_
  obtain ⟨s, hs, hagrees⟩ := (hs' ▸ h.strategy).exists_of_some
  exact ⟨s, hs, hagrees.refresher, hagrees.timings⟩

/-- An act that gives the strategy no other refresher and no refresher other timings. -/
theorem remembers_of_map {y : Machine} (hx : x.world.Remembers) {f : Strategy → Strategy}
    {g : Refresher → Refresher} {p : Nat → Prop} [DecidablePred p]
    (hcore : ∀ n, y.world.core? n = if p n then (x.world.core? n).map g else x.world.core? n)
    (hstrategy : y.world.strategy = x.world.strategy.map f)
    (hg : ∀ r, (g r).timings = r.timings)
    (hf : ∀ s, (f s).refresher = s.refresher ∧ (f s).timings = s.timings) :
    y.world.Remembers := by
  refine hx.of_stays (fun n r' hr' => ?_) fun s' hs' => ?_
  · rw [hcore] at hr'
    split at hr'
    · obtain ⟨r, hr, rfl⟩ := Option.map_eq_some_iff.mp hr'
      exact ⟨r, hr, hg r⟩
    · exact ⟨r', hr', rfl⟩
  · rw [hstrategy] at hs'
    obtain ⟨s, hs, rfl⟩ := Option.map_eq_some_iff.mp hs'
    exact ⟨s, hs, hf s⟩

theorem Turn.remembers (h : Turn m m') (hm : m.world.Remembers) : m'.world.Remembers := by
  have hid : ∀ o : Option Strategy, o = o.map id := fun o => (congrFun Option.map_id o).symm
  cases h with
  | calm h => exact h.remembers hm
  | @rotate x step s rotation _ before _ _ after =>
    exact after.remembers (remembers_of_map (before.remembers hm) (g := id) (p := fun _ => False)
      (fun _ => (if_neg id).symm) (f := fun s => { s with rotation := rotation }) rfl (fun _ => rfl)
      fun _ => ⟨rfl, rfl⟩)
  | @reset x service endpoints _ before after =>
    exact after.remembers (remembers_of_map (before.remembers hm) (g := id) (p := fun _ => False)
      (fun _ => (if_neg id).symm) (f := fun s => s.replaceTargets service endpoints) rfl
      (fun _ => rfl) fun _ => ⟨rfl, rfl⟩)
  | @rebind x call service provider listing _ before after =>
    exact after.remembers (remembers_of_map (before.remembers hm)
      (x.core?_rebound call service provider listing)
      (x.strategy_rebound call service provider listing)
      (fun _ => rfl) fun _ => ⟨rfl, rfl⟩)
  | @start x services _ _ before after =>
    refine after.remembers (remembers_of_map (before.remembers hm)
      (fun n => x.world.core?_startRefresher 0 n services)
      ((x.world.strategy_startRefresher 0 services).trans (hid _)) (fun r => ?_) fun _ =>
        ⟨rfl, rfl⟩)
    rw [World.startCore]
    split <;> rfl
  | @stop x number _ before after =>
    exact after.remembers (remembers_of_map (before.remembers hm)
      (fun n => x.world.core?_stopRefresher number n)
      ((x.world.strategy_stopRefresher number).trans (hid _)) (fun _ => rfl) fun _ => ⟨rfl, rfl⟩)
  | @poll x s binding timings _ before strategy _ _ _ after =>
    refine after.remembers fun s' n r' hs' hn hr' => ?_
    have hstrategy : (x.polled binding timings).world.strategy =
        some (s.pollBy x.world.refreshers.length timings) := by
      rw [Machine.polled, World.strategy_pollWith, strategy, Option.map_some]
    cases hstrategy.symm.trans hs'
    cases hn
    rw [Machine.polled, World.core?_pollWith, if_pos rfl] at hr'
    cases hr'
    rfl
  | ask before _ _ _ _ after =>
    exact after.remembers (remembers_of_map (before.remembers hm) (g := id) (p := fun _ => False)
      (fun _ => (if_neg id).symm) (f := id) (hid _) (fun _ => rfl) fun _ => ⟨rfl, rfl⟩)
  | @take x cycle _ change _ _ _ before after =>
    exact after.remembers (remembers_of_map (before.remembers hm)
      (x.core?_seen cycle.refresher change)
      (f := fun s => s.replaceTargets change.service change.endpoints) rfl (fun _ => rfl)
      fun _ => ⟨rfl, rfl⟩)
  | @callBack x cycle _ change _ _ _ _ _ before _ after =>
    exact after.remembers (remembers_of_map (before.remembers hm)
      (x.core?_seen cycle.refresher change) (f := id) (hid _) (fun _ => rfl) fun _ => ⟨rfl, rfl⟩)

theorem Reachable.remembers (h : Reachable m) : m.world.Remembers := by
  refine h.induction (P := fun m => m.world.Remembers) (fun m hopen => ?_)
    fun a b ha hremembers hl => (ha.turn hl).remembers hremembers
  cases hopen with
  | strategy setup options weights =>
    intro s n r hs hn
    cases hs
    cases hn
  | bound setup options service provider =>
    refine (calm_boundMachine setup options service provider).remembers fun s n r hs hn => ?_
    cases hs
    cases hn
  | refresher h =>
    rw [openRefresher_eq_ok h]
    exact fun s n r hs => absurd hs (by simp [Setup.world])

end Machine

/-! ### A strategy that is bound -/

/-- **The strategy as a call leaves it that binds it** to a service whose list it has taken: nothing
of what it was before matters to its targets. -/
structure Strategy.Fresh (s : Strategy) (service provider : String)
    (endpoints : List Endpoint) : Prop where
  /-- It is built. -/
  building : s.building = false
  /-- It follows the service, and has seen the list. -/
  binding : s.binding = some ⟨service, provider, endpoints⟩
  /-- The endpoints are in service, all with the weight 1. -/
  active : s.rotation.active = Table.ofList (endpoints.map fun e => (e.key, 1))
  /-- No target is taken out. -/
  failed : s.rotation.failed = Table.empty
  /-- The election sequence is that of the endpoints. -/
  sequence : s.rotation.sequence = Weight.expand s.rotation.active
  /-- The election begins anew. -/
  cursor : s.rotation.cursor = 0

theorem Strategy.fresh_of {s : Strategy} {service provider : String} {endpoints : List Endpoint}
    (hbuilt : s.building = false) (hbinding : s.binding = some ⟨service, provider, endpoints⟩)
    (hrotation : s.rotation = .ofEndpoints endpoints) : s.Fresh service provider endpoints where
  building := hbuilt
  binding := hbinding
  active := by rw [hrotation, Rotation.active_ofEndpoints]
  failed := by rw [hrotation]; rfl
  sequence := by rw [hrotation]; rfl
  cursor := by rw [hrotation]; rfl

/-- Its whole rotation is that of the list. -/
theorem Strategy.Fresh.rotation {s : Strategy} {service provider : String}
    {endpoints : List Endpoint} (h : s.Fresh service provider endpoints) :
    s.rotation = .ofEndpoints endpoints := by
  obtain ⟨⟨active, failed, sequence, cursor⟩, _, _, _, _, _, _, _⟩ := s
  have hactive := h.active
  have hfailed := h.failed
  have hsequence := h.sequence
  have hcursor := h.cursor
  dsimp only at hactive hfailed hsequence hcursor
  rw [← Rotation.active_ofEndpoints] at hactive
  subst hactive hfailed hsequence hcursor
  rfl

/-- The strategy that is bound follows the service and has taken the list, and nothing else. -/
theorem Strategy.replaceTargets_bind (s : Strategy) (service provider : String)
    (endpoints : List Endpoint) :
    ((s.bind service provider).replaceTargets service endpoints).binding =
        some ⟨service, provider, endpoints⟩ ∧
      ((s.bind service provider).replaceTargets service endpoints).rotation =
        .ofEndpoints endpoints := by
  refine ⟨?_, rfl⟩
  show some ((⟨service, provider, []⟩ : Binding).see service endpoints) = _
  rw [Binding.see, if_pos rfl]

/-! ### A listener that makes no calls -/

/-- **What the listener does when it is told of a change**; it is not told while the strategy is
building. -/
def Strategy.reaction? (s : Strategy) : Option Reaction :=
  if s.building then none else s.listener.map fun reactions => reactions.headD Reaction.default

/-- **What comes out when the listener has been told**: nothing, unless it fails and that cannot be
logged. -/
def Strategy.Tells (s : Strategy) (logs : Bool) (outcome : Outcome) : Prop :=
  outcome = .ok .nothing ∨ ∃ reaction failure reason, s.reaction? = some reaction ∧
    reaction.ending = .throws failure ∧ logs = false ∧ outcome = .error reason

/-- **Nothing of polling changes**, and of the strategy only what its listener is to do next. -/
structure World.Told (w v : World) : Prop where
  /-- The same refreshers. -/
  refreshers : v.refreshers = w.refreshers
  /-- The same timers. -/
  timers : v.timers = w.timers
  /-- The same number of the latest timer. -/
  timerCount : v.timerCount = w.timerCount
  /-- The same clock. -/
  clock : v.clock = w.clock
  /-- Log calls go to the same place. -/
  logging : v.logging = w.logging
  /-- The same strategy, its listener apart. -/
  strategy : ∀ s, w.strategy = some s → ∃ listener, v.strategy =
    some { s with listener := listener }

namespace World

variable {w v u : World}

theorem Told.refl (w : World) : w.Told w := ⟨rfl, rfl, rfl, rfl, rfl, fun s hs => ⟨s.listener, hs⟩⟩

theorem Told.trans (h : w.Told v) (h' : v.Told u) : w.Told u where
  refreshers := h'.refreshers.trans h.refreshers
  timers := h'.timers.trans h.timers
  timerCount := h'.timerCount.trans h.timerCount
  clock := h'.clock.trans h.clock
  logging := h'.logging.trans h.logging
  strategy s hs := by
    obtain ⟨listener, hv⟩ := h.strategy s hs
    obtain ⟨listener', hu⟩ := h'.strategy _ hv
    exact ⟨listener', hu⟩

/-- Whether log calls go through depends on where they go, and on the clock. -/
theorem logs_congr (hlogging : v.logging = w.logging) (hclock : v.clock = w.clock) :
    v.logs = w.logs := by
  rw [logs, hlogging, hclock]
  rfl

theorem Told.logs (h : w.Told v) : v.logs = w.logs := logs_congr h.logging h.clock

theorem told_emit (w : World) (e : Event) : w.Told (w.emit e) :=
  ⟨rfl, rfl, rfl, rfl, rfl, fun s hs => ⟨s.listener, hs⟩⟩

theorem told_enqueue (w : World) (job : Job) : w.Told (w.enqueue job) :=
  ⟨rfl, rfl, rfl, rfl, rfl, fun s hs => ⟨s.listener, hs⟩⟩

theorem told_defer (w : World) (count : Nat) : w.Told { w with deferred := count } :=
  ⟨rfl, rfl, rfl, rfl, rfl, fun s hs => ⟨s.listener, hs⟩⟩

theorem told_log (w : World) (level : Level) (message : String) (failure : Option Failure) :
    w.Told (w.log level message failure).1 := by
  rw [log]
  split
  · exact w.told_emit _
  · split
    · exact w.told_emit _
    · exact .refl w

/-- The listener has one reaction less to come. -/
theorem told_listener (w : World) (listener : Option (List Reaction)) :
    w.Told (w.modifyStrategy fun s => { s with listener := listener }) :=
  ⟨rfl, rfl, rfl, rfl, rfl, fun s hs => ⟨listener, by rw [modifyStrategy, hs, Option.map_some]⟩⟩

/-! ### Polling that ends and begins -/

/-- What waits to be done does not matter to the end of polling. -/
theorem stopPolling_dequeue (w : World) (jobs : List Job) :
    ({ w with jobs := jobs } : World).stopPolling = { w.stopPolling with jobs := jobs } := by
  have hclear : ∀ (w : World) (id : Option Nat),
      ({ w with jobs := jobs } : World).clearTimer id = { w.clearTimer id with jobs := jobs } :=
    fun w id => by cases id <;> rfl
  simp only [stopPolling, poller?]
  cases w.strategy.bind Strategy.refresher with
  | none => rfl
  | some n =>
    simp only [stopRefresher]
    cases w.refreshers[n]? with
    | none => rfl
    | some r => simp only [hclear, modifyRefresher]

/-- The end of polling leaves the clock, and what goes to the console, and adds no timer. -/
theorem stopPolling_leaves (w : World) :
    w.stopPolling.clock = w.clock ∧ w.stopPolling.logging = w.logging ∧
      w.stopPolling.timerCount = w.timerCount ∧
      w.stopPolling.refreshers.length = w.refreshers.length ∧
      ∀ t ∈ w.stopPolling.timers, t ∈ w.timers := by
  have hclear : ∀ (w : World) (id : Option Nat), (w.clearTimer id).clock = w.clock ∧
      (w.clearTimer id).logging = w.logging ∧ (w.clearTimer id).timerCount = w.timerCount ∧
      (w.clearTimer id).refreshers = w.refreshers ∧
      ∀ t ∈ (w.clearTimer id).timers, t ∈ w.timers := fun w id => by
    cases id with
    | none => exact ⟨rfl, rfl, rfl, rfl, fun _ => id⟩
    | some id => exact ⟨rfl, rfl, rfl, rfl, fun _ ht => (List.mem_filter.mp ht).1⟩
  rw [stopPolling]
  split
  · exact ⟨rfl, rfl, rfl, rfl, fun _ => id⟩
  · next n _ =>
    rw [stopRefresher]
    split
    · exact ⟨rfl, rfl, rfl, rfl, fun _ => id⟩
    · next r _ =>
      obtain ⟨hclock, hlogging, hcount, hrefreshers, htimers⟩ := hclear w r.delayTimer
      obtain ⟨hclock', hlogging', hcount', hrefreshers', htimers'⟩ :=
        hclear (w.clearTimer r.delayTimer) r.periodTimer
      refine ⟨hclock'.trans hclock, hlogging'.trans hlogging, hcount'.trans hcount, ?_,
        fun t ht => htimers t (htimers' t ht)⟩
      rw [modifyRefresher, List.length_modify, hrefreshers', hrefreshers]

/-- **The strategy begins to poll** with a new refresher, which waits on a new timer. -/
theorem pollWith_begins (w : World) (binding : Binding) (timings : Timings) :
    (w.pollWith binding timings).refreshers[w.refreshers.length]? =
        some ((Refresher.idle (some binding.provider) .strategy timings).begin
          (Table.empty.insert binding.service binding.endpoints) (w.timerCount + 1)) ∧
      (w.pollWith binding timings).timers = w.timers ++
        [⟨w.timerCount + 1, w.clock + timings.delay, none, .delay w.refreshers.length⟩] ∧
      (w.pollWith binding timings).clock = w.clock ∧
      (w.pollWith binding timings).logging = w.logging := by
  have hnew : (w.refreshers ++ [Refresher.idle (some binding.provider) .strategy timings])[
      w.refreshers.length]? = some (Refresher.idle (some binding.provider) .strategy timings) :=
    List.getElem?_concat_length
  simp only [pollWith, startRefresher, modifyStrategy, hnew]
  refine ⟨?_, rfl, rfl, rfl⟩
  rw [if_neg (by simp [Refresher.idle])]
  simp only [modifyRefresher, setTimer, List.getElem?_modify, if_true, hnew]
  rfl

end World

namespace Machine

variable {m m' a b x : Machine} {w v : World} {k : List Frame} {s : Strategy}

/-! ### Points that lead on by their transition alone -/

/-- **Nothing else can come in between**: the point leads on only by its transition. -/
def Engaged (m : Machine) : Prop := ∀ b, Leads m b → b = m.next

theorem engaged_of_bound {call : Nat} {timings : Option Timings} {c : Control} :
    Engaged ⟨w, .bound call timings :: k, c⟩ := by
  intro b hl
  cases hl
  rfl

theorem engaged_of_listener {ending : Ending} {c : Control} :
    Engaged ⟨w, .listener ending :: k, c⟩ := by
  intro b hl
  cases hl
  rfl

/-! ### The course of the call -/

/-- **The listener returns**, and what waited for it goes on; if the listener fails, that is logged,
and only a log call that fails goes any further. -/
theorem exists_returns {reaction : Reaction} (hreaction : s.reaction? = some reaction)
    (k : List Frame) :
    ∃ v outcome, run 1 (done w (.listener reaction.ending :: k)) = ⟨v, k, .deliver outcome⟩ ∧
      w.Told v ∧ s.Tells w.logs outcome := by
  cases hending : reaction.ending with
  | returns | pending => exact ⟨w, .ok .nothing, rfl, .refl w, .inl rfl⟩
  | deferred =>
    exact ⟨{ w with deferred := w.deferred + 1 }, .ok .nothing, rfl, w.told_defer _, .inl rfl⟩
  | rejects failure =>
    exact ⟨w.enqueue (.rejected failure), .ok .nothing, rfl, w.told_enqueue _, .inl rfl⟩
  | throws failure =>
    refine ⟨(w.log .error listenerFailed (some failure)).1, _, rfl, w.told_log _ _ _, ?_⟩
    cases hlogs : w.logs with
    | true =>
      obtain ⟨u, hlog⟩ := World.log_of_logs hlogs .error listenerFailed (some failure)
      exact .inl (by rw [hlog]; rfl)
    | false =>
      obtain ⟨reason, hlog⟩ := World.log_of_not_logs hlogs .error listenerFailed (some failure)
      exact .inr ⟨reaction, failure, reason, hreaction, hending, rfl, by rw [hlog]; rfl⟩

/-- **The listener is told of a change and makes no calls**, so that what follows goes on at
once. -/
theorem exists_told (hs : w.strategy = some s)
    (hquiet : ∀ reaction, s.reaction? = some reaction → reaction.steps = []) (k : List Frame)
    (change : Membership) :
    ∃ j v outcome, j ≤ 1 ∧ (∀ i < j, Engaged (run i (notify w k change))) ∧
      run j (notify w k change) = ⟨v, k, .deliver outcome⟩ ∧ w.Told v ∧
      s.Tells w.logs outcome := by
  rcases hreaction : s.reaction? with _ | reaction
  · -- there is no listener to tell
    have hnotify : notify w k change = done w k := by
      rw [notify, hs]
      dsimp only
      split
      · next hbuilt hlistener =>
        rw [Strategy.reaction?, hbuilt, hlistener] at hreaction
        cases hreaction
      · rfl
    exact ⟨0, w, .ok .nothing, Nat.zero_le 1, fun i hi => absurd hi (Nat.not_lt_zero i), hnotify,
      .refl w, .inl rfl⟩
  · have hsteps : reaction.steps = [] := hquiet reaction hreaction
    have htells := hreaction
    rw [Strategy.reaction?] at hreaction
    split at hreaction
    · cases hreaction
    · next hbuilt =>
      obtain ⟨reactions, hlistener, rfl⟩ := Option.map_eq_some_iff.mp hreaction
      rw [Bool.not_eq_true] at hbuilt
      let u : World := (w.emit (.notice ⟨change, s.rotation.targets, w.clock.floor⟩)).modifyStrategy
        fun s => { s with listener := some reactions.tail }
      have hu : w.Told u := (w.told_emit _).trans (World.told_listener _ _)
      have hnotify : notify w k change =
          done u (.listener (reactions.headD Reaction.default).ending :: k) := by
        rw [notify, hs]
        simp only [hbuilt, hlistener, hsteps, runScript, u]
      rw [hnotify]
      obtain ⟨v, outcome, hrun, hv, houtcome⟩ := exists_returns (w := u) htells k
      refine ⟨1, v, outcome, Nat.le_refl 1, fun i hi => ?_, hrun, hu.trans hv, hu.logs ▸ houtcome⟩
      rw [Nat.lt_one_iff.mp hi]
      exact engaged_of_listener

/-- **A lookup that binds the strategy has returned**: polling ends, the strategy is bound and takes
the list, and then the call goes on. -/
theorem exists_goes_on (hs : m.world.strategy = some s)
    (hquiet : ∀ reaction, s.reaction? = some reaction → reaction.steps = []) {call : Nat}
    {service provider : String} {listing : Option Listing}
    (hjob : m.job? = some (.answered (.binding call service provider) (.ok listing))) :
    ∃ j v k outcome, j ≤ 1 ∧ (∀ i ≤ j, Engaged (run i m.next)) ∧
      run j m.next = ⟨v, .bound call m.world.runningTimings :: k, .deliver outcome⟩ ∧
      (m.rebound call service provider listing).world.Told v ∧ s.Tells m.world.logs outcome := by
  obtain ⟨jobs, k, -, hnext⟩ := exists_next_eq_work hjob
  let w : World := (m.rebound call service provider listing).world
  let u : World := { w with jobs := jobs }
  have hu : w.Told u := ⟨rfl, rfl, rfl, rfl, rfl, fun s hs => ⟨s.listener, hs⟩⟩
  have hwork : m.next = notify u (.bound call m.world.runningTimings :: k) (.reset service) := by
    rw [hnext]
    simp only [work, World.stopPolling_dequeue]
    rfl
  have hstrategy : u.strategy =
      some ((s.bind service provider).replaceTargets service (listed listing service)) := by
    show w.strategy = _
    rw [strategy_rebound, hs, Option.map_some]
  obtain ⟨j, v, outcome, hj, hengaged, hrun, htold, houtcome⟩ :=
    exists_told hstrategy hquiet (.bound call m.world.runningTimings :: k) (.reset service)
  rw [← hwork] at hengaged hrun
  -- neither the clock nor the place of log calls has changed
  obtain ⟨hclock, hlogging, -⟩ := m.world.stopPolling_leaves
  have hlogs : u.logs = m.world.logs := World.logs_congr hlogging hclock
  refine ⟨j, v, k, outcome, hj, fun i hi => ?_, hrun, hu.trans htold, hlogs ▸ houtcome⟩
  rcases Nat.lt_or_eq_of_le hi with hlt | rfl
  · exact hengaged i hlt
  · rw [hrun]
    exact engaged_of_bound

/-- The end of a call that binds a strategy, which is built then. -/
theorem endBinding_of_some (hs : w.strategy = some s) (call : Nat) {outcome : Except Failure Unit}
    (hbuilt : outcome = .ok () ∨ s.building = false) :
    (w.endBinding call outcome).strategy = some s.built ∧
      (w.endBinding call outcome).trace.back? = some (.ended call outcome) := by
  refine ⟨?_, Array.back?_push⟩
  cases outcome with
  | ok => exact congrArg (Option.map Strategy.built) hs
  | error failure =>
    have hbuilt : s.building = false := hbuilt.resolve_left (by simp)
    have hkept : (w.endBinding call (.error failure)).strategy =
        w.strategy.filter fun s => !s.building :=
      rfl
    have hsame : s.built = s := by
      rw [Strategy.built, ← hbuilt]
    rw [hkept, hs, hsame, Option.filter_some, hbuilt]
    rfl

/-- **The strategy polls anew**: the new refresher is the only one that runs. It has certain
timings, has seen a list of a service, and waits on a new timer to ask for it. -/
structure PollsAnew (m a : Machine) (timings : Timings) (service provider : String)
    (endpoints : List Endpoint) : Prop where
  /-- The refresher. -/
  refresher : ∃ r, a.world.refreshers[m.world.refreshers.length]? = some r ∧
    r.provider = some provider ∧ r.handler = .strategy ∧ r.timings = timings ∧
    r.snapshot = Table.empty.insert service endpoints ∧
    r.delayTimer = some (m.world.timerCount + 1)
  /-- The timers that the end of polling has left, and the new one. -/
  timers : a.world.timers = m.world.stopPolling.timers ++
    [⟨m.world.timerCount + 1, m.world.clock + timings.delay, none,
    .delay m.world.refreshers.length⟩]
  /-- No other refresher runs. -/
  only : ∀ n, a.Running n ↔ n = m.world.refreshers.length

/-- **The call begins polling again**, and ends. -/
theorem next_bound_of_timings {timings : Timings} {b : Binding}
    (hs : v.strategy = some s) (hb : s.binding = some b) (hidle : v.polling = false)
    (hcheck : timings.check = .ok ()) (call : Nat) (result : Result) :
    ∃ u started, next ⟨v, .bound call (some timings) :: k, .deliver (.ok result)⟩ =
        done (u.endBinding call started) k ∧ (v.pollWith b timings).Told u ∧
      (v.logs = true → started = .ok ()) := by
  let shown := (v.pollWith b timings).log .info
    ("Refreshing \"" ++ b.service ++ "\" from naming service") none
  refine ⟨shown.1, shown.2, ?_, World.told_log _ _ _ _, fun hlogs => ?_⟩
  · simp only [next, resume, World.startPolling, hs, hb, hidle, Bool.false_eq_true, if_false,
      Strategy.chooseTimings_of_check hcheck, shown]
  · obtain ⟨-, -, hclock, hlogging⟩ := v.pollWith_begins b timings
    obtain ⟨u, hlog⟩ := World.log_of_logs ((World.logs_congr hlogging hclock).trans hlogs) .info
      ("Refreshing \"" ++ b.service ++ "\" from naming service") none
    exact congrArg Prod.snd hlog

/-! ### Whether the strategy polls -/

/-- The timings to go back to polling with are those of the refresher that runs. -/
theorem Reachable.timings_of_running (h : Reachable m) (hnone : m.world.callback = none) {n : Nat}
    {r : Refresher} (hr : m.world.core? n = some r) (hrunning : r.running = true) :
    m.world.runningTimings = some r.timings ∧ r.timings.check = .ok () ∧
      ∃ s, m.world.strategy = some s ∧ s.building = false := by
  obtain ⟨s, b, hpolls⟩ := (h.follows hnone).poller n r hr hrunning
  obtain ⟨s', hs', hbuilt⟩ := (h.follows hnone).built n r hr
  cases hpolls.strategy.symm.trans hs'
  have htimings := h.remembers s n r hs' hpolls.latest hr
  have hpoller : m.world.poller? = some n := by
    rw [World.poller?, hs']
    exact hpolls.latest
  refine ⟨?_, (h.ready hnone).chosen s _ hs' htimings, s, hs', hbuilt⟩
  rw [World.runningTimings, if_pos (World.polling_iff.mpr ⟨n, r, hpoller, hr, hrunning⟩), hs']
  exact htimings

/-- Of a refresher that runs there are timings to go back to polling with. -/
theorem exists_running_of_timings {timings : Timings} (h : m.world.runningTimings = some timings) :
    ∃ n r, m.world.core? n = some r ∧ r.running = true := by
  rw [World.runningTimings] at h
  split at h
  · next hpolling =>
    obtain ⟨n, r, -, hr, hrunning⟩ := World.polling_iff.mp hpolling
    exact ⟨n, r, hr, hrunning⟩
  · cases h

/-! ### What the call leaves -/

/-- **What a call leaves that has bound the strategy.** -/
structure Commits (m a : Machine) (s : Strategy) (service provider : String)
    (endpoints : List Endpoint) (outcome : Except Failure Unit) : Prop where
  /-- The strategy follows the service, and has its targets from the list. -/
  strategy : ∃ s', a.world.strategy = some s' ∧ s'.Fresh service provider endpoints
  /-- Where nothing ran at the moment when the lookup had returned, nothing runs, and no timer has
  come. -/
  idle : (∀ n, ¬ m.Running n) → (∀ n, ¬ a.Running n) ∧ ∀ t ∈ a.world.timers, t ∈ m.world.timers
  /-- Where a refresher ran, another one runs now, with its timings. Only if the listener has failed
  and that cannot be logged, the call fails and polling has ended. -/
  polls : ∀ n r, m.world.core? n = some r → r.running = true →
    PollsAnew m a r.timings service provider endpoints ∨
      (∀ n, ¬ a.Running n) ∧ m.world.logs = false ∧ ∃ reaction failure reason,
        s.reaction? = some reaction ∧ reaction.ending = .throws failure ∧ outcome = .error reason
  /-- The call succeeds where log calls go through. -/
  succeeds : m.world.logs = true → outcome = .ok ()

/-- The strategy at the end of the call. -/
theorem fresh_endBinding {service provider : String} {endpoints : List Endpoint} {call : Nat}
    {outcome : Except Failure Unit} (hs : w.strategy = some s)
    (hbinding : s.binding = some ⟨service, provider, endpoints⟩)
    (hrotation : s.rotation = .ofEndpoints endpoints)
    (hbuilt : outcome = .ok () ∨ s.building = false) :
    ∃ s', (w.endBinding call outcome).strategy = some s' ∧ s'.Fresh service provider endpoints :=
  ⟨s.built, (endBinding_of_some hs call hbuilt).1, Strategy.fresh_of rfl hbinding hrotation⟩

/-- **The call ends without polling.** -/
theorem commits_of_idle {service provider : String} {listing : Option Listing} {call : Nat}
    {outcome : Except Failure Unit} (hs : m.world.strategy = some s)
    (hnothing : ∀ n, ¬ (m.rebound call service provider listing).Running n)
    (htold : (m.rebound call service provider listing).world.Told v)
    (hbuilt : outcome = .ok () ∨ s.building = false)
    (hpolls : ∀ n r, m.world.core? n = some r → r.running = true → m.world.logs = false ∧
      ∃ reaction failure reason, s.reaction? = some reaction ∧
        reaction.ending = .throws failure ∧ outcome = .error reason)
    (hsucceeds : m.world.logs = true → outcome = .ok ()) :
    Commits m (done (v.endBinding call outcome) k) s service provider (listed listing service)
      outcome := by
  have hstrategy := m.strategy_rebound call service provider listing
  rw [hs, Option.map_some] at hstrategy
  obtain ⟨listener, hv⟩ := htold.strategy _ hstrategy
  obtain ⟨hbinding, hrotation⟩ := s.replaceTargets_bind service provider (listed listing service)
  have hstill : ∀ n, ¬ (done (v.endBinding call outcome) k).Running n := by
    rintro n ⟨r, hr, hrunning⟩
    have hr' : v.core? n = some r := hr
    rw [World.core?, htold.refreshers] at hr'
    exact hnothing n ⟨r, hr', hrunning⟩
  refine ⟨fresh_endBinding hv hbinding hrotation hbuilt, fun _ => ⟨hstill, fun t ht => ?_⟩,
    fun n r hr hrunning => .inr ⟨hstill, hpolls n r hr hrunning⟩, hsucceeds⟩
  have ht' : t ∈ v.timers := ht
  rw [htold.timers] at ht'
  exact m.world.stopPolling_leaves.2.2.2.2 t ht'

/-- **Polling that begins again** after the call has bound the strategy. -/
theorem pollsAnew_of_told {service provider : String} {listing : Option Listing} {call : Nat}
    {timings : Timings} {outcome : Except Failure Unit}
    (hnothing : ∀ n, ¬ (m.rebound call service provider listing).Running n)
    (htold : (m.rebound call service provider listing).world.Told v)
    (hu : (v.pollWith ⟨service, provider, listed listing service⟩ timings).Told u) :
    PollsAnew m (done (u.endBinding call outcome) k) timings service provider
      (listed listing service) := by
  let binding : Binding := ⟨service, provider, listed listing service⟩
  -- the new refresher comes after all others
  obtain ⟨hclock, -, hcount, hlength, -⟩ := m.world.stopPolling_leaves
  have hlength' : v.refreshers.length = m.world.refreshers.length := by
    rw [htold.refreshers]
    exact hlength
  have hcount' : v.timerCount = m.world.timerCount := htold.timerCount.trans hcount
  have hclock' : v.clock = m.world.clock := htold.clock.trans hclock
  obtain ⟨hnew, htimers, -⟩ := v.pollWith_begins binding timings
  rw [hlength', hcount', ← hu.refreshers] at hnew
  rw [hlength', hcount', hclock', htold.timers, ← hu.timers] at htimers
  refine ⟨⟨_, hnew, rfl, rfl, rfl, rfl, rfl⟩, htimers, fun n => ?_⟩
  have hcore : u.core? n = (v.pollWith binding timings).core? n := by
    rw [World.core?, World.core?, hu.refreshers]
  rw [World.core?_pollWith, hlength'] at hcore
  constructor
  · rintro ⟨r, hr, hrunning⟩
    have hr' : u.core? n = some r := hr
    rw [hcore] at hr'
    split at hr'
    · next heq => exact heq.symm
    · rw [World.core?, htold.refreshers] at hr'
      exact absurd ⟨r, hr', hrunning⟩ (hnothing n)
  · rintro rfl
    rw [if_pos rfl] at hcore
    exact ⟨_, hcore, rfl⟩

/-- **The call ends, and the strategy polls anew.** -/
theorem commits_of_timings {service provider : String} {listing : Option Listing} {call : Nat}
    {timings : Timings} {result : Result} (h : Reachable m) (hs : m.world.strategy = some s)
    (hnone : m.world.callback = none) (htimings : m.world.runningTimings = some timings)
    (htold : (m.rebound call service provider listing).world.Told v) :
    ∃ (u : World) (started : Except Failure Unit),
      next ⟨v, .bound call (some timings) :: k, .deliver (.ok result)⟩ =
        done (u.endBinding call started) k ∧
      Commits m (done (u.endBinding call started) k) s service provider (listed listing service)
        started := by
  obtain ⟨n, r, hr, hrunning⟩ := exists_running_of_timings htimings
  obtain ⟨hr', hcheck, s', hs', hbuilt⟩ := h.timings_of_running hnone hr hrunning
  cases htimings.symm.trans hr'
  cases hs.symm.trans hs'
  have hnothing := (h.follows hnone).not_running_rebound call service provider listing
  have hstrategy := m.strategy_rebound call service provider listing
  rw [hs, Option.map_some] at hstrategy
  obtain ⟨listener, hv⟩ := htold.strategy _ hstrategy
  obtain ⟨hbinding, hrotation⟩ := s.replaceTargets_bind service provider (listed listing service)
  have hidle : v.polling = false := by
    rw [← Bool.not_eq_true, World.polling_iff]
    rintro ⟨n, r, -, hr, hrunning⟩
    rw [World.core?, htold.refreshers] at hr
    exact hnothing n ⟨r, hr, hrunning⟩
  obtain ⟨u, started, hnext, hu, hstarted⟩ :=
    next_bound_of_timings (k := k) hv hbinding hidle hcheck call result
  have hpolled := World.strategy_pollWith v ⟨service, provider, listed listing service⟩ r.timings
  rw [hv, Option.map_some] at hpolled
  obtain ⟨listener', hu'⟩ := hu.strategy _ hpolled
  obtain ⟨hclock, hlogging, -⟩ := m.world.stopPolling_leaves
  refine ⟨u, started, hnext, fresh_endBinding hu' hbinding hrotation (.inr hbuilt), fun hnot => ?_,
    fun n' r₁ hr₁ hran => ?_, fun hlogs => hstarted ?_⟩
  · exact absurd ⟨r, hr, hrunning⟩ (hnot n)
  · obtain ⟨hr₁', -⟩ := h.timings_of_running hnone hr₁ hran
    have hsame : r.timings = r₁.timings := Option.some.inj (htimings.symm.trans hr₁')
    exact .inl (hsame ▸ pollsAnew_of_told hnothing htold hu)
  · have hlogging' : v.logging = m.world.logging := htold.logging.trans hlogging
    exact (World.logs_congr hlogging' (htold.clock.trans hclock)).trans hlogs

/-! ### What comes after -/

/-- **The strategy follows a service** of a naming service. -/
def BoundTo (m : Machine) (service provider : String) : Prop :=
  ∃ s b, m.world.strategy = some s ∧ s.building = false ∧ s.binding = some b ∧
    b.service = service ∧ b.provider = provider

theorem Calm.boundTo {service provider : String} (h : Calm m m') (hm : m.BoundTo service provider) :
    m'.BoundTo service provider := by
  obtain ⟨s, b, hs, hbuilt, hb, hservice⟩ := hm
  obtain ⟨s', hs', hagrees⟩ := (hs ▸ h.strategy).exists_of_built hbuilt
  have hbuilt' : s'.building = false :=
    Bool.eq_false_iff.mpr fun hb => absurd (hagrees.building hb) (by rw [hbuilt]; simp)
  exact ⟨s', b, hs', hbuilt', hagrees.binding.trans hb, hservice⟩

/-- An act on the strategy that leaves what it follows. -/
theorem BoundTo.map {y : Machine} {service provider : String} (hx : x.BoundTo service provider)
    {f : Strategy → Strategy} (hstrategy : y.world.strategy = x.world.strategy.map f)
    (hf : ∀ s : Strategy, s.building = false → (f s).building = false ∧ ∀ b, s.binding = some b →
      ∃ b', (f s).binding = some b' ∧ b'.service = b.service ∧ b'.provider = b.provider) :
    y.BoundTo service provider := by
  obtain ⟨s, b, hs, hbuilt, hb, hservice, hprovider⟩ := hx
  obtain ⟨hbuilt', hbinding⟩ := hf s hbuilt
  obtain ⟨b', hb', hservice', hprovider'⟩ := hbinding b hb
  refine ⟨f s, b', ?_, hbuilt', hb', hservice'.trans hservice, hprovider'.trans hprovider⟩
  rw [hstrategy, hs, Option.map_some]

/-- **Only a lookup that binds the strategy changes what it follows**, which is then what was asked
for. -/
theorem Turn.boundTo_or {service provider : String} (h : Turn m m') (hm : m.BoundTo service provider) :
    m'.BoundTo service provider ∨
      ∃ service' provider', m.rebinds? = some (service', provider') ∧
        m'.BoundTo service' provider' := by
  have hid : ∀ o : Option Strategy, o = o.map id := fun o => (congrFun Option.map_id o).symm
  have hreplaces : ∀ {x y : Machine} (changed : String) (endpoints : List Endpoint),
      x.BoundTo service provider →
      y.world.strategy = x.world.strategy.map (fun s => s.replaceTargets changed endpoints) →
      y.BoundTo service provider := fun changed endpoints hx hstrategy =>
    hx.map hstrategy fun s hbuilt =>
      ⟨hbuilt, (s.stays_replaceTargets changed endpoints).binding⟩
  cases h with
  | calm h => exact .inl (h.boundTo hm)
  | @rotate x step s rotation _ before _ _ after =>
    exact .inl (after.boundTo ((before.boundTo hm).map
      (f := fun s => { s with rotation := rotation }) rfl
      fun _ hbuilt => ⟨hbuilt, fun b hb => ⟨b, hb, rfl, rfl⟩⟩))
  | reset _ before after => exact .inl (after.boundTo (hreplaces _ _ (before.boundTo hm) rfl))
  | @rebind x call service' provider' listing job before after =>
    refine .inr ⟨service', provider', by rw [rebinds?, job]; rfl, after.boundTo ?_⟩
    obtain ⟨s, -, hs, hbuilt, -⟩ := before.boundTo hm
    have hstrategy := x.strategy_rebound call service' provider' listing
    rw [hs, Option.map_some] at hstrategy
    exact ⟨_, ⟨service', provider', listed listing service'⟩, hstrategy, hbuilt,
      congrArg some (if_pos rfl), rfl, rfl⟩
  | @start x services _ _ before after =>
    exact .inl (after.boundTo ((before.boundTo hm).map
      ((x.world.strategy_startRefresher 0 services).trans (hid _))
      fun _ hbuilt => ⟨hbuilt, fun b hb => ⟨b, hb, rfl, rfl⟩⟩))
  | @stop x number _ before after =>
    exact .inl (after.boundTo ((before.boundTo hm).map
      ((x.world.strategy_stopRefresher number).trans (hid _))
      fun _ hbuilt => ⟨hbuilt, fun b hb => ⟨b, hb, rfl, rfl⟩⟩))
  | @poll x s binding timings _ before _ _ _ _ after =>
    exact .inl (after.boundTo ((before.boundTo hm).map (x.world.strategy_pollWith binding timings)
      fun _ hbuilt => ⟨hbuilt, fun b hb => ⟨b, hb, rfl, rfl⟩⟩))
  | ask before _ _ _ _ after =>
    exact .inl (after.boundTo ((before.boundTo hm).map (hid _)
      fun _ hbuilt => ⟨hbuilt, fun b hb => ⟨b, hb, rfl, rfl⟩⟩))
  | take _ _ _ before after =>
    exact .inl (after.boundTo (hreplaces _ _ (before.boundTo hm) rfl))
  | callBack _ _ _ before _ after =>
    exact .inl (after.boundTo ((before.boundTo hm).map (hid _)
      fun _ hbuilt => ⟨hbuilt, fun b hb => ⟨b, hb, rfl, rfl⟩⟩))

/-- Where no lookup binds the strategy, it follows what it followed. -/
theorem Turn.boundTo {service provider : String} (h : Turn m m') (hrebinds : m.rebinds? = none)
    (hm : m.BoundTo service provider) : m'.BoundTo service provider := by
  refine (h.boundTo_or hm).resolve_right ?_
  rintro ⟨service', provider', hsome, -⟩
  cases hrebinds.symm.trans hsome

/-- **The strategy follows the service until another lookup binds it.** -/
theorem Stretch.boundTo {α : Type} {watch : Machine → List α} {seen : List α}
    {service provider : String} (h : Stretch (fun x => x.rebinds? = none) watch m seen m')
    (hreach : Reachable m) (hm : m.BoundTo service provider) : m'.BoundTo service provider := by
  induction h with
  | refl => exact hm
  | @next _ a h allowed ih => exact ((hreach.run h.run).turn (.next a)).boundTo allowed ih
  | @enter _ a b h enters ih =>
    -- such a point does no job: nothing remains to be done, or the world is as it was
    cases enters with
    | perform | interject => exact ih
    | fire w outcome ht =>
      exact ((hreach.run h.run).turn (Leads.fire w outcome ht)).boundTo rfl ih

/-! ### The whole call -/

/-- Where there is a strategy no refresher is driven directly. -/
theorem Reachable.callback_eq_none (h : Reachable m) (hs : m.world.strategy = some s) :
    m.world.callback = none := by
  cases hcallback : m.world.callback with
  | none => rfl
  | some c => cases hs.symm.trans (h.solitary.strategy (by rw [hcallback]; rfl))

/-- **The call ends** with its last transition. -/
theorem Reachable.exists_commits (h : Reachable m) (hs : m.world.strategy = some s)
    {service provider : String} {listing : Option Listing} {call : Nat} {outcome : Outcome}
    (htold : (m.rebound call service provider listing).world.Told v)
    (houtcome : s.Tells m.world.logs outcome) :
    ∃ (u : World) (ended : Except Failure Unit),
      next ⟨v, .bound call m.world.runningTimings :: k, .deliver outcome⟩ =
        done (u.endBinding call ended) k ∧
      Commits m (done (u.endBinding call ended) k) s service provider (listed listing service)
        ended := by
  have hnone : m.world.callback = none := h.callback_eq_none hs
  have hnothing := (h.follows hnone).not_running_rebound call service provider listing
  rcases houtcome with rfl | ⟨reaction, failure, reason, hreaction, hending, hlogs, rfl⟩
  · cases htimings : m.world.runningTimings with
    | none =>
      refine ⟨v, .ok (), rfl, commits_of_idle hs hnothing htold (.inl rfl)
        (fun n r hr hrunning => ?_)
        fun _ => rfl⟩
      cases htimings.symm.trans (h.timings_of_running hnone hr hrunning).1
    | some timings => exact commits_of_timings h hs hnone htimings htold
  · have hbuilt : s.building = false := by
      rw [Strategy.reaction?] at hreaction
      split at hreaction
      · cases hreaction
      · next hbuilt => exact Bool.eq_false_iff.mpr hbuilt
    refine ⟨v, .error reason, rfl, commits_of_idle hs hnothing htold (.inr hbuilt)
      (fun _ _ _ _ => ⟨hlogs, reaction, failure, reason, hreaction, hending, rfl⟩) fun hshows => ?_⟩
    cases hlogs.symm.trans hshows

/-- **Binding, targets and polling all come from the call that has bound the strategy last.** A call
that binds the strategy goes on when its lookup has returned, and the listener makes no calls of its
own: then the call ends after one or two transitions, and nothing can come in between. The strategy
follows the service and has taken the list, whatever it was before. If a refresher ran at that
moment exactly one runs now, with the same timings, which knows the list and waits on a new timer;
if none ran, none runs now, and no timer has come. From then on, until another lookup binds the
strategy, it follows that service, a refresher that runs asks for it, and the targets are what is
made of the list. -/
theorem Reachable.rebinding_commits (h : Reachable m) (hs : m.world.strategy = some s)
    (hquiet : ∀ reaction, s.reaction? = some reaction → reaction.steps = []) {call : Nat}
    {service provider : String} {listing : Option Listing}
    (hjob : m.job? = some (.answered (.binding call service provider) (.ok listing))) :
    ∃ j outcome, 1 ≤ j ∧ j ≤ 2 ∧ (∀ i < j, Engaged (Machine.run i m.next)) ∧
      (Machine.run j m.next).world.trace.back? = some (.ended call outcome) ∧
      Commits m (Machine.run j m.next) s service provider (listed listing service) outcome ∧
      ∀ seen b, Stretch (fun x => x.rebinds? = none) (fun x => [x]) (Machine.run j m.next) seen b →
        (∃ s' b', b.world.strategy = some s' ∧ s'.binding = some b' ∧ b'.service = service ∧
          b'.provider = provider ∧
          s'.rotation = seen.foldl (fun r x => x.rotate r)
            (.ofEndpoints (listed listing service))) ∧
        ∀ n r, b.world.core? n = some r → r.running = true →
          r.provider = some provider ∧ r.snapshot.keys = [service] := by
  obtain ⟨j, v, k, outcome, hj, hengaged, hrun, htold, houtcome⟩ := exists_goes_on hs hquiet hjob
  obtain ⟨u, ended, hnext, hcommits⟩ := h.exists_commits (k := k) hs htold houtcome
  have hlast : Machine.run (j + 1) m.next = done (u.endBinding call ended) k := by
    rw [run_succ_last, hrun, hnext]
  have hreach : Reachable (Machine.run (j + 1) m.next) :=
    (h.leads (.next m)).run (run_of_transitions (j + 1) m.next)
  refine ⟨j + 1, ended, Nat.le_add_left 1 j, Nat.succ_le_succ hj,
    fun i hi => hengaged i (Nat.le_of_lt_succ hi), ?_, hlast.symm ▸ hcommits, ?_⟩
  · rw [hlast]
    exact Array.back?_push
  rw [hlast] at hreach ⊢
  intro seen b hstretch
  obtain ⟨s₁, hs₁, hfresh⟩ := hcommits.strategy
  obtain ⟨s', b', hs', hbuilt, hb', hservice, hprovider⟩ :=
    hstretch.boundTo hreach ⟨s₁, _, hs₁, hfresh.building, hfresh.binding, rfl, rfl⟩
  refine ⟨⟨s', b', hs', hb', hservice, hprovider, ?_⟩, fun n r hr hrunning => ?_⟩
  · -- every transition makes of the targets what it is to make, and nothing else does
    refine hstretch.keeps (P := fun seen rotation => rotation =
      seen.foldl (fun r x => x.rotate r) (.ofEndpoints (listed listing service))) hreach
      (fun s hs => ?_) (fun seen a s _ _ _ hseen => ?_) s' hs'
    · cases hs₁.symm.trans hs
      exact hfresh.rotation
    · rw [List.foldl_append, ← hseen, List.foldl_cons, List.foldl_nil]
  · have hb : Reachable b := hreach.run hstretch.run
    have hnone : b.world.callback = none := hb.callback_eq_none hs'
    obtain ⟨s₂, b₂, hpolls⟩ := (hb.follows hnone).poller n r hr hrunning
    cases hpolls.strategy.symm.trans hs'
    cases hpolls.bound.symm.trans hb'
    exact ⟨hpolls.provider.trans (congrArg some hprovider),
      hpolls.services.trans (congrArg (fun service => [service]) hservice)⟩

/-- **Of two calls that wait for their lookups at the same time** while the strategy polls, the
first one has its lookup answered last: the other one has bound the strategy and begun to poll, and
now all of that is of the first one. -/
theorem rebinding_commits_of_the_last :
    ∃ m s b r, Reachable m ∧ m.world.strategy = some s ∧ s.binding = some b ∧
      b.service = "third" ∧ m.world.core? 1 = some r ∧ r.running = true ∧
      m.rebinds? = some ("other", "registry") ∧ ∃ j call s', j ≤ 2 ∧
        (Machine.run j m.next).world.trace.back? = some (.ended call (.ok ())) ∧
        (Machine.run j m.next).world.strategy = some s' ∧
        s'.Fresh "other" "registry" [⟨"10.0.0.1", .ofNat 80⟩] ∧
        PollsAnew m (Machine.run j m.next) r.timings "other" "registry"
          [⟨"10.0.0.1", .ofNat 80⟩] := by
  let setup : Setup := ⟨.zero, ⟨none, none⟩, false, .ofList [("registry", ⟨.empty, []⟩)]⟩
  let options : Options := ⟨none, none, some [⟨[], .returns⟩]⟩
  let m₀ := Machine.run 9 (boundMachine setup options "echo" "registry")
  have h₀ : Reachable m₀ :=
    (Opens.bound setup options "echo" "registry").reachable.run (run_of_transitions 9 _)
  -- the strategy polls, and two calls wait for their lookups
  let m₁ := Machine.run 4 (m₀.world.machine (.prepare "registry" [(.pending, []), (.pending, [])]))
  let m₂ := Machine.run 4
    (m₁.world.machine (.startPolling (some (.ofNat 10)) (some (.ofNat 20))))
  let m₃ := Machine.run 8 (m₂.world.machine (.rebind "other" "registry"))
  let m₄ := Machine.run 8 (m₃.world.machine (.rebind "third" "registry"))
  have h₁ : Run m₀ m₁ := run_of_step (by decide +kernel) _ _
  have h₂ : Run m₁ m₂ := run_of_step (by decide +kernel) _ _
  have h₃ : Run m₂ m₃ := run_of_step (by decide +kernel) _ _
  have h₄ : Run m₃ m₄ := run_of_step (by decide +kernel) _ _
  -- the second one binds the strategy first, and then the lookup of the first one returns
  let listing : Listing := .ofList [("other", [⟨"10.0.0.1", .ofNat 80⟩])]
  let m₅ := Machine.run 12 (m₄.world.machine (.settle .newest .nothing))
  let m := Machine.run 1 (m₅.world.machine (.settle .oldest (.listing listing)))
  have h₅ : Run m₄ m₅ := run_of_step (by decide +kernel) _ _
  have h₆ : Run m₅ m := run_of_step (by decide +kernel) _ _
  have hm : Reachable m := h₀.run (((h₁.trans h₂).trans (h₃.trans h₄)).trans (h₅.trans h₆))
  have hbound : (m.world.strategy.bind Strategy.binding).map Binding.service = some "third" := by
    decide +kernel
  have hquiet :
      ((m.world.strategy.bind Strategy.reaction?).all fun r => r.steps.isEmpty) = true := by
    decide +kernel
  have hruns : (m.world.core? 1).map Refresher.running = some true := by decide +kernel
  have hrebinds : m.rebinds? = some ("other", "registry") := by decide +kernel
  have hbinds : m.job?.bind Job.binds? = some [⟨"10.0.0.1", .ofNat 80⟩] := by decide +kernel
  have hlogs : m.world.logs = true := by decide +kernel
  obtain ⟨b, hb, hservice⟩ := Option.map_eq_some_iff.mp hbound
  obtain ⟨s, hs, hsb⟩ := Option.bind_eq_some_iff.mp hb
  obtain ⟨r, hr, hrunning⟩ := Option.map_eq_some_iff.mp hruns
  obtain ⟨call, found, hjob⟩ := exists_of_rebinds? hrebinds
  have hlisted : listed found "other" = [⟨"10.0.0.1", .ofNat 80⟩] := by
    rw [hjob] at hbinds
    exact Option.some.inj hbinds
  obtain ⟨j, outcome, -, hj, -, hended, hcommits, -⟩ := hm.rebinding_commits hs
    (fun reaction hreaction => by
      rw [hs, Option.bind_some, hreaction] at hquiet
      exact List.isEmpty_iff.mp hquiet) hjob
  rw [hlisted] at hcommits
  cases hcommits.succeeds hlogs
  obtain ⟨s', hs', hfresh⟩ := hcommits.strategy
  refine ⟨m, s, b, r, hm, hs, hsb, hservice, hr, hrunning, hrebinds, j, call, s', hj, hended, hs',
    hfresh, ?_⟩
  exact (hcommits.polls 1 r hr hrunning).resolve_right fun hfailed => by
    obtain ⟨-, hnot, -⟩ := hfailed
    cases hlogs.symm.trans hnot

end Machine

end Session

end Balancer
