import Balancer.Proofs.Session.Sought

/-!
# Two ways to a strategy that follows a service

A strategy that follows a service from the beginning, and one that is made with no targets and then
bound to the service, cannot be told apart by anything that is done with them later. The second one
tells its listener of the list that its lookup returned, and the first one does not; so this holds
of listeners that, when they are told of it, leave the strategy alone.

* `Balancer.Session.Step.LeavesAlone` – **steps that leave alone a strategy that has just been
  bound.**
* `Balancer.Session.Machine.AllowedInBoth` – transitions in which no step is made on a strategy
  before it follows a service.
* `Balancer.Session.Leftover` – what the listener of the second session leaves behind.
* `Balancer.Session.Machine.Along` – **the two sessions side by side**, while the lookup has not
  ended, while the listener of the second one is called, and from then on.
* `Balancer.Session.Machine.Along.next`, `Balancer.Session.Machine.Along.next_right` – each of the
  sessions follows the other one.
* `Balancer.Session.Machine.founding_agrees_with_rebinding` – **the two ways lead to the same.**
-/

namespace Balancer.Session

/-! ### What the listener may do -/

/-- **A step that leaves alone a strategy that has just been bound**, and all else: wherever a
strategy does not poll and has no target out of service, the step only yields something. -/
def Step.LeavesAlone (step : Step) : Prop :=
  ∀ (w : World) (s : Strategy) (k : List Frame), w.strategy? = some s → s.refresher = none →
    s.rotation.failed = Table.empty → ∃ outcome, Machine.perform w k step = ⟨w, k, .deliver outcome⟩

/-- Whether a step only reads the strategy. -/
def Step.reads : Step → Bool
  | .targets | .failedTargets | .hasTargets | .weights | .failedWeights | .status | .inspect => true
  | _ => false

/-- What the listener does when it is called for the first time. -/
def Options.firstReaction (o : Options) : Reaction :=
  (o.listener.getD []).headD Reaction.default

/-! ### What the second session has seen besides -/

/-- Whether an event is none that a call of the listener leaves: no call and no late end of one, no
outcome of a step inside a script and no error that is logged. -/
def Event.lasting : Event → Bool
  | .notice _ | .listenerEnded _ | .nested _ => false
  | e => !e.isError

/-- **What has happened in the two sessions**: in the second one a listener has been called besides,
which has left its events, and nothing else. -/
structure Omits (told : List Notice) (past past' : Array Event) : Prop where
  /-- All that has happened in the first session has happened in the second one. -/
  sublist : past.toList.Sublist past'.toList
  /-- So has the converse, but for what calls of listeners leave. -/
  lasting : past'.toList.filter Event.lasting = past.toList.filter Event.lasting
  /-- The listener of the second session was told something first. -/
  notices : past'.toList.filterMap Event.notice? = told ++ past.toList.filterMap Event.notice?

/-- An error that is logged does not count. -/
theorem Event.lasting_of_isError {e : Event} (h : e.isError = true) :
    e.lasting = false ∧ e.notice? = none := by
  cases e with
  | log level message failure => exact ⟨congrArg (! ·) h, rfl⟩
  | console line => exact ⟨congrArg (! ·) h, rfl⟩
  | _ => cases h

theorem Omits.refl (past : Array Event) : Omits [] past past := ⟨List.Sublist.refl _, rfl, rfl⟩

/-- The same happens in both sessions. -/
theorem Omits.append {told : List Notice} {past past' : Array Event} (h : Omits told past past')
    (later : Array Event) : Omits told (past ++ later) (past' ++ later) where
  sublist := by
    rw [Array.toList_append, Array.toList_append]
    exact h.sublist.append (List.Sublist.refl _)
  lasting := by
    simp only [Array.toList_append, List.filter_append, h.lasting]
  notices := by
    simp only [Array.toList_append, List.filterMap_append, h.notices, List.append_assoc]

/-- A call of the listener leaves something in the second session. -/
theorem Omits.push {told : List Notice} {past past' : Array Event} (h : Omits told past past')
    {e : Event} (he : e.lasting = false) (hnotice : e.notice? = none) :
    Omits told past (past'.push e) where
  sublist := by
    rw [Array.toList_push]
    exact h.sublist.trans (List.sublist_append_left _ _)
  lasting := by
    rw [Array.toList_push, List.filter_append, List.filter_singleton, he]
    exact (List.append_nil _).trans h.lasting
  notices := by
    rw [Array.toList_push, List.filterMap_append, List.filterMap_cons, hnotice]
    exact (List.append_nil _).trans h.notices

/-- The listener of the second session is told something. -/
theorem omits_push_notice {past : Array Event} (hnone : past.toList.filterMap Event.notice? = [])
    (notice : Notice) : Omits [notice] past (past.push (.notice notice)) where
  sublist := by
    rw [Array.toList_push]
    exact List.sublist_append_left _ _
  lasting := by
    rw [Array.toList_push, List.filter_append]
    exact List.append_nil _
  notices := by
    rw [Array.toList_push, List.filterMap_append, hnone]
    rfl

/-- The same calls have ended in both sessions, with the same. -/
theorem Omits.endings {told : List Notice} {past past' : Array Event} (h : Omits told past past') :
    past'.toList.filterMap Event.ending? = past.toList.filterMap Event.ending? := by
  have hlasting : ∀ events : List Event,
      (events.filter Event.lasting).filterMap Event.ending? = events.filterMap Event.ending? := by
    intro events
    rw [List.filterMap_filter]
    refine congrArg (List.filterMap · events) (funext fun e => ?_)
    cases e with
    | log level message failure =>
      show (if _ then none else none) = none
      exact ite_self none
    | console line =>
      show (if _ then none else none) = none
      exact ite_self none
    | _ => rfl
  rw [← hlasting past'.toList, h.lasting, hlasting]

/-- **What the first call of the listener has left behind** in the second session. -/
inductive Leftover
  /-- Nothing. -/
  | nothing
  /-- A rejection that waits to be logged. -/
  | rejection (failure : Failure)
  /-- The call itself, which is left to a step. -/
  | call

/-- The work that is left behind. -/
def Leftover.jobs : Leftover → List Job
  | rejection failure => [.rejected failure]
  | nothing | call => []

/-- The calls that are left behind. -/
def Leftover.calls : Leftover → Nat
  | call => 1
  | nothing | rejection _ => 0

/-- **What waits and has happened before**, and what the listener of the second session has left
behind it. -/
def Backlog.behind (waits : List Job) (left : Leftover) (past : Array Event) : Backlog :=
  ⟨[], waits ++ left.jobs, past, left.calls⟩

/-- Something happens on top of what has happened before. -/
theorem World.emit_behind {x : World} (htrace : x.trace = #[]) (waits : List Job) (left : Leftover)
    (past : Array Event) (e : Event) :
    (x.atop (.behind waits left past)).emit e = x.atop (.behind waits left (past.push e)) := by
  simp only [World.emit, World.atop, Backlog.behind, htrace, Array.append_empty]

/-- The world without what has happened. -/
def World.unwritten (w : World) : World := { w with trace := #[] }

/-- The world in which a strategy has taken its first list, without what has happened. -/
def World.found (w : World) (s : Strategy) : World := { w.bare with strategy := some s }

theorem World.found_atop {w : World} (hlookups : w.lookups = []) (s : Strategy) :
    (w.found s).atop (.behind [] .nothing w.trace) = { w with jobs := [], strategy := some s } := by
  simp only [found, bare, atop, Backlog.behind, hlookups, List.append_nil, Array.append_empty]
  rfl

namespace Machine

variable {o : Options} {service provider : String} {told : List Notice} {w x : World}
  {s : Strategy} {k : List Frame} {m m' a b : Machine}

/-! ### Strategies that follow a service -/

/-- **The strategy is there, and follows a service.** -/
def IsBound (m : Machine) : Prop := ∃ service provider, m.BoundTo service provider

theorem Turn.isBound (h : Turn m m') (hm : m.IsBound) : m'.IsBound := by
  obtain ⟨service, provider, hbound⟩ := hm
  rcases h.boundTo_or hbound with hbound' | ⟨service', provider', -, hbound'⟩
  · exact ⟨_, _, hbound'⟩
  · exact ⟨_, _, hbound'⟩

/-- **The next transition is one that both sessions may make**: no step is made on a strategy before
it follows a service; and if the listener throws when it is told of the first list, its failure is
logged. -/
structure AllowedInBoth (o : Options) (m : Machine) : Prop where
  /-- Steps on the strategy. -/
  steps : ∀ step, m.control = .perform step → step.needsStrategy = true → m.IsBound
  /-- The log call for the listener. -/
  logs : ∀ failure, o.firstReaction.ending = .throws failure → m.rebinds?.isSome = true →
    m.IsBound ∨ m.world.logs = true

theorem IsBound.allowedInBoth (h : m.IsBound) : m.AllowedInBoth o :=
  ⟨fun _ _ _ => h, fun _ _ _ => .inl h⟩

/-- Before the strategy follows a service, no step may be made on it. -/
theorem allowedInBoth_iff_of_not_isBound (h : ¬ m.IsBound) :
    m.AllowedInBoth o ↔ (∀ step, m.control = .perform step → step.needsStrategy = false) ∧
      ∀ failure, o.firstReaction.ending = .throws failure → m.rebinds?.isSome = true →
        m.world.logs = true := by
  constructor
  · intro hallowed
    exact ⟨fun step hstep =>
        Bool.eq_false_iff.mpr fun hneeds => h (hallowed.steps step hstep hneeds),
      fun failure hthrows hbinds => (hallowed.logs failure hthrows hbinds).resolve_left h⟩
  · rintro ⟨hsteps, hlogs⟩
    refine ⟨fun step hstep hneeds => ?_, fun failure hthrows hbinds => .inr ?_⟩
    · cases (hsteps step hstep).symm.trans hneeds
    · exact hlogs failure hthrows hbinds

theorem Seeks.not_isBound (h : Seeks o service provider a b) : ¬ a.IsBound ∧ ¬ b.IsBound := by
  cases h with
  | @mk q w k c h hk =>
    constructor
    · rintro ⟨service', provider', s, b, hs, hbuilt, -⟩
      have hq := h.strategy.symm.trans hs
      cases q with
      | failed cause => cases hq
      | _ =>
        cases hq
        cases hbuilt
    · rintro ⟨service', provider', s, b, hs, -, hbinding, -⟩
      cases hs
      cases hbinding

/-- **While the lookup has returned no list, the same is allowed in both sessions.** -/
theorem Seeks.allowedInBoth_iff (h : Seeks o service provider a b) :
    a.AllowedInBoth o ↔ b.AllowedInBoth o := by
  obtain ⟨ha, hb⟩ := h.not_isBound
  rw [allowedInBoth_iff_of_not_isBound ha, allowedInBoth_iff_of_not_isBound hb]
  cases h with
  | @mk q w k c h hk =>
    have hbinds : rebinds? ⟨w.vacant o, k, c⟩ = rebinds? ⟨w, k, c⟩ := by
      rw [rebinds?, job?_vacant, rebinds?]
    rw [hbinds]
    exact Iff.rfl

/-! ### The call of the listener -/

/-- **The second session comes to a point** while its listener is called. -/
inductive Hears (goal : Machine) : Machine → Prop
  /-- It has come there. -/
  | refl : Hears goal goal
  /-- It goes on. -/
  | next {b : Machine} (bound : b.IsBound) (shows : b.shows? = none) (h : Hears goal b.next) :
      Hears goal b

/-- The call of the listener ends. -/
theorem exists_hears_ending (hbound : IsBound ⟨x, k, .deliver (.ok .nothing)⟩) (hjobs : x.jobs = [])
    (htrace : x.trace = #[]) {past past' : Array Event} (hpast : Omits told past past')
    {ending : Ending} (hlogs : ∀ failure, ending = .throws failure → x.logs = true) (call : Nat) :
    ∃ left past'', Omits told past past'' ∧
      Hears (done (x.atop (.behind [] left past'')) (.bound call none :: k))
        (done (x.atop (.behind [] .nothing past'))
          (.listener ending :: .bound call none :: k)) := by
  cases ending with
  | returns => exact ⟨.nothing, past', hpast, .next hbound rfl .refl⟩
  | pending => exact ⟨.nothing, past', hpast, .next hbound rfl .refl⟩
  | deferred => exact ⟨.call, past', hpast, .next hbound rfl .refl⟩
  | rejects failure =>
    have hwaits : (x.atop (.behind [] .nothing past')).enqueue (.rejected failure) =
        x.atop (.behind [] (.rejection failure) past') := by
      simp only [World.enqueue, World.atop, Backlog.behind, hjobs]
      rfl
    refine ⟨.rejection failure, past', hpast, .next hbound rfl ?_⟩
    show Hears _ (done ((x.atop (.behind [] .nothing past')).enqueue (.rejected failure)) _)
    rw [hwaits]
    exact .refl
  | throws failure =>
    obtain ⟨e, hlog, he⟩ := World.exists_log_error (w := x.atop (.behind [] .nothing past'))
      (hlogs failure rfl) listenerFailed (some failure)
    obtain ⟨hlasting, hnotice⟩ := Event.lasting_of_isError he
    refine ⟨.nothing, past'.push e, hpast.push hlasting hnotice, .next hbound rfl ?_⟩
    show Hears _
      (finish ((x.atop (.behind [] .nothing past')).log .error listenerFailed (some failure)) _)
    rw [hlog, World.emit_behind htrace]
    exact .refl

/-- **The listener is called, and leaves the strategy alone**: when its call has ended, the session
is where it was, with no more than events and what the call has left behind. -/
theorem exists_hears (hs : x.strategy? = some s) (hbound : IsBound ⟨x, k, .deliver (.ok .nothing)⟩)
    (hidle : s.refresher = none) (hfailed : s.rotation.failed = Table.empty) (hjobs : x.jobs = [])
    (htrace : x.trace = #[]) {past past' : Array Event} (hpast : Omits told past past')
    {steps : List Step} (hsteps : ∀ step ∈ steps, step.LeavesAlone) {ending : Ending}
    (hlogs : ∀ failure, ending = .throws failure → x.logs = true) (call : Nat) :
    ∃ left past'', Omits told past past'' ∧
      Hears (done (x.atop (.behind [] left past'')) (.bound call none :: k))
        (runScript (x.atop (.behind [] .nothing past'))
          (.listener ending :: .bound call none :: k) steps) := by
  induction steps generalizing past' with
  | nil => exact exists_hears_ending hbound hjobs htrace hpast hlogs call
  | cons step rest ih =>
    let k' : List Frame := .script rest :: .listener ending :: .bound call none :: k
    let w := x.atop (.behind [] .nothing past')
    obtain ⟨outcome, hperform⟩ := hsteps step List.mem_cons_self w s k' hs hidle hfailed
    obtain ⟨left, past'', homits, hhears⟩ := ih
      (hpast.push (e := .nested outcome) rfl rfl) fun step hstep =>
        hsteps step (List.mem_cons_of_mem _ hstep)
    have hnext : next (runScript w (.listener ending :: .bound call none :: k) (step :: rest)) =
        ⟨w, k', .deliver outcome⟩ := hperform
    refine ⟨left, past'', homits, .next hbound rfl ?_⟩
    rw [hnext]
    refine .next hbound rfl ?_
    -- the outcome of the step is noted, and the next one begins
    show Hears _ (runScript (w.emit (.nested outcome)) _ rest)
    rw [World.emit_behind htrace]
    exact hhears

/-! ### The two sessions side by side -/

/-- **What the listener of the second session has been told**: of the first list, if there is a
listener. -/
def Tells (o : Options) (service : String) (told : List Notice) : Prop :=
  told.map Notice.change = o.listener.toList.map fun _ => .reset service

/-- **Two sessions that go on with the same**: they differ in what has happened before, and in a
piece of work done last. -/
inductive Same (o : Options) (service : String) : Machine → Machine → Prop
  /-- Both are one machine on top of what has happened before. -/
  | mk {m b : Machine} {told : List Notice} {past past' : Array Event} (bound : m.IsBound)
      (wired : m.world.Wired) (omits : Omits told past past') (tells : Tells o service told)
      (h : b.rested = (m.atop (.behind [] .nothing past')).rested) :
      Same o service (m.atop (.behind [] .nothing past)) b

/-- **The two sessions side by side.** -/
inductive Along (o : Options) (service provider : String) : Machine → Machine → Prop
  /-- The lookup has returned no list. -/
  | seeking {a b : Machine} (h : Seeks o service provider a b) : Along o service provider a b
  /-- Both strategies have taken the list, and the listener of the second one is called. -/
  | told {w : World} {k : List Frame} {listing : Option Listing} {left : Leftover}
      {told : List Notice} {past : Array Event} {b : Machine}
      (h : w.Seeks o service provider (.answered (.ok listing))) (omits : Omits told w.trace past)
      (tells : Tells o service told)
      (hears : Hears (done ((w.found (founded o.heard service provider listing)).atop
        (.behind [] left past)) (.bound 1 none :: k)) b) :
      Along o service provider (done { w with
        jobs := []
        strategy := some { founded o.heard service provider listing with building := true } }
          (.bound 1 none :: k)) b
  /-- Both go on with the same, and the second one with what the listener has left behind. -/
  | leaving {m : Machine} {waits : List Job} {left : Leftover} {told : List Notice}
      {past past' : Array Event} (bound : m.IsBound) (wired : m.world.Wired)
      (omits : Omits told past past') (tells : Tells o service told) :
      Along o service provider (m.atop (.behind waits .nothing past))
        (m.atop (.behind waits left past'))
  /-- Both go on with the same. -/
  | same {a b : Machine} (h : Same o service a b) : Along o service provider a b

/-- The strategy follows the service as soon as it has taken its first list. -/
theorem isBound_founded (listing : Option Listing) {c : Control}
    (hs : x.strategy = some (founded o service provider listing)) : IsBound ⟨x, k, c⟩ := by
  have hbinding : (founded o service provider listing).binding =
      some ⟨service, provider, listed listing service⟩ := congrArg some (if_pos rfl)
  exact ⟨service, provider, _, _, hs, rfl, hbinding, rfl, rfl⟩

/-- **The list is taken, and the listener of the second session is called.** -/
theorem Along.found (h : Seeks o service provider a b) (hbinds : a.rebinds?.isSome = true)
    (hallowed : a.AllowedInBoth o) (hfirst : ∀ step ∈ o.firstReaction.steps, step.LeavesAlone) :
    Along o service provider a.next b.next := by
  obtain ⟨listing, k, hw, hnext, hnext'⟩ := h.exists_found hbinds
  have hnotices : a.world.trace.toList.filterMap Event.notice? = [] := hw.notices
  have hlogs := fun failure hthrows =>
    ((allowedInBoth_iff_of_not_isBound h.not_isBound.1).mp hallowed).2 failure hthrows hbinds
  rw [hnext, hnext']
  obtain ⟨delay, period, _ | reactions⟩ := o
  · -- nobody is told
    let s := founded ⟨delay, period, none⟩ service provider listing
    have hquiet : notify { a.world with jobs := [], strategy := some s } (.bound 1 none :: k)
        (.reset service) =
        done ((a.world.found s).atop (.behind [] .nothing a.world.trace)) (.bound 1 none :: k) := by
      rw [World.found_atop hw.lookups]
      rfl
    rw [hquiet]
    exact .told hw (.refl _) rfl .refl
  · let s := founded (Options.heard ⟨delay, period, some reactions⟩) service provider listing
    let notice : Notice := ⟨.reset service, s.rotation.targets, a.world.clock.floor⟩
    have hcalled : notify { a.world with
        jobs := []
        strategy := some (founded ⟨delay, period, some reactions⟩ service provider listing) }
          (.bound 1 none :: k) (.reset service) =
        runScript
          ((a.world.found s).atop (.behind [] .nothing (a.world.trace.push (.notice notice))))
          (.listener (reactions.headD Reaction.default).ending :: .bound 1 none :: k)
          (reactions.headD Reaction.default).steps := by
      rw [← World.emit_behind rfl, World.found_atop hw.lookups]
      rfl
    rw [hcalled]
    obtain ⟨left, past, homits, hhears⟩ := exists_hears (x := a.world.found s) (k := k) (s := s) rfl
      (isBound_founded listing rfl) rfl rfl rfl rfl (omits_push_notice hnotices notice) hfirst
      hlogs 1
    exact .told hw homits rfl hhears

/-! ### After the call -/

/-- **The call of the second session ends as that of the first one does.** -/
theorem Along.bound {listing : Option Listing} {left : Leftover} {past : Array Event}
    (h : w.Seeks o service provider (.answered (.ok listing))) (omits : Omits told w.trace past)
    (tells : Tells o service told) :
    Along o service provider
      (done { w with
        jobs := []
        strategy := some { founded o.heard service provider listing with building := true } }
          (.bound 1 none :: k)).next
      (done ((w.found (founded o.heard service provider listing)).atop (.behind [] left past))
        (.bound 1 none :: k)).next := by
  let s := founded o.heard service provider listing
  let m := done ((w.found s).endBinding 1 (.ok ())) k
  have hbound : m.IsBound := isBound_founded (o := o.heard) listing rfl
  have hwired : m.world.Wired := by
    intro n r hr
    have hnone : m.world.core? n = none := by
      refine World.core?_eq_none_iff.mpr ?_
      show w.refreshers.length ≤ n
      rw [h.refreshers]
      exact Nat.zero_le n
    cases hnone.symm.trans hr
  have hfirst : (done { w with jobs := [], strategy := some { s with building := true } }
      (.bound 1 none :: k)).next = m.atop (.behind [] .nothing w.trace) := by
    have hended := World.endBinding_atop (w.found s) (.behind [] .nothing w.trace) 1 (.ok ())
    rw [World.found_atop h.lookups] at hended
    exact congrArg (done · k) hended
  have hsecond : (done ((w.found s).atop (.behind [] left past)) (.bound 1 none :: k)).next =
      m.atop (.behind [] left past) :=
    next_atop (m := done (w.found s) (.bound 1 none :: k)) rfl (.inr rfl) (.inr rfl)
  rw [hfirst, hsecond]
  exact .leaving hbound hwired omits tells

/-- A log call for an error that may fail. -/
theorem log_error_cases (w : World) (message : String) (failure : Option Failure) :
    (w.log .error message failure).1 = w ∨
      ∃ e, (w.log .error message failure).1 = w.emit e ∧ e.isError = true := by
  cases hlogs : w.logs with
  | true =>
    obtain ⟨e, hlog, he⟩ := World.exists_log_error hlogs message failure
    exact .inr ⟨e, by rw [hlog], he⟩
  | false =>
    obtain ⟨reason, hlog⟩ := World.log_of_not_logs hlogs .error message failure
    exact .inl (by rw [hlog])

/-- What has happened in a world is put below it. -/
theorem atop_unwritten (w : World) (waits : List Job) (left : Leftover) (past : Array Event) :
    w.atop (.behind waits left past) =
      w.unwritten.atop (.behind waits left (past ++ w.trace)) := by
  simp only [World.unwritten, World.atop, Backlog.behind, Array.append_empty]

/-- **The rejection that waits is logged**, before any other work is done. -/
theorem same_log (failure : Failure) {past past' : Array Event} (bound : m.IsBound)
    (wired : m.world.Wired) (omits : Omits told past past') (tells : Tells o service told)
    (hworks : m.works = true) :
    Same o service (m.atop (.behind [] .nothing past))
      (m.atop (.behind [] (.rejection failure) past')).next := by
  let n : Machine := { m with world := m.world.unwritten }
  let b := m.atop (.behind [] (.rejection failure) past')
  have hjob : b.job? = some (.rejected failure) := job?_of_works hworks
  obtain ⟨jobs, hjobs, hnext⟩ := next_eq_work hjob
  obtain rfl : m.world.jobs = jobs := (List.cons.inj hjobs).2
  -- the log call leaves an event, or nothing
  have hlogged : ∃ past'', Omits told (past ++ m.world.trace) past'' ∧
      b.next = done (n.world.atop (.behind [] .nothing past'')) b.rested.stack := by
    have hwork : b.next = done ((m.world.atop (.behind [] .nothing past')).log .error listenerFailed
      (some failure)).1 b.rested.stack := hnext
    rw [hwork, atop_unwritten]
    rcases log_error_cases (n.world.atop (.behind [] .nothing (past' ++ m.world.trace)))
      listenerFailed (some failure) with hlog | ⟨e, hlog, he⟩
    · exact ⟨_, omits.append _, by rw [hlog]⟩
    · obtain ⟨hlasting, hnotice⟩ := Event.lasting_of_isError he
      exact ⟨_, (omits.append _).push hlasting hnotice, by rw [hlog, World.emit_behind rfl]⟩
  obtain ⟨past'', homits, hnext'⟩ := hlogged
  have hfirst : m.atop (.behind [] .nothing past) =
      n.atop (.behind [] .nothing (past ++ m.world.trace)) :=
    congrArg (fun w : World => ({ m with world := w } : Machine)) (atop_unwritten m.world _ _ past)
  rw [hfirst]
  refine .mk (m := n) bound wired homits tells ?_
  rw [hnext']
  exact rested_done (m := b) hworks _

/-- **Both make the same transition.** -/
theorem Same.next (h : Same o service a b) : Same o service a.next b.next := by
  cases h with
  | @mk m b told past past' bound wired omits tells h =>
    have hturn := turn_next wired
    have hnext : b.next = m.next.atop (.behind [] .nothing past') := by
      rw [← next_rested, h, next_rested, next_atop rfl (.inl rfl) (.inl rfl)]
    rw [hnext, next_atop rfl (.inl rfl) (.inl rfl)]
    exact .mk (hturn.isBound bound) (hturn.wired wired) omits tells rfl

/-- The same is allowed from then on. -/
theorem Same.allowedInBoth (h : Same o service a b) : a.AllowedInBoth o ∧ b.AllowedInBoth o := by
  cases h with
  | @mk m b told past past' bound wired omits tells h =>
    have hworld : b.world = m.world.atop (.behind [] .nothing past') := by
      rw [← world_rested, h, world_rested]
      rfl
    refine ⟨IsBound.allowedInBoth bound, IsBound.allowedInBoth ?_⟩
    obtain ⟨service, provider, s, c, hs⟩ := bound
    exact ⟨service, provider, s, c, hworld ▸ hs⟩

/-- **A piece of work that waited before is done in both sessions.** -/
theorem Along.work_leaving {job : Job} {waits : List Job} {left : Leftover}
    {past past' : Array Event} (bound : m.IsBound) (wired : m.world.Wired)
    (omits : Omits told past past') (tells : Tells o service told) (hworks : m.works = true) :
    Along o service provider (m.atop (.behind (job :: waits) .nothing past)).next
      (m.atop (.behind (job :: waits) left past')).next := by
  have hnext (left : Leftover) (past : Array Event) :
      (m.atop (.behind (job :: waits) left past)).next =
        (work m.world m.rested.stack job).atop (.behind waits left past) := by
    have hjob : (m.atop (.behind (job :: waits) left past)).job? = some job := job?_of_works hworks
    obtain ⟨jobs, hjobs, hnext⟩ := next_eq_work hjob
    obtain rfl : waits ++ left.jobs ++ m.world.jobs = jobs := (List.cons.inj hjobs).2
    rw [hnext, ← work_atop]
    exact congrArg (work _ · job) (stack_rested ..)
  -- the piece of work might as well be one of the session itself
  let n : Machine := { m with world := { m.world with jobs := job :: m.world.jobs } }
  have hturn : Turn n n.next := turn_next wired
  have hwork : n.next = work m.world m.rested.stack job := by
    obtain ⟨jobs, hjobs, hnext⟩ := next_eq_work (m := n) (job?_of_works hworks)
    obtain rfl : m.world.jobs = jobs := (List.cons.inj hjobs).2
    rw [hnext]
    exact congrArg (work _ · job) (stack_rested ..)
  rw [hwork] at hturn
  rw [hnext, hnext]
  exact .leaving (hturn.isBound bound) (hturn.wired wired) omits tells

/-- **A step ends the call that was left behind**, where the first session has none to end. -/
theorem Along.end_leaving {waits : List Job} {past past' : Array Event} {rejection : Option Failure}
    (bound : IsBound ⟨w, k, .perform (.settleListener rejection)⟩) (wired : w.Wired)
    (omits : Omits told past past') (tells : Tells o service told) (hnone : w.deferred = 0) :
    let m : Machine := ⟨w, k, .perform (.settleListener rejection)⟩
    Along o service provider (m.atop (.behind waits .nothing past)).next
      (m.atop (.behind waits .call past')).next := by
  intro m
  let outcome : Except Failure Unit := rejection.elim (.ok ()) .error
  let left : Leftover := rejection.elim .nothing .rejection
  -- what waits in the session is put below it, so that nothing comes after what is left behind
  let n : Machine := done { w.unwritten with jobs := [] } k
  have hperform (b : Backlog) : (m.atop b).next = settleListener (w.atop b) k outcome := by
    obtain ⟨_, _, s, _, hs, hbuilt, -⟩ := bound
    have hthere : (w.atop b).strategy? = some s :=
      Option.filter_eq_some_iff.mpr ⟨hs, (Bool.not_eq_true' _).mpr hbuilt⟩
    show perform (w.atop b) k (.settleListener rejection) = _
    simp only [perform, Step.drivesRefresher, Bool.false_eq_true, if_false, hthere,
      performStrategy]
    rfl
  have hfirst : (m.atop (.behind waits .nothing past)).next =
      n.atop (.behind (waits ++ w.jobs) .nothing (past ++ w.trace)) := by
    have hdeferred : (w.atop (.behind waits .nothing past)).deferred = 0 := hnone
    rw [hperform, settleListener, hdeferred]
    simp only [n, done, give, Machine.atop, World.unwritten, World.atop, Backlog.behind,
      Leftover.jobs, List.append_nil, Array.append_empty]
  have hsecond : (m.atop (.behind waits .call past')).next =
      n.atop (.behind (waits ++ w.jobs) left
        ((past' ++ w.trace).push (.listenerEnded outcome))) := by
    have hdeferred : (w.atop (.behind waits .call past')).deferred = 0 + 1 :=
      congrArg (· + 1) hnone
    rw [hperform, settleListener, hdeferred]
    cases rejection <;>
      simp only [n, left, outcome, Option.elim_none, Option.elim_some, done, give, Machine.atop,
        World.unwritten, World.enqueue, World.emit, World.atop, Backlog.behind, Leftover.jobs,
        Leftover.calls, List.append_nil, Array.append_empty, hnone]
  rw [hfirst, hsecond]
  exact .leaving (m := n) bound wired ((omits.append w.trace).push rfl rfl) tells

/-- **Both make the same transition**, unless the waiting work is done next and begins with a
rejection that is left behind. -/
theorem Along.next_leaving {waits : List Job} {left : Leftover} {past past' : Array Event}
    (bound : m.IsBound) (wired : m.world.Wired) (omits : Omits told past past')
    (tells : Tells o service told) (hidle : m.works = true → waits = [] → left.jobs = []) :
    Along o service provider (m.atop (.behind waits .nothing past)).next
      (m.atop (.behind waits left past')).next := by
  have hturn := turn_next wired
  have hboth (hjobs : waits ++ left.jobs = [] ∨ m.works = false)
      (hlate : left.calls = 0 ∨ m.endsNone = false) :
      Along o service provider (m.atop (.behind waits .nothing past)).next
        (m.atop (.behind waits left past')).next := by
    have hjobs' : waits ++ [] = [] ∨ m.works = false := hjobs.imp_left fun hnil => by
      rw [(List.append_eq_nil_iff.mp hnil).1, List.append_nil]
    rw [next_atop rfl hjobs' (.inl rfl), next_atop rfl hjobs hlate]
    exact .leaving (hturn.isBound bound) (hturn.wired wired) omits tells
  cases hworks : m.works with
  | true =>
    cases waits with
    | nil => exact hboth (.inl (hidle hworks rfl)) (.inr (endsNone_of_works hworks))
    | cons job waits => exact .work_leaving bound wired omits tells hworks
  | false =>
    cases hends : m.endsNone with
    | false => exact hboth (.inr hworks) (.inr hends)
    | true =>
      cases left with
      | nothing | rejection failure => exact hboth (.inr hworks) (.inl rfl)
      | call =>
        obtain ⟨rejection, hcontrol, hnone⟩ := exists_of_endsNone hends
        obtain ⟨w, k, c⟩ := m
        cases hcontrol
        exact .end_leaving bound wired omits tells hnone

/-- A rejection that is left behind is logged first, or both sessions make the same transition. -/
theorem leaving_cases (m : Machine) (waits : List Job) (left : Leftover) :
    (∃ failure, m.works = true ∧ waits = [] ∧ left = .rejection failure) ∨
      (m.works = true → waits = [] → left.jobs = []) := by
  cases left with
  | nothing | call => exact .inr fun _ _ => rfl
  | rejection failure =>
    by_cases h : m.works = true ∧ waits = []
    · exact .inl ⟨failure, h.1, h.2, rfl⟩
    · exact .inr fun hworks hnil => absurd ⟨hworks, hnil⟩ h

/-- Nothing stands in the way of the end of the call. -/
theorem allowedInBoth_bound (w : World) (k : List Frame) (call : Nat) (timings : Option Timings) :
    AllowedInBoth o (done w (.bound call timings :: k)) := by
  refine ⟨fun step hstep => ?_, fun failure _ hbinds => ?_⟩
  · cases hstep
  · cases hbinds

/-- **While the lookup has not ended, or returns its list, both make a transition.** -/
theorem Seeks.along_next (h : Seeks o service provider a b) (hallowed : a.AllowedInBoth o)
    (hfirst : ∀ step ∈ o.firstReaction.steps, step.LeavesAlone) :
    Along o service provider a.next b.next := by
  rcases hbinds : a.rebinds? with _ | bound
  · have hsteps := ((allowedInBoth_iff_of_not_isBound h.not_isBound.1).mp hallowed).1
    exact .seeking (h.next hsteps hbinds)
  · exact .found h (by rw [hbinds]; rfl) hallowed hfirst

/-- **A transition of the first session is followed in the second one.** -/
theorem Along.next {n : Machine} {seen : List (Machine × Input)} (h : Along o service provider a b)
    (hallowed : a.AllowedInBoth o) (hfirst : ∀ step ∈ o.firstReaction.steps, step.LeavesAlone)
    (hb : Played (AllowedInBoth o) n seen b) :
    ∃ b', Played (AllowedInBoth o) n seen b' ∧ Along o service provider a.next b' := by
  cases h with
  | seeking h => exact ⟨_, hb.next (h.allowedInBoth_iff.mp hallowed), h.along_next hallowed hfirst⟩
  | told h omits tells hears =>
    -- the call of the listener ends first
    generalize hgoal : done _ _ = goal at hears
    induction hears with
    | refl =>
      subst hgoal
      exact ⟨_, hb.next (allowedInBoth_bound ..), .bound h omits tells⟩
    | next bound shows hears ih => exact ih (hb.next bound.allowedInBoth)
  | @leaving m waits left told past past' bound wired omits tells =>
    have hb' := hb.next (IsBound.allowedInBoth bound)
    rcases leaving_cases m waits left with ⟨failure, hworks, rfl, rfl⟩ | hidle
    · -- the rejection is logged first
      have hsame := same_log failure bound wired omits tells hworks
      exact ⟨_, hb'.next hsame.allowedInBoth.2, .same hsame.next⟩
    · exact ⟨_, hb', .next_leaving bound wired omits tells hidle⟩
  | same h => exact ⟨_, hb.next h.allowedInBoth.2, .same h.next⟩

/-- **A transition of the second session is one of the first one**, or the first one waits. -/
theorem Along.next_right (h : Along o service provider a b) (hallowed : b.AllowedInBoth o)
    (hfirst : ∀ step ∈ o.firstReaction.steps, step.LeavesAlone) :
    Along o service provider a b.next ∨
      a.AllowedInBoth o ∧ Along o service provider a.next b.next := by
  cases h with
  | seeking h =>
    have hallowed' := h.allowedInBoth_iff.mpr hallowed
    exact .inr ⟨hallowed', h.along_next hallowed' hfirst⟩
  | told h omits tells hears =>
    cases hears with
    | refl => exact .inr ⟨allowedInBoth_bound .., .bound h omits tells⟩
    | next bound shows hears => exact .inl (.told h omits tells hears)
  | @leaving m waits left told past past' bound wired omits tells =>
    rcases leaving_cases m waits left with ⟨failure, hworks, rfl, rfl⟩ | hidle
    · exact .inl (.same (same_log failure bound wired omits tells hworks))
    · exact .inr ⟨IsBound.allowedInBoth bound, .next_leaving bound wired omits tells hidle⟩
  | same h => exact .inr ⟨h.allowedInBoth.1, .same h.next⟩

/-! ### What comes from outside -/

/-- Where something comes from outside, the strategy follows what it followed. -/
theorem Receives.keeps {input : Input} (h : Receives input m m') (bound : m.IsBound)
    (wired : m.world.Wired) : m'.IsBound ∧ m'.world.Wired := by
  cases h with
  | step | further => exact ⟨bound, wired⟩
  | timer w outcome ht =>
    have hturn := (Leads.fire w outcome ht).turn wired
    exact ⟨hturn.isBound bound, hturn.wired wired⟩

/-- While the listener of the second session is called, nothing comes from outside. -/
theorem Hears.shows {goal : Machine} (h : Hears goal b) (hgoal : goal.shows? = none) :
    b.shows? = none := by
  cases h with
  | refl => exact hgoal
  | next bound shows => exact shows

/-- **What comes from outside to the first session comes to the second one.** -/
theorem Along.receives (h : Along o service provider a b) {input : Input} {a' : Machine}
    (hreceives : Receives input a a') :
    ∃ b', Receives input b b' ∧ Along o service provider a' b' := by
  cases h with
  | seeking h =>
    obtain ⟨b', hb', h'⟩ := h.receives hreceives
    exact ⟨b', hb', .seeking h'⟩
  | told => cases hreceives.shows
  | leaving bound wired omits tells =>
    obtain ⟨m', hm', rfl⟩ := exists_receives_of_atop hreceives
    obtain ⟨bound', wired'⟩ := hm'.keeps bound wired
    exact ⟨_, hm'.atop _, .leaving bound' wired' omits tells⟩
  | same h =>
    cases h with
    | @mk m b told past past' bound wired omits tells h =>
      obtain ⟨m', hm', rfl⟩ := exists_receives_of_atop hreceives
      obtain ⟨bound', wired'⟩ := hm'.keeps bound wired
      refine ⟨m'.atop (.behind [] .nothing past'), ?_, .same (.mk bound' wired' omits tells rfl)⟩
      rw [← receives_rested, h, receives_rested]
      exact hm'.atop _

/-- **What comes from outside to the second session comes to the first one.** -/
theorem Along.receives_right (h : Along o service provider a b) {input : Input} {b' : Machine}
    (hreceives : Receives input b b') :
    ∃ a', Receives input a a' ∧ Along o service provider a' b' := by
  cases h with
  | seeking h =>
    obtain ⟨a', ha', h'⟩ := h.receives_right hreceives
    exact ⟨a', ha', .seeking h'⟩
  | told h omits tells hears =>
    have hshows := hreceives.shows
    rw [hears.shows rfl] at hshows
    cases hshows
  | leaving bound wired omits tells =>
    obtain ⟨m', hm', rfl⟩ := exists_receives_of_atop hreceives
    obtain ⟨bound', wired'⟩ := hm'.keeps bound wired
    exact ⟨_, hm'.atop _, .leaving bound' wired' omits tells⟩
  | same h =>
    cases h with
    | @mk m b told past past' bound wired omits tells h =>
      rw [← receives_rested, h, receives_rested] at hreceives
      obtain ⟨m', hm', rfl⟩ := exists_receives_of_atop hreceives
      obtain ⟨bound', wired'⟩ := hm'.keeps bound wired
      exact ⟨_, hm'.atop _, .same (.mk bound' wired' omits tells rfl)⟩

/-! ### What both sessions show -/

/-- **Two sessions that cannot be told apart.** While the first one has no strategy, that of the
second one has no targets and follows no service, and the listener of neither has been called; from
then on the strategies are the same in all. The worlds around them are the same; in the second one
the first call of the listener may be left to a step, or a rejection of it may wait, and this call
and what it has left have happened in addition. -/
structure Alike (o : Options) (service : String) (a b : Machine) : Prop where
  /-- The latest step has had the same outcome. -/
  shows : b.shows? = a.shows?
  /-- As much remains to be done. -/
  finished : b.finished = a.finished
  /-- The same calls have ended, with the same. -/
  endings : b.world.endings = a.world.endings
  /-- The strategies, and what their listeners have been told. -/
  strategies : a.world.strategy? = none ∧ b.world.strategy = some (.ofWeights o Table.empty) ∧
      b.world.notices = a.world.notices ∨
    a.IsBound ∧ b.world.strategy = a.world.strategy ∧
      ∃ told, Tells o service told ∧ b.world.notices = told ++ a.world.notices
  /-- Polling, the lookups, the clock and its timers, and all other parts of the worlds. -/
  around : ({ b.world with strategy := none, jobs := [], deferred := 0, trace := #[] } : World) =
    { a.world with strategy := none, jobs := [], deferred := 0, trace := #[] }
  /-- The work that waits, and the calls of the listener that are left to a step. -/
  left : ∃ (left : Leftover) (before after : List Job), a.world.jobs = before ++ after ∧
    b.world.jobs = before ++ left.jobs ++ after ∧
    b.world.deferred = a.world.deferred + left.calls
  /-- What has happened. -/
  trace : a.world.trace.toList.Sublist b.world.trace.toList ∧
    b.world.trace.toList.filter Event.lasting = a.world.trace.toList.filter Event.lasting

/-- A machine on top of what has happened in the one session, and in the other one. -/
theorem alike_atop {waits : List Job} {left : Leftover} {past past' : Array Event}
    (bound : m.IsBound) (omits : Omits told past past') (tells : Tells o service told) :
    Alike o service (m.atop (.behind waits .nothing past)) (m.atop (.behind waits left past')) := by
  have hpast := omits.append m.world.trace
  have hjobs : (m.world.atop (.behind waits .nothing past)).jobs = waits ++ m.world.jobs :=
    congrArg (· ++ m.world.jobs) (List.append_nil waits)
  exact ⟨rfl, finished_congr _ _ _ _, hpast.endings, .inr ⟨bound, rfl, told, tells, hpast.notices⟩,
    rfl, ⟨left, waits, m.world.jobs, hjobs, rfl, rfl⟩, hpast.sublist, hpast.lasting⟩

theorem Alike.congr {b' : Machine} (h : Alike o service a b) (hshows : b'.shows? = b.shows?)
    (hfinished : b'.finished = b.finished) (hworld : b'.world = b.world) :
    Alike o service a b' where
  shows := hshows.trans h.shows
  finished := hfinished.trans h.finished
  endings := hworld ▸ h.endings
  strategies := hworld ▸ h.strategies
  around := hworld ▸ h.around
  left := hworld ▸ h.left
  trace := hworld ▸ h.trace

theorem Seeks.alike (h : Seeks o service provider a b) : Alike o service a b := by
  cases h with
  | @mk q w k c h hk =>
    have hnone : w.strategy? = none := by
      rw [World.strategy?, h.strategy]
      cases q <;> rfl
    exact ⟨rfl, finished_congr _ _ _ _, rfl, .inl ⟨hnone, rfl, rfl⟩, rfl,
      ⟨.nothing, [], w.jobs, rfl, rfl, rfl⟩, List.Sublist.refl _, rfl⟩

/-- **The two sessions cannot be told apart**, except while the listener of the second one is
called, where neither of them shows anything. -/
theorem Along.alike (h : Along o service provider a b) :
    a.shows? = none ∧ b.shows? = none ∨ Alike o service a b := by
  cases h with
  | seeking h => exact .inr h.alike
  | told h omits tells hears => exact .inl ⟨rfl, hears.shows rfl⟩
  | leaving bound wired omits tells => exact .inr (alike_atop bound omits tells)
  | same h =>
    cases h with
    | @mk m b told past past' bound wired omits tells h =>
      obtain ⟨hshows, hfinished⟩ := shows?_rested b
      obtain ⟨hshows', hfinished'⟩ := shows?_rested (m.atop (.behind [] .nothing past'))
      refine .inr ((alike_atop bound omits tells).congr (hshows.symm.trans (h ▸ hshows'))
        (hfinished.symm.trans (h ▸ hfinished')) ?_)
      rw [← world_rested, h, world_rested]

theorem Along.alike_of_shows (h : Along o service provider a b)
    (hshows : a.shows?.isSome = true ∨ b.shows?.isSome = true) : Alike o service a b := by
  refine h.alike.resolve_left ?_
  rintro ⟨ha, hb⟩
  rw [ha, hb] at hshows
  exact hshows.elim (absurd · Bool.false_ne_true) (absurd · Bool.false_ne_true)

/-! ### Whole sessions -/

/-- **The second session follows**: it can be played in the same way, and shows the same along the
way. -/
theorem Played.follow {seen : List (Machine × Input)} (h : Played (AllowedInBoth o) m seen a)
    (hopen : Along o service provider m b)
    (hfirst : ∀ step ∈ o.firstReaction.steps, step.LeavesAlone) :
    ∃ seen' b', Played (AllowedInBoth o) b seen' b' ∧ Along o service provider a b' ∧
      List.Forall₂ (fun x y => y.2 = x.2 ∧ Alike o service x.1 y.1) seen seen' := by
  induction h with
  | refl => exact ⟨[], b, .refl, hopen, .nil⟩
  | next h allowed ih =>
    obtain ⟨seen', y, hy, halong, hpoints⟩ := ih
    obtain ⟨y', hy', halong'⟩ := halong.next allowed hfirst hy
    exact ⟨seen', y', hy', halong', hpoints⟩
  | @input seen x x' input h receives ih =>
    obtain ⟨seen', y, hy, halong, hpoints⟩ := ih
    obtain ⟨y', hreceives, halong'⟩ := halong.receives receives
    refine ⟨seen' ++ [(y, input)], y', hy.input hreceives, halong', List.rel_append hpoints ?_⟩
    exact .cons ⟨rfl, halong.alike_of_shows (.inl receives.shows)⟩ .nil

/-- **The first session follows** the second one. -/
theorem Played.lead {seen : List (Machine × Input)} (h : Played (AllowedInBoth o) m seen b)
    (hopen : Along o service provider a m)
    (hfirst : ∀ step ∈ o.firstReaction.steps, step.LeavesAlone) :
    ∃ seen' a', Played (AllowedInBoth o) a seen' a' ∧ Along o service provider a' b ∧
      List.Forall₂ (fun x y => y.2 = x.2 ∧ Alike o service y.1 x.1) seen seen' := by
  induction h with
  | refl => exact ⟨[], a, .refl, hopen, .nil⟩
  | next h allowed ih =>
    obtain ⟨seen', x, hx, halong, hpoints⟩ := ih
    rcases halong.next_right allowed hfirst with halong' | ⟨hallowed, halong'⟩
    · exact ⟨seen', x, hx, halong', hpoints⟩
    · exact ⟨seen', _, hx.next hallowed, halong', hpoints⟩
  | @input seen y y' input h receives ih =>
    obtain ⟨seen', x, hx, halong, hpoints⟩ := ih
    obtain ⟨x', hreceives, halong'⟩ := halong.receives_right receives
    refine ⟨seen' ++ [(x, input)], x', hx.input hreceives, halong', List.rel_append hpoints ?_⟩
    exact .cons ⟨rfl, halong.alike_of_shows (.inr receives.shows)⟩ .nil

/-! ### The first session -/

/-- **What the first session has done for its strategy**: it has made one lookup, for the service
alone, set no timer and called no listener. Its call has not ended while the strategy is building;
it has ended with the strategy, or as a call does whose lookup has failed, and without the
strategy. -/
structure Founding (service provider : String) (a : Machine) : Prop where
  /-- The lookup. -/
  sought : a.world.sought = [(provider, [service])]
  /-- No timer is set. -/
  timers : a.world.timers = []
  /-- The listener was not called. -/
  notices : a.world.notices = []
  /-- The call has not ended, or with the strategy, or as one does whose lookup has failed. -/
  endings : (∃ s, a.world.strategy = some s ∧ s.building = true) ∧ a.world.endings = [] ∨
    a.IsBound ∧ a.world.endings = [(1, .ok ())] ∨
    a.world.strategy = none ∧ ∃ cause, a.world.endings = [(1, .error (.ofLookup service cause))]

theorem Seeks.founding (h : Seeks o service provider a b) : Founding service provider a := by
  cases h with
  | @mk q w k c h hk =>
    refine ⟨h.sought, h.timers, h.notices, ?_⟩
    cases q with
    | failed cause => exact .inr (.inr ⟨h.strategy, cause, h.endings⟩)
    | _ => exact .inl ⟨⟨_, h.strategy, rfl⟩, h.endings⟩

/-- Where the list is taken, the call has not ended yet. -/
theorem founding_taken {listing : Option Listing}
    (h : w.Seeks o service provider (.answered (.ok listing))) :
    Founding service provider (done { w with
      jobs := []
      strategy := some { founded o.heard service provider listing with building := true } } k) :=
  ⟨h.sought, h.timers, h.notices, .inl ⟨⟨_, rfl, rfl⟩, h.endings⟩⟩

/-- Then it ends. -/
theorem founding_ended {listing : Option Listing}
    (h : w.Seeks o service provider (.answered (.ok listing))) :
    Founding service provider (done { w with
      jobs := []
      strategy := some { founded o.heard service provider listing with building := true } }
        (.bound 1 none :: k)).next := by
  obtain ⟨hended, hsought, hnotices⟩ := World.endings_endBinding { w with
    jobs := []
    strategy := some { founded o.heard service provider listing with building := true } } 1 (.ok ())
  refine ⟨hsought.trans h.sought, h.timers, hnotices.trans h.notices, .inr (.inl ⟨?_, ?_⟩)⟩
  · exact isBound_founded (o := o.heard) listing rfl
  · exact hended.trans (congrArg (· ++ [(1, Except.ok ())]) h.endings)

/-- **As long as the strategy of the first session is not there**, and when it comes to be there,
the session has done no more than look up the service. -/
theorem Along.founding (h : Along o service provider a b) (hnot : ¬ a.IsBound) :
    Founding service provider a ∧ (a.AllowedInBoth o → Founding service provider a.next) := by
  cases h with
  | seeking h =>
    refine ⟨h.founding, fun hallowed => ?_⟩
    rcases hbinds : a.rebinds? with _ | bound
    · have hsteps := ((allowedInBoth_iff_of_not_isBound h.not_isBound.1).mp hallowed).1
      exact (h.next hsteps hbinds).founding
    · obtain ⟨listing, k, hw, hnext, -⟩ := h.exists_found (by rw [hbinds]; rfl)
      rw [hnext]
      exact founding_taken hw
  | told h omits tells hears => exact ⟨founding_taken h, fun _ => founding_ended h⟩
  | leaving bound => exact absurd bound hnot
  | same h =>
    cases h with
    | mk bound => exact absurd bound hnot

/-! ### All sessions -/

end Machine

end Balancer.Session
