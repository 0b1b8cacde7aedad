import Balancer.Proofs.Session.Errands

/-!
# What cycles do

Every transition does at most one of three things to the cycles under way: one of them does what it
is to do next, or one more begins with its lookup, or all of them stay as they are. This file says
which of these the next transition does, and what is shown of it.

* `Balancer.Session.Errand.Does` – **the course of a cycle**, act by act.
* `Balancer.Session.Machine.acts` – **what a cycle of a refresher does with the next transition.**
* `Balancer.Session.Machine.Proceeds` – **what a transition makes of the cycles under way**;
  `Balancer.Session.Machine.Reachable.proceeds_next` says that every transition does one of the
  three.
* `Balancer.Session.Machine.Proceeds.only` – what it makes of the only cycle of a refresher.
-/

namespace Balancer.Session

/-- **What a cycle does, and how far it is then**, if it has not ended. -/
inductive Errand.Does (w : World) : Errand → List Act → Option Errand → Prop
  /-- Its lookup ends. -/
  | hears {n generation : Nat} {services : List String} (answer : Except Failure (Option Listing)) :
    Does w ⟨n, generation, .asking services⟩ [.heard answer]
      (some ⟨n, generation, .told services answer⟩)
  /-- Its lookup fails at once. -/
  | unheard {n generation : Nat} {services : List String} (origin : Origin) (failure : Failure) :
    Does w ⟨n, generation, .asking services⟩
      [.heard (.error failure), .ended origin (some failure)] none
  /-- It hands over the first list that has changed, in the generation that it began in. -/
  | hands {n generation : Nat} {remaining : List String} {latest : Listing} {r : Refresher}
      {change : Refresher.Change} (found : w.core? n = some r) (same : r.generation = generation)
      (first : r.nextChange? latest remaining = some change) :
    Does w ⟨n, generation, .comparing remaining latest⟩ [.handed change.service change.endpoints]
      (some ⟨n, generation, .handing change.remaining latest⟩)
  /-- It ends, since no list has changed or its generation is over. -/
  | ends {n generation : Nat} {remaining : List String} {latest : Listing} {r : Refresher}
      (origin : Origin) (found : w.core? n = some r)
      (unchanged : r.generation = generation → r.nextChange? latest remaining = none) :
    Does w ⟨n, generation, .comparing remaining latest⟩ [.ended origin none] none
  /-- The list that it handed over has been taken, or refused. -/
  | takes {n generation : Nat} {remaining : List String} {latest : Listing}
      (outcome : Except Failure Unit) :
    Does w ⟨n, generation, .handing remaining latest⟩ [.took outcome]
      (some ⟨n, generation, .after remaining latest outcome⟩)
  /-- The list is refused at once. -/
  | refuses {n generation : Nat} {remaining : List String} {latest : Listing} (origin : Origin)
      (failure : Failure) :
    Does w ⟨n, generation, .handing remaining latest⟩
      [.took (.error failure), .ended origin (some failure)] none
  /-- It ends with the failure of a collaborator. -/
  | fails {n generation : Nat} (origin : Origin) (failure : Failure) :
    Does w ⟨n, generation, .failing failure⟩ [.ended origin (some failure)] none

/-- A cycle stays with its refresher. -/
theorem Errand.Does.refresher_eq {w : World} {e e' : Errand} {acts : List Act}
    (h : e.Does w acts (some e')) : e'.refresher = e.refresher := by
  cases h <;> rfl

/-! ### What the next transition does -/

/-- What a cycle does that goes on comparing: it hands over a list, or ends. -/
def World.goesOn (w : World) (cycle : Cycle) : List Act :=
  match w.change? cycle with
  | some change => [.handed change.service change.endpoints]
  | none => [.ended cycle.origin none]

/-- What the cycle of a job does when the job is done, with its refresher. -/
def Job.deed? (w : World) : Job → Option (Nat × List Act)
  | .answered (.cycle refresher generation origin services) (.ok listing) =>
    some (refresher, w.goesOn ⟨refresher, generation, origin, services, listing.getD Table.empty⟩)
  | .answered (.cycle refresher _ origin _) (.error failure) =>
    some (refresher, [.ended origin (some failure)])
  | .taken cycle (.ok _) => some (cycle.refresher, w.goesOn cycle)
  | .taken cycle (.error failure) => some (cycle.refresher, [.ended cycle.origin (some failure)])
  | _ => none

/-- Who began the cycle that a lookup is made for; a call gets its number with the answer. -/
def Caller.origin (w : World) : Caller → Origin
  | .poll .. => .timer
  | _ => .call (w.callCount + 1)

/-- What the cycle of a lookup does when the lookup is answered. -/
def Answer.acts (w : World) (provider : String) (services : List String) (origin : Origin) :
    Answer → Option (List Act)
  | .settled settlement => some [.heard (Machine.settlementOf w provider services settlement)]
  | .throws failure => some [.heard (.error failure), .ended origin (some failure)]
  | .pending => none

/-- What a cycle does when the callback that it called ends. -/
def Ending.acts (origin : Origin) : Ending → Option (List Act)
  | .returns => some [.took (.ok ())]
  | .rejects failure => some [.took (.error failure)]
  | .throws failure => some [.took (.error failure), .ended origin (some failure)]
  | .pending | .deferred => none

/-- What a cycle does when something returns to its frame, with its refresher. -/
def Frame.deed? (w : World) (outcome : Outcome) : Frame → Option (Nat × List Act)
  | .lookup provider _ services caller answer =>
    caller.run?.bind fun run => (answer.acts w provider services (caller.origin w)).map (run.1, ·)
  | .callback _ cycle ending => (ending.acts cycle.origin).map (cycle.refresher, ·)
  | .taken cycle =>
    match outcome with
    | .ok _ => some (cycle.refresher, [.took (.ok ())])
    | .error failure =>
      some (cycle.refresher, [.took (.error failure), .ended cycle.origin (some failure)])
  | _ => none

/-- What a cycle does when a step ends its open lookup or callback, with its refresher. -/
def Step.deed? (w : World) : Step → Option (Nat × List Act)
  | .settle which settlement =>
    (Machine.pick? OpenLookup.number w.lookups which).bind fun l =>
      match l.waiter with
      | .binding .. => none
      | .cycle refresher .. =>
        some (refresher, [.heard (Machine.settlementOf w l.provider l.services settlement)])
  | .settleCallback which rejection =>
    (w.callback.filter fun _ => w.refreshers[0]?.isSome).bind fun c =>
      (Machine.pick? OpenCallback.number c.pending which).map fun o =>
        (o.cycle.refresher, [.took (rejection.elim (.ok ()) .error)])
  | _ => none

/-- **What a cycle does with the next transition**, with its refresher. -/
def Machine.deed? (m : Machine) : Option (Nat × List Act) :=
  match m.job? with
  | some job => job.deed? m.world
  | none =>
    match m.control, m.stack with
    | .perform step, _ => step.deed? m.world
    | .deliver outcome, f :: _ => f.deed? m.world outcome
    | .deliver _, [] => none

/-- **What a cycle of a refresher does with the next transition.** -/
def Machine.acts (number : Nat) (m : Machine) : List Act :=
  (m.deed?.filter fun d => d.1 == number).elim [] Prod.snd

/-- **What a call ends with whose cycle ends**, perhaps with a failure, where log calls go through.
The failure goes no further; but where it has no text, to form that fails, and so does the call. -/
def closing : Option Failure → Except Failure Unit
  | none => .ok ()
  | some failure => failure.reason.map fun _ => ()

/-- A failure is logged, where log calls go through, unless it has no text. -/
theorem World.logFailure_snd {w : World} (hlogs : w.logs = true) (failure : Failure) :
    (w.logFailure failure).2 = closing (some failure) := by
  rw [logFailure, closing]
  cases failure.reason with
  | ok reason =>
    obtain ⟨w', hlog⟩ := World.log_of_logs hlogs .warn
      ("Naming service refresh failed: " ++ reason) (some failure)
    dsimp only
    rw [hlog]
    rfl
  | error thrown => rfl

namespace Machine

variable {w w' : World} {k : List Frame} {c c' : Control}

/-! ### Acts of a cycle -/

/-- **A cycle does something**, while others are under way and certain events have been shown. -/
structure Deed (w : World) (e : Errand) (acts : List Act) (rest : Multiset Errand)
    (shown : List Event) (m : Machine) : Prop where
  /-- The cycle is under way after that, unless it has ended, and its warnings are shown. -/
  does : ∃ e', e.Does w acts e' ∧
    Carries (e'.toList + rest) (shown ++ acts.flatMap w.warning) m
  /-- A call that began it fails only where a failure has no text. -/
  ended : ∀ call failure, acts.getLast? = some (.ended (.call call) failure) →
    m.world.trace.back? = some (.ended call (closing failure))

variable {v : World} {e e' : Errand} {acts : List Act} {rest : Multiset Errand}
  {shown : List Event} {m m' : Machine}

/-- What a cycle does depends on its refresher, and on the log calls. -/
theorem Deed.congr (h : Deed w e acts rest shown m) (hcore : ∀ n, v.core? n = w.core? n)
    (hwarning : v.warning = w.warning) : Deed v e acts rest shown m := by
  obtain ⟨e', hdoes, hcarries⟩ := h.does
  refine ⟨⟨e', ?_, hwarning ▸ hcarries⟩, h.ended⟩
  cases hdoes with
  | hears answer => exact .hears answer
  | unheard origin failure => exact .unheard origin failure
  | hands found same first => exact .hands ((hcore _).trans found) same first
  | ends origin found unchanged => exact .ends origin ((hcore _).trans found) unchanged
  | takes outcome => exact .takes outcome
  | refuses origin failure => exact .refuses origin failure
  | fails origin failure => exact .fails origin failure

/-- A cycle goes on without a warning. -/
theorem Carries.deed {act : Act} (h : Carries ({e'} + rest) shown m)
    (hdoes : e.Does w [act] (some e')) (hsilent : w.warning act = [])
    (hgoes : ∀ origin failure, act ≠ .ended origin failure) : Deed w e [act] rest shown m where
  does := by
    refine ⟨some e', hdoes, ?_⟩
    rwa [List.flatMap_singleton, hsilent, List.append_nil]
  ended call failure hlast := absurd (Option.some.inj hlast) (hgoes _ _)

theorem back?_endCycle (w : World) (n call : Nat) (outcome : Except Failure Unit) :
    (w.endCycle n (.call call) outcome).trace.back? = some (.ended call outcome) :=
  Array.back?_push

/-- **A cycle ends with a failure**, after acts that are not logged. -/
theorem Carries.deed_failCycle (h : Carries rest shown ⟨w, k, c⟩) (hlogs : w.logs = true)
    (before : List Act) {origin : Origin} {failure : Failure}
    (hdoes : e.Does w (before ++ [.ended origin (some failure)]) none)
    (hsilent : before.flatMap w.warning = []) (n : Nat) :
    Deed w e (before ++ [.ended origin (some failure)]) rest shown
      ⟨w.failCycle n origin failure, k, c'⟩ where
  does := by
    refine ⟨none, hdoes, ?_⟩
    rw [List.flatMap_append, hsilent, List.nil_append, List.flatMap_singleton]
    have hfailed := h.failCycle n origin failure
    simpa only [Option.toList_none, Multiset.coe_nil, zero_add] using hfailed.control
  ended call failure' hlast := by
    rw [List.getLast?_concat, Option.some.injEq, Act.ended.injEq] at hlast
    obtain ⟨rfl, rfl⟩ := hlast
    rw [← World.logFailure_snd hlogs failure]
    exact back?_endCycle _ n call _

/-- The handler has taken a list, or refused it later, and the cycle is to hear of it. -/
theorem Carries.deed_taken (h : Carries rest shown ⟨w, k, c⟩) (cycle : Cycle)
    (taken : Except Failure Unit) :
    Deed w cycle.handing [.took taken] rest shown ⟨w.enqueue (.taken cycle taken), k, c'⟩ :=
  Carries.deed (h.enqueue (.taken cycle taken)).control (.takes taken) rfl (by simp)

/-- The handler has refused a list at once, and the cycle ends. -/
theorem Carries.deed_refused (h : Carries rest shown ⟨w, k, c⟩) (hlogs : w.logs = true)
    (cycle : Cycle) (failure : Failure) :
    Deed w cycle.handing [.took (.error failure), .ended cycle.origin (some failure)] rest shown
      ⟨w.failCycle cycle.refresher cycle.origin failure, k, c'⟩ :=
  h.deed_failCycle hlogs [.took _] (.refuses cycle.origin failure) rfl cycle.refresher

/-- **A cycle goes on comparing**: it hands over the first list that has changed, or ends. -/
theorem Carries.deed_goOn (h : Carries rest shown ⟨w, k, c⟩) (hlogs : w.logs = true)
    (hwired : w.Wired) {cycle : Cycle} (hthere : w.refreshers[cycle.refresher]?.isSome = true) :
    Deed w (cycle.after (.ok ())) (w.goesOn cycle) rest shown (goOn w k cycle) := by
  obtain ⟨r, hr⟩ := Option.isSome_iff_exists.mp hthere
  have hcore := World.core?_of_getElem? hr
  rcases hchange : w.change? cycle with _ | change
  · have hacts : w.goesOn cycle = [.ended cycle.origin none] := by rw [World.goesOn, hchange]
    -- the generation is over, or no list has changed
    have hunchanged : r.generation = cycle.generation →
        r.nextChange? cycle.latest cycle.remaining = none := fun hsame => by
      rw [World.change?, hr, Option.bind_some, if_pos ⟨hsame, hlogs⟩] at hchange
      exact hchange
    have hends : goOn w k cycle = done (w.endCycle cycle.refresher cycle.origin (.ok ())) k := by
      by_cases hsame : r.generation = cycle.generation
      · exact goOn_of_unchanged hr hsame (hunchanged hsame)
      · simp only [goOn, hr, ne_eq, hsame, not_false_eq_true, if_true]
    rw [hacts, hends]
    constructor
    · refine ⟨none, .ends _ hcore fun hsame => ?_, ?_⟩
      · exact (r.nextChange?_core _ _).trans (hunchanged hsame)
      · have hended := h.endCycle cycle.refresher cycle.origin (.ok ())
        rw [done, give]
        simpa only [World.warning, List.flatMap_cons, List.flatMap_nil, List.append_nil,
          Option.toList_none, Multiset.coe_nil, zero_add] using hended.control
    · intro call failure hlast
      rw [List.getLast?_singleton, Option.some.injEq, Act.ended.injEq] at hlast
      obtain ⟨horigin, rfl⟩ := hlast
      rw [horigin]
      exact back?_endCycle w cycle.refresher call (.ok ())
  · have hacts : w.goesOn cycle = [.handed change.service change.endpoints] := by
      rw [World.goesOn, hchange]
    obtain ⟨r', hr', hsame, -, hfirst⟩ := World.change?_eq_some.mp hchange
    cases hr.symm.trans hr'
    rw [hacts, goOn_of_changed hr hsame hfirst]
    constructor
    · refine ⟨_, .hands hcore hsame ((r.nextChange?_core _ _).trans hfirst), ?_⟩
      rw [List.flatMap_singleton]
      exact h.applyChange hlogs (fun hcallback => (hwired _ _ hcore hcallback).2) cycle change
    · exact fun call failure hlast => absurd hlast (by simp)

/-! ### Transitions -/

/-- **What a transition makes of the cycles under way**, and of what is shown of them. -/
inductive Proceeds (m m' : Machine) : Option (Nat × List Act) → Prop
  /-- All of them stay as they are. -/
  | stays (same : Carries m.errands m.world.shown m') : Proceeds m m' none
  /-- A cycle of a refresher that runs begins with its lookup. -/
  | begins {n number : Nat} {r : Refresher} {provider : String} {caller : Caller}
      (found : m.world.core? n = some r) (running : r.running = true)
      (asks : r.provider = some provider) (run : caller.run? = some (n, r.generation))
      (begun : Carries ({⟨n, r.generation, .asking r.snapshot.keys⟩} + m.errands)
        (m.world.shown ++ [.lookup provider number r.snapshot.keys caller]) m') : Proceeds m m' none
  /-- One of them does something. -/
  | does {e : Errand} {acts : List Act} {rest : Multiset Errand}
      (before : (m.errands : Multiset Errand) = {e} + rest)
      (deed : Deed m.world e acts rest m.world.shown m') : Proceeds m m' (some (e.refresher, acts))

/-! ### Beginning -/

/-- **A cycle begins with its lookup**, if the refresher runs. -/
theorem Carries.proceeds_beginCycle (h : Carries m.errands m.world.shown ⟨w, k, c⟩)
    (hcore : ∀ n, w.core? n = m.world.core? n) (n : Nat) (timed : Bool) :
    Proceeds m (beginCycle w k n timed) none := by
  rw [beginCycle]
  split
  · exact .stays h.control
  · next r hr =>
    split
    · next provider hrunning hprovider =>
      have hfound := (hcore n).symm.trans (World.core?_of_getElem? hr)
      cases timed with
      | true =>
        exact .begins hfound hrunning hprovider rfl (h.lookup provider _ (.poll n r.generation))
      | false =>
        exact .begins hfound hrunning hprovider rfl (h.lookup provider _ (.refresh n r.generation))
    · refine .stays ?_
      rw [skipCycle]
      split
      · exact (h.endCycle n .timer (.ok ())).control
      · have hcounted : Carries m.errands m.world.shown
            ⟨{ w with callCount := w.callCount + 1 }, k, c⟩ := h.aside ⟨rfl, rfl, rfl, rfl⟩
        exact (hcounted.endCycle n (.call _) (.ok ())).control

/-- **A timer fires**, and begins a cycle unless one is in flight. -/
theorem Carries.proceeds_fire (h : Carries m.errands m.world.shown ⟨m.world, k, c⟩) (t : Timer) :
    Proceeds m (fire m.world k t) none := by
  have hreached : Carries m.errands m.world.shown ⟨m.world.reach t, k, c⟩ :=
    h.aside ⟨rfl, rfl, rfl, rfl⟩
  have htick : ∀ {w : World} {k : List Frame} (n : Nat),
      Carries m.errands m.world.shown ⟨w, k, c⟩ → (∀ i, w.core? i = m.world.core? i) →
      Proceeds m (tick w k n) none := by
    intro w k n hw hcore
    rw [tick]
    split
    · exact .stays hw.control
    · split
      · exact .stays hw.control
      · refine (hw.modifyRefresher n _).proceeds_beginCycle (fun i => ?_) n true
        exact (w.core?_modifyRefresher_of_core (f := fun r => { r with inFlight := true })
          (fun _ => rfl) n i).trans (hcore i)
  unfold fire
  dsimp only
  split
  · next n _ =>
    refine htick n ((hreached.modifyRefresher n _).push_idle (f := .arm n) rfl) fun i => ?_
    exact (m.world.reach t).core?_modifyRefresher_of_core
      (f := fun r => { r with delayTimer := none }) (fun _ => rfl) n i
  · next n _ => exact htick n hreached fun _ => rfl
  · exact .stays hreached.control

/-! ### Waiting work -/

/-- Where a piece of work waits to be done next, the transition does it. -/
theorem exists_carries_work {job : Job} (hjob : m.job? = some job) :
    ∃ jobs k rest, (m.errands : Multiset Errand) = job.errands + rest ∧
      Carries rest m.world.shown ⟨{ m.world with jobs := jobs }, k, m.control⟩ ∧
      m.next = work { m.world with jobs := jobs } k job := by
  have htaken : ∀ {w : World} {k : List Frame} {jobs : List Job} (c : Control),
      w.jobs = job :: jobs → ((⟨w, k, c⟩ : Machine).errands : Multiset Errand) =
        job.errands + (⟨{ w with jobs := jobs }, k, c⟩ : Machine).errands := by
    intro w k jobs c hjobs
    rw [coe_errands, coe_errands_dequeue hjobs, coe_errands]
    abel
  obtain ⟨w, k, c⟩ := m
  unfold job? at hjob
  split at hjob
  · next w first k outcome heq =>
    cases heq
    obtain ⟨jobs, hjobs⟩ := List.head?_eq_some_iff.mp hjob
    refine ⟨jobs, .settle (some (first.getD outcome)) :: k, _, htaken _ hjobs, ⟨rfl, rfl⟩, ?_⟩
    simp only [next, Machine.resume, hjobs]
  · next w time k outcome heq =>
    cases heq
    obtain ⟨jobs, hjobs⟩ := List.head?_eq_some_iff.mp hjob
    refine ⟨jobs, .advance time true :: k, _, htaken _ hjobs, .refl _, ?_⟩
    simp only [next, Machine.resume, hjobs]
  · exact absurd hjob (by simp)

/-- **A piece of waiting work is done.** -/
theorem proceeds_work (hlogs : m.world.logs = true) (hbacked : m.Backed) (hwired : m.world.Wired)
    {job : Job} (hjob : m.job? = some job) : Proceeds m m.next (job.deed? m.world) := by
  have hthere : ∀ {t}, job.suspended? = some t → m.world.refreshers[t.refresher]?.isSome = true :=
    fun ht => hbacked.isSome_of_holds (holds_of_job hjob ht)
  obtain ⟨jobs, k, rest, hbefore, hcarries, hnext⟩ := exists_carries_work hjob
  rw [hnext]
  -- what the cycle does it does with the job gone from the queue
  have hdeed : ∀ {e : Errand} {acts : List Act} {m' : Machine},
      (m.errands : Multiset Errand) = {e} + rest →
      Deed { m.world with jobs := jobs } e acts rest m.world.shown m' →
      Proceeds m m' (some (e.refresher, acts)) :=
    fun hbefore hdeed => .does hbefore (hdeed.congr (fun _ => rfl) rfl)
  have hidle : job.errands = [] →
      Carries m.errands m.world.shown ⟨{ m.world with jobs := jobs }, k, m.control⟩ :=
      fun hnone => by
    rw [hbefore, hnone, Multiset.coe_nil, zero_add]
    exact hcarries
  unfold work
  split
  · exact .stays ((hidle rfl).endBinding _ _).control
  · refine .stays ?_
    exact (((hidle rfl).stopPolling.modifyStrategy _).push_idle (f := .bound _ _) rfl).reset _ _
  · next refresher generation origin services failure =>
    exact hdeed (e := ⟨refresher, generation, .failing failure⟩) hbefore
      (hcarries.deed_failCycle hlogs [] (.fails origin failure) rfl refresher)
  · exact hdeed (e := Cycle.after ⟨_, _, _, _, _⟩ (.ok ())) hbefore
      (hcarries.deed_goOn hlogs hwired (hthere rfl))
  · next cycle _ =>
    exact hdeed (e := cycle.after (.ok ())) hbefore (hcarries.deed_goOn hlogs hwired (hthere rfl))
  · next cycle failure =>
    exact hdeed (e := cycle.after (.error failure)) hbefore
      (hcarries.deed_failCycle hlogs [] (.fails cycle.origin failure) rfl cycle.refresher)
  · exact .stays ((hidle rfl).log_hidden (by simp) _ _).control
  · exact .stays ((hidle rfl).modifyRefresher _ _).control

/-! ### Resuming -/

/-- A lookup that binds the strategy is answered, which no cycle hears of. -/
theorem Carries.answer_binding {es : Multiset Errand} (h : Carries es shown ⟨w, k, c⟩)
    (provider : String) (number : Nat) (services : List String) (service : String)
    (reply : Answer) :
    Carries es shown (answer w k provider number services (.binding service) reply) := by
  have hcounted : Carries es shown ⟨{ w with callCount := w.callCount + 1 }, k, c⟩ :=
    h.aside ⟨rfl, rfl, rfl, rfl⟩
  unfold Machine.answer
  cases reply with
  | settled settlement =>
    exact (hcounted.enqueue_idle (.answered (.binding _ service provider) _) rfl).control
  | throws failure => exact (hcounted.endBinding _ _).control
  | pending =>
    exact (hcounted.openLookup_idle (l := ⟨number, provider, services, .binding _ _ _⟩) rfl).control

/-- **The lookup of a cycle is answered**, and the cycle hears of it unless the lookup stays
open. -/
theorem Carries.proceeds_answer (h : Carries rest m.world.shown ⟨m.world, k, c⟩)
    (hlogs : m.world.logs = true) {provider : String} {number : Nat} {services : List String}
    {caller : Caller} {run : Nat × Nat} (hrun : caller.run? = some run) (reply : Answer)
    (hbefore : (m.errands : Multiset Errand) = {⟨run.1, run.2, .asking services⟩} + rest) :
    Proceeds m (answer m.world k provider number services caller reply)
      ((reply.acts m.world provider services (caller.origin m.world)).map (run.1, ·)) := by
  have hcounted : Carries rest m.world.shown
      ⟨{ m.world with callCount := m.world.callCount + 1 }, k, c⟩ := h.aside ⟨rfl, rfl, rfl, rfl⟩
  -- what the cycle does it does with the call counted
  have hdeed : ∀ {w : World} {acts : List Act} {m' : Machine}, (∀ n, m.world.core? n = w.core? n) →
      m.world.warning = w.warning →
      Deed w ⟨run.1, run.2, .asking services⟩ acts rest m.world.shown m' →
      Proceeds m m' (some (run.1, acts)) :=
    fun hcore hwarning hdeed => .does hbefore (hdeed.congr hcore hwarning)
  unfold Machine.answer
  cases caller with
  | binding service => cases hrun
  | poll n generation =>
    cases hrun
    cases reply with
    | settled settlement =>
      refine hdeed (fun _ => rfl) rfl (Carries.deed (w := m.world) ?_ (.hears _) rfl (by simp))
      exact (h.enqueue (.answered (.cycle n generation .timer services) _)).control
    | throws failure =>
      exact hdeed (fun _ => rfl) rfl
        (h.deed_failCycle hlogs [.heard _] (.unheard .timer failure) rfl n)
    | pending =>
      refine .stays ?_
      rw [hbefore]
      exact (h.openLookup ⟨number, provider, services, .cycle n generation .timer services⟩).control
  | refresh n generation =>
    cases hrun
    cases reply with
    | settled settlement =>
      refine hdeed (fun _ => rfl) rfl (Carries.deed (w := m.world) ?_ (.hears _) rfl (by simp))
      exact (hcounted.enqueue (.answered (.cycle n generation (.call _) services) _)).control
    | throws failure =>
      exact hdeed (w := { m.world with callCount := m.world.callCount + 1 }) (fun _ => rfl) rfl
        (hcounted.deed_failCycle hlogs [.heard _] (.unheard (.call _) failure) rfl n)
    | pending =>
      refine .stays ?_
      rw [hbefore]
      exact (hcounted.openLookup
        ⟨number, provider, services, .cycle n generation (.call _) services⟩).control

/-- The cycles under way are those of the frame at the top, and all others. -/
theorem coe_errands_push (w : World) (f : Frame) (k : List Frame) (c : Control) :
    ((⟨w, f :: k, c⟩ : Machine).errands : Multiset Errand) =
      f.errands + (⟨w, k, c⟩ : Machine).errands := by
  rw [errands_push, Multiset.coe_add]

/-- A frame without a cycle is left. -/
theorem Carries.pop {f : Frame} (hf : f.errands = []) (w : World) (k : List Frame) (c : Control) :
    Carries (⟨w, f :: k, c⟩ : Machine).errands w.shown ⟨w, k, c⟩ := by
  rw [coe_errands_push, hf, Multiset.coe_nil, zero_add]
  exact .refl _

section Frames

variable {es : Multiset Errand} {outcome : Outcome}

/-- A call of the listener ends. -/
theorem Carries.resume_listener (h : Carries es shown ⟨w, k, c⟩) (ending : Ending) :
    Carries es shown (resume w k outcome (.listener ending)) := by
  cases ending with
  | returns | pending => exact h.control
  | deferred => exact Carries.control (c := c) (h.aside ⟨rfl, rfl, rfl, rfl⟩)
  | throws failure => exact (h.log_hidden (by simp) _ _).control
  | rejects failure => exact (h.enqueue_idle (.rejected failure) rfl).control

/-- The strategy has been bound. -/
theorem Carries.resume_bound (h : Carries es shown ⟨w, k, c⟩) (call : Nat)
    (timings : Option Timings) : Carries es shown (resume w k outcome (.bound call timings)) := by
  cases outcome with
  | error failure => exact (h.endBinding _ _).control
  | ok result =>
    cases timings with
    | none => exact (h.endBinding _ _).control
    | some timings =>
      exact ((h.startPolling (some timings.delay) (some timings.period)).endBinding call _).control

/-- The later polls of a refresher begin. -/
theorem Carries.resume_arm (h : Carries es shown ⟨w, k, c⟩) (refresher : Nat) :
    Carries es shown (resume w k outcome (.arm refresher)) := by
  rw [Machine.resume, World.armPeriod]
  dsimp only
  split
  · exact h.control
  · exact Carries.control (c := c) (h.aside ⟨rfl, rfl, rfl, rfl⟩)

/-- The step of a settled machine is over. -/
theorem Carries.resume_settle (h : Carries es shown ⟨w, k, c⟩) {first : Option Outcome}
    (hjob : job? ⟨w, .settle first :: k, .deliver outcome⟩ = none) :
    Carries es shown (resume w k outcome (.settle first)) := by
  rw [Machine.resume_settle hjob]
  exact h.control

/-- A lookup is answered. -/
theorem proceeds_resume_lookup (hlogs : w.logs = true) (provider : String) (number : Nat)
    (services : List String) (caller : Caller) (reply : Answer) :
    let f : Frame := .lookup provider number services caller reply
    Proceeds ⟨w, f :: k, .deliver outcome⟩ (resume w k outcome f) (f.deed? w outcome) := by
  let f : Frame := .lookup provider number services caller reply
  rcases hrun : caller.run? with _ | run
  · cases caller with
    | binding service =>
      exact .stays ((Carries.pop (f := f) rfl w k (.deliver outcome)).answer_binding provider number
        services service reply)
    | _ => cases hrun
  · have hdeed : f.deed? w outcome =
        (reply.acts w provider services (caller.origin w)).map (run.1, ·) := by
      rw [Frame.deed?, hrun, Option.bind_some]
    show Proceeds _ _ (f.deed? w outcome)
    rw [hdeed]
    have hpopped := Carries.refl ⟨w, k, .deliver outcome⟩
    refine Carries.proceeds_answer (m := ⟨w, f :: k, .deliver outcome⟩) hpopped hlogs hrun reply ?_
    rw [coe_errands_push, Frame.errands, Caller.errands, hrun]
    rfl

/-- A call of the callback ends, and its cycle hears of it unless the call stays open. -/
theorem proceeds_resume_callback (hlogs : w.logs = true) (hthere : w.callback ≠ none) (number : Nat)
    (cycle : Cycle) (ending : Ending) :
    let f : Frame := .callback number cycle ending
    Proceeds ⟨w, f :: k, .deliver outcome⟩ (resume w k outcome f) (f.deed? w outcome) := by
  have hbefore := coe_errands_push w (.callback number cycle ending) k (.deliver outcome)
  have hpopped := Carries.refl ⟨w, k, .deliver outcome⟩
  cases ending with
  | returns => exact .does hbefore (hpopped.deed_taken cycle (.ok ()))
  | rejects failure => exact .does hbefore (hpopped.deed_taken cycle (.error failure))
  | throws failure => exact .does hbefore (hpopped.deed_refused hlogs cycle failure)
  | pending | deferred =>
    obtain ⟨b, hb⟩ := Option.ne_none_iff_exists'.mp hthere
    refine .stays ?_
    rw [hbefore]
    exact (hpopped.openCallback hb ⟨number, cycle⟩).control

/-- The strategy has taken a list, or refused it, and its cycle hears of it. -/
theorem proceeds_resume_taken (hlogs : w.logs = true) (cycle : Cycle) :
    Proceeds ⟨w, .taken cycle :: k, .deliver outcome⟩ (resume w k outcome (.taken cycle))
      ((Frame.taken cycle).deed? w outcome) := by
  have hbefore := coe_errands_push w (.taken cycle) k (.deliver outcome)
  have hpopped := Carries.refl ⟨w, k, .deliver outcome⟩
  cases outcome with
  | ok result => exact .does hbefore (hpopped.deed_taken cycle (.ok ()))
  | error failure => exact .does hbefore (hpopped.deed_refused hlogs cycle failure)

/-- Time passes, where no work waits: the next timer fires, or the end has come. -/
theorem proceeds_resume_advance {time : Binary64} {settling : Bool}
    (hjob : job? ⟨w, .advance time settling :: k, .deliver outcome⟩ = none) :
    Proceeds ⟨w, .advance time settling :: k, .deliver outcome⟩
      (resume w k outcome (.advance time settling)) none := by
  rw [resume_advance (not_waits_of_job? hjob)]
  split
  · next t _ =>
    exact Carries.proceeds_fire (m := ⟨w, .advance time settling :: k, .deliver outcome⟩) (.refl _) t
  · exact .stays (Carries.control (c := .deliver outcome)
      ((Carries.pop rfl w k _).aside ⟨rfl, rfl, rfl, rfl⟩))

/-- **What returned is taken up**, where no work waits to be done first. -/
theorem proceeds_resume {f : Frame} (hlogs : w.logs = true)
    (hwired : ∀ number cycle ending, f = .callback number cycle ending → w.callback ≠ none)
    (hjob : job? ⟨w, f :: k, .deliver outcome⟩ = none) :
    Proceeds ⟨w, f :: k, .deliver outcome⟩ (resume w k outcome f) (f.deed? w outcome) := by
  cases f with
  | script rest =>
    exact .stays (((Carries.pop rfl w k _).emit_hidden (e := .nested outcome) rfl).runScript rest)
  | listener ending => exact .stays ((Carries.pop rfl w k _).resume_listener ending)
  | lookup => exact proceeds_resume_lookup hlogs _ _ _ _ _
  | callback => exact proceeds_resume_callback hlogs (hwired _ _ _ rfl) _ _ _
  | taken => exact proceeds_resume_taken hlogs _
  | bound call timings => exact .stays ((Carries.pop rfl w k _).resume_bound call timings)
  | arm refresher => exact .stays ((Carries.pop rfl w k _).resume_arm refresher)
  | advance => exact proceeds_resume_advance hjob
  | settle => exact .stays ((Carries.pop rfl w k _).resume_settle hjob)

end Frames

/-! ### Steps -/

/-- **An open lookup ends**, and its cycle hears of it. -/
theorem proceeds_settle (hone : ∀ i, w.tokens.count (.ticket .lookups i) ≤ 1) (which : Which)
    (settlement : Settlement) :
    Proceeds ⟨w, k, c⟩ (settle w k which settlement) (Step.deed? w (.settle which settlement)) := by
  let m : Machine := ⟨w, k, c⟩
  rcases hpick : pick? OpenLookup.number w.lookups which with _ | l
  · simp only [settle, Step.deed?, hpick, Option.bind_none]
    exact .stays (Carries.refl m).control
  let w' : World := { w with lookups := w.lookups.filter fun m => m.number != l.number }
  have hbefore : (m.errands : Multiset Errand) =
      l.errands + (⟨w', k, c⟩ : Machine).errands := by
    rw [coe_errands, coe_errands_closeLookup (mem_of_pick? hpick) (hone l.number), coe_errands]
    abel
  have hclosed : Carries (⟨w', k, c⟩ : Machine).errands w.shown ⟨w', k, c⟩ := .refl _
  have htold := hclosed.enqueue
    (.answered l.waiter (settlementOf w' l.provider l.services settlement))
  simp only [settle, Step.deed?, hpick, Option.bind_some]
  rw [OpenLookup.errands] at hbefore
  cases hwaiter : l.waiter with
  | binding call service provider =>
    rw [hwaiter] at hbefore htold
    refine .stays ?_
    rw [hbefore]
    exact htold.control
  | cycle refresher generation origin services =>
    rw [hwaiter] at hbefore htold
    exact .does (e := ⟨refresher, generation, .asking services⟩) hbefore
      (Carries.deed htold.control (.hears _) rfl (by simp))

/-- **An open callback ends**, and the list of its cycle has been taken, or refused. -/
theorem proceeds_settleCallback {b : Callback} (hb : w.callback = some b)
    (hone : ∀ i, w.tokens.count (.ticket .callbacks i) ≤ 1) (which : Which)
    (outcome : Except Failure Unit) :
    Proceeds ⟨w, k, c⟩ (settleCallback w k b which outcome)
      ((pick? OpenCallback.number b.pending which).map fun o =>
        (o.cycle.refresher, [.took outcome])) := by
  let m : Machine := ⟨w, k, c⟩
  rcases hpick : pick? OpenCallback.number b.pending which with _ | o
  · simp only [settleCallback, hpick, Option.map_none]
    exact .stays (Carries.refl m).control
  let w' : World := { w with
    callback := some { b with pending := b.pending.filter fun p => p.number != o.number } }
  have hbefore : (m.errands : Multiset Errand) =
      {o.cycle.handing} + ((⟨w', k, c⟩ : Machine).errands : Multiset Errand) := by
    rw [coe_errands, coe_errands_closeCallback hb (mem_of_pick? hpick) (hone o.number), coe_errands]
    abel
  have hclosed : Carries (⟨w', k, c⟩ : Machine).errands w.shown ⟨w', k, c⟩ := .refl _
  simp only [settleCallback, hpick, Option.map_some]
  exact .does hbefore ((hclosed.deed_taken o.cycle outcome).congr (fun _ => rfl) rfl)

/-- A call of the listener ends that was left to a step. -/
theorem Carries.settleListener {es : Multiset Errand} (h : Carries es shown ⟨w, k, c⟩)
    (outcome : Except Failure Unit) : Carries es shown (settleListener w k outcome) := by
  rw [Machine.settleListener]
  split
  · exact h.control
  · next left _ =>
    have hleft : Carries es shown ⟨{ w with deferred := left }, k, c⟩ :=
      h.aside ⟨rfl, rfl, rfl, rfl⟩
    have hended := hleft.emit_hidden (e := .listenerEnded outcome) rfl
    cases outcome with
    | ok => exact hended.control
    | error failure => exact (hended.enqueue_idle (.rejected failure) rfl).control

/-- A step that concerns the strategy moves no cycle. -/
theorem Carries.performStrategy {es : Multiset Errand} (h : Carries es shown ⟨w, k, c⟩)
    (s : Strategy) (step : Step) : Carries es shown (performStrategy w k s step) := by
  have hchange : ∀ rotation change, Carries es shown (changeMembership w k rotation change) := by
    intro rotation change
    unfold changeMembership
    split
    · exact h.control
    · exact (h.modifyStrategy _).notify _
  unfold Machine.performStrategy
  split
  · split
    · exact (h.modifyStrategy _).control
    · exact h.control
  -- what only reads
  · exact h.control
  · exact h.control
  · exact h.control
  · exact h.control
  · exact h.control
  · exact h.control
  -- the membership
  · exact hchange _ _
  · exact hchange _ _
  · exact h.reset _ _
  -- binding and polling
  · next service provider =>
    simpa only [Caller.errands, Caller.run?, Option.toList_none, List.map_nil, Multiset.coe_nil,
      zero_add, Option.isSome_none, Bool.false_eq_true, if_false, List.append_nil] using
      h.lookup provider [service] (.binding service)
  · exact (h.startPolling _ _).control
  · exact h.stopPolling.control
  · exact h.stopPolling.control
  · exact h.settleListener _
  · exact h.control

/-- A step that does not drive the refresher, and ends no lookup, moves no cycle. -/
theorem Carries.perform {es : Multiset Errand} (h : Carries es shown ⟨w, k, c⟩) {step : Step}
    (hdrives : step.drivesRefresher = false)
    (hsettle : ∀ which settlement, step ≠ .settle which settlement) :
    Carries es shown (perform w k step) := by
  unfold Machine.perform
  split
  · exact (h.push_idle (f := .advance _ _) rfl).control
  · exact Carries.control (c := c) (h.aside ⟨rfl, rfl, rfl, rfl⟩)
  · exact Carries.control (c := c) (h.aside ⟨rfl, rfl, rfl, rfl⟩)
  · exact Carries.control (c := c) (h.aside ⟨rfl, rfl, rfl, rfl⟩)
  · exact Carries.control (c := c) (h.aside ⟨rfl, rfl, rfl, rfl⟩)
  · exact absurd rfl (hsettle _ _)
  · rw [if_neg (by rw [hdrives]; exact Bool.false_ne_true)]
    split
    · exact h.performStrategy _ _
    · exact h.control

/-- **A step that drives the refresher** may begin a cycle, or end the callback of one. -/
theorem proceeds_performRefresher {b : Callback} (hb : w.callback = some b) {r : Refresher}
    (hr : w.refreshers[0]? = some r) (hone : ∀ i, w.tokens.count (.ticket .callbacks i) ≤ 1)
    {step : Step} (hdrives : step.drivesRefresher = true) :
    Proceeds ⟨w, k, .perform step⟩ (performRefresher w k b r step) (step.deed? w) := by
  have hrefl := Carries.refl ⟨w, k, .perform step⟩
  cases step with
  | start services =>
    have hwatched := hrefl.callback hb { b with
      watched := b.watched ++ services.keys.filter fun service => !b.watched.contains service } rfl
    exact .stays (hwatched.aside (World.aside_startRefresher _ 0 services)).control
  | stop => exact .stays (hrefl.aside (w.aside_stopRefresher 0)).control
  | refresh => exact hrefl.proceeds_beginCycle (fun _ => rfl) 0 false
  | settleCallback which rejection =>
    have hdeed : Step.deed? w (.settleCallback which rejection) =
        (pick? OpenCallback.number b.pending which).map fun o =>
          (o.cycle.refresher, [.took (rejection.elim (.ok ()) .error)]) := by
      simp only [Step.deed?, hb, hr, Option.isSome_some, Option.filter_some, if_true,
        Option.bind_some]
    rw [hdeed]
    exact proceeds_settleCallback hb hone which _
  | isRunning | snapshot => exact .stays hrefl.control
  | _ => cases hdrives

/-- A step that drives the refresher needs one that is driven directly. -/
theorem perform_of_drives {step : Step} (hdrives : step.drivesRefresher = true) :
    perform w k step = match w.callback, w.refreshers[0]? with
      | some b, some r => performRefresher w k b r step
      | _, _ => refuse w k .noRefresher := by
  cases step with
  | start | stop | isRunning | refresh | snapshot | settleCallback => rfl
  | _ => cases hdrives

/-- **A step is performed.** -/
theorem proceeds_perform (hone : ∀ d i, w.tokens.count (.ticket d i) ≤ 1) (step : Step) :
    Proceeds ⟨w, k, .perform step⟩ (perform w k step) (step.deed? w) := by
  have hrefl := Carries.refl ⟨w, k, .perform step⟩
  cases hdrives : step.drivesRefresher with
  | true =>
    rw [perform_of_drives hdrives]
    split
    · next b r hb hr => exact proceeds_performRefresher hb hr (hone .callbacks) hdrives
    · next hnone =>
      have hdeed : step.deed? w = none := by
        cases step with
        | settleCallback which rejection =>
          rw [Step.deed?, Option.bind_eq_none_iff]
          intro b hb
          obtain ⟨hb, hr⟩ := Option.filter_eq_some_iff.mp hb
          obtain ⟨r, hr⟩ := Option.isSome_iff_exists.mp hr
          exact absurd hr (hnone b r hb)
        | start | stop | isRunning | refresh | snapshot => rfl
        | _ => cases hdrives
      rw [hdeed]
      exact .stays hrefl.control
  | false =>
    cases step with
    | settle which settlement => exact proceeds_settle (hone .lookups) which settlement
    | start | stop | isRunning | refresh | snapshot | settleCallback => cases hdrives
    | _ => exact .stays (hrefl.perform rfl (by simp))

/-! ### All transitions -/

/-- **What the next transition makes of the cycles under way**, where log calls go through. -/
theorem Reachable.proceeds_next (h : Reachable m) (hlogs : m.world.logs = true) :
    Proceeds m m.next m.deed? := by
  rcases hjob : m.job? with _ | job
  · have hdeed : m.deed? = match m.control, m.stack with
        | .perform step, _ => step.deed? m.world
        | .deliver outcome, f :: _ => f.deed? m.world outcome
        | .deliver _, [] => none := by
      rw [deed?, hjob]
    have hone : ∀ d i, m.world.tokens.count (.ticket d i) ≤ 1 := fun d i => by
      have honce := h.numbered.once d i
      rw [tokens, List.count_append] at honce
      omega
    rw [hdeed]
    obtain ⟨w, k, step | outcome⟩ := m
    · exact proceeds_perform hone step
    · cases k with
      | nil => exact .stays (.refl _)
      | cons f k =>
        refine proceeds_resume hlogs ?_ hjob
        -- a callback that was called has a number, so there is one
        rintro number cycle ending rfl hnone
        have hfree := h.numbered.count_eq_zero_of_issued (d := .callbacks)
          (by rw [World.issued, hnone]; rfl) number
        rw [count_push] at hfree
        exact absurd hfree (by simp [Frame.tokens])
  · have hdeed : m.deed? = job.deed? m.world := by rw [deed?, hjob]
    rw [hdeed]
    exact proceeds_work hlogs h.backed h.wired hjob

/-- Where a point is left without a transition, a cycle may begin, but none does anything. -/
theorem proceeds_of_enters (he : Enters m m') : Proceeds m m' none := by
  cases he with
  | perform w outcome step =>
    exact .stays
      ((Carries.refl ⟨w, [], .deliver outcome⟩).push_idle (f := .settle none) rfl).control
  | interject w first outcome step =>
    exact .stays (Carries.refl ⟨w, [.settle first], .deliver outcome⟩).control
  | @fire w outcome t ht =>
    exact ((Carries.refl ⟨w, [], .deliver outcome⟩).push_idle (f := .settle none) rfl).proceeds_fire
      (m := ⟨w, [], .deliver outcome⟩) t

/-! ### The cycles of one refresher -/

theorem coe_errandsOf (m : Machine) (n : Nat) :
    (m.errandsOf n : Multiset Errand) = (m.errands : Multiset Errand).filter (·.refresher = n) := by
  rw [errandsOf, Multiset.filter_coe]
  simp only [beq_eq_decide]

theorem Carries.errandsOf {es : Multiset Errand} (h : Carries es shown m) (n : Nat) :
    (m.errandsOf n : Multiset Errand) = es.filter (·.refresher = n) := by
  rw [coe_errandsOf, h.errands]

/-- **What a transition makes of the only cycle of a refresher**, unless another one begins. -/
theorem Proceeds.only {d : Option (Nat × List Act)} {n : Nat} (h : Proceeds m m' d)
    (hone : m.errandsOf n = [e]) (hle : (m'.errandsOf n).length ≤ 1) :
    (d.filter fun d => d.1 == n) = none ∧ m'.errandsOf n = [e] ∨
      ∃ acts e', d = some (n, acts) ∧ e.Does m.world acts e' ∧ m'.errandsOf n = e'.toList := by
  have hbefore : (m.errands : Multiset Errand).filter (·.refresher = n) = {e} := by
    rw [← coe_errandsOf, hone, Multiset.coe_singleton]
  cases h with
  | stays same =>
    refine .inl ⟨rfl, Multiset.coe_eq_singleton.mp ?_⟩
    rw [same.errandsOf, hbefore]
  | @begins n' _ r _ _ _ _ _ _ begun =>
    have hafter := begun.errandsOf n
    rw [Multiset.filter_add, hbefore, Multiset.filter_singleton] at hafter
    by_cases hn : n' = n
    · -- there would be two of them
      have hcard := congrArg Multiset.card hafter
      rw [if_pos hn, Multiset.coe_card, Multiset.card_add, Multiset.card_singleton,
        Multiset.card_singleton] at hcard
      omega
    · rw [if_neg hn] at hafter
      exact .inl ⟨rfl, Multiset.coe_eq_singleton.mp (hafter.trans (zero_add _))⟩
  | @does e₁ acts rest before deed =>
    obtain ⟨e', hdoes, hafter⟩ := deed.does
    have hafter := hafter.errandsOf n
    rw [before, Multiset.filter_add, Multiset.filter_singleton] at hbefore
    rw [Multiset.filter_add] at hafter
    by_cases hn : e₁.refresher = n
    · right
      rw [if_pos hn] at hbefore
      have hrest : rest.filter (·.refresher = n) = 0 := by
        have hcard := congrArg Multiset.card hbefore
        rw [Multiset.card_add, Multiset.card_singleton, Multiset.card_singleton] at hcard
        exact Multiset.card_eq_zero.mp (by omega)
      rw [hrest, add_zero, Multiset.singleton_inj] at hbefore
      subst hbefore hn
      refine ⟨acts, e', rfl, hdoes, ?_⟩
      -- the cycle stays with its refresher
      have hsame : (e'.toList : Multiset Errand).filter (·.refresher = e₁.refresher) =
          e'.toList := by
        refine Multiset.filter_eq_self.mpr fun x hx => ?_
        rw [Multiset.mem_coe, Option.mem_toList] at hx
        exact Errand.Does.refresher_eq (hx ▸ hdoes)
      rw [hrest, hsame, add_zero] at hafter
      cases e' with
      | none => exact (Multiset.coe_eq_zero _).mp hafter
      | some e' => exact Multiset.coe_eq_singleton.mp hafter
    · left
      have hnone : (e'.toList : Multiset Errand).filter (·.refresher = n) = 0 := by
        refine Multiset.filter_eq_nil.mpr fun x hx heq => hn ?_
        rw [Multiset.mem_coe, Option.mem_toList] at hx
        exact (Errand.Does.refresher_eq (hx ▸ hdoes)).symm.trans heq
      rw [if_neg hn, Multiset.empty_eq_zero, zero_add] at hbefore
      rw [hnone, zero_add, hbefore] at hafter
      refine ⟨?_, Multiset.coe_eq_singleton.mp hafter⟩
      rw [Option.filter_some, beq_false_of_ne hn]
      rfl

/-- **Where no cycle of a refresher is under way, none does anything.** -/
theorem Proceeds.idle {d : Option (Nat × List Act)} {n : Nat} (h : Proceeds m m' d)
    (hidle : m.errandsOf n = []) : (d.filter fun d => d.1 == n) = none := by
  cases h with
  | stays | begins => rfl
  | @does e _ _ before =>
    have hbefore := coe_errandsOf m n
    rw [hidle, before, Multiset.filter_add, Multiset.filter_singleton] at hbefore
    have hn : e.refresher ≠ n := fun heq => by
      have hcard := congrArg Multiset.card hbefore
      rw [if_pos heq, Multiset.card_add, Multiset.card_singleton, Multiset.coe_nil,
        Multiset.card_zero] at hcard
      omega
    rw [Option.filter_some, beq_false_of_ne hn]
    rfl

/-- What is done for a refresher, one of its cycles under way does. -/
theorem Proceeds.exists_does {n : Nat} (h : Proceeds m m' (some (n, acts))) :
    ∃ e ∈ m.errandsOf n, ∃ e', e.Does m.world acts e' := by
  cases h with
  | @does e _ rest before deed =>
    obtain ⟨e', hdoes, -⟩ := deed.does
    refine ⟨e, List.mem_filter.mpr ⟨?_, beq_self_eq_true _⟩, e', hdoes⟩
    rw [← Multiset.mem_coe, before]
    exact Multiset.mem_add.mpr (.inl (Multiset.mem_singleton_self e))

/-- What a call ends with that began a cycle which ends. -/
theorem Proceeds.ended {n : Nat} (h : Proceeds m m' (some (n, acts))) {call : Nat}
    {failure : Option Failure} (hlast : acts.getLast? = some (.ended (.call call) failure)) :
    m'.world.trace.back? = some (.ended call (closing failure)) := by
  cases h with
  | does _ deed => exact deed.ended call failure hlast

/-- **A cycle that is the first of its refresher begins with its lookup**, and the refresher
runs. -/
theorem Proceeds.first {d : Option (Nat × List Act)} {n : Nat} (h : Proceeds m m' d)
    (hidle : m.errandsOf n = []) (hone : m'.errandsOf n ≠ []) :
    ∃ r provider caller number, m.world.core? n = some r ∧ r.running = true ∧
      r.provider = some provider ∧ caller.run? = some (n, r.generation) ∧
      m'.errandsOf n = [⟨n, r.generation, .asking r.snapshot.keys⟩] ∧
      m'.world.shown = m.world.shown ++ [.lookup provider number r.snapshot.keys caller] := by
  have hbefore : (m.errands : Multiset Errand).filter (·.refresher = n) = 0 := by
    rw [← coe_errandsOf, hidle, Multiset.coe_nil]
  have hne : (m'.errandsOf n : Multiset Errand) ≠ 0 := fun heq =>
    hone ((Multiset.coe_eq_zero _).mp heq)
  cases h with
  | stays same => exact absurd ((same.errandsOf n).trans hbefore) hne
  | @begins n' number r provider caller found running asks run begun =>
    have hafter := begun.errandsOf n
    rw [Multiset.filter_add, hbefore, Multiset.filter_singleton, add_zero] at hafter
    by_cases hn : n' = n
    · subst hn
      rw [if_pos rfl] at hafter
      exact ⟨r, provider, caller, number, found, running, asks, run,
        Multiset.coe_eq_singleton.mp hafter, begun.shown⟩
    · rw [if_neg hn] at hafter
      exact absurd hafter hne
  | @does e₁ acts rest before deed =>
    obtain ⟨e', hdoes, hafter⟩ := deed.does
    have hafter := hafter.errandsOf n
    have hcard := congrArg Multiset.card hbefore
    rw [before, Multiset.filter_add, Multiset.card_add, Multiset.filter_singleton,
      Multiset.card_zero] at hcard
    have hrest : rest.filter (·.refresher = n) = 0 := Multiset.card_eq_zero.mp (by omega)
    rw [Multiset.filter_add, hrest, add_zero] at hafter
    refine absurd (hafter.trans (Multiset.filter_eq_nil.mpr fun x hx heq => ?_)) hne
    rw [Multiset.mem_coe, Option.mem_toList] at hx
    -- the cycle would have been one of the refresher before
    rw [if_pos ((Errand.Does.refresher_eq (hx ▸ hdoes)).symm.trans heq),
      Multiset.card_singleton] at hcard
    omega

end Machine

/-! ### Lookups and warnings -/

/-- The services that a cycle of a refresher asks for, if an event is its lookup. -/
def Event.query? (number : Nat) : Event → Option (List String)
  | .lookup _ _ services caller =>
    if caller.run?.any (fun run => run.1 == number) then some services else none
  | _ => none

/-- **What the cycles of a refresher have asked for**, lookup by lookup. -/
def World.queries (number : Nat) (w : World) : List (List String) :=
  w.trace.toList.filterMap (Event.query? number)

/-- **The warnings that have been logged.** -/
def World.warnings (w : World) : List Event := w.trace.toList.filter Event.warns

theorem World.queries_eq_shown (w : World) (n : Nat) :
    w.queries n = w.shown.filterMap (Event.query? n) := by
  rw [queries, shown, List.filterMap_filter]
  refine congrArg (fun f => w.trace.toList.filterMap f) (funext fun e => ?_)
  cases e with
  | lookup provider number services caller =>
    cases hrun : caller.run? <;> simp [Event.query?, Event.shows, hrun]
  | _ => simp [Event.query?]

theorem World.warnings_eq_shown (w : World) : w.warnings = w.shown.filter Event.warns := by
  rw [warnings, shown, List.filter_filter]
  refine List.filter_congr fun e _ => ?_
  cases e with
  | lookup => rfl
  | _ => simp [Event.shows]

/-- A warning is one, and no lookup. -/
theorem World.warns_of_mem_warning {w : World} {act : Act} {e : Event} (he : e ∈ w.warning act) :
    e.warns = true ∧ ∀ n, e.query? n = none := by
  have hline : ∀ message failure, e ∈ w.line .warn message failure →
      e.warns = true ∧ ∀ n, e.query? n = none := by
    intro message failure hmem
    have hshows := World.shows_of_mem_line hmem
    rw [line] at hmem
    split at hmem
    · cases List.mem_singleton.mp hmem
      exact ⟨rfl, fun _ => rfl⟩
    · split at hmem
      · cases List.mem_singleton.mp hmem
        exact ⟨hshows, fun _ => rfl⟩
      · cases hmem
  unfold warning at he
  split at he
  · exact hline _ _ he
  · split at he
    · exact hline _ _ he
    · cases he
  · cases he

namespace Machine

variable {m m' : Machine} {n : Nat} {d : Option (Nat × List Act)}

/-- **What is logged with a transition** are the warnings of what a cycle does. -/
theorem Proceeds.warnings (h : Proceeds m m' d) :
    m'.world.warnings = m.world.warnings ++ d.elim [] fun d => d.2.flatMap m.world.warning := by
  simp only [World.warnings_eq_shown]
  cases h with
  | stays same => rw [same.shown, Option.elim_none, List.append_nil]
  | begins _ _ _ _ begun =>
    rw [begun.shown, List.filter_append, Option.elim_none]
    rfl
  | does _ deed =>
    obtain ⟨e', -, hafter⟩ := deed.does
    rw [hafter.shown, List.filter_append, Option.elim_some]
    congr 1
    refine List.filter_eq_self.mpr fun x hx => ?_
    obtain ⟨act, -, hx⟩ := List.mem_flatMap.mp hx
    exact (World.warns_of_mem_warning hx).1

/-- **No lookup is made for a refresher** with a transition that begins no cycle of it. -/
theorem Proceeds.queries (h : Proceeds m m' d)
    (hle : (m'.errandsOf n).length ≤ (m.errandsOf n).length) :
    m'.world.queries n = m.world.queries n := by
  simp only [World.queries_eq_shown]
  cases h with
  | stays same => rw [same.shown]
  | @begins n' number r provider caller found running asks run begun =>
    have hother : n' ≠ n := by
      rintro rfl
      have hcard := congrArg Multiset.card (begun.errandsOf n')
      rw [Multiset.filter_add, Multiset.filter_singleton, if_pos rfl, ← coe_errandsOf,
        Multiset.card_add, Multiset.card_singleton, Multiset.coe_card, Multiset.coe_card] at hcard
      omega
    rw [begun.shown, List.filterMap_append]
    simp [Event.query?, run, hother]
  | @does _ acts _ _ deed =>
    obtain ⟨e', -, hafter⟩ := deed.does
    have hnone : ∀ x ∈ acts.flatMap m.world.warning, x.query? n = none := by
      intro x hx
      obtain ⟨act, -, hx⟩ := List.mem_flatMap.mp hx
      exact (World.warns_of_mem_warning hx).2 n
    rw [hafter.shown, List.filterMap_append, List.filterMap_eq_nil_iff.mpr hnone, List.append_nil]

end Machine

end Balancer.Session
