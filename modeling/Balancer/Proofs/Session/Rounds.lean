import Balancer.Proofs.Session.Changes
import Balancer.Proofs.Session.Solitary

/-!
# Whole cycles

A cycle that no other cycle of its refresher overlaps asks once, compares, and hands over one
changed list after the other. So what it has handed over at any point are the first ones of the
lists that changed, and what its refresher remembers are these and nothing else, also where a
collaborator fails or the refresher is stopped and started meanwhile.

* `Balancer.Session.Machine.Lone` – **a stretch of a session in which one cycle of a refresher is
  under way**, with what the cycle does; `Balancer.Session.Machine.Round` is the whole of it.
* `Balancer.Session.Machine.Reached` – how far a cycle is that has done certain acts;
  `Balancer.Session.Machine.Accomplished` is the same in the end.
* `Balancer.Session.Machine.Leaves` – **what a cycle leaves behind**: what was asked, what the
  callback was given, what was logged and what the refresher has seen.
* `Balancer.Session.Machine.Reachable.cycle_hands_over_prefix` – **a cycle that ends early leaves a
  clean prefix of the changes.**
* `Balancer.Session.Machine.Reachable.cycle_hands_over_difference` – **a cycle that does not does
  exactly the difference.**
-/

namespace Balancer.Session

/-! ### Acts -/

/-- **What a cycle does about lists that are taken**: it hands over one after the other, each when
the one before it has been taken. -/
def Act.passing (given : List (String × List Endpoint)) : List Act :=
  given.flatMap fun e => [.handed e.1 e.2, .took (.ok ())]

theorem Act.passing_append (given given' : List (String × List Endpoint)) :
    passing (given ++ given') = passing given ++ passing given' :=
  List.flatMap_append

theorem Act.filterMap_passing (given : List (String × List Endpoint)) :
    (passing given).filterMap Act.handed? = given := by
  induction given with
  | nil => rfl
  | cons e given ih => exact congrArg (e :: ·) ih

namespace Machine

variable {m m' a b : Machine} {n : Nat} {acts : List Act} {r : Refresher}

theorem acts_of_filter (h : (m.deed?.filter fun d => d.1 == n) = none) : m.acts n = [] := by
  rw [acts, h]
  rfl

theorem acts_of_deed? (h : m.deed? = some (n, acts)) : m.acts n = acts := by
  rw [Machine.acts, h, Option.filter_some, beq_self_eq_true]
  rfl

/-- A step hands nothing over. -/
theorem handed?_of_step {w : World} {step : Step} {d : Nat × List Act}
    (hd : step.deed? w = some d) : d.2.filterMap Act.handed? = [] := by
  cases step with
  | settle which settlement =>
    obtain ⟨l, -, hl⟩ := Option.bind_eq_some_iff.mp hd
    split at hl <;> cases hl
    rfl
  | settleCallback which rejection =>
    obtain ⟨b, -, hb⟩ := Option.bind_eq_some_iff.mp hd
    obtain ⟨o, -, rfl⟩ := Option.map_eq_some_iff.mp hb
    rfl
  | _ => cases hd

/-- What returns to a frame hands nothing over. -/
theorem handed?_of_frame {w : World} {outcome : Outcome} {f : Frame} {d : Nat × List Act}
    (hd : f.deed? w outcome = some d) : d.2.filterMap Act.handed? = [] := by
  cases f with
  | lookup provider number services caller answer =>
    obtain ⟨run, -, hanswer⟩ := Option.bind_eq_some_iff.mp hd
    cases answer <;> cases hanswer <;> rfl
  | callback number cycle ending => cases ending <;> cases hd <;> rfl
  | taken cycle => cases outcome <;> cases hd <;> rfl
  | _ => cases hd

/-- Only a piece of waiting work hands something over. -/
theorem handed?_of_not_job {d : Nat × List Act} (hjob : m.job? = none) (hd : m.deed? = some d) :
    d.2.filterMap Act.handed? = [] := by
  rw [deed?, hjob] at hd
  obtain ⟨w, k, step | outcome⟩ := m
  · exact handed?_of_step hd
  · cases k with
    | nil => cases hd
    | cons f k => exact handed?_of_frame hd

/-- **What is handed over is an act of a cycle.** -/
theorem handed_eq_acts (m : Machine) (n : Nat) :
    m.handed n = (m.acts n).filterMap Act.handed? := by
  rw [handed, handing?, resumed?, acts]
  rcases hjob : m.job? with _ | job
  · rcases hd : m.deed? with _ | d
    · rfl
    · have hnone := handed?_of_not_job hjob hd
      rw [Option.filter_some]
      split
      · exact hnone.symm
      · rfl
  · have hdeed : m.deed? = job.deed? m.world := by rw [deed?, hjob]
    -- a job that leads on to a cycle hands over what has changed
    have hgoes : ∀ cycle : Cycle,
        ((if cycle.refresher == n then some cycle else none).bind m.world.change?).toList.map
          (fun change => (change.service, change.endpoints)) =
        ((Option.filter (fun d => d.1 == n) (some (cycle.refresher, m.world.goesOn cycle))).elim []
          Prod.snd).filterMap Act.handed? := by
      intro cycle
      rw [Option.filter_some]
      split
      · rw [Option.bind_some, World.goesOn]
        cases m.world.change? cycle <;> rfl
      · rfl
    have hfails : ∀ (d : Nat) (act : Act), act.handed? = none →
        ((Option.filter (fun d => d.1 == n) (some (d, [act]))).elim [] Prod.snd).filterMap
          Act.handed? = [] := by
      intro d act hact
      rw [Option.filter_some]
      split
      · simp [hact]
      · rfl
    rw [hdeed, Option.bind_some]
    cases job with
    | answered waiter answer =>
      cases waiter with
      | binding call service provider => cases answer <;> rfl
      | cycle refresher generation origin services =>
        cases answer with
        | error failure => exact (hfails _ _ rfl).symm
        | ok listing => exact hgoes ⟨_, _, _, _, _⟩
    | taken cycle outcome =>
      cases outcome with
      | error failure => exact (hfails _ _ rfl).symm
      | ok _ => exact hgoes cycle
    | rejected failure => rfl
    | released refresher => rfl

/-! ### Stretches with one cycle -/

/-- **A stretch of a session in which one cycle of a refresher is under way, and no other one of
it**, with what the cycle does; log calls go through. -/
inductive Lone (number : Nat) (m : Machine) : List Act → Machine → Prop
  /-- It begins. -/
  | refl (one : (m.errandsOf number).length = 1) : Lone number m [] m
  /-- A transition is made. -/
  | next {acts : List Act} {a : Machine} (h : Lone number m acts a) (logs : a.world.logs = true)
      (one : (a.next.errandsOf number).length = 1) : Lone number m (acts ++ a.acts number) a.next
  /-- A step is performed next, or a timer fires. -/
  | enter {acts : List Act} {a b : Machine} (h : Lone number m acts a) (enters : Enters a b)
      (one : (b.errandsOf number).length = 1) : Lone number m acts b

/-- **A whole cycle of a refresher that has begun**, up to the transition with which it ends. -/
inductive Round (number : Nat) (m : Machine) : List Act → Machine → Prop
  /-- The cycle ends. -/
  | ends {acts : List Act} {a : Machine} (h : Lone number m acts a) (logs : a.world.logs = true)
      (none : a.next.errandsOf number = []) : Round number m (acts ++ a.acts number) a.next

theorem Lone.one (h : Lone n m acts a) : (a.errandsOf n).length = 1 := by
  cases h <;> assumption

theorem Lone.run (h : Lone n m acts a) : Run m a := by
  induction h with
  | refl => exact .refl
  | next h _ _ ih => exact ih.tail (.next _)
  | enter h enters _ ih => exact ih.tail enters.leads

/-- A number of transitions, with one cycle under way all along. -/
theorem lone_of_transitions (hone : (m.errandsOf n).length = 1) (k : Nat)
    (h : ∀ i < k, (run i m).world.logs = true ∧ ((run (i + 1) m).errandsOf n).length = 1) :
    Lone n m ((List.range k).flatMap fun i => (run i m).acts n) (run k m) := by
  induction k with
  | zero => exact .refl hone
  | succ k ih =>
    obtain ⟨hlogs, hone'⟩ := h k (Nat.lt_succ_self k)
    rw [List.range_succ, List.flatMap_append, List.flatMap_singleton, run_succ_last]
    rw [run_succ_last] at hone'
    exact (ih fun i hi => h i (Nat.lt_succ_of_lt hi)).next hlogs hone'

/-- A number of transitions, with one cycle under way that ends with the last of them. -/
theorem round_of_transitions (hone : (m.errandsOf n).length = 1) (k : Nat)
    (h : ∀ i < k, (run i m).world.logs = true ∧ ((run (i + 1) m).errandsOf n).length = 1)
    (hlogs : (run k m).world.logs = true) (hnone : (run (k + 1) m).errandsOf n = []) :
    Round n m ((List.range (k + 1)).flatMap fun i => (run i m).acts n) (run (k + 1) m) := by
  rw [run_succ_last] at hnone
  rw [List.range_succ, List.flatMap_append, List.flatMap_singleton, run_succ_last]
  exact .ends (lone_of_transitions hone k h) hlogs hnone

/-! ### How far a cycle is -/

/-- **How far a cycle is that has done certain acts**, if the refresher was the given one at its
beginning: it has passed over some of the services, and handed over those lists of them that
changed. -/
inductive Reached (r : Refresher) : List Act → Phase → Prop
  /-- It has done nothing. -/
  | asking : Reached r [] (.asking r.snapshot.keys)
  /-- Its lookup has failed. -/
  | unanswered (failure : Failure) : Reached r [.heard (.error failure)] (.failing failure)
  /-- All lists that it handed over have been taken. -/
  | comparing {past remaining : List String} (answer : Option Listing)
      (services : r.snapshot.keys = past ++ remaining) :
    Reached r
      (.heard (.ok answer) :: Act.passing (r.changed (answer.getD Table.empty) past))
      (.comparing remaining (answer.getD Table.empty))
  /-- The last list that it handed over has not been taken. -/
  | handing {past remaining : List String} {given : List (String × List Endpoint)}
      {service : String} {endpoints : List Endpoint} (answer : Option Listing)
      (services : r.snapshot.keys = past ++ remaining)
      (changed : r.changed (answer.getD Table.empty) past = given ++ [(service, endpoints)]) :
    Reached r (.heard (.ok answer) :: Act.passing given ++ [.handed service endpoints])
      (.handing remaining (answer.getD Table.empty))
  /-- The last list that it handed over has been refused. -/
  | refused {past remaining : List String} {given : List (String × List Endpoint)}
      {service : String} {endpoints : List Endpoint} (answer : Option Listing)
      (services : r.snapshot.keys = past ++ remaining)
      (changed : r.changed (answer.getD Table.empty) past = given ++ [(service, endpoints)])
      (failure : Failure) :
    Reached r
      (.heard (.ok answer) :: Act.passing given ++
        [.handed service endpoints, .took (.error failure)])
      (.failing failure)

/-- **What a refresher has seen**, as long as no start has taken effect since a generation: what it
had seen before, and the lists that were handed over. A stop brings the next generation, and a start
the one after that. -/
def Retains (r : Refresher) (n : Nat) (given : List (String × List Endpoint)) (m : Machine) :
    Prop :=
  ∀ r', m.world.core? n = some r' → r'.generation ≤ r.generation + 1 →
    r'.snapshot = r.snapshot.insertAll given

/-- **What a refresher has seen after a transition.** -/
theorem Reachable.retains_next {given : List (String × List Endpoint)} (h : Reachable m)
    (hruns : ∃ r', m.world.core? n = some r' ∧ r.generation ≤ r'.generation ∧
      (r'.generation = r.generation → r'.running = true))
    (hretains : Retains r n given m) : Retains r n (given ++ m.handed n) m.next := by
  intro r'' hr'' hle
  obtain ⟨r', hr', hge, hrunning⟩ := hruns
  obtain ⟨r₁, hr₁, hgrows⟩ := (h.turn (.next m)).grow.old n r' hr'
  cases hr''.symm.trans hr₁
  have hle' : r'.generation ≤ r.generation + 1 := Nat.le_trans hgrows.generation_le hle
  -- a start would have brought the generation after the next one
  have hidle : ¬ Begins n m m.next := by
    rintro ⟨hrests, r₂, hr₂, hruns⟩
    cases hr''.symm.trans hr₂
    have hrests' : r'.running ≠ true := fun hrun => hrests ⟨r', hr', hrun⟩
    have hne : r'.generation ≠ r.generation := fun heq => hrests' (hrunning heq)
    have hne' : r''.generation ≠ r'.generation := fun heq =>
      hrests' ((hgrows.running heq).symm.trans hruns)
    have hge' := hgrows.generation_le
    omega
  have hsnapshot := hretains r' hr' hle'
  rcases m.handed_cases n with hnone | ⟨change, hhands, hsome⟩
  · have hsame := (h.next_of_not_handed hnone).1.resolve_right hidle
    rw [World.snapshot?, World.snapshot?, hr'', hr'] at hsame
    rw [hnone, List.append_nil, ← hsnapshot]
    exact Option.some.inj hsame
  · obtain ⟨r₂, hr₂, -, -, hnext, -⟩ := h.next_of_handed hhands
    cases hr'.symm.trans hr₂
    rw [World.snapshot?, hr''] at hnext
    rw [hsome, Table.insertAll_append, Table.insertAll_singleton, ← hsnapshot]
    exact Option.some.inj hnext

/-! ### The course of a cycle -/

/-- **A cycle goes on as it should**, if its refresher has seen what the cycle handed over. -/
theorem Reached.does {w : World} {phase : Phase} {acts' : List Act} {e' : Errand}
    (h : Reached r acts phase)
    (hsnapshot : ∀ r', w.core? n = some r' → r'.generation = r.generation →
      r'.snapshot = r.snapshot.insertAll (acts.filterMap Act.handed?))
    (hdoes : Errand.Does w ⟨n, r.generation, phase⟩ acts' (some e')) :
    ∃ phase', e' = ⟨n, r.generation, phase'⟩ ∧ Reached r (acts ++ acts') phase' := by
  cases hdoes with
  | hears answer =>
    refine ⟨_, rfl, ?_⟩
    cases h
    cases answer with
    | error failure => exact .unanswered failure
    | ok answer => exact @Reached.comparing r [] r.snapshot.keys answer rfl
  | @hands _ _ remaining latest r' change found same first =>
    refine ⟨_, rfl, ?_⟩
    cases h with
    | @comparing past _ answer hservices =>
      obtain ⟨skipped, hremaining, hchanged⟩ := Refresher.exists_of_nextChange? first
      have hseen := hsnapshot r' found same
      rw [List.filterMap_cons_none rfl, Act.filterMap_passing] at hseen
      rw [Refresher.changed_remaining hservices hseen fun service hs => by
        rw [hremaining]
        simp only [List.mem_append, List.mem_cons, List.not_mem_nil, or_false] at hs ⊢
        exact hs.imp_right .inl] at hchanged
      refine @Reached.handing r (past ++ (skipped ++ [change.service])) _ _ _ _ answer ?_ ?_
      · rw [hservices, hremaining]
        simp only [List.append_assoc, List.cons_append, List.nil_append]
      · rw [Refresher.changed_append, hchanged]
  | takes outcome =>
    refine ⟨_, rfl, ?_⟩
    cases h with
    | @handing past _ given service endpoints answer hservices hchanged =>
      cases outcome with
      | error failure =>
        rw [List.append_assoc]
        exact .refused answer hservices hchanged failure
      | ok _ =>
        have hacts : Act.heard (.ok answer) :: Act.passing given ++ [.handed service endpoints] ++
            [.took (.ok ())] = .heard (.ok answer) ::
              Act.passing (r.changed (answer.getD Table.empty) past) := by
          rw [hchanged, Act.passing_append, List.append_assoc, List.cons_append]
          rfl
        exact hacts ▸ .comparing answer hservices

/-- **What a whole cycle has done**, if the refresher was the given one at its beginning. -/
inductive Accomplished (r : Refresher) (live : Prop) : List Act → Prop
  /-- Its lookup failed. -/
  | unanswered (failure : Failure) (origin : Origin) :
    Accomplished r live [.heard (.error failure), .ended origin (some failure)]
  /-- It handed over some of the changed lists, the first ones, the last of which was refused. -/
  | refused (answer : Option Listing) {given : List (String × List Endpoint)} {service : String}
      {endpoints : List Endpoint}
      (first : given ++ [(service, endpoints)] <+: r.changes (answer.getD Table.empty))
      (failure : Failure) (origin : Origin) :
    Accomplished r live (.heard (.ok answer) :: Act.passing given ++
      [.handed service endpoints, .took (.error failure), .ended origin (some failure)])
  /-- It handed over some of the changed lists, the first ones, which were taken: all of them, if
  the run of the refresher goes on. -/
  | finished (answer : Option Listing) {given : List (String × List Endpoint)}
      (first : given <+: r.changes (answer.getD Table.empty))
      (all : live → given = r.changes (answer.getD Table.empty)) (origin : Origin) :
    Accomplished r live (.heard (.ok answer) :: Act.passing given ++ [.ended origin none])

/-- Changed lists of the services passed over are the first ones of all. -/
theorem changed_isPrefix {latest : Listing} {past remaining : List String}
    (hservices : r.snapshot.keys = past ++ remaining) :
    r.changed latest past <+: r.changes latest := by
  rw [Refresher.changes, hservices, Refresher.changed_append]
  exact List.prefix_append _ _

/-- **A cycle ends as it should**, if its refresher has seen what the cycle handed over. -/
theorem Reached.ends {w : World} {phase : Phase} {acts' : List Act} {live : Prop}
    (h : Reached r acts phase)
    (hsnapshot : ∀ r', w.core? n = some r' → r'.generation = r.generation →
      r'.snapshot = r.snapshot.insertAll (acts.filterMap Act.handed?))
    (hlive : live → ∃ r', w.core? n = some r' ∧ r'.generation = r.generation)
    (hdoes : Errand.Does w ⟨n, r.generation, phase⟩ acts' none) :
    Accomplished r live (acts ++ acts') := by
  cases hdoes with
  | unheard origin failure =>
    cases h
    exact .unanswered failure origin
  | @ends _ _ remaining latest r' origin found unchanged =>
    cases h with
    | @comparing past _ answer hservices =>
      refine .finished answer (changed_isPrefix hservices) (fun hl => ?_) origin
      obtain ⟨r₂, hr₂, hsame⟩ := hlive hl
      cases found.symm.trans hr₂
      have hseen := hsnapshot r' found hsame
      rw [List.filterMap_cons_none rfl, Act.filterMap_passing] at hseen
      have hnone := Refresher.changed_of_nextChange?_eq_none (unchanged hsame)
      rw [Refresher.changed_remaining hservices hseen fun _ hs => hs] at hnone
      rw [Refresher.changes, hservices, Refresher.changed_append, hnone, List.append_nil]
  | refuses origin failure =>
    cases h with
    | @handing past _ given service endpoints answer hservices hchanged =>
      rw [List.append_assoc]
      exact .refused answer (hchanged ▸ changed_isPrefix hservices) failure origin
  | fails origin failure =>
    cases h with
    | unanswered => exact .unanswered failure origin
    | @refused past _ given service endpoints answer hservices hchanged =>
      rw [List.append_assoc]
      exact .refused answer (hchanged ▸ changed_isPrefix hservices) failure origin

/-! ### What is left of a cycle -/

/-- **What a cycle that has done certain acts since a point leaves behind.** -/
structure Leaves (r : Refresher) (n : Nat) (m : Machine) (acts : List Act) (a : Machine) :
    Prop where
  /-- One lookup was made, for all services that are tracked. -/
  asked : a.world.queries n = m.world.queries n ++ [r.snapshot.keys]
  /-- The callback was given the lists that the cycle handed over. -/
  shows : r.handler = .callback → a.world.handed = m.world.handed ++ acts.filterMap Act.handed?
  /-- There is one more warning for every act that is to be logged with one, and no other. -/
  warns : r.handler = .callback →
    a.world.warnings.length = m.world.warnings.length + acts.countP Act.warns
  /-- The refresher has seen the lists. -/
  retains : Retains r n (acts.filterMap Act.handed?) a

/-- The same refresher later, which runs as long as its generation has not changed. -/
theorem Reachable.exists_core (h : Reachable m) (hr : m.world.core? n = some r)
    (hrunning : r.running = true) (hrun : Run m a) :
    ∃ r', a.world.core? n = some r' ∧ r.Grows r' ∧
      (r'.generation = r.generation → r'.running = true) := by
  obtain ⟨r', hr', hgrows⟩ := (h.grow hrun).old n r hr
  exact ⟨r', hr', hgrows, fun heq => (hgrows.running heq).trans hrunning⟩

/-- **What a transition leaves of a cycle**, which begins no other cycle of the refresher. -/
theorem Leaves.next (h : Leaves r n m acts a) (hreach : Reachable m) (hrun : Run m a)
    (hr : m.world.core? n = some r) (hrunning : r.running = true) (hlogs : a.world.logs = true)
    (hle : (a.next.errandsOf n).length ≤ (a.errandsOf n).length) :
    Leaves r n m (acts ++ a.acts n) a.next := by
  have ha : Reachable a := hreach.run hrun
  obtain ⟨r', hr', hgrows, hlive⟩ := hreach.exists_core hr hrunning hrun
  constructor
  · rw [(ha.proceeds_next hlogs).queries hle, h.asked]
  · intro hhandler
    rw [ha.handed_next hr' (hgrows.handler.trans hhandler), h.shows hhandler, List.append_assoc,
      handed_eq_acts, List.filterMap_append]
  · intro hhandler
    obtain ⟨rfl, hthere⟩ := ha.wired n r' hr' (hgrows.handler.trans hhandler)
    rw [ha.length_warnings_next hlogs hthere, h.warns hhandler, List.countP_append, Nat.add_assoc]
  · rw [List.filterMap_append, ← handed_eq_acts]
    exact ha.retains_next ⟨r', hr', hgrows.generation_le, hlive⟩ h.retains

/-- Neither a step that is performed next nor a timer leaves anything else of a cycle. -/
theorem Leaves.enter (h : Leaves r n m acts a) (ha : Reachable a) (he : Enters a b)
    (hle : (b.errandsOf n).length ≤ (a.errandsOf n).length) : Leaves r n m acts b := by
  have hproceeds := proceeds_of_enters he
  constructor
  · rw [hproceeds.queries hle, h.asked]
  · intro hhandler
    rw [ha.handed_of_enters he, h.shows hhandler]
  · intro hhandler
    rw [hproceeds.warnings, Option.elim_none, List.append_nil, h.warns hhandler]
  · intro r' hr'
    exact h.retains r' ((ha.core?_of_enters he n).symm.trans hr')

/-- **A cycle that begins asks for all services that the refresher tracks**, and leaves nothing
else. -/
theorem Reachable.begins_alone (h : Reachable m) (hlogs : m.world.logs = true) (hl : Leads m m')
    (hidle : m.errandsOf n = []) (hone : m'.errandsOf n ≠ []) :
    ∃ r, m.world.core? n = some r ∧ r.running = true ∧
      m'.errandsOf n = [⟨n, r.generation, .asking r.snapshot.keys⟩] ∧ Leaves r n m [] m' := by
  have hasked : ∀ {r : Refresher} {provider number caller}, caller.run? = some (n, r.generation) →
      m'.world.shown = m.world.shown ++ [.lookup provider number r.snapshot.keys caller] →
      m'.world.queries n = m.world.queries n ++ [r.snapshot.keys] := by
    intro r provider number caller hrun hshown
    rw [World.queries_eq_shown, hshown, List.filterMap_append, World.queries_eq_shown]
    simp [Event.query?, hrun]
  rcases leads_iff.mp hl with rfl | henters
  · have hproceeds := h.proceeds_next hlogs
    obtain ⟨r, provider, caller, number, hr, hrunning, -, hrun, herrands, hshown⟩ :=
      hproceeds.first hidle hone
    -- nothing is done for the refresher, since no cycle was there before
    have hacts : m.acts n = [] := acts_of_filter (hproceeds.idle hidle)
    have hnone : m.handed n = [] := by rw [handed_eq_acts, hacts, List.filterMap_nil]
    refine ⟨r, hr, hrunning, herrands, hasked hrun hshown,
      fun hhandler => ?_, fun hhandler => ?_, ?_⟩
    · rw [h.handed_next hr hhandler, hnone, List.filterMap_nil]
    · obtain ⟨rfl, hthere⟩ := h.wired n r hr hhandler
      rw [h.length_warnings_next hlogs hthere, hacts]
    · have hretains : Retains r n ([] ++ m.handed n) m.next := h.retains_next
        ⟨r, hr, Nat.le_refl _, fun _ => hrunning⟩ fun r' hr' _ => by
          cases hr.symm.trans hr'
          rfl
      rw [hnone] at hretains
      exact hretains
  · have hproceeds := proceeds_of_enters henters
    obtain ⟨r, provider, caller, number, hr, hrunning, -, hrun, herrands, hshown⟩ :=
      hproceeds.first hidle hone
    refine ⟨r, hr, hrunning, herrands, hasked hrun hshown, fun _ => ?_, fun _ => ?_, ?_⟩
    · rw [h.handed_of_enters henters, List.filterMap_nil, List.append_nil]
    · rw [hproceeds.warnings, Option.elim_none, List.append_nil, List.countP_nil, Nat.add_zero]
    · intro r' hr' _
      cases ((h.core?_of_enters henters n).symm.trans hr').symm.trans hr
      rfl

/-- **How far a cycle is, and what it leaves**, all along. -/
theorem Lone.course {m₁ : Machine} (h : Lone n m₁ acts a) (hreach : Reachable m) (hl : Leads m m₁)
    (hr : m.world.core? n = some r) (hrunning : r.running = true)
    (hone : m₁.errandsOf n = [⟨n, r.generation, .asking r.snapshot.keys⟩])
    (hleaves : Leaves r n m [] m₁) :
    ∃ phase, a.errandsOf n = [⟨n, r.generation, phase⟩] ∧ Reached r acts phase ∧
      Leaves r n m acts a := by
  induction h with
  | refl => exact ⟨_, hone, .asking, hleaves⟩
  | @next acts a h hlogs hnext ih =>
    obtain ⟨phase, herrand, hreached, hleft⟩ := ih
    have hrun : Run m a := .head hl h.run
    have ha : Reachable a := hreach.run hrun
    have hafter := hleft.next hreach hrun hr hrunning hlogs (by rw [hnext, h.one])
    rcases (ha.proceeds_next hlogs).only herrand (Nat.le_of_eq hnext) with
      ⟨hidle, hsame⟩ | ⟨acts', e', hdeed, hdoes, herrands⟩
    · rw [acts_of_filter hidle, List.append_nil] at hafter ⊢
      exact ⟨phase, hsame, hreached, hafter⟩
    · rw [acts_of_deed? hdeed] at hafter ⊢
      rcases e' with _ | e'
      · rw [herrands] at hnext
        exact absurd hnext (by simp)
      · obtain ⟨phase', rfl, hreached'⟩ := hreached.does (fun r' hr' heq =>
          hleft.retains r' hr' (heq ▸ Nat.le_succ _)) hdoes
        exact ⟨phase', herrands, hreached', hafter⟩
  | @enter acts a b h enters hnext ih =>
    obtain ⟨phase, herrand, hreached, hleft⟩ := ih
    have ha : Reachable a := hreach.run (.head hl h.run)
    refine ⟨phase, ?_, hreached, hleft.enter ha enters (by rw [hnext, h.one])⟩
    rcases (proceeds_of_enters enters).only herrand (Nat.le_of_eq hnext) with
      ⟨-, hsame⟩ | ⟨acts', e', hdeed, -⟩
    · exact hsame
    · cases hdeed

/-- **What a transition of a cycle hands over, the cycle hands over in its own run.** -/
theorem Reachable.inRun_of_handed (h : Reachable m) {generation : Nat} {phase : Phase}
    (hone : m.errandsOf n = [⟨n, generation, phase⟩]) (hhands : m.handed n ≠ []) :
    m.InRun n generation := by
  rcases m.handed_cases n with hnone | ⟨change, hchange, -⟩
  · exact absurd hnone hhands
  obtain ⟨r', hr', hrunning, -⟩ := h.next_of_handed hchange
  obtain ⟨cycle, -, -, hchange⟩ := handing?_eq_some.mp hchange
  obtain ⟨-, -, -, hlogs, -⟩ := World.change?_eq_some.mp hchange
  have hproceeds := h.proceeds_next hlogs
  rw [handed_eq_acts] at hhands
  rcases hfilter : m.deed?.filter fun d => d.1 == n with _ | ⟨n', acts⟩
  · rw [acts_of_filter hfilter] at hhands
    exact absurd rfl hhands
  · obtain ⟨hdeed, hn⟩ := Option.filter_eq_some_iff.mp hfilter
    obtain rfl : n' = n := beq_iff_eq.mp hn
    rw [acts_of_deed? hdeed] at hhands
    rw [hdeed] at hproceeds
    obtain ⟨e, he, e', hdoes⟩ := hproceeds.exists_does
    rw [hone, List.mem_singleton] at he
    subst he
    cases hdoes with
    | hands found same =>
      cases hr'.symm.trans found
      exact ⟨r', hr', hrunning, same⟩
    | hears | unheard | ends | takes | refuses | fails => exact absurd rfl hhands

/-- **A list that is handed over to the strategy replaces its targets.** -/
theorem Reachable.replaces_handed (h : Reachable m) (hr : m.world.core? n = some r)
    (hhandler : r.handler = .strategy) {service : String} {endpoints : List Endpoint}
    (hhands : m.handed n = [(service, endpoints)]) :
    Strategy.Kept (m.world.strategy.map fun s => s.replaceTargets service endpoints)
      m.next.world.strategy := by
  rcases m.handed_cases n with hnone | ⟨change, hchange, hsome⟩
  · rw [hnone] at hhands
    cases hhands
  · obtain ⟨r', hr', -, -, -, -, hstrategy⟩ := h.next_of_handed hchange
    cases hr.symm.trans hr'
    cases hsome.symm.trans hhands
    exact (hstrategy hhandler).2

/-- **A whole cycle has done what it should, and leaves what it handed over**; a call that began it
fails only with a failure that has no text. -/
theorem Round.course {m₁ : Machine} (h : Round n m₁ acts m') (hreach : Reachable m)
    (hl : Leads m m₁) (hr : m.world.core? n = some r) (hrunning : r.running = true)
    (hone : m₁.errandsOf n = [⟨n, r.generation, .asking r.snapshot.keys⟩])
    (hleaves : Leaves r n m [] m₁) :
    Accomplished r (m'.InRun n r.generation) acts ∧
      Leaves r n m acts m' ∧
      ∀ call failure, acts.getLast? = some (.ended (.call call) failure) →
        m'.world.trace.back? = some (.ended call (closing failure)) := by
  cases h with
  | @ends acts a h hlogs hnone =>
    obtain ⟨phase, herrand, hreached, hleft⟩ := h.course hreach hl hr hrunning hone hleaves
    have hrun : Run m a := .head hl h.run
    have ha : Reachable a := hreach.run hrun
    have hproceeds := ha.proceeds_next hlogs
    have hafter := hleft.next hreach hrun hr hrunning hlogs (by rw [hnone]; exact Nat.zero_le _)
    rcases hproceeds.only herrand (by rw [hnone]; exact Nat.zero_le 1) with
      ⟨-, hsame⟩ | ⟨acts', e', hdeed, hdoes, herrands⟩
    · rw [hnone] at hsame
      cases hsame
    · rw [hnone] at herrands
      cases e' with
      | some e' => cases herrands
      | none =>
        rw [acts_of_deed? hdeed] at hafter ⊢
        refine ⟨hreached.ends (fun r' hr' heq => hleft.retains r' hr' (heq ▸ Nat.le_succ _))
          (fun hlive => ?_) hdoes, hafter, fun call failure hlast => ?_⟩
        · -- a run that is there at the end was there before the last transition
          obtain ⟨r', hr', hgrows, -⟩ := hreach.exists_core hr hrunning hrun
          obtain ⟨r₂, hr₂, -, hsame⟩ :=
            ha.inRun_of_run (.single (.next a)) hr' hgrows.generation_le hlive
          exact ⟨r₂, hr₂, hsame⟩
        · rw [hdeed] at hproceeds
          have hne : acts' ≠ [] := by cases hdoes <;> exact List.cons_ne_nil _ _
          rw [List.getLast?_append_of_ne_nil _ hne] at hlast
          exact hproceeds.ended hlast

/-- What a cycle has handed over in the end are the first of the changed lists. -/
theorem Accomplished.isPrefix {live : Prop} (h : Accomplished r live acts)
    {answer : Option Listing} (hheard : .heard (.ok answer) ∈ acts) :
    acts.filterMap Act.handed? <+: r.changes (answer.getD Table.empty) := by
  have hpassing : ∀ given, .heard (.ok answer) ∉ Act.passing given := by
    intro given hmem
    obtain ⟨e, -, hmem⟩ := List.mem_flatMap.mp hmem
    simp at hmem
  cases h with
  | unanswered => simp at hheard
  | @refused answer' given service endpoints first =>
    obtain rfl : answer = answer' := by simpa [hpassing] using hheard
    rw [List.filterMap_append, List.filterMap_cons_none rfl, Act.filterMap_passing]
    exact first
  | @finished answer' given first =>
    obtain rfl : answer = answer' := by simpa [hpassing] using hheard
    rw [List.filterMap_append, List.filterMap_cons_none rfl, Act.filterMap_passing]
    exact (List.append_nil given).symm ▸ first

/-- A refresher that is driven directly is started, and a cycle is to begin. -/
theorem reachable_refresh {setup : Setup} {provider : Option String} {timings : Timings}
    {reactions : List Reaction} {w : World}
    (hopen : openRefresher setup provider timings reactions = .ok w) (services : Listing) {k : Nat}
    (hfinished : (run k (w.machine (.start services))).finished = true) :
    Reachable ((run k (w.machine (.start services))).world.machine .refresh) :=
  ((Opens.refresher hopen).reachable.run
    (run_of_step (m := ⟨w, [], .deliver (.ok .nothing)⟩) rfl (.start services) k)).run
      (run_of_step hfinished .refresh 0)

/-! ### All cycles -/

/-- **A cycle that ends early leaves a clean prefix**: a cycle of a refresher that runs, that begins
where no other one of the refresher is under way and that none overlaps, whatever its naming
service, what takes its lists and everything else do meanwhile, stops and starts included. It asks
once, for all services that are tracked. At each of its points what it has handed over is what the
callback was given, or what replaced the targets of the strategy, and what the refresher has seen in
that run; once the run is over it hands over nothing, and nothing that was seen changes until the
refresher is started. A transition in which it acts logs the warnings of what it does and no others:
one for each list that it hands over, and one in the end if a collaborator has failed with something
that has a text.

In the end a cycle whose lookup failed has handed over nothing; one that was refused a list has
handed over the first of the changed ones, up to that list; and one that no collaborator failed has
handed over the first of the changed ones, all of them if the run goes on. The call that began it
has not failed, unless the failure of the collaborator has no text: then the call fails as forming
the text does. If the run goes on and all ports are numbers, the changes left for a next cycle with
the same answer are the others, in the same order. -/
theorem Reachable.cycle_hands_over_prefix {m₁ : Machine} (h : Reachable m)
    (hlogs : m.world.logs = true) (hl : Leads m m₁) (hidle : m.errandsOf n = [])
    (hbegun : m₁.errandsOf n ≠ []) :
    ∃ r, m.world.core? n = some r ∧ r.running = true ∧
      (∀ acts a, Lone n m₁ acts a →
        Leaves r n m acts a ∧
        (∀ service endpoints, r.handler = .strategy → a.handed n = [(service, endpoints)] →
          Strategy.Kept (a.world.strategy.map fun s => s.replaceTargets service endpoints)
            a.next.world.strategy) ∧
        (¬ a.InRun n r.generation → a.handed n = [] ∧
          (a.next.world.snapshot? n = a.world.snapshot? n ∨ Begins n a a.next)) ∧
        (a.world.logs = true → a.next.world.warnings =
          a.world.warnings ++ a.deed?.elim [] fun d => d.2.flatMap a.world.warning)) ∧
      ∀ acts m', Round n m₁ acts m' →
        Accomplished r (m'.InRun n r.generation) acts ∧
        Leaves r n m acts m' ∧
        (∀ call failure, acts.getLast? = some (.ended (.call call) failure) →
          m'.world.trace.back? = some (.ended call (closing failure))) ∧
        ∀ answer r', .heard (.ok answer) ∈ acts → m'.world.core? n = some r' →
          r'.generation = r.generation →
          (∀ service ∈ r.snapshot.keys, ∀ e ∈ Listing.endpoints (answer.getD Table.empty) service,
            e.port ≠ .nan) →
          r.changes (answer.getD Table.empty) =
            acts.filterMap Act.handed? ++ r'.changes (answer.getD Table.empty) := by
  obtain ⟨r, hr, hrunning, hone, hleaves⟩ := h.begins_alone hlogs hl hidle hbegun
  refine ⟨r, hr, hrunning, fun acts a hlone => ?_, fun acts m' hround => ?_⟩
  · obtain ⟨phase, herrand, -, hleft⟩ := hlone.course h hl hr hrunning hone hleaves
    have ha : Reachable a := h.run (.head hl hlone.run)
    refine ⟨hleft, fun service endpoints hhandler hhands => ?_, fun hover => ?_,
      fun ha' => (ha.proceeds_next ha').warnings⟩
    · obtain ⟨r', hr', hgrows, -⟩ := h.exists_core hr hrunning (.head hl hlone.run)
      exact ha.replaces_handed hr' (hgrows.handler.trans hhandler) hhands
    have hnone : a.handed n = [] := by_contra fun hhands =>
      hover (ha.inRun_of_handed herrand hhands)
    exact ⟨hnone, (ha.next_of_not_handed hnone).1⟩
  · obtain ⟨hdone, hleft, hended⟩ := hround.course h hl hr hrunning hone hleaves
    refine ⟨hdone, hleft, hended, fun answer r' hheard hr' hsame hports => ?_⟩
    exact Refresher.changes_eq_append (hdone.isPrefix hheard)
      (hleft.retains r' hr' (hsame ▸ Nat.le_succ _)) hports

/-- Four services are tracked here, and the lists of three have changed; the callback refuses the
second of them. The run goes on, and the third is left for the next cycle. -/
theorem cycle_hands_over_prefix_until_refused :
    ∃ m m₁ acts m' r r' latest, Reachable m ∧ Leads m m₁ ∧ m.errandsOf 0 = [] ∧
      Round 0 m₁ acts m' ∧ m.world.core? 0 = some r ∧ m'.world.core? 0 = some r' ∧
      r.changes latest = [("echo", [⟨"a", .ofNat 1⟩]), ("quote", [⟨"c", .ofNat 3⟩]),
        ("date", [⟨"d", .ofNat 4⟩])] ∧
      m'.world.handed = m.world.handed ++
        [("echo", [⟨"a", .ofNat 1⟩]), ("quote", [⟨"c", .ofNat 3⟩])] ∧
      r'.changes latest = [("date", [⟨"d", .ofNat 4⟩])] ∧
      m'.world.trace.back? = some (.ended 1 (.ok ())) := by
  let timings : Timings := ⟨.ofNat 1000, .ofNat 1000⟩
  let services : Listing := .ofList [("echo", []), ("time", []), ("quote", []), ("date", [])]
  let latest : Listing := .ofList [("date", [⟨"d", .ofNat 4⟩]), ("quote", [⟨"c", .ofNat 3⟩]),
    ("other", []), ("echo", [⟨"a", .ofNat 1⟩])]
  let setup : Setup := ⟨.zero, ⟨none, none⟩, false, .ofList [("registry",
    ⟨.empty, [(.settled (.listing latest), [])]⟩)]⟩
  let reactions : List Reaction := [⟨[], .returns⟩, ⟨[], .throws (.text "refused")⟩]
  have hcheck : timings.check = .ok () := by decide +kernel
  let w : World := { setup.world refresherScope with
    refreshers := [Refresher.idle (some "registry") .callback timings]
    callback := some ⟨reactions, 0, [], []⟩ }
  have hopen : openRefresher setup (some "registry") timings reactions = .ok w := by
    rw [openRefresher, hcheck]
    rfl
  let m : Machine := (run 5 (w.machine (.start services))).world.machine .refresh
  have hm : Reachable m := reachable_refresh hopen services (by decide +kernel)
  have hidle : m.errandsOf 0 = [] := by decide +kernel
  have hone : (m.next.errandsOf 0).length = 1 := by decide +kernel
  -- the lookup is answered, two lists are handed over, and the second one is refused
  have hround := round_of_transitions hone 4 (by decide +kernel) (by decide +kernel)
    (by decide +kernel)
  obtain ⟨r, hr, -, -, hrounds⟩ := hm.cycle_hands_over_prefix (by decide +kernel) (.next m) hidle
    (List.length_pos_iff.mp (hone ▸ Nat.one_pos))
  obtain ⟨-, hleaves, hended, hrest⟩ := hrounds _ _ hround
  have hhandler : (m.world.core? 0).map Refresher.handler = some .callback := by decide +kernel
  have hgeneration : (m.world.core? 0).map Refresher.generation = some 1 := by decide +kernel
  have hkeys : (m.world.core? 0).map (fun r => r.snapshot.keys) =
      some ["echo", "time", "quote", "date"] := by decide +kernel
  have hchanges : (m.world.core? 0).map (fun r => r.changes latest) =
      some [("echo", [⟨"a", .ofNat 1⟩]), ("quote", [⟨"c", .ofNat 3⟩]),
        ("date", [⟨"d", .ofNat 4⟩])] := by
    decide +kernel
  rw [hr, Option.map_some, Option.some.injEq] at hhandler hgeneration hkeys hchanges
  have hafter : ((run 5 m.next).world.core? 0).map Refresher.generation = some 1 := by
    decide +kernel
  obtain ⟨r', hr', hgeneration'⟩ := Option.map_eq_some_iff.mp hafter
  have hports : ∀ service ∈ ["echo", "time", "quote", "date"], ∀ e ∈ latest.endpoints service,
      e.port ≠ .nan := by decide +kernel
  have hleft := hrest (some latest) r' (by decide +kernel) hr' (hgeneration'.trans hgeneration.symm)
    (by rw [hkeys]; exact hports)
  have hgiven : (((List.range 5).flatMap fun i => (run i m.next).acts 0).filterMap Act.handed?) =
      [("echo", [⟨"a", .ofNat 1⟩]), ("quote", [⟨"c", .ofNat 3⟩])] := by decide +kernel
  rw [hgiven] at hleft
  refine ⟨m, m.next, _, _, r, r', latest, hm, .next m, hidle, hround, hr, hr', hchanges, ?_, ?_, ?_⟩
  · rw [hleaves.shows hhandler, hgiven]
  · exact List.append_cancel_left (hleft.symm.trans hchanges)
  · exact hended 1 (some (.text "refused")) (by decide +kernel)

/-- A lookup may fail with something that has no text. Then nothing is logged, and the call that
began the cycle fails with a failure of another kind. -/
theorem cycle_fails_without_text :
    ∃ m m₁ acts m', Reachable m ∧ m.world.logs = true ∧ Leads m m₁ ∧ m.errandsOf 0 = [] ∧
      Round 0 m₁ acts m' ∧
      acts.getLast? = some (.ended (.call 1)
        (some (.textless (.raised .type "Cannot convert object to primitive value")))) ∧
      m'.world.warnings.length = m.world.warnings.length ∧
      m'.world.trace.back?.bind Event.ending? =
        some (1, .error (.raised .type "Cannot convert object to primitive value")) := by
  let timings : Timings := ⟨.ofNat 1000, .ofNat 1000⟩
  let thrown : Failure := .raised .type "Cannot convert object to primitive value"
  let setup : Setup := ⟨.zero, ⟨none, none⟩, false, .ofList [("registry",
    ⟨.empty, [(.settled (.failure (.textless thrown)), [])]⟩)]⟩
  have hcheck : timings.check = .ok () := by decide +kernel
  let w : World := { setup.world refresherScope with
    refreshers := [Refresher.idle (some "registry") .callback timings]
    callback := some ⟨[], 0, [], []⟩ }
  have hopen : openRefresher setup (some "registry") timings [] = .ok w := by
    rw [openRefresher, hcheck]
    rfl
  let m : Machine := (run 5 (w.machine (.start (.ofList [("echo", [])])))).world.machine .refresh
  have hm : Reachable m := reachable_refresh hopen _ (by decide +kernel)
  have hone : (m.next.errandsOf 0).length = 1 := by decide +kernel
  have hround := round_of_transitions hone 1 (by decide +kernel) (by decide +kernel)
    (by decide +kernel)
  exact ⟨m, m.next, _, _, hm, by decide +kernel, .next m, by decide +kernel, hround,
    by decide +kernel⟩

/-- **A cycle does exactly the difference**: a cycle of a refresher that runs, that begins where no
other one of the refresher is under way and that none overlaps, with a lookup that does not fail, in
a run that goes on, and whose lists are all taken. It asks once, for all services that are tracked,
and hands over the lists of the services that changed, in the order in which they are tracked and
each when the one before it has been taken; that is what the callback is given, or what replaces the
targets of the strategy. The same services are tracked then; of those that changed the refresher has
seen the new list, and of the others what it had seen. If all ports are numbers, a next cycle with
the same answer hands over nothing. -/
theorem Reachable.cycle_hands_over_difference {m₁ : Machine} {generation : Nat} (h : Reachable m)
    (hlogs : m.world.logs = true) (hl : Leads m m₁) (hidle : m.errandsOf n = [])
    (hbegun : m₁.errandsOf n ≠ []) (hround : Round n m₁ acts m') (hin : m.InRun n generation)
    (hlive : m'.InRun n generation) (hanswered : ∀ failure, .heard (.error failure) ∉ acts)
    (htaken : ∀ failure, .took (.error failure) ∉ acts) :
    ∃ r r' answer origin, m.world.core? n = some r ∧ m'.world.core? n = some r' ∧
      acts = .heard (.ok answer) :: Act.passing (r.changes (answer.getD Table.empty)) ++
        [.ended origin none] ∧
      m'.world.queries n = m.world.queries n ++ [r.snapshot.keys] ∧
      (r.handler = .callback →
        m'.world.handed = m.world.handed ++ r.changes (answer.getD Table.empty)) ∧
      (r.handler = .strategy → ∀ acts a service endpoints, Lone n m₁ acts a →
        a.handed n = [(service, endpoints)] →
        Strategy.Kept (a.world.strategy.map fun s => s.replaceTargets service endpoints)
          a.next.world.strategy) ∧
      r'.snapshot.keys = r.snapshot.keys ∧
      (∀ service ∈ r.snapshot.keys, r'.seen service =
        if Endpoint.sameList (r.seen service)
            (Listing.endpoints (answer.getD Table.empty) service) then r.seen service
        else Listing.endpoints (answer.getD Table.empty) service) ∧
      ((∀ service ∈ r.snapshot.keys, ∀ e ∈ Listing.endpoints (answer.getD Table.empty) service,
          e.port ≠ .nan) →
        ∀ a a₁ acts' a', Reachable a → a.world.logs = true →
          a.world.snapshot? n = m'.world.snapshot? n →
          Leads a a₁ → a.errandsOf n = [] → a₁.errandsOf n ≠ [] → Round n a₁ acts' a' →
          (∀ answer', .heard (.ok answer') ∈ acts' →
            answer'.getD Table.empty = answer.getD Table.empty) →
          acts'.filterMap Act.handed? = []) := by
  obtain ⟨r, hr, hrunning, hpoints, hrounds⟩ := h.cycle_hands_over_prefix hlogs hl hidle hbegun
  obtain ⟨hdone, hleft, -, hrest⟩ := hrounds acts m' hround
  obtain ⟨r₀, hr₀, -, rfl⟩ := hin
  cases hr.symm.trans hr₀
  obtain ⟨r', hr', -, hsame⟩ := id hlive
  have hseen := hleft.retains r' hr' (hsame ▸ Nat.le_succ _)
  -- no collaborator has failed, so that the cycle has gone on to its end
  cases hdone with
  | unanswered failure => exact absurd List.mem_cons_self (hanswered failure)
  | refused answer first failure => exact absurd (by simp) (htaken failure)
  | @finished answer given first all origin =>
    obtain rfl := all hlive
    have hgiven : (Act.heard (.ok answer) :: Act.passing (r.changes (answer.getD Table.empty)) ++
        [Act.ended origin none]).filterMap Act.handed? = r.changes (answer.getD Table.empty) := by
      rw [List.filterMap_append, List.filterMap_cons_none rfl, Act.filterMap_passing]
      exact List.append_nil _
    rw [hgiven] at hseen hrest
    have hshows := hleft.shows
    rw [hgiven] at hshows
    refine ⟨r, r', answer, origin, hr, hr', rfl, hleft.asked, hshows,
      fun hhandler acts a service endpoints hlone =>
        (hpoints acts a hlone).2.1 service endpoints hhandler, ?_, ?_, ?_⟩
    · exact Refresher.keys_of_insertAll (List.append_nil _).symm hseen
    · intro service hs
      rw [Refresher.seen_of_insertAll hseen]
      cases Endpoint.sameList (r.seen service) (Listing.endpoints (answer.getD Table.empty) service)
        <;> simp [hs]
    · intro hports a a₁ acts' a' ha hlogs' hremembers hl' hidle' hbegun' hround' hanswer
      have hunchanged : r'.changes (answer.getD Table.empty) = [] :=
        List.append_cancel_left ((hrest answer r' (by simp) hr' hsame hports).symm.trans
          (List.append_nil _).symm)
      obtain ⟨r₁, hr₁, -, -, hrounds'⟩ := ha.cycle_hands_over_prefix hlogs' hl' hidle' hbegun'
      rw [World.snapshot?, World.snapshot?, hr₁, hr', Option.map_some, Option.map_some,
        Option.some.injEq] at hremembers
      rw [← Refresher.changes_congr hremembers] at hunchanged
      obtain ⟨hdone', -⟩ := hrounds' acts' a' hround'
      -- what is handed over changed, but nothing has
      have hnone : ∀ answer', .heard (.ok answer') ∈ acts' → acts'.filterMap Act.handed? = [] :=
        fun answer' hheard => List.prefix_nil.mp
          (hunchanged ▸ hanswer answer' hheard ▸ hdone'.isPrefix hheard)
      cases hdone' with
      | unanswered => rfl
      | refused answer' => exact hnone answer' (by simp)
      | finished answer' => exact hnone answer' (by simp)

/-- Three services are tracked here, and the lists of two have changed. After the first cycle a
second one gets the same answer. -/
theorem cycle_hands_over_difference_of_two :
    ∃ m m₁ acts m' a a₁ acts' a' latest, Reachable m ∧ Leads m m₁ ∧ Round 0 m₁ acts m' ∧ Run m' a ∧
      Leads a a₁ ∧ Round 0 a₁ acts' a' ∧ .heard (.ok (some latest)) ∈ acts ∧
      .heard (.ok (some latest)) ∈ acts' ∧
      m'.world.queries 0 = m.world.queries 0 ++ [["echo", "time", "quote"]] ∧
      m'.world.handed = m.world.handed ++
        [("echo", [⟨"a", .ofNat 1⟩]), ("quote", [⟨"c", .ofNat 3⟩])] ∧
      acts'.filterMap Act.handed? = [] := by
  let timings : Timings := ⟨.ofNat 1000, .ofNat 1000⟩
  let services : Listing := .ofList [("echo", []), ("time", []), ("quote", [])]
  let latest : Listing := .ofList [("quote", [⟨"c", .ofNat 3⟩]), ("other", []),
    ("echo", [⟨"a", .ofNat 1⟩])]
  let setup : Setup := ⟨.zero, ⟨none, none⟩, false, .ofList [("registry",
    ⟨.empty, [(.settled (.listing latest), []), (.settled (.listing latest), [])]⟩)]⟩
  have hcheck : timings.check = .ok () := by decide +kernel
  let w : World := { setup.world refresherScope with
    refreshers := [Refresher.idle (some "registry") .callback timings]
    callback := some ⟨[], 0, [], []⟩ }
  have hopen : openRefresher setup (some "registry") timings [] = .ok w := by
    rw [openRefresher, hcheck]
    rfl
  let m : Machine := (run 5 (w.machine (.start services))).world.machine .refresh
  have hm : Reachable m := reachable_refresh hopen services (by decide +kernel)
  have hone : (m.next.errandsOf 0).length = 1 := by decide +kernel
  have hround := round_of_transitions hone 5 (by decide +kernel) (by decide +kernel)
    (by decide +kernel)
  have hacts : ((List.range 6).flatMap fun i => (run i m.next).acts 0) =
      [.heard (.ok (some latest)), .handed "echo" [⟨"a", .ofNat 1⟩], .took (.ok ()),
        .handed "quote" [⟨"c", .ofNat 3⟩], .took (.ok ()), .ended (.call 1) none] := by
    decide +kernel
  rw [hacts] at hround
  -- what is left of the first cycle, and the second one
  let a : Machine := (run 7 m.next).world.machine .refresh
  have hrun : Run (run 6 m.next) a := .trans (run_of_transitions 1 _)
    (run_of_step (m := run 7 m.next) (by decide +kernel) .refresh 0)
  have ha : Reachable a := (hm.leads (.next m)).run (.trans (run_of_transitions 6 _) hrun)
  have hone' : (a.next.errandsOf 0).length = 1 := by decide +kernel
  have hround' := round_of_transitions hone' 1 (by decide +kernel) (by decide +kernel)
    (by decide +kernel)
  have hacts' : ((List.range 2).flatMap fun i => (run i a.next).acts 0) =
      [.heard (.ok (some latest)), .ended (.call 2) none] := by decide +kernel
  rw [hacts'] at hround'
  obtain ⟨r, r', answer, origin, hr, -, hpassing, hasked, hshows, -, -, -, hagain⟩ :=
    hm.cycle_hands_over_difference (by decide +kernel) (.next m) (by decide +kernel)
      (List.length_pos_iff.mp (hone ▸ Nat.one_pos)) hround
      (show m.InRun 0 1 by decide +kernel) (by decide +kernel) (by simp) (by simp)
  have hhandler : (m.world.core? 0).map Refresher.handler = some .callback := by decide +kernel
  have hkeys :
      (m.world.core? 0).map (fun r => r.snapshot.keys) = some ["echo", "time", "quote"] := by
    decide +kernel
  have hports : ∀ service ∈ ["echo", "time", "quote"], ∀ e ∈ latest.endpoints service,
      e.port ≠ .nan := by decide +kernel
  have hchanges : (m.world.core? 0).map (fun r => r.changes latest) =
      some [("echo", [⟨"a", .ofNat 1⟩]), ("quote", [⟨"c", .ofNat 3⟩])] := by decide +kernel
  rw [hr, Option.map_some, Option.some.injEq] at hhandler hkeys hchanges
  obtain rfl : answer = some latest := by
    rw [List.cons_append, List.cons.injEq, Act.heard.injEq, Except.ok.injEq] at hpassing
    exact hpassing.1.symm
  refine ⟨m, m.next, _, _, a, a.next, _, _, latest, hm, .next m, hround, hrun, .next a, hround',
    by simp, by simp, hkeys ▸ hasked, hchanges ▸ hshows hhandler, ?_⟩
  exact hagain (by rw [hkeys]; exact hports) a a.next _ _ ha (by decide +kernel) (by decide +kernel)
    (.next a) (by decide +kernel) (List.length_pos_iff.mp (hone' ▸ Nat.one_pos)) hround'
    (by simp)

/-- Log calls have to go through for that. Here they go to the console while the clock shows no
date, so that the call which logs the change fails, and with it the one that logs the failure: the
run goes on, but nothing is handed over or seen, and the call that began the cycle fails. -/
theorem cycle_hands_over_nothing_without_date :
    ∃ m b m' latest, Reachable m ∧ Run m b ∧ Run b m' ∧ m.errandsOf 0 = [] ∧ m'.errandsOf 0 = [] ∧
      m.InRun 0 1 ∧ m'.InRun 0 1 ∧ b.acts 0 = [.heard (.ok (some latest))] ∧
      m'.world.queries 0 = m.world.queries 0 ++ [["echo"]] ∧
      (m.world.core? 0).map (fun r => r.changes latest) = some [("echo", [⟨"a", .ofNat 1⟩])] ∧
      m'.world.handed = m.world.handed ∧ m'.world.snapshot? 0 = m.world.snapshot? 0 ∧
      m'.world.trace.back?.bind Event.ending? = some (1, .error .invalidTime) := by
  let timings : Timings := ⟨.ofNat 1000, .ofNat 1000⟩
  let services : Listing := .ofList [("echo", [])]
  let latest : Listing := .ofList [("echo", [⟨"a", .ofNat 1⟩])]
  let setup : Setup := ⟨.ofNat 9000000000000000, ⟨none, none⟩, true, .ofList [("registry",
    ⟨.empty, [(.settled (.listing latest), [])]⟩)]⟩
  have hcheck : timings.check = .ok () := by decide +kernel
  let w : World := { setup.world refresherScope with
    refreshers := [Refresher.idle (some "registry") .callback timings]
    callback := some ⟨[], 0, [], []⟩ }
  have hopen : openRefresher setup (some "registry") timings [] = .ok w := by
    rw [openRefresher, hcheck]
    rfl
  let m : Machine := (run 5 (w.machine (.start services))).world.machine .refresh
  have hm : Reachable m := reachable_refresh hopen services (by decide +kernel)
  refine ⟨m, m.next, run 2 m.next, latest, hm, .single (.next m), run_of_transitions 2 m.next, ?_⟩
  decide +kernel

end Machine

end Balancer.Session
