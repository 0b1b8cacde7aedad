import Balancer.Proofs.Session.Deeds

/-!
# A refresher that is driven directly

A session of a refresher that is driven directly has no strategy, and so no other refresher ever
comes. All cycles of such a session are its cycles, and so all warnings are theirs.

* `Balancer.Session.Machine.Solitary` – **a refresher that has a callback is alone.**
* `Balancer.Session.Machine.Reachable.exists_core_of_mem_errands` – a cycle under way is one of a
  refresher that is there.
* `Balancer.Session.Machine.Reachable.length_warnings_next` – **every act of its cycles that is to
  be logged with a warning is logged with one**, and nothing else is.
-/

namespace Balancer.Session

/-- Whether an act is logged with a warning: a list that is handed over, and the end of a cycle that
a collaborator has failed, if the failure has a text. -/
def Act.warns : Act → Bool
  | .handed .. => true
  | .ended _ (some failure) => failure.reason.isOk
  | _ => false

namespace Machine

variable {m m' : Machine}

/-! ### No strategy and no other refresher -/

/-- **A refresher that is driven directly is alone**: where there is a callback, there is no
strategy, and no other refresher. -/
structure Solitary (w : World) : Prop where
  /-- There is no strategy. -/
  strategy : w.callback.isSome = true → w.strategy = none
  /-- There is no other refresher. -/
  first : w.callback.isSome = true → ∀ n r, w.core? n = some r → n = 0

/-- It stays alone where no strategy and no refresher comes. -/
theorem Solitary.of_stays {w w' : World} (h : Solitary w)
    (hcallback : w'.callback.isSome = w.callback.isSome)
    (hstrategy : w.strategy = none → w'.strategy = none)
    (hcore : ∀ n, w.core? n = none → w'.core? n = none) : Solitary w' where
  strategy hthere := hstrategy (h.strategy (hcallback ▸ hthere))
  first hthere n r' hr' := by
    rcases hr : w.core? n with _ | r
    · rw [hcore n hr] at hr'
      cases hr'
    · exact h.first (hcallback ▸ hthere) n r hr

theorem Calm.solitary (h : Calm m m') (hm : Solitary m.world) : Solitary m'.world := by
  refine hm.of_stays h.callback (fun hnone => ?_) fun n hnone => (h.core n).trans hnone
  have hkept : Strategy.Kept none m'.world.strategy := hnone ▸ h.strategy
  generalize m'.world.strategy = s at hkept
  cases hkept
  rfl

theorem Turn.solitary (h : Turn m m') (hm : Solitary m.world) : Solitary m'.world := by
  have hmap : ∀ {w : World} {f : Strategy → Strategy},
      w.strategy = none → w.strategy.map f = none :=
    fun hnone => by rw [hnone, Option.map_none]
  have hite : ∀ {p : Prop} [Decidable p] {o : Option Refresher} {f : Refresher → Refresher},
      o = none → (if p then o.map f else o) = none := fun hnone => by
    rw [hnone, Option.map_none, ite_self]
  cases h with
  | calm h => exact h.solitary hm
  | rotate _ before _ _ after =>
    exact after.solitary ((before.solitary hm).of_stays rfl hmap fun _ => id)
  | reset _ before after =>
    exact after.solitary ((before.solitary hm).of_stays rfl hmap fun _ => id)
  | @rebind x call service provider listing _ before after =>
    refine after.solitary ((before.solitary hm).of_stays ?_ (fun hnone => ?_) fun n hnone => ?_)
    · exact congrArg Option.isSome (x.aside_rebound call service provider listing).callback
    · rw [x.strategy_rebound, hmap hnone]
    · rw [x.core?_rebound, hite hnone]
  | @start x services _ _ before after =>
    refine after.solitary ((before.solitary hm).of_stays ?_ (fun hnone => ?_) fun n hnone => ?_)
    · exact congrArg Option.isSome (x.world.aside_startRefresher 0 services).callback
    · exact (x.world.strategy_startRefresher 0 services).trans hnone
    · exact (x.world.core?_startRefresher 0 n services).trans (hite hnone)
  | @stop x number _ before after =>
    refine after.solitary ((before.solitary hm).of_stays ?_ (fun hnone => ?_) fun n hnone => ?_)
    · exact congrArg Option.isSome (x.world.aside_stopRefresher number).callback
    · exact (x.world.strategy_stopRefresher number).trans hnone
    · exact (x.world.core?_stopRefresher number n).trans (hite hnone)
  | @poll x s binding timings _ before strategy _ _ _ after =>
    -- polling begins only where there is a strategy, and so no callback
    have hx := before.solitary hm
    have hnone : ¬ x.world.callback.isSome = true := fun hthere => by
      rw [hx.strategy hthere] at strategy
      cases strategy
    have hcallback : (x.polled binding timings).world.callback.isSome = x.world.callback.isSome :=
      congrArg Option.isSome (x.world.aside_pollWith binding timings).callback
    exact after.solitary ⟨fun hthere => absurd (hcallback ▸ hthere) hnone,
      fun hthere => absurd (hcallback ▸ hthere) hnone⟩
  | ask before _ _ _ _ after =>
    exact after.solitary ((before.solitary hm).of_stays rfl id fun _ => id)
  | @take x cycle _ change _ _ _ before after =>
    refine after.solitary ((before.solitary hm).of_stays rfl hmap fun n hnone => ?_)
    exact (x.core?_seen cycle.refresher change n).trans (hite hnone)
  | @callBack x cycle _ change _ _ _ _ _ before there after =>
    refine after.solitary ((before.solitary hm).of_stays ?_ id fun n hnone => ?_)
    · rw [there]
      rfl
    · exact (x.core?_seen cycle.refresher change n).trans (hite hnone)

theorem Reachable.solitary (h : Reachable m) : Solitary m.world := by
  refine h.induction (P := fun m => Solitary m.world) (fun m hopen => ?_)
    fun a b ha hsolitary hl => (ha.turn hl).solitary hsolitary
  have hnone : ∀ w : World, w.callback = none → Solitary w := fun w hw =>
    ⟨fun hthere => absurd hthere (by rw [hw]; exact Bool.false_ne_true),
      fun hthere => absurd hthere (by rw [hw]; exact Bool.false_ne_true)⟩
  cases hopen with
  | strategy => exact hnone _ rfl
  | bound setup options service provider =>
    exact (calm_boundMachine setup options service provider).solitary (hnone _ rfl)
  | refresher h =>
    rw [openRefresher_eq_ok h]
    refine ⟨fun _ => rfl, fun _ n r hr => ?_⟩
    cases n with
    | zero => rfl
    | succ n => cases hr

/-- A cycle that waits for a lookup is under way. -/
theorem exists_suspended_of_waiter {waiter : Waiter} {phase : List String → Phase} {e : Errand}
    (he : e ∈ waiter.errands phase) :
    ∃ t, waiter.suspended? = some t ∧ t.refresher = e.refresher := by
  cases waiter with
  | binding => cases he
  | cycle =>
    cases List.mem_singleton.mp he
    exact ⟨_, rfl, rfl⟩

/-- A cycle of a frame is under way. -/
theorem exists_suspended_of_frame {f : Frame} {e : Errand} (he : e ∈ f.errands) :
    ∃ t, f.suspended? = some t ∧ t.refresher = e.refresher := by
  cases f with
  | lookup provider number services caller answer =>
    obtain ⟨run, hrun, rfl⟩ := List.mem_map.mp he
    rw [Option.mem_toList] at hrun
    exact ⟨_, by rw [Frame.suspended?, Caller.suspended?, hrun]; rfl, rfl⟩
  | callback | taken =>
    cases List.mem_singleton.mp he
    exact ⟨_, rfl, rfl⟩
  | _ => cases he

/-- A cycle of a job is under way. -/
theorem exists_suspended_of_job {job : Job} {e : Errand} (he : e ∈ job.errands) :
    ∃ t, job.suspended? = some t ∧ t.refresher = e.refresher := by
  cases job with
  | answered waiter answer => exact exists_suspended_of_waiter he
  | taken =>
    cases List.mem_singleton.mp he
    exact ⟨_, rfl, rfl⟩
  | rejected | released => cases he

/-- **A cycle under way is one of a refresher that is there.** -/
theorem Reachable.exists_core_of_mem_errands (h : Reachable m) {e : Errand} (he : e ∈ m.errands) :
    ∃ r, m.world.core? e.refresher = some r := by
  have hheld : ∃ t ∈ m.suspended, t.refresher = e.refresher := by
    simp only [suspended, World.suspended, List.mem_append, List.mem_filterMap]
    rcases List.mem_append.mp he with hframe | hwaiting
    · obtain ⟨f, hf, he⟩ := List.mem_flatMap.mp hframe
      obtain ⟨t, ht, heq⟩ := exists_suspended_of_frame he
      exact ⟨t, .inl ⟨f, hf, ht⟩, heq⟩
    · rcases List.mem_append.mp hwaiting with hwaiting | hcallback
      · rcases List.mem_append.mp hwaiting with hlookup | hjob
        · obtain ⟨l, hl, he⟩ := List.mem_flatMap.mp hlookup
          obtain ⟨t, ht, heq⟩ := exists_suspended_of_waiter he
          exact ⟨t, .inr (.inl (.inl ⟨l, hl, ht⟩)), heq⟩
        · obtain ⟨job, hj, he⟩ := List.mem_flatMap.mp hjob
          obtain ⟨t, ht, heq⟩ := exists_suspended_of_job he
          exact ⟨t, .inr (.inl (.inr ⟨job, hj, ht⟩)), heq⟩
      · rcases hb : m.world.callback with _ | b
        · rw [hb] at hcallback
          cases hcallback
        · rw [hb] at hcallback
          obtain ⟨o, ho, rfl⟩ := List.mem_map.mp hcallback
          exact ⟨o.cycle.suspended, .inr (.inr (List.mem_map_of_mem ho)), rfl⟩
  obtain ⟨t, ht, heq⟩ := hheld
  obtain ⟨r, hr⟩ := Option.isSome_iff_exists.mp (h.backed.isSome_of_holds ⟨t, ht, .refl t⟩)
  exact ⟨r.core, heq ▸ World.core?_of_getElem? hr⟩

/-! ### Warnings -/

/-- A log call that goes through shows one line. -/
theorem length_line {w : World} (hlogs : w.logs = true) (level : Level) (message : String)
    (failure : Option Failure) : (w.line level message failure).length = 1 := by
  rw [World.line]
  split
  · rfl
  · next scope hscope =>
    split
    · rfl
    · next reason hline =>
      -- there is a date
      rw [World.logs, hscope] at hlogs
      rw [Line.stamped] at hline
      cases hstamp : Calendar.stamp w.clock with
      | ok stamp =>
        rw [hstamp] at hline
        cases hline
      | error reason =>
        rw [hstamp] at hlogs
        cases hlogs

/-- **An act is logged with one warning, or with none.** -/
theorem length_flatMap_warning {w : World} (hlogs : w.logs = true) (acts : List Act) :
    (acts.flatMap w.warning).length = acts.countP Act.warns := by
  have hone : ∀ act, (w.warning act).length = if act.warns then 1 else 0 := fun act => by
    cases act with
    | handed service endpoints => exact length_line hlogs ..
    | ended origin failure =>
      cases failure with
      | none => rfl
      | some failure =>
        cases hreason : failure.reason with
        | ok reason =>
          simp only [World.warning, Act.warns, hreason]
          exact length_line hlogs ..
        | error thrown =>
          simp only [World.warning, Act.warns, hreason]
          rfl
    | heard | took => rfl
  induction acts with
  | nil => rfl
  | cons act acts ih =>
    rw [List.flatMap_cons, List.length_append, ih, hone, List.countP_cons, Nat.add_comm]

/-- **What is logged with a transition of a session that has a callback** are the warnings of its
only refresher's cycles. -/
theorem Reachable.length_warnings_next (h : Reachable m) (hlogs : m.world.logs = true)
    (hthere : m.world.callback.isSome = true) : m.next.world.warnings.length =
      m.world.warnings.length + (m.acts 0).countP Act.warns := by
  have hproceeds := h.proceeds_next hlogs
  rw [hproceeds.warnings, List.length_append, acts]
  rcases hdeed : m.deed? with _ | ⟨n', acts⟩
  · rfl
  · rw [hdeed] at hproceeds
    obtain ⟨e, he, e', -⟩ := hproceeds.exists_does
    obtain ⟨he, hn⟩ := List.mem_filter.mp he
    obtain ⟨r', hr'⟩ := h.exists_core_of_mem_errands he
    obtain rfl : n' = 0 := (beq_iff_eq.mp hn).symm.trans (h.solitary.first hthere _ _ hr')
    rw [Option.filter_some, beq_self_eq_true, if_pos rfl]
    exact congrArg (m.world.warnings.length + ·) (length_flatMap_warning hlogs acts)

end Machine
end Balancer.Session
