import Balancer.Proofs.Session.Backlog
import Balancer.Proofs.Session.Rebinding
import Mathlib.Data.List.Find

/-!
# A call that is not made

A call that binds the strategy asks a naming service, and fails if the lookup fails. The session in
which the call is not made goes on in the same way all the same, whatever else happens while the
lookup is open: at every point of the one session there is one of the other that differs only in the
lookup itself, the work that its answer makes, and the two events that tell of the call.

* `Balancer.Session.BindingCall`, `Balancer.Session.CallState` – **a call that binds the
  strategy**, and what has become of it.
* `Balancer.Session.World.Spares` – **a world and the one in which a call was not made.**
* `Balancer.Session.Machine.forgo`, `Balancer.Session.Machine.Spared` – **sessions in which a call
  is not made.**
* `Balancer.Session.Machine.Spares.next` – a transition of the one session is one of the other,
  unless it concerns the call.
* `Balancer.Session.Machine.Reachable.failed_rebinding_leaves_no_trace` – **a call whose lookup
  fails fails with it, and changes nothing else.**
-/

namespace Balancer.Session

/-! ### Lists with something put in -/

/-- **Something has been put into a list** at one place. -/
def Inserted {α : Type} (extra xs ys : List α) : Prop :=
  ∃ before after, xs = before ++ after ∧ ys = before ++ (extra ++ after)

section Inserted

variable {α : Type} {extra xs ys : List α} {x y : α}

theorem inserted_end (extra xs : List α) : Inserted extra xs (xs ++ extra) :=
  ⟨xs, [], (List.append_nil xs).symm, by rw [List.append_nil]⟩

theorem inserted_nil_iff : Inserted [] xs ys ↔ ys = xs := by
  constructor
  · rintro ⟨before, after, rfl, rfl⟩
    rfl
  · rintro rfl
    exact ⟨[], ys, rfl, rfl⟩

theorem Inserted.append (h : Inserted extra xs ys) (zs : List α) :
    Inserted extra (xs ++ zs) (ys ++ zs) := by
  obtain ⟨before, after, rfl, rfl⟩ := h
  exact ⟨before, after ++ zs, by rw [List.append_assoc], by simp only [List.append_assoc]⟩

theorem Inserted.eq_nil (h : Inserted extra xs []) : extra = [] ∧ xs = [] := by
  obtain ⟨before, after, rfl, hys⟩ := h
  obtain ⟨rfl, hrest⟩ := List.append_eq_nil_iff.mp hys.symm
  obtain ⟨rfl, rfl⟩ := List.append_eq_nil_iff.mp hrest
  exact ⟨rfl, rfl⟩

/-- What comes first has been put in, or has come first before. -/
theorem Inserted.cons (h : Inserted extra xs (y :: ys)) :
    (∃ rest, extra = y :: rest ∧ ys = rest ++ xs) ∨
      ∃ xs', xs = y :: xs' ∧ Inserted extra xs' ys := by
  obtain ⟨before, after, rfl, hys⟩ := h
  cases before with
  | nil =>
    cases extra with
    | nil => exact .inr ⟨ys, hys.symm, inserted_nil_iff.mpr rfl⟩
    | cons z rest =>
      obtain ⟨rfl, rfl⟩ := List.cons.inj hys
      exact .inl ⟨rest, rfl, rfl⟩
  | cons z before =>
    obtain ⟨rfl, rfl⟩ := List.cons.inj hys
    exact .inr ⟨before ++ after, rfl, before, after, rfl, rfl⟩

theorem Inserted.filter (h : Inserted extra xs ys) (p : α → Bool) :
    Inserted (extra.filter p) (xs.filter p) (ys.filter p) := by
  obtain ⟨before, after, rfl, rfl⟩ := h
  exact ⟨before.filter p, after.filter p, List.filter_append .., by simp only [List.filter_append]⟩

theorem Inserted.find? (h : Inserted [x] xs ys) {p : α → Bool} (hp : p x = false) :
    ys.find? p = xs.find? p := by
  obtain ⟨before, after, rfl, rfl⟩ := h
  have hx : [x].find? p = none := by simp [hp]
  rw [List.find?_append, List.find?_append, List.find?_append, hx, Option.none_or]

/-- **The first of a list** that comes before all others is the one that has been put in, or the
first one without it. -/
theorem Inserted.find?_first (h : Inserted [x] xs ys) {r : α → α → Bool}
    (htrans : ∀ a b c, r a b = true → r b c = true → r a c = true)
    (htotal : ∀ a b, r a b = true ∨ r b a = true)
    (hfresh : ∀ y ∈ xs, ¬ (r x y = true ∧ r y x = true)) :
    ys.find? (fun y => ys.all (r y)) = some x ∨
      ys.find? (fun y => ys.all (r y)) = xs.find? fun y => xs.all (r y) := by
  have hall : ∀ y, ys.all (r y) = (r y x && xs.all (r y)) := by
    intro y
    obtain ⟨before, after, rfl, rfl⟩ := h
    simp only [List.all_append, List.all_cons, List.all_nil, Bool.and_true]
    ac_rfl
  simp only [hall]
  cases hx : xs.all (r x) with
  | true =>
    -- nothing else comes before all, and the new one does
    have hxx : r x x = true := (htotal x x).elim id id
    have hnone : ∀ y ∈ xs, (r y x && xs.all (r y)) = false := by
      intro y hy
      have hxy : r x y = true := List.all_eq_true.mp hx y hy
      rw [Bool.eq_false_iff.mpr fun hyx => hfresh y hy ⟨hxy, hyx⟩, Bool.false_and]
    refine .inl ?_
    obtain ⟨before, after, rfl, rfl⟩ := h
    have hbefore : before.find? (fun y => r y x && (before ++ after).all (r y)) = none :=
      List.find?_eq_none.mpr fun y hy =>
        Bool.eq_false_iff.mp (hnone y (List.mem_append_left after hy))
    rw [List.find?_append, hbefore, Option.none_or, List.singleton_append, List.find?_cons_of_pos]
    rw [hxx, hx, Bool.and_self]
  | false =>
    refine .inr ?_
    have hp : (r x x && xs.all (r x)) = false := by rw [hx, Bool.and_false]
    rw [h.find? hp]
    -- what comes before all others comes before the new one, which some other comes before
    refine List.find?_congr fun y hy => ?_
    cases hy' : xs.all (r y) with
    | false => rw [Bool.and_false]
    | true =>
      rw [Bool.and_true]
      refine (htotal y x).elim id fun hxy => ?_
      have hall : xs.all (r x) = true :=
        List.all_eq_true.mpr fun z hz => htrans x y z hxy (List.all_eq_true.mp hy' z hz)
      rw [hx] at hall
      cases hall

end Inserted

/-- **The one of several numbered things that is meant** is the one that has been put in, or the one
that is meant without it. -/
theorem Machine.pick?_of_inserted {α : Type} {number : α → Nat} {x : α} {xs ys : List α}
    (h : Inserted [x] xs ys) (hfresh : ∀ y ∈ xs, number y ≠ number x) (which : Which) :
    pick? number ys which = some x ∨ pick? number ys which = pick? number xs which := by
  cases which with
  | number n =>
    by_cases hx : number x = n
    · obtain ⟨before, after, rfl, rfl⟩ := h
      have hbefore : before.find? (fun y => number y == n) = none := by
        refine List.find?_eq_none.mpr fun y hy => ?_
        rw [beq_iff_eq, ← hx]
        exact hfresh y (List.mem_append_left after hy)
      refine .inl ?_
      rw [pick?, List.find?_append, hbefore, Option.none_or, List.singleton_append,
        List.find?_cons_of_pos (by rw [hx, beq_self_eq_true])]
    · exact .inr (h.find? (beq_eq_false_iff_ne.mpr hx))
  | oldest =>
    refine h.find?_first (r := fun y z => decide (number y ≤ number z)) (fun a b c hab hbc => ?_)
      (fun a b => ?_) fun y hy hboth => ?_
    · exact decide_eq_true (Nat.le_trans (of_decide_eq_true hab) (of_decide_eq_true hbc))
    · simp only [decide_eq_true_eq]
      exact Nat.le_total _ _
    · simp only [decide_eq_true_eq] at hboth
      exact hfresh y hy (Nat.le_antisymm hboth.2 hboth.1)
  | newest =>
    refine h.find?_first (r := fun y z => decide (number z ≤ number y)) (fun a b c hab hbc => ?_)
      (fun a b => ?_) fun y hy hboth => ?_
    · exact decide_eq_true (Nat.le_trans (of_decide_eq_true hbc) (of_decide_eq_true hab))
    · simp only [decide_eq_true_eq]
      exact Nat.le_total _ _
    · simp only [decide_eq_true_eq] at hboth
      exact hfresh y hy (Nat.le_antisymm hboth.1 hboth.2)

/-! ### A call and what becomes of it -/

/-- **A call that binds the strategy** to a service. -/
structure BindingCall where
  /-- The naming service. -/
  provider : String
  /-- The service. -/
  service : String
  /-- The number of its lookup. -/
  lookup : Nat
  /-- The number of the call. -/
  number : Nat

namespace BindingCall

/-- Its lookup, while that is open. -/
def pending (call : BindingCall) : OpenLookup :=
  ⟨call.lookup, call.provider, [call.service], .binding call.number call.service call.provider⟩

/-- The work that waits when the lookup has failed. -/
def answered (call : BindingCall) (failure : Failure) : Job :=
  .answered (.binding call.number call.service call.provider) (.error failure)

/-- The event that tells of the lookup. -/
def asks (call : BindingCall) : Event :=
  .lookup call.provider call.lookup [call.service] (.binding call.service)

/-- **The event that tells of its end**: it fails for its service, and the failure of the lookup is
the cause, if it has a text. -/
def fails (call : BindingCall) (failure : Failure) : Event :=
  .ended call.number (.error (.ofLookup call.service failure))

end BindingCall

/-- **What has become of a call** whose lookup does not succeed. -/
inductive CallState
  /-- The lookup is open. -/
  | waiting
  /-- The lookup has failed, and the call goes on when the work that waits is done. -/
  | failing (failure : Failure)
  /-- The call has failed. -/
  | failed (failure : Failure)

namespace CallState

/-- The failure of the lookup. -/
def cause? : CallState → Option Failure
  | waiting => none
  | failing cause | failed cause => some cause

/-- What is open for the call. -/
def lookups (call : BindingCall) : CallState → List OpenLookup
  | waiting => [call.pending]
  | _ => []

/-- What waits for the call. -/
def jobs (call : BindingCall) : CallState → List Job
  | failing cause => [call.answered cause]
  | _ => []

/-- What has happened to the call since its lookup was made. -/
def events (call : BindingCall) : CallState → List Event
  | failed cause => [call.fails cause]
  | _ => []

end CallState

/-- How an open lookup fails, if it does. -/
def Settlement.failure? : Settlement → Option Failure
  | .failure cause => some cause
  | _ => none

/-- How a lookup fails with the call or after it, if it does. -/
def Answer.failure? : Answer → Option Failure
  | .settled settlement => settlement.failure?
  | .throws cause => some cause
  | .pending => none

/-- The lookup stays open. -/
def Answer.opens : Answer → Bool
  | .pending => true
  | _ => false

theorem Answer.eq_pending_of_opens {reply : Answer} (h : reply.opens = true) :
    reply = .pending := by
  cases reply with
  | pending => rfl
  | settled | throws => cases h

/-- What has come out. -/
def Control.outcome? : Control → Option Outcome
  | .deliver outcome => some outcome
  | .perform _ => none

theorem Control.eq_deliver_of_outcome? {c : Control} {outcome : Outcome}
    (h : c.outcome? = some outcome) : c = .deliver outcome := by
  cases c with
  | perform => cases h
  | deliver => rw [Option.some.inj h]

/-! ### Worlds -/

/-- **A world and the one in which a call was not made.** They differ in what is open, waits and has
happened for the call; what had happened before the call is the same. -/
structure World.Spares (call : BindingCall) (past : Array Event) (state : CallState) (w v : World) :
    Prop where
  /-- All else is the same. -/
  rest : v.bare = w.bare
  /-- The lookup is open in the one. -/
  lookups : Inserted (state.lookups call) v.lookups w.lookups
  /-- The call waits in the one. -/
  jobs : Inserted (state.jobs call) v.jobs w.jobs
  /-- The lookup and the end of the call have happened in the one. -/
  trace : ∃ news news' : Array Event,
    v.trace = past ++ news ∧ w.trace = past.push call.asks ++ news' ∧
      Inserted (state.events call) news.toList news'.toList

/-- **A point of a session and one of a session in which a call was not made**: the same remains to
be done, and the same comes next. -/
structure Machine.Spares (call : BindingCall) (past : Array Event) (state : CallState)
    (a b : Machine) : Prop where
  /-- The worlds. -/
  world : a.world.Spares call past state b.world
  /-- The same remains to be done. -/
  stack : b.stack = a.stack
  /-- The same step is made next, or the same has come out. -/
  control : b.control = a.control

variable {call : BindingCall} {past : Array Event} {state : CallState} {w v : World}
  {k : List Frame} {c : Control}

theorem World.Spares.machine (h : w.Spares call past state v) (k : List Frame) (c : Control) :
    Machine.Spares call past state ⟨w, k, c⟩ ⟨v, k, c⟩ :=
  ⟨h, rfl, rfl⟩

/-- What is done on top of both goes the same way. -/
theorem World.Spares.atop (h : w.Spares call past state v) (x : Machine) :
    Machine.Spares call past state (x.atop w.backlog) (x.atop v.backlog) := by
  obtain ⟨news, news', hv, hw, hevents⟩ := h.trace
  refine ⟨⟨rfl, h.lookups.append _, h.jobs.append _, news ++ x.world.trace, news' ++ x.world.trace,
    ?_, ?_, ?_⟩, rfl, rfl⟩
  · show v.trace ++ x.world.trace = _
    rw [hv, Array.append_assoc]
  · show w.trace ++ x.world.trace = _
    rw [hw, Array.append_assoc]
  · rw [Array.toList_append, Array.toList_append]
    exact hevents.append _

/-- **What does not depend on what is open, waits or has happened goes the same way in both
worlds.** -/
theorem World.Spares.congr (h : w.Spares call past state v) {f : World → Machine}
    (hf : ∀ u b, b.deferred = 0 → f (u.atop b) = (f u).atop b) :
    Machine.Spares call past state (f w) (f v) := by
  have hv : v.bare.atop v.backlog = v := v.atop_bare
  rw [h.rest] at hv
  rw [← w.atop_bare, ← hv, hf _ _ rfl, hf _ _ rfl]
  exact h.atop (f w.bare)

/-- **What has become of the call** shows in the work that waits, or in what has happened. -/
theorem World.Spares.tells (h : w.Spares call past state v) {cause : Failure}
    (hcause : state.cause? = some cause) :
    call.answered cause ∈ w.jobs ∨ call.fails cause ∈ w.trace.toList := by
  cases state with
  | waiting => cases hcause
  | failing =>
    cases hcause
    obtain ⟨before, after, -, hjobs⟩ := h.jobs
    refine .inl ?_
    rw [hjobs]
    exact List.mem_append_right before List.mem_cons_self
  | failed =>
    cases hcause
    obtain ⟨news, news', -, hw, before, after, -, hnews⟩ := h.trace
    refine .inr ?_
    rw [hw, Array.toList_append, hnews]
    exact List.mem_append_right _ (List.mem_append_right before List.mem_cons_self)

/-- The listener has been told the same. -/
theorem World.Spares.notices (h : w.Spares call past state v) : v.notices = w.notices := by
  obtain ⟨news, news', hv, hw, before, after, hnews, hnews'⟩ := h.trace
  have hevents : (state.events call).filterMap Event.notice? = [] := by
    cases state <;> rfl
  have hasks : call.asks.notice? = none := rfl
  rw [World.notices, World.notices, hv, hw, Array.toList_append, Array.toList_append,
    Array.toList_push, hnews, hnews']
  simp only [List.filterMap_append, hevents, List.nil_append, List.filterMap_cons, hasks,
    List.filterMap_nil, List.append_nil]

/-- **Everything else is the same**: the strategy, the refreshers, the timers and what the listener
has been told, and the clock. -/
theorem World.Spares.same (h : w.Spares call past state v) :
    v.strategy = w.strategy ∧ v.refreshers = w.refreshers ∧ v.timers = w.timers ∧
      v.notices = w.notices ∧ v.clock = w.clock := by
  have hrest : ∀ {α : Type} (f : World → α), f v.bare = f w.bare := fun f => congrArg f h.rest
  exact ⟨hrest World.strategy, hrest World.refreshers, hrest World.timers, h.notices,
    hrest World.clock⟩

/-- The next piece of work is the same in both worlds. -/
theorem World.Spares.dequeue (h : w.Spares call past state v) {jobs js : List Job}
    (hjobs : Inserted (state.jobs call) js jobs) :
    ({ w with jobs := jobs } : World).Spares call past state { v with jobs := js } :=
  ⟨h.rest, h.lookups, hjobs, h.trace⟩

namespace Machine

variable {a b a' b' m : Machine}

/-! ### Sessions in which a call is not made -/

/-- **The call is not made**: the naming service drops its answer, so that others get theirs as
before, and the numbers of the lookup and of the call are given to no other. -/
def forgo (m : Machine) (provider : String) : Machine :=
  let w := m.world.modifyProvider provider fun p => { p with script := p.script.tail }
  give { w with lookupCount := w.lookupCount + 1, callCount := w.callCount + 1 } m.stack
    (.call (w.callCount + 1))

/-- **A moment passes** in which a piece of work could be done, and nothing is done. -/
def idle (m : Machine) : Machine :=
  match m.stack, m.control with
  | .settle first :: k, .deliver outcome => done m.world (.settle (some (first.getD outcome)) :: k)
  | .advance time true :: k, .deliver _ => done m.world (.advance time true :: k)
  | _, _ => m

/-- **How a session goes on in which a call is not made**: by a transition; or a lookup is not ended
that was not made, or the work is not done that its end would make. -/
inductive Goes (b : Machine) : Machine → Prop
  /-- By a transition. -/
  | next : Goes b b.next
  /-- A lookup is not ended. -/
  | pass {which : Which} {settlement : Settlement}
      (h : b.control = .perform (.settle which settlement)) : Goes b (done b.world b.stack)
  /-- Nothing is done for a moment. -/
  | idle : Goes b b.idle

/-- **A session in which a call is not made**, with the points that it goes through. -/
inductive Spared (m : Machine) : List Machine → Machine → Prop
  /-- It begins. -/
  | refl : Spared m [] m
  /-- It goes on. -/
  | go {seen : List Machine} {b b' : Machine} (h : Spared m seen b) (goes : Goes b b') :
      Spared m (seen ++ [b]) b'
  /-- A step is performed next, or a timer fires. -/
  | enter {seen : List Machine} {b b' : Machine} (h : Spared m seen b) (enters : Enters b b') :
      Spared m seen b'

/-- **What a step is to end a lookup with**, if it ends it. -/
def ends? (m : Machine) (lookup : Nat) : Option Settlement :=
  match m.control with
  | .perform (.settle which settlement) =>
    (pick? OpenLookup.number m.world.lookups which).bind fun l =>
      if l.number = lookup then some settlement else none
  | _ => none

/-- The failure that a step is to end a lookup with. -/
def fails? (m : Machine) (lookup : Nat) : Option Failure :=
  (m.ends? lookup).bind Settlement.failure?

/-- **A lookup does not succeed** with the next transition. -/
def Denies (lookup : Nat) (m : Machine) : Prop :=
  ∀ settlement, m.ends? lookup = some settlement → settlement.failure?.isSome = true

instance (lookup : Nat) (m : Machine) : Decidable (m.Denies lookup) :=
  decidable_of_iff
    ((m.ends? lookup).all (fun settlement => settlement.failure?.isSome) = true) <| by
    rw [Denies]
    cases m.ends? lookup <;> simp

theorem ends?_of_not_settles {step : Step} (hstep : step.settles = false) (lookup : Nat) :
    ends? ⟨w, k, .perform step⟩ lookup = none := by
  cases step with
  | settle => cases hstep
  | _ => rfl

/-- A strategy that is built is not given up. -/
theorem filter_of_built (hbuilt : ∀ s, w.strategy = some s → s.building = false) :
    w.strategy.filter (fun s => !s.building) = w.strategy := by
  cases hs : w.strategy with
  | none => rfl
  | some s =>
    rw [Option.filter_some, hbuilt s hs]
    rfl

/-! ### Lookups that are ended -/

/-- A lookup is ended in both worlds. -/
theorem spares_settle (h : w.Spares call past state v) {which : Which} (settlement : Settlement)
    (hpick : pick? OpenLookup.number w.lookups which = pick? OpenLookup.number v.lookups which)
    (hkeeps : ∀ l, pick? OpenLookup.number v.lookups which = some l →
      (state.lookups call).filter (fun m => m.number != l.number) = state.lookups call) :
    Machine.Spares call past state (settle w k which settlement) (settle v k which settlement) := by
  cases hl : pick? OpenLookup.number v.lookups which with
  | none =>
    simp only [settle, hpick, hl]
    exact h.machine k _
  | some l =>
    have hanswer (ls ls' : List OpenLookup) :
        settlementOf { v with lookups := ls } l.provider l.services settlement =
          settlementOf { w with lookups := ls' } l.provider l.services settlement := by
      cases settlement with
      | registry =>
        show Except.ok (some (Registry.list (v.bare.registry l.provider) l.services)) = _
        rw [h.rest]
        rfl
      | _ => rfl
    simp only [settle, hpick, hl, hanswer _ (w.lookups.filter fun m => m.number != l.number)]
    have hlookups := h.lookups.filter fun m => m.number != l.number
    rw [hkeeps l hl] at hlookups
    exact ⟨⟨h.rest, hlookups, h.jobs.append _, h.trace⟩, rfl, rfl⟩

/-- **The lookup of the call fails**; where it was not made, it is not ended. -/
theorem spares_pass (h : w.Spares call past .waiting v)
    (hfresh : ∀ l ∈ v.lookups, l.number ≠ call.lookup) {which : Which} {failure : Failure}
    (hpick : pick? OpenLookup.number w.lookups which = some call.pending) :
    Machine.Spares call past (.failing failure) (settle w k which (.failure failure))
      (done v k) := by
  have hlookups := h.lookups.filter fun m => m.number != call.lookup
  have hkept : v.lookups.filter (fun m => m.number != call.lookup) = v.lookups :=
    List.filter_eq_self.mpr fun l hl => bne_iff_ne.mpr (hfresh l hl)
  have hgone : (CallState.waiting.lookups call).filter (fun m => m.number != call.lookup) = [] := by
    simp [CallState.lookups, BindingCall.pending]
  rw [hkept, hgone] at hlookups
  have hjobs : w.jobs = v.jobs := inserted_nil_iff.mp h.jobs
  rw [settle, hpick]
  refine ⟨⟨h.rest, hlookups, ?_, h.trace⟩, rfl, rfl⟩
  show Inserted [call.answered failure] v.jobs (w.jobs ++ [call.answered failure])
  rw [hjobs]
  exact inserted_end _ _

/-- **A step ends a lookup** in the session, or none. -/
theorem exists_spares_settle (h : w.Spares call past state v)
    (hfresh : state.lookups call = [] ∨ ∀ l ∈ v.lookups, l.number ≠ call.lookup) {which : Which}
    {settlement : Settlement}
    (hdenies : Denies call.lookup ⟨w, k, .perform (.settle which settlement)⟩) :
    ∃ b' state', Goes ⟨v, k, .perform (.settle which settlement)⟩ b' ∧
      Machine.Spares call past state' (settle w k which settlement) b' ∧
      state'.cause? =
        state.cause?.or (fails? ⟨w, k, .perform (.settle which settlement)⟩ call.lookup) := by
  -- the step of both sessions, where the lookup of the call is not meant
  have hboth
      (hpick : pick? OpenLookup.number w.lookups which = pick? OpenLookup.number v.lookups which)
      (hother : state.lookups call = [] ∨
        ∀ l, pick? OpenLookup.number v.lookups which = some l → l.number ≠ call.lookup) :
      Machine.Spares call past state (settle w k which settlement)
        (settle v k which settlement) := by
    refine spares_settle h settlement hpick fun l hl => ?_
    rcases hother with hnone | hother
    · rw [hnone, List.filter_nil]
    · cases state with
      | waiting =>
        refine List.filter_eq_self.mpr fun m hm => ?_
        rw [List.mem_singleton.mp hm]
        exact bne_iff_ne.mpr (hother l hl).symm
      | failing | failed => rfl
  cases state with
  | failing cause | failed cause =>
    exact ⟨_, _, .next, hboth (congrArg (pick? OpenLookup.number · which)
      (inserted_nil_iff.mp h.lookups)) (.inl rfl), rfl⟩
  | waiting =>
    have hfresh' : ∀ l ∈ v.lookups, l.number ≠ call.lookup :=
      hfresh.resolve_left (by simp [CallState.lookups])
    rcases pick?_of_inserted h.lookups hfresh' which with hpick | hpick
    · have hends :
          ends? ⟨w, k, .perform (.settle which settlement)⟩ call.lookup = some settlement := by
        simp only [ends?, hpick, Option.bind_some, BindingCall.pending, if_true]
      obtain ⟨cause, hcause⟩ := Option.isSome_iff_exists.mp (hdenies settlement hends)
      cases settlement with
      | failure cause' =>
        cases hcause
        refine ⟨_, _, .pass rfl, spares_pass h hfresh' hpick, ?_⟩
        rw [fails?, hends]
        rfl
      | _ => cases hcause
    · have hother : ∀ l, pick? OpenLookup.number v.lookups which = some l →
          l.number ≠ call.lookup := fun l hl => hfresh' l (mem_of_pick? hl)
      refine ⟨_, _, .next, hboth hpick (.inr hother), ?_⟩
      have hends : ends? ⟨w, k, .perform (.settle which settlement)⟩ call.lookup = none := by
        rw [ends?]
        dsimp only
        rw [hpick]
        refine Option.bind_eq_none_iff.mpr fun l hl => if_neg (hother l hl)
      rw [fails?, hends]
      rfl

/-! ### Work that waits -/

/-- **A piece of work is done** in both sessions, or the call fails in the one. -/
theorem exists_spares_work (h : w.Spares call past state v) {job : Job} {jobs : List Job}
    (hjobs : w.jobs = job :: jobs) (hbuilt : ∀ s, w.strategy = some s → s.building = false) :
    (∃ cause, state = .failing cause ∧
      Machine.Spares call past (.failed cause) (work { w with jobs := jobs } k job) (done v k)) ∨
    ∃ js, v.jobs = job :: js ∧
      Machine.Spares call past state (work { w with jobs := jobs } k job)
        (work { v with jobs := js } k job) := by
  have hinserted := h.jobs
  rw [hjobs] at hinserted
  rcases hinserted.cons with ⟨rest, hextra, hrest⟩ | ⟨js, hjs, hrest⟩
  · cases state with
    | waiting | failed => cases hextra
    | failing cause =>
      cases hextra
      refine .inl ⟨cause, rfl, ?_⟩
      obtain ⟨news, news', hv, hw, hevents⟩ := h.trace
      have hsame : news'.toList = news.toList := inserted_nil_iff.mp hevents
      refine ⟨⟨?_, h.lookups, ?_, news, news'.push (call.fails cause), hv, ?_, ?_⟩, rfl, rfl⟩
      · -- the strategy is built, and stays
        show v.bare = { w.bare with strategy := w.strategy.filter fun s => !s.building }
        rw [filter_of_built hbuilt, h.rest]
        rfl
      · exact inserted_nil_iff.mpr hrest
      · show w.trace.push (call.fails cause) = _
        rw [hw, Array.push_append]
      · rw [Array.toList_push, hsame]
        exact inserted_end _ _
  · exact .inr ⟨js, hjs, (h.dequeue hrest).congr (f := fun u => work u k job) fun u b _ =>
      work_atop u b k job⟩

/-- A frame below which the work that waits is done first: its work is done in both sessions, or the
call fails in the one. -/
theorem exists_spares_of_works (h : w.Spares call past state v) {f : Frame} {outcome : Outcome}
    (hbuilt : ∀ s, w.strategy = some s → s.building = false) (first : List Frame)
    (hworks : ∀ u : World, ∀ job jobs, u.jobs = job :: jobs →
      resume u k outcome f = work { u with jobs := jobs } first job)
    (hidle : idle ⟨v, f :: k, .deliver outcome⟩ = done v first)
    (hnone : w.jobs = [] → v.jobs = [] →
      Machine.Spares call past state (resume w k outcome f) (resume v k outcome f)) :
    ∃ b' state', Goes ⟨v, f :: k, .deliver outcome⟩ b' ∧
      Machine.Spares call past state' (resume w k outcome f) b' ∧ state'.cause? = state.cause? := by
  cases hjobs : w.jobs with
  | nil =>
    have hinserted := h.jobs
    rw [hjobs] at hinserted
    exact ⟨_, _, .next, hnone hjobs hinserted.eq_nil.2, rfl⟩
  | cons job jobs =>
    rw [hworks w job jobs hjobs]
    rcases exists_spares_work (k := first) h hjobs hbuilt with
      ⟨cause, rfl, hfailed⟩ | ⟨js, hjs, hboth⟩
    · exact ⟨_, _, hidle ▸ .idle, hfailed, rfl⟩
    · rw [← hworks v job js hjs] at hboth
      exact ⟨_, _, .next, hboth, rfl⟩

/-- Where no work waits, the first timer that is due fires in both sessions, or time is up. -/
theorem spares_advance (h : w.Spares call past state v) (outcome : Outcome) (time : Binary64)
    (hw : w.jobs = []) (hv : v.jobs = []) :
    Machine.Spares call past state (resume w k outcome (.advance time true))
      (resume v k outcome (.advance time true)) := by
  have hgoes {u : World} (hu : u.jobs = []) : resume u k outcome (.advance time true) =
      (Timer.firstDue? u.timers time).elim (done { u with clock := time } k)
        (fire u (.advance time true :: k)) := by
    rw [resume_advance fun hwaits => hwaits.2 hu]
    cases Timer.firstDue? u.timers time <;> rfl
  rw [hgoes hw, hgoes hv]
  refine h.congr (f := fun u => (Timer.firstDue? u.timers time).elim
    (done { u with clock := time } k) (fire u (.advance time true :: k))) fun u b _ => ?_
  have htimers : (u.atop b).timers = u.timers := rfl
  rw [htimers]
  cases Timer.firstDue? u.timers time with
  | none => rfl
  | some t => exact fire_atop u b _ t

/-- **What returned is taken up** in both sessions, or the call fails in the one. -/
theorem exists_spares_resume (h : w.Spares call past state v) (f : Frame) (outcome : Outcome)
    (hbuilt : ∀ s, w.strategy = some s → s.building = false) :
    ∃ b' state', Goes ⟨v, f :: k, .deliver outcome⟩ b' ∧
      Machine.Spares call past state' (resume w k outcome f) b' ∧ state'.cause? = state.cause? := by
  have hsame (hsettle : ∀ first, f ≠ .settle first) (hadvance : ∀ time, f ≠ .advance time true) :
      ∃ b' state', Goes ⟨v, f :: k, .deliver outcome⟩ b' ∧
        Machine.Spares call past state' (resume w k outcome f) b' ∧ state'.cause? = state.cause? :=
    ⟨_, _, .next, h.congr (f := fun u => resume u k outcome f) fun u b _ =>
      resume_atop u b k outcome hsettle hadvance, rfl⟩
  cases f with
  | settle first =>
    refine exists_spares_of_works h hbuilt (.settle (some (first.getD outcome)) :: k)
      (fun u job jobs hjobs => ?_) rfl fun hw hv => ?_
    · simp only [resume, hjobs]
    · simp only [resume, hw, hv]
      exact h.machine k _
  | advance time settling =>
    cases settling with
    | true =>
      refine exists_spares_of_works h hbuilt (.advance time true :: k)
        (fun u job jobs hjobs => ?_) rfl (spares_advance h outcome time)
      simp only [resume, hjobs]
    | false => exact hsame (by simp) (by simp)
  | _ => exact hsame (by simp) (by simp)

/-! ### Transitions -/

/-- **A transition of the one session is one of the other**, unless it concerns the call: then the
other one goes on without it. -/
theorem Spares.next (h : a.Spares call past state b)
    (hbuilt : ∀ s, a.world.strategy = some s → s.building = false)
    (hfresh : state.lookups call = [] ∨ ∀ l ∈ b.world.lookups, l.number ≠ call.lookup)
    (hdenies : a.Denies call.lookup) :
    ∃ b' state', Goes b b' ∧ a.next.Spares call past state' b' ∧
      state'.cause? = state.cause?.or (a.fails? call.lookup) := by
  obtain ⟨w, k, c⟩ := a
  obtain ⟨v, k', c'⟩ := b
  obtain ⟨hworld, hstack, hcontrol⟩ := h
  cases hstack
  cases hcontrol
  cases c with
  | perform step =>
    cases hstep : step.settles with
    | true =>
      cases step with
      | settle which settlement => exact exists_spares_settle hworld hfresh hdenies
      | _ => cases hstep
    | false =>
      refine ⟨_, state, .next, hworld.congr (f := fun u => perform u k step) fun u b hb =>
        perform_atop u b k hstep fun _ => .inl hb, ?_⟩
      rw [fails?, ends?_of_not_settles hstep, Option.bind_none, Option.or_none]
  | deliver outcome =>
    cases k with
    | nil => exact ⟨_, state, .next, hworld.machine [] _, (Option.or_none ..).symm⟩
    | cons f k =>
      obtain ⟨b', state', hgoes, hspares, hcause⟩ :=
        exists_spares_resume (k := k) hworld f outcome hbuilt
      exact ⟨b', state', hgoes, hspares, hcause.trans (Option.or_none ..).symm⟩

/-- What comes from outside comes to both sessions. -/
theorem Spares.enter (h : a.Spares call past state b) (he : Enters a a') :
    ∃ b', Enters b b' ∧ a'.Spares call past state b' := by
  obtain ⟨v, k', c'⟩ := b
  obtain ⟨hworld, hstack, hcontrol⟩ := h
  cases he with
  | perform w outcome step =>
    cases hstack
    cases hcontrol
    exact ⟨_, .perform v outcome step, hworld.machine _ _⟩
  | interject w first outcome step =>
    cases hstack
    cases hcontrol
    exact ⟨_, .interject v first outcome step, hworld.machine _ _⟩
  | @fire w outcome t ht =>
    cases hstack
    cases hcontrol
    have ht' : t ∈ v.bare.timers := hworld.rest ▸ ht
    exact ⟨_, .fire v outcome ht', hworld.congr (f := fun u => fire u [.settle none] t) fun u b _ =>
      fire_atop u b _ t⟩

/-! ### Runs -/

/-- No other lookup that is open has the number of the lookup of the call. -/
theorem Spares.fresh (h : a.Spares call past state b) (ha : a.Numbered) :
    state.lookups call = [] ∨ ∀ l ∈ b.world.lookups, l.number ≠ call.lookup := by
  cases state with
  | failing | failed => exact .inl rfl
  | waiting =>
    refine .inr fun l hl hnumber => ?_
    obtain ⟨before, after, hb, hlookups⟩ := h.world.lookups
    have honce := ha.once .lookups call.lookup
    have hpending : 0 < call.pending.tokens.count (.ticket .lookups call.lookup) :=
      List.count_pos_iff.mpr List.mem_cons_self
    have hother : 0 < (b.world.lookups.flatMap OpenLookup.tokens).count
        (.ticket .lookups call.lookup) :=
      List.count_pos_iff.mpr (List.mem_flatMap.mpr ⟨l, hl, hnumber ▸ List.mem_cons_self⟩)
    simp only [tokens, World.tokens, hlookups, CallState.lookups, List.flatMap_append,
      List.flatMap_cons, List.flatMap_nil, List.append_nil, List.count_append] at honce
    rw [hb, List.flatMap_append, List.count_append] at hother
    omega

/-- **A whole run of the session has one of the session in which the call is not made**, point by
point. -/
theorem Stretch.exists_spared {seen : List Machine} {s : Strategy}
    (hrun : Stretch (Denies call.lookup) (fun x => [x]) a seen a') (ha : Reachable a)
    (hs : a.world.strategy = some s) (hbuilt : s.building = false)
    (h : a.Spares call past state b) :
    ∃ b' seen' state', Spared b seen' b' ∧
      List.Forall₂ (fun x y => ∃ state, x.Spares call past state y) seen seen' ∧
      a'.Spares call past state' b' ∧
      state'.cause? = state.cause?.or (seen.findSome? fun x => x.fails? call.lookup) := by
  induction hrun with
  | refl => exact ⟨b, [], state, .refl, .nil, h, (Option.or_none ..).symm⟩
  | @next seen x hrun denies ih =>
    obtain ⟨y, seen', state', hspared, hpoints, hspares, hcause⟩ := ih
    have hx : Reachable x := ha.run hrun.run
    obtain ⟨s', hs', hbuilt'⟩ := hrun.exists_of_built ha hs hbuilt
    obtain ⟨y', state'', hgoes, hspares', hcause'⟩ := hspares.next
      (fun s hs => by cases hs'.symm.trans hs; exact hbuilt') (hspares.fresh hx.numbered) denies
    refine ⟨y', seen' ++ [y], state'', hspared.go hgoes, ?_, hspares', ?_⟩
    · exact List.rel_append hpoints (.cons ⟨state', hspares⟩ .nil)
    · rw [hcause', hcause, List.findSome?_append, Option.or_assoc]
      simp
  | @enter seen x x' hrun enters ih =>
    obtain ⟨y, seen', state', hspared, hpoints, hspares, hcause⟩ := ih
    obtain ⟨y', henters, hspares'⟩ := hspares.enter enters
    exact ⟨y', seen', state', hspared.enter henters, hpoints, hspares', hcause⟩

/-! ### The call -/

/-- The naming service is asked, which makes no call of its own. -/
def askedFor (w : World) (k : List Frame) (service provider : String) (reply : Answer) : Machine :=
  done ((({ w with lookupCount := w.lookupCount + 1 } : World).emit
    (.lookup provider (w.lookupCount + 1) [service] (.binding service))).modifyProvider provider
      fun p => { p with script := p.script.tail })
    (.lookup provider (w.lookupCount + 1) [service] (.binding service) reply :: k)

theorem next_rebind {s : Strategy} {service provider : String} {reply : Answer}
    {rest : List Response} (hs : w.strategy? = some s)
    (hscript : (w.providers.get? provider).map Provider.script = some ((reply, []) :: rest)) :
    next ⟨w, k, .perform (.rebind service provider)⟩ = askedFor w k service provider reply := by
  obtain ⟨p, hp, hp'⟩ := Option.map_eq_some_iff.mp hscript
  have hprovider : ((({ w with lookupCount := w.lookupCount + 1 } : World).emit
      (.lookup provider (w.lookupCount + 1) [service] (.binding service))).providers.get?
        provider).elim [] Provider.script = (reply, []) :: rest := by
    show (w.providers.get? provider).elim [] Provider.script = _
    rw [hp, Option.elim_some, hp']
  simp only [next, perform, Step.drivesRefresher, Bool.false_eq_true, if_false, hs, performStrategy,
    lookup, hprovider, List.headD_cons, runScript, askedFor]

/-- A call that binds the strategy, made next. -/
def nextBinding (m : Machine) (service provider : String) : BindingCall :=
  ⟨provider, service, m.world.lookupCount + 1, m.world.callCount + 1⟩

/-- **After the call has returned**, the session is one in which the call is not made, but for what
is open, waits or has happened for it. -/
theorem exists_spares_forgo {s : Strategy} {service provider : String} {reply : Answer}
    {rest : List Response} (hcontrol : m.control = .perform (.rebind service provider))
    (hs : m.world.strategy? = some s)
    (hscript : (m.world.providers.get? provider).map Provider.script = some ((reply, []) :: rest))
    (hreply : ∀ settlement, reply = .settled settlement → settlement.failure?.isSome = true) :
    ∃ state,
      (run 2 m).Spares (m.nextBinding service provider) m.world.trace state (m.forgo provider) ∧
        state.cause? = reply.failure? := by
  obtain ⟨w, k, c⟩ := m
  cases hcontrol
  have hrun : run 2 ⟨w, k, .perform (.rebind service provider)⟩ =
      next (askedFor w k service provider reply) := by
    rw [run_succ, run_succ, next_rebind hs hscript]
    rfl
  rw [hrun]
  cases reply with
  | pending =>
    refine ⟨.waiting,
      ⟨⟨rfl, inserted_end _ _, inserted_nil_iff.mpr rfl, #[], #[], ?_, ?_, ?_⟩, rfl, rfl⟩, rfl⟩
    · exact Array.append_empty.symm
    · exact Array.append_empty.symm
    · exact inserted_nil_iff.mpr rfl
  | settled settlement =>
    obtain ⟨cause, hcause⟩ := Option.isSome_iff_exists.mp (hreply settlement rfl)
    cases settlement with
    | failure cause' =>
      cases hcause
      refine ⟨.failing cause,
        ⟨⟨rfl, inserted_nil_iff.mpr rfl, inserted_end _ _, #[], #[], ?_, ?_, ?_⟩, rfl, rfl⟩, rfl⟩
      · exact Array.append_empty.symm
      · exact Array.append_empty.symm
      · exact inserted_nil_iff.mpr rfl
    | _ => cases hcause
  | throws cause =>
    have hthere : w.strategy = some s ∧ s.building = false := by
      obtain ⟨hs, hbuilt⟩ := Option.filter_eq_some_iff.mp hs
      exact ⟨hs, by simpa using hbuilt⟩
    let call := nextBinding ⟨w, k, .perform (.rebind service provider)⟩ service provider
    let fails := call.fails cause
    refine ⟨.failed cause, ⟨⟨?_, inserted_nil_iff.mpr rfl, inserted_nil_iff.mpr rfl, #[], #[fails],
      ?_, ?_, ?_⟩, rfl, rfl⟩, rfl⟩
    · -- the strategy is built, and stays
      have hkept := filter_of_built (w := w) fun s' hs' => by
        cases hthere.1.symm.trans hs'
        exact hthere.2
      show _ = { (forgo ⟨w, k, .perform (.rebind service provider)⟩ provider).world.bare with
        strategy := w.strategy.filter fun s => !s.building }
      rw [hkept]
      rfl
    · exact Array.append_empty.symm
    · rfl
    · exact inserted_end _ _

/-- The session waits for the naming service alone. -/
theorem engaged_of_rebind {step : Step} (h : m.control = .perform step) : Engaged m := by
  intro b hl
  cases hl with
  | next => rfl
  | perform | interject | fire => cases h

theorem engaged_askedFor (service provider : String) (reply : Answer) :
    Engaged (askedFor w k service provider reply) := by
  intro b hl
  cases hl
  rfl

/-- **A call that binds the strategy and whose lookup fails leaves no trace.** A step makes the
call, and the naming service makes no calls of its own; it throws, or answers with a failure, or
leaves the lookup open, which is never ended otherwise than with a failure. The call returns at
once. From then on, whatever happens, there is for every run of the session one of the session in
which the call is not made, its other lookups being answered as before. At every point they have the
same to do and deliver the same outcomes, and their worlds are the same but for the open lookup, the
work that waits for the call and the two events that tell of its lookup and of its end; so are, in
particular, the strategy with its tables, its election and its binding, the refreshers with what
they have seen, the timers, and what the listener has been told. When the lookup has failed, the
call fails as soon as that work is done. If the failure of the lookup has a text, the call fails for
the service that it was to bind the strategy to, and that failure is the cause; otherwise the call
fails as forming the text does. -/
theorem Reachable.failed_rebinding_leaves_no_trace (h : Reachable m) {service provider : String}
    {reply : Answer} {rest : List Response}
    (hcontrol : m.control = .perform (.rebind service provider))
    (hthere : m.world.strategy?.isSome = true)
    (hscript : (m.world.providers.get? provider).map Provider.script = some ((reply, []) :: rest))
    (hreply : ∀ settlement, reply = .settled settlement → settlement.failure?.isSome = true) :
    (∀ i < 2, Engaged (Machine.run i m)) ∧
    (Machine.run 2 m).control = .deliver (.ok (.call (m.world.callCount + 1))) ∧
    ∀ seen a, Stretch (Denies (m.world.lookupCount + 1)) (fun x => [x]) (Machine.run 2 m) seen a →
      ∃ seen' b state, Spared (m.forgo provider) seen' b ∧
        List.Forall₂ (fun x y => ∃ state,
          x.Spares (m.nextBinding service provider) m.world.trace state y) seen seen' ∧
        a.Spares (m.nextBinding service provider) m.world.trace state b ∧
        (b.world.strategy = a.world.strategy ∧ b.world.refreshers = a.world.refreshers ∧
          b.world.timers = a.world.timers ∧ b.world.notices = a.world.notices ∧
          b.world.clock = a.world.clock) ∧
        state.cause? =
          reply.failure?.or (seen.findSome? fun x => x.fails? (m.world.lookupCount + 1)) ∧
        ∀ cause, state.cause? = some cause →
          .answered (.binding (m.world.callCount + 1) service provider) (.error cause) ∈
              a.world.jobs ∨
            (∀ reason, cause.reason = .ok reason →
              .ended (m.world.callCount + 1) (.error (.lookup service cause)) ∈
                a.world.trace.toList) ∧
            (∀ thrown, cause.reason = .error thrown →
              .ended (m.world.callCount + 1) (.error thrown) ∈ a.world.trace.toList) := by
  obtain ⟨s, hs⟩ := Option.isSome_iff_exists.mp hthere
  obtain ⟨state, hspares, hcause⟩ := exists_spares_forgo hcontrol hs hscript hreply
  have hnext : m.next = askedFor m.world m.stack service provider reply := by
    obtain ⟨w, k, c⟩ := m
    cases hcontrol
    exact next_rebind hs hscript
  refine ⟨fun i hi => ?_, hspares.control.symm, fun seen a hrun => ?_⟩
  · match i with
    | 0 => exact engaged_of_rebind hcontrol
    | 1 =>
      rw [run_succ, Machine.run, hnext]
      exact engaged_askedFor service provider reply
  · -- the strategy is there and built when the call returns, as it was before
    obtain ⟨hstrategy, hbuilt⟩ := Option.filter_eq_some_iff.mp hs
    have hafter : (Machine.run 2 m).world.strategy = some s :=
      (hspares.world.same.1).symm.trans hstrategy
    obtain ⟨b, seen', state', hspared, hpoints, hspares', hcause'⟩ := hrun.exists_spared
      (h.run (run_of_transitions 2 m)) hafter (by simpa using hbuilt) hspares
    refine ⟨seen', b, state', hspared, hpoints, hspares', hspares'.world.same,
      by rw [hcause', hcause]; rfl, fun cause hcause => ?_⟩
    refine (hspares'.world.tells hcause).imp_right fun hended => ⟨fun reason hreason => ?_,
      fun thrown hthrown => ?_⟩
    · rw [BindingCall.fails, Failure.ofLookup_of_ok hreason] at hended
      exact hended
    · rw [BindingCall.fails, Failure.ofLookup_of_error hthrown] at hended
      exact hended

/-- A strategy polls here while the call waits for its lookup; then the first poll is made, the
lookup fails, and a target is elected. The call has failed, and the same target is elected without
it. -/
theorem failed_rebinding_leaves_no_trace_of_polling :
    ∃ m a b seen seen', Reachable m ∧ m.control = .perform (.rebind "other" "registry") ∧
      Stretch (Denies 2) (fun x => [x]) (Machine.run 2 m) seen a ∧
      Spared (m.forgo "registry") seen' b ∧
      a.control = .deliver (.ok (.targets ["10.0.0.1:80"])) ∧ b.control = a.control ∧
      b.world.strategy = a.world.strategy ∧ b.world.refreshers = a.world.refreshers ∧
      a.world.lookupCount = 3 ∧
      .ended 2 (.error (.lookup "other" .notInitialized)) ∈ a.world.trace.toList := by
  let registry : Registry := .ofList [("echo", [⟨"10.0.0.1", .ofNat 80⟩])]
  let setup : Setup := ⟨.zero, ⟨none, none⟩, false, .ofList [("registry", ⟨registry, []⟩)]⟩
  let m₀ := Machine.run 9 (boundMachine setup ⟨none, none, none⟩ "echo" "registry")
  have h₀ : Reachable m₀ :=
    (Opens.bound setup ⟨none, none, none⟩ "echo" "registry").reachable.run (run_of_transitions 9 _)
  let m₁ := Machine.run 4
    (m₀.world.machine (.startPolling (some (.ofNat 10)) (some (.ofNat 20))))
  let m₂ := Machine.run 4 (m₁.world.machine (.prepare "registry" [(.pending, [])]))
  have h₁ : Run m₀ m₁ := run_of_step (by decide +kernel) _ _
  have h₂ : Run m₁ m₂ := run_of_step (by decide +kernel) _ _
  -- the call is made, and polling goes on while its lookup is open
  let m := m₂.world.machine (.rebind "other" "registry")
  have h₃ : Run m₂ m := run_of_step (by decide +kernel) (.rebind "other" "registry") 0
  have hm : Reachable m := h₀.run ((h₁.trans h₂).trans h₃)
  let a₁ := Machine.run 4 (Machine.run 2 m)
  let a₂ := Machine.run 12 (a₁.world.machine (.advance (.ofNat 10)))
  let a₃ := Machine.run 8 (a₂.world.machine (.settle .newest (.failure .notInitialized)))
  let a := Machine.run 4 (a₃.world.machine (.elect 1))
  have hcalled : Stretch (Denies 2) (fun x => [x]) (Machine.run 2 m) _ a₁ :=
    stretch_of_transitions _ 4 _ (by decide +kernel)
  have hpolled : Stretch (Denies 2) (fun x => [x]) a₁ _ a₂ :=
    stretch_of_step _ (by decide +kernel) (.advance (.ofNat 10)) 12 (by decide +kernel)
  have hfailed : Stretch (Denies 2) (fun x => [x]) a₂ _ a₃ :=
    stretch_of_step _ (by decide +kernel) (.settle .newest (.failure .notInitialized)) 8
      (by decide +kernel)
  have helected : Stretch (Denies 2) (fun x => [x]) a₃ _ a :=
    stretch_of_step _ (by decide +kernel) (.elect 1) 4 (by decide +kernel)
  have hrun := ((hcalled.trans hpolled).trans hfailed).trans helected
  have hcontrol : m.control = .perform (.rebind "other" "registry") := rfl
  have hprepared : ((m.world.providers.get? "registry").map Provider.script).map
      (List.map fun r => (r.1.opens, r.2.isEmpty)) = some [(true, true)] := by decide +kernel
  have hscript :
      (m.world.providers.get? "registry").map Provider.script = some [(.pending, [])] := by
    obtain ⟨script, hscript, hone⟩ := Option.map_eq_some_iff.mp hprepared
    obtain ⟨⟨reply, steps⟩, rest, rfl, hreply, hrest⟩ := List.map_eq_cons_iff.mp hone
    obtain ⟨hopens, hempty⟩ := Prod.mk.inj hreply
    obtain rfl : reply = .pending := Answer.eq_pending_of_opens hopens
    obtain rfl : steps = [] := List.isEmpty_iff.mp hempty
    rw [hscript, List.map_eq_nil_iff.mp hrest]
  have hcount : m.world.lookupCount = 1 ∧ m.world.callCount = 1 := by decide +kernel
  obtain ⟨-, -, hspared⟩ := hm.failed_rebinding_leaves_no_trace hcontrol (by decide +kernel) hscript
    (fun _ hreply => by cases hreply)
  rw [hcount.1, hcount.2] at hspared
  obtain ⟨seen', b, state, hb, -, hspares, hsame, hcause, htells⟩ := hspared _ _ hrun
  have hknown : state.cause? = some .notInitialized := hcause.trans (by decide +kernel)
  have hdone : a.world.jobs.isEmpty = true := by decide +kernel
  have helects : a.control.outcome? = some (.ok (.targets ["10.0.0.1:80"])) := by decide +kernel
  have htold := (htells .notInitialized hknown).resolve_left fun hmem => by
    rw [List.isEmpty_iff.mp hdone] at hmem
    cases hmem
  have hended := htold.1 _ rfl
  exact ⟨m, a, b, _, seen', hm, hcontrol, hrun, hb, Control.eq_deliver_of_outcome? helects,
    hspares.control, hsame.1, hsame.2.1, by decide +kernel, hended⟩

/-- A lookup may fail with something that has no text. Then the call fails with a failure of another
kind, which tells neither of the service nor of the cause. -/
theorem failed_rebinding_without_text :
    ∃ m a, Reachable m ∧ m.control = .perform (.rebind "echo" "registry") ∧
      Run (Machine.run 2 m) a ∧
      .answered (.binding 2 "echo" "registry")
          (.error (.textless (.raised .type "Cannot convert object to primitive value"))) ∈
        (Machine.run 2 m).world.jobs ∧
      a.finished = true ∧
      a.world.trace.toList.filterMap Event.ending? = [(1, .ok ()),
        (2, .error (.raised .type "Cannot convert object to primitive value"))] := by
  let thrown : Failure := .raised .type "Cannot convert object to primitive value"
  let registry : Registry := .ofList [("echo", [⟨"10.0.0.1", .ofNat 80⟩])]
  let setup : Setup := ⟨.zero, ⟨none, none⟩, false, .ofList [("registry", ⟨registry,
    [(.settled .registry, []), (.settled (.failure (.textless thrown)), [])]⟩)]⟩
  let m₀ := Machine.run 9 (boundMachine setup ⟨none, none, none⟩ "echo" "registry")
  have h₀ : Reachable m₀ :=
    (Opens.bound setup ⟨none, none, none⟩ "echo" "registry").reachable.run (run_of_transitions 9 _)
  let m := m₀.world.machine (.rebind "echo" "registry")
  have hm : Reachable m :=
    h₀.run (run_of_step (by decide +kernel) (.rebind "echo" "registry") 0)
  exact ⟨m, Machine.run 9 (Machine.run 2 m), hm, rfl, run_of_transitions 9 _, .head _,
    by decide +kernel, by decide +kernel⟩

end Machine

end Balancer.Session
