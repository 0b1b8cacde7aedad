import Balancer.Proofs.Session.Acts
import Balancer.Proofs.Session.Tokens

/-!
# Stretches in which no time passes

Most transitions leave the clock and the timers alone, and what the refreshers know of them. They
only move tokens. This file says so once for every function of the machine, so that what a
transition does to the clockwork can be read off a single list
(`Balancer.Proofs.Session.Beat`).

* `Balancer.Session.World.clockwork?` – **what a refresher knows of its timers and cycles**;
  `Balancer.Session.World.polls` – the lookups that its timers have made.
* `Balancer.Session.World.SameTime` – **worlds with the same clock, timers and clockwork.**
* `Balancer.Session.Machine.Still` – **from a world, tokens and frames to a machine no time
  passes**, and the tokens that the machine does not have are in hand.
* `Balancer.Session.Machine.Still.push`, `Balancer.Session.Machine.Still.enqueue` and so on – what
  is in hand is put in some place.
-/

namespace Balancer

/-- A refresher without the lists that it saw last. -/
def Refresher.clockwork (r : Refresher) : Refresher := { r with snapshot := Table.empty }

namespace Session

/-! ### Clockwork -/

/-- The frame in which the first poll of a refresher is made, if it is one. -/
def Frame.arm? : Frame → Option Nat
  | .arm refresher => some refresher
  | _ => none

/-- The lookup that an event makes for a timer of a refresher: the naming service that is asked, and
the services that it is asked for. -/
def Event.poll? (number : Nat) : Event → Option (String × List String)
  | .lookup provider _ services (.poll refresher _) =>
    if refresher = number then some (provider, services) else none
  | _ => none

namespace World

/-- **What a refresher knows of its timers and cycles.** -/
def clockwork? (w : World) (number : Nat) : Option Refresher :=
  w.refreshers[number]?.map Refresher.clockwork

/-- **The lookups that timers of a refresher have made.** -/
def polls (w : World) (number : Nat) : List (String × List String) :=
  w.trace.toList.filterMap (Event.poll? number)

theorem polls_emit (w : World) (e : Event) (n : Nat) :
    (w.emit e).polls n = w.polls n ++ (e.poll? n).toList := by
  rw [polls, emit, Array.toList_push, List.filterMap_append, polls, List.filterMap_cons]
  cases e.poll? n <;> rfl

theorem clockwork?_modifyRefresher (w : World) {f g : Refresher → Refresher}
    (hfg : ∀ r, (f r).clockwork = g r.clockwork) (number other : Nat) :
    (w.modifyRefresher number f).clockwork? other =
      if number = other then (w.clockwork? other).map g else w.clockwork? other := by
  unfold clockwork? modifyRefresher
  rw [List.getElem?_modify]
  split
  · cases w.refreshers[other]? with
    | none => rfl
    | some r => exact congrArg some (hfg r)
  · simp

/-- **Worlds with the same clock, timers and clockwork**, in which timers have made the same
lookups. -/
structure SameTime (w w' : World) : Prop where
  /-- The same clock. -/
  clock : w'.clock = w.clock
  /-- The same timers. -/
  timers : w'.timers = w.timers
  /-- The same number of the latest timer. -/
  timerCount : w'.timerCount = w.timerCount
  /-- The same clockwork. -/
  clockwork : ∀ n, w'.clockwork? n = w.clockwork? n
  /-- The same lookups. -/
  polls : ∀ n, w'.polls n = w.polls n

theorem SameTime.refl (w : World) : w.SameTime w := ⟨rfl, rfl, rfl, fun _ => rfl, fun _ => rfl⟩

theorem SameTime.trans {w w' w'' : World} (h : w.SameTime w') (h' : w'.SameTime w'') :
    w.SameTime w'' where
  clock := h'.clock.trans h.clock
  timers := h'.timers.trans h.timers
  timerCount := h'.timerCount.trans h.timerCount
  clockwork n := (h'.clockwork n).trans (h.clockwork n)
  polls n := (h'.polls n).trans (h.polls n)

/-- Worlds that have the same tokens. -/
structure SameTokens (w w' : World) : Prop where
  /-- The same open lookups. -/
  lookups : w'.lookups = w.lookups
  /-- The same jobs. -/
  jobs : w'.jobs = w.jobs
  /-- The same callback. -/
  callback : w'.callback = w.callback
  /-- The same number of the latest lookup. -/
  lookupCount : w'.lookupCount = w.lookupCount

theorem SameTokens.tokens {w w' : World} (h : w.SameTokens w') : w'.tokens = w.tokens := by
  rw [World.tokens, World.tokens, h.lookups, h.jobs, h.callback]

theorem SameTokens.issued {w w' : World} (h : w.SameTokens w') : w'.issued = w.issued := by
  funext d
  cases d with
  | lookups => exact h.lookupCount
  | callbacks => rw [World.issued, World.issued, h.callback]

/-! ### Moves of the world in which no time passes -/

variable (w : World)

theorem sameTime_emit {e : Event} (he : ∀ n, e.poll? n = none) : w.SameTime (w.emit e) where
  clock := rfl
  timers := rfl
  timerCount := rfl
  clockwork _ := rfl
  polls n := by rw [polls_emit, he n]; exact List.append_nil _

theorem sameTokens_emit (e : Event) : w.SameTokens (w.emit e) := ⟨rfl, rfl, rfl, rfl⟩

theorem sameTime_log (level : Level) (message : String) (failure : Option Failure) :
    w.SameTime (w.log level message failure).1 := by
  rw [log]
  split
  · exact w.sameTime_emit fun _ => rfl
  · split
    · exact w.sameTime_emit fun _ => rfl
    · exact .refl w

theorem sameTokens_log (level : Level) (message : String) (failure : Option Failure) :
    w.SameTokens (w.log level message failure).1 := by
  rw [log]
  split
  · exact w.sameTokens_emit _
  · split
    · exact w.sameTokens_emit _
    · exact ⟨rfl, rfl, rfl, rfl⟩

theorem sameTime_endBinding (call : Nat) (outcome : Except Failure Unit) :
    w.SameTime (w.endBinding call outcome) := by
  unfold endBinding
  refine SameTime.trans ?_ (sameTime_emit _ fun _ => rfl)
  exact ⟨rfl, rfl, rfl, fun _ => rfl, fun _ => rfl⟩

theorem sameTime_see (number : Nat) (service : String) (endpoints : List Endpoint) :
    w.SameTime (w.modifyRefresher number fun r => r.see service endpoints) where
  clock := rfl
  timers := rfl
  timerCount := rfl
  clockwork n := by
    rw [clockwork?_modifyRefresher w (f := fun r => r.see service endpoints) (g := id) fun _ => rfl,
      Option.map_id_fun, id]
    exact ite_self _
  polls _ := rfl

end World

namespace Machine

/-! ### Still stretches -/

/-- **No time passes** from a world, with tokens and frames, to a machine. The tokens that the
machine does not have are in hand, the frames still lie at the bottom of its stack, and every call
that is new has a number of its own. -/
structure Still (w : World) (tokens : List Token) (k : List Frame) (m : Machine)
    (held : List Token) : Prop where
  /-- The frames lie at the bottom of the stack, and none above them waits for a first poll. -/
  stack : ∃ fs, m.stack = fs ++ k ∧ ∀ f ∈ fs, f.arm? = none
  /-- No time passes. -/
  time : w.SameTime m.world
  /-- Cycles are moved. -/
  flights : ∀ n, Session.flights n held + m.flights n = Session.flights n tokens
  /-- Calls are numbered on. -/
  issued : ∀ d, w.issued d ≤ m.world.issued d
  /-- A number stands for one call. -/
  tickets : ∀ d i, held.count (.ticket d i) + m.tokens.count (.ticket d i) ≤
    tokens.count (.ticket d i) + if w.issued d < i ∧ i ≤ m.world.issued d then 1 else 0

/-- What lies below the frame that is to be taken up. -/
def rest (m : Machine) : List Frame :=
  match m.control with
  | .perform _ => m.stack
  | .deliver _ => m.stack.tail

namespace Still

variable {v w : World} {ts held held' : List Token} {k k₁ : List Frame} {c c' : Control} {m m' : Machine}

/-- **Tokens are moved**, and the frames at the bottom stay. -/
theorem shift (h : Still v ts k m held)
    (hstack : ∀ fs, m.stack = fs ++ k → (∀ f ∈ fs, f.arm? = none) →
      ∃ fs', m'.stack = fs' ++ k ∧ ∀ f ∈ fs', f.arm? = none)
    (htime : m.world.SameTime m'.world) (hissued : m'.world.issued = m.world.issued)
    (hcount : ∀ t, held'.count t + m'.tokens.count t = held.count t + m.tokens.count t) :
    Still v ts k m' held' where
  stack := by
    obtain ⟨fs, heq, harm⟩ := h.stack
    exact hstack fs heq harm
  time := h.time.trans htime
  flights n := by
    have hflights := h.flights n
    have hflight := hcount (.flight n)
    have hlanded := hcount (.landed n)
    simp only [Machine.flights, Session.flights] at hflights ⊢
    omega
  issued d := by
    rw [hissued]
    exact h.issued d
  tickets d i := by
    have htickets := h.tickets d i
    rw [hissued, hcount]
    exact htickets

/-- A machine that has all tokens itself. -/
theorem refl (w : World) (k : List Frame) (c : Control) :
    Still w (⟨w, k, c⟩ : Machine).tokens k ⟨w, k, c⟩ [] where
  stack := ⟨[], rfl, fun _ hf => absurd hf List.not_mem_nil⟩
  time := .refl w
  flights n := Nat.zero_add _
  issued d := Nat.le_refl _
  tickets d i := by simp

/-- **A frame is taken up**: what it held is in hand. -/
theorem pop (w : World) (f : Frame) (k : List Frame) (c c' : Control) :
    Still w (⟨w, f :: k, c⟩ : Machine).tokens k ⟨w, k, c'⟩ (f.tokens ++ []) where
  stack := ⟨[], rfl, fun _ hf => absurd hf List.not_mem_nil⟩
  time := .refl w
  flights n := by
    simp only [Machine.flights, Session.flights, count_world, List.flatMap_cons, List.count_append,
      List.count_nil]
    omega
  issued d := Nat.le_refl _
  tickets d i := by
    rw [count_push, count_world, count_world, List.append_nil]
    omega

/-- **The clockwork is changed**, where the machine has started from: the tokens stay. -/
theorem act {x y : World} (h : Still v ts k ⟨w, k₁, c⟩ held) (hv : v.SameTokens x)
    (hw : w.SameTokens y) (htime : x.SameTime y) : Still x ts k ⟨y, k₁, c⟩ held where
  stack := h.stack
  time := htime
  flights n := by
    have hflights := h.flights n
    simp only [Machine.flights, tokens, hw.tokens] at hflights ⊢
    exact hflights
  issued d := by
    have hissued := h.issued d
    simp only [hv.issued, hw.issued] at hissued ⊢
    exact hissued
  tickets d i := by
    have htickets := h.tickets d i
    simp only [tokens, hv.issued, hw.issued, hw.tokens] at htickets ⊢
    exact htickets

/-- New tokens come into hand. -/
theorem give (h : Still v ts k m held) (new : List Token)
    (hnew : ∀ d i, new.count (.ticket d i) = 0) : Still v (new ++ ts) k m (new ++ held) where
  stack := h.stack
  time := h.time
  flights n := by
    have hflights := h.flights n
    simp only [flights_append] at hflights ⊢
    omega
  issued := h.issued
  tickets d i := by
    have htickets := h.tickets d i
    rw [List.count_append, List.count_append, hnew d i]
    omega

/-- What comes next does not matter. -/
theorem control (h : Still v ts k ⟨w, k₁, c⟩ held) : Still v ts k ⟨w, k₁, c'⟩ held :=
  ⟨h.stack, h.time, h.flights, h.issued, h.tickets⟩

/-- The world may change where neither time nor tokens do. -/
theorem same {x : World} (h : Still v ts k ⟨w, k₁, c⟩ held) (htime : w.SameTime x)
    (htokens : w.SameTokens x) : Still v ts k ⟨x, k₁, c⟩ held :=
  h.shift (fun fs heq harm => ⟨fs, heq, harm⟩) htime htokens.issued fun t => by
    simp only [tokens, htokens.tokens]

/-- **A frame takes up what is in hand.** -/
theorem push {f : Frame} (h : Still v ts k ⟨w, k₁, c⟩ (f.tokens ++ held)) (hf : f.arm? = none) :
    Still v ts k ⟨w, f :: k₁, c⟩ held := by
  refine h.shift (fun fs heq harm => ⟨f :: fs, congrArg (f :: ·) heq, ?_⟩) (.refl w) rfl fun t => ?_
  · rintro g (_ | ⟨_, hg⟩)
    · exact hf
    · exact harm g hg
  · rw [count_push, List.count_append]
    omega

/-- A frame that holds nothing leaves it in hand. -/
theorem push_bare {f : Frame} (h : Still v ts k ⟨w, k₁, c⟩ held) (hf : f.arm? = none)
    (hbare : f.tokens = []) : Still v ts k ⟨w, f :: k₁, c⟩ held :=
  Still.push (by rwa [hbare]) hf

/-- A job takes up what is in hand. -/
theorem enqueue {j : Job} (h : Still v ts k ⟨w, k₁, c⟩ (j.tokens ++ held)) :
    Still v ts k ⟨w.enqueue j, k₁, c⟩ held := by
  refine h.shift (fun fs heq harm => ⟨fs, heq, harm⟩) ⟨rfl, rfl, rfl, fun _ => rfl, fun _ => rfl⟩
    (funext fun d => by cases d <;> rfl) fun t => ?_
  rw [count_world, count_world, count_enqueue, List.count_append]
  omega

/-- **The next job is taken up.** -/
theorem dequeue {job : Job} {jobs : List Job} (h : Still v ts k ⟨w, k₁, c⟩ held)
    (hjobs : w.jobs = job :: jobs) :
    Still v ts k ⟨{ w with jobs := jobs }, k₁, c⟩ (job.tokens ++ held) := by
  refine h.shift (fun fs heq harm => ⟨fs, heq, harm⟩) ⟨rfl, rfl, rfl, fun _ => rfl, fun _ => rfl⟩
    (funext fun d => by cases d <;> rfl) fun t => ?_
  rw [count_world, count_world, count_dequeue hjobs, List.count_append]
  omega

/-- A lookup stays open. -/
theorem openLookup {l : OpenLookup} (h : Still v ts k ⟨w, k₁, c⟩ (l.tokens ++ held)) :
    Still v ts k ⟨{ w with lookups := w.lookups ++ [l] }, k₁, c⟩ held := by
  refine h.shift (fun fs heq harm => ⟨fs, heq, harm⟩) ⟨rfl, rfl, rfl, fun _ => rfl, fun _ => rfl⟩
    (funext fun d => by cases d <;> rfl) fun t => ?_
  rw [count_world, count_world, count_openLookup, List.count_append]
  omega

/-- A callback stays open. -/
theorem openCallback {o : OpenCallback} {b : Callback}
    (h : Still v ts k ⟨w, k₁, c⟩ (o.tokens ++ held)) (hb : w.callback = some b) :
    Still v ts k ⟨{ w with callback := w.callback.map fun b =>
      { b with pending := b.pending ++ [o] } }, k₁, c⟩ held := by
  refine h.shift (fun fs heq harm => ⟨fs, heq, harm⟩) ⟨rfl, rfl, rfl, fun _ => rfl, fun _ => rfl⟩
    (funext fun d => by cases d <;> simp [World.issued, hb]) fun t => ?_
  rw [count_world, count_world, count_openCallback hb, List.count_append]
  omega

/-- **A lookup that is open ends**, if no other has its number. -/
theorem closeLookup {l : OpenLookup} (h : Still v ts k ⟨w, k₁, c⟩ held) (hl : l ∈ w.lookups)
    (hone : w.tokens.count (.ticket .lookups l.number) ≤ 1) :
    Still v ts k ⟨{ w with lookups := w.lookups.filter fun m => m.number != l.number }, k₁, c⟩
      (l.tokens ++ held) := by
  refine h.shift (fun fs heq harm => ⟨fs, heq, harm⟩) ⟨rfl, rfl, rfl, fun _ => rfl, fun _ => rfl⟩
    (funext fun d => by cases d <;> rfl) fun t => ?_
  have hcount := count_closeLookup hl hone t
  rw [count_world, count_world, List.count_append]
  omega

/-- **A callback that is open ends**, if no other has its number. -/
theorem closeCallback {b : Callback} {o : OpenCallback} (h : Still v ts k ⟨w, k₁, c⟩ held)
    (hb : w.callback = some b) (ho : o ∈ b.pending)
    (hone : w.tokens.count (.ticket .callbacks o.number) ≤ 1) :
    Still v ts k ⟨{ w with callback := some { b with
      pending := b.pending.filter fun p => p.number != o.number } }, k₁, c⟩ (o.tokens ++ held) := by
  refine h.shift (fun fs heq harm => ⟨fs, heq, harm⟩) ⟨rfl, rfl, rfl, fun _ => rfl, fun _ => rfl⟩
    (funext fun d => by cases d <;> simp [World.issued, hb]) fun t => ?_
  have hcount := count_closeCallback hb ho hone t
  rw [count_world, count_world, List.count_append]
  omega

/-- The number of a call that has ended is given up. -/
theorem drop {d : Desk} {i : Nat} (h : Still v ts k m (.ticket d i :: held)) :
    Still v ts k m held where
  stack := h.stack
  time := h.time
  flights n := by
    have hflights := h.flights n
    simpa [Session.flights, List.count_cons] using hflights
  issued := h.issued
  tickets d' i' := by
    have htickets := h.tickets d' i'
    have hle : held.count (.ticket d' i') ≤ (Token.ticket d i :: held).count (.ticket d' i') :=
      List.count_le_count_cons
    omega

/-- **A cycle that a timer began settles**, and is to be released. -/
theorem land {n : Nat} (h : Still v ts k ⟨w, k₁, c⟩ (.flight n :: held)) :
    Still v ts k ⟨w.enqueue (.released n), k₁, c⟩ held where
  stack := h.stack
  time := h.time.trans ⟨rfl, rfl, rfl, fun _ => rfl, fun _ => rfl⟩
  flights n' := by
    have hflights := h.flights n'
    simp only [Machine.flights, Session.flights, count_world, count_enqueue, Job.tokens,
      List.count_cons, List.count_nil, beq_iff_eq, Token.flight.injEq, Token.landed.injEq,
      reduceCtorEq, if_false] at hflights ⊢
    omega
  issued d := by cases d <;> exact h.issued _
  tickets d i := by
    have htickets := h.tickets d i
    have hissued : (w.enqueue (.released n)).issued d = w.issued d := by cases d <;> rfl
    rw [List.count_cons_of_ne (by simp)] at htickets
    rw [count_world, count_enqueue, hissued]
    rw [count_world] at htickets
    simpa [Job.tokens] using htickets

/-- A number that is new is in hand. -/
theorem issue {w' : World} {d : Desk} (h : Still v ts k ⟨w, k₁, c⟩ held) (htime : w.SameTime w')
    (htokens : w'.tokens = w.tokens) (hnext : w'.issued d = w.issued d + 1)
    (hother : ∀ d', d' ≠ d → w'.issued d' = w.issued d') :
    Still v ts k ⟨w', k₁, c⟩ (.ticket d (w.issued d + 1) :: held) where
  stack := h.stack
  time := h.time.trans htime
  flights n := by
    have hflights := h.flights n
    simp only [Machine.flights, tokens, htokens] at hflights ⊢
    simpa [Session.flights, List.count_cons] using hflights
  issued d' := by
    have hissued := h.issued d'
    simp only at hissued ⊢
    by_cases hd : d' = d
    · subst hd
      omega
    · rw [hother d' hd]
      exact hissued
  tickets d' i := by
    have htickets := h.tickets d' i
    have hissued := h.issued d'
    simp only [tokens, htokens] at htickets hissued ⊢
    by_cases hd : d' = d
    · subst hd
      by_cases hi : i = w.issued d' + 1
      · -- it has not been used before
        subst hi
        rw [if_neg (by omega)] at htickets
        rw [if_pos (by omega), List.count_cons_self]
        omega
      · rw [List.count_cons_of_ne (by simpa using Ne.symm hi), hnext]
        split at htickets <;> split <;> omega
    · rw [List.count_cons_of_ne (by simpa using fun heq => absurd heq.symm hd), hother d' hd]
      exact htickets

/-! ### The functions of the machine -/

theorem emit (h : Still v ts k ⟨w, k₁, c⟩ held) {e : Event} (he : ∀ n, e.poll? n = none) :
    Still v ts k ⟨w.emit e, k₁, c⟩ held :=
  h.same (w.sameTime_emit he) (w.sameTokens_emit e)

theorem log (h : Still v ts k ⟨w, k₁, c⟩ held) (level : Level) (message : String)
    (failure : Option Failure) : Still v ts k ⟨(w.log level message failure).1, k₁, c⟩ held :=
  h.same (w.sameTime_log level message failure) (w.sameTokens_log level message failure)

theorem logFailure (h : Still v ts k ⟨w, k₁, c⟩ held) (failure : Failure) :
    Still v ts k ⟨(w.logFailure failure).1, k₁, c⟩ held := by
  rw [World.logFailure]
  cases failure.reason with
  | ok reason => exact h.log _ _ _
  | error thrown => exact h

theorem modifyStrategy (h : Still v ts k ⟨w, k₁, c⟩ held) (f : Strategy → Strategy) :
    Still v ts k ⟨w.modifyStrategy f, k₁, c⟩ held :=
  h.same ⟨rfl, rfl, rfl, fun _ => rfl, fun _ => rfl⟩ ⟨rfl, rfl, rfl, rfl⟩

theorem modifyProvider (h : Still v ts k ⟨w, k₁, c⟩ held) (name : String) (f : Provider → Provider) :
    Still v ts k ⟨w.modifyProvider name f, k₁, c⟩ held :=
  h.same ⟨rfl, rfl, rfl, fun _ => rfl, fun _ => rfl⟩ ⟨rfl, rfl, rfl, rfl⟩

theorem callCount (h : Still v ts k ⟨w, k₁, c⟩ held) (count : Nat) :
    Still v ts k ⟨{ w with callCount := count }, k₁, c⟩ held :=
  h.same ⟨rfl, rfl, rfl, fun _ => rfl, fun _ => rfl⟩ ⟨rfl, rfl, rfl, rfl⟩

theorem deferred (h : Still v ts k ⟨w, k₁, c⟩ held) (count : Nat) :
    Still v ts k ⟨{ w with deferred := count }, k₁, c⟩ held :=
  h.same ⟨rfl, rfl, rfl, fun _ => rfl, fun _ => rfl⟩ ⟨rfl, rfl, rfl, rfl⟩

theorem endBinding (h : Still v ts k ⟨w, k₁, c⟩ held) (call : Nat) (outcome : Except Failure Unit) :
    Still v ts k ⟨w.endBinding call outcome, k₁, c⟩ held :=
  h.same (w.sameTime_endBinding call outcome) ⟨rfl, rfl, rfl, rfl⟩

theorem runScript (h : Still v ts k ⟨w, k₁, c⟩ held) (steps : List Step) :
    Still v ts k (runScript w k₁ steps) held := by
  cases steps with
  | nil => exact h.control
  | cons step rest => exact (h.push (f := .script rest) rfl).control

theorem notify (h : Still v ts k ⟨w, k₁, c⟩ held) (change : Membership) :
    Still v ts k (notify w k₁ change) held := by
  rw [Machine.notify]
  split
  · exact h.control
  · split
    · next reactions _ _ =>
      have hemit : ∀ notice n, (Event.notice notice).poll? n = none := fun _ _ => rfl
      exact (((h.emit (hemit _)).modifyStrategy fun s => { s with listener := some reactions.tail }).push
        (f := .listener _) rfl).runScript _
    · exact h.control

theorem reset (h : Still v ts k ⟨w, k₁, c⟩ held) (service : String) (endpoints : List Endpoint) :
    Still v ts k (reset w k₁ service endpoints) held :=
  (h.modifyStrategy _).notify _

/-- **A naming service is asked.** The cycle that asks waits in a frame. -/
theorem lookup {provider : String} {services : List String} {caller : Caller}
    (h : Still v ts k ⟨w.emit (.lookup provider (w.lookupCount + 1) services caller), k₁, c⟩
      (caller.tokens ++ held)) :
    Still v ts k (lookup w k₁ provider services caller) held := by
  let w' : World := ({ w with lookupCount := w.lookupCount + 1 } : World).emit
    (.lookup provider (w.lookupCount + 1) services caller)
  have hissued : Still v ts k ⟨w', k₁, c⟩
      (.ticket .lookups (w.lookupCount + 1) :: (caller.tokens ++ held)) := by
    refine h.issue (d := .lookups) ⟨rfl, rfl, rfl, fun _ => rfl, fun _ => rfl⟩ rfl rfl ?_
    intro d hd
    cases d with
    | lookups => exact absurd rfl hd
    | callbacks => rfl
  rw [Machine.lookup]
  exact ((hissued.modifyProvider provider _).push (f := .lookup provider _ services caller _) rfl).runScript _

/-- A lookup that no timer has made. -/
theorem lookup_untimed (h : Still v ts k ⟨w, k₁, c⟩ held) (provider : String) (services : List String)
    {caller : Caller} (hcaller : caller.tokens = []) :
    Still v ts k (Machine.lookup w k₁ provider services caller) held := by
  have hcall : ∀ n, (Event.lookup provider (w.lookupCount + 1) services caller).poll? n = none := by
    intro n
    cases caller with
    | poll => exact absurd hcaller (by simp [Caller.tokens])
    | _ => rfl
  refine Still.lookup (c := c) ?_
  rw [hcaller]
  exact h.emit hcall

/-- **The callback is called.** The cycle waits in a frame. -/
theorem callBack {b : Callback} {cycle : Cycle}
    (h : Still v ts k ⟨w, k₁, c⟩ (cycle.tokens ++ held)) (hb : w.callback = some b) (service : String)
    (endpoints : List Endpoint) : Still v ts k (callBack w k₁ b cycle service endpoints) held := by
  let w' : World := { w with callback := some { b with
    reactions := b.reactions.tail, count := b.count + 1 } }
  have hissued : Still v ts k ⟨w', k₁, c⟩ (.ticket .callbacks (b.count + 1) :: (cycle.tokens ++ held)) := by
    have hnumber : w.issued .callbacks = b.count := by rw [World.issued, hb]; rfl
    rw [← hnumber]
    refine h.issue (d := .callbacks) ⟨rfl, rfl, rfl, fun _ => rfl, fun _ => rfl⟩ ?_ ?_ ?_
    · simp only [World.tokens, hb, w', Option.elim_some, Callback.tokens]
    · rw [hnumber]
      rfl
    · intro d hd
      cases d with
      | lookups => rfl
      | callbacks => exact absurd rfl hd
  rw [Machine.callBack]
  exact ((hissued.emit (e := .callback _ service endpoints) fun _ => rfl).push
    (f := .callback _ cycle _) rfl).runScript _

/-- **A cycle settles.** -/
theorem endCycle {n : Nat} {o : Origin} (h : Still v ts k ⟨w, k₁, c⟩ (o.tokens n ++ held))
    (outcome : Except Failure Unit) : Still v ts k ⟨w.endCycle n o outcome, k₁, c⟩ held := by
  cases o with
  | timer => exact h.land
  | call number => exact h.emit (e := .ended number outcome) fun _ => rfl

theorem failCycle {n : Nat} {o : Origin} (h : Still v ts k ⟨w, k₁, c⟩ (o.tokens n ++ held))
    (failure : Failure) : Still v ts k ⟨w.failCycle n o failure, k₁, c⟩ held :=
  (h.logFailure failure).endCycle _

/-- A call of the listener that was left to a step ends. -/
theorem settleListener (h : Still v ts k ⟨w, k₁, c⟩ held) (outcome : Except Failure Unit) :
    Still v ts k (settleListener w k₁ outcome) held := by
  rw [Machine.settleListener]
  split
  · exact h.control
  · next left _ =>
    have hended := (h.deferred left).emit (e := .listenerEnded outcome) fun _ => rfl
    cases outcome with
    | ok => exact hended.control
    | error failure => exact (hended.enqueue (j := .rejected failure)).control

/-- **A changed list is applied**, unless logging fails. -/
theorem applyChange {cycle : Cycle} (h : Still v ts k ⟨w, k₁, c⟩ (cycle.tokens ++ held))
    (handler : Handler) (change : Refresher.Change) :
    Still v ts k (applyChange w k₁ cycle handler change) held := by
  rw [Machine.applyChange]
  have hlogged := h.log .warn ("A new changed list getting from naming service name='" ++
    change.service ++ "' value=" ++ Endpoint.listText change.endpoints) none
  split
  · next w' failure hlog =>
    rw [hlog] at hlogged
    exact (hlogged.failCycle failure).control
  · next w' _ hlog =>
    rw [hlog] at hlogged
    have hseen : Still v ts k ⟨w'.modifyRefresher cycle.refresher fun r =>
        r.see change.service change.endpoints, k₁, c⟩
        (({ cycle with remaining := change.remaining } : Cycle).tokens ++ held) :=
      hlogged.same (w'.sameTime_see _ _ _) ⟨rfl, rfl, rfl, rfl⟩
    dsimp only
    split
    · exact (hseen.push (f := .taken _) rfl).reset _ _
    · next b _ hb => exact hseen.callBack hb _ _
    · exact (hseen.enqueue (j := .taken _ _)).control

/-- **A cycle goes on**, if its refresher is there. -/
theorem goOn {cycle : Cycle} (h : Still v ts k ⟨w, k₁, c⟩ (cycle.tokens ++ held))
    (hthere : w.refreshers[cycle.refresher]?.isSome = true) :
    Still v ts k (goOn w k₁ cycle) held := by
  rw [Machine.goOn]
  split
  · next hnone =>
    rw [hnone] at hthere
    exact absurd hthere (by simp)
  · split
    · exact (h.endCycle _).control
    · split
      · exact (h.endCycle _).control
      · exact h.applyChange _ _

/-- **A naming service answers its caller.** -/
theorem answer {provider : String} {number : Nat} {services : List String} {caller : Caller}
    (h : Still v ts k ⟨w, k₁, c⟩ (.ticket .lookups number :: (caller.tokens ++ held)))
    (reply : Answer) : Still v ts k (answer w k₁ provider number services caller reply) held := by
  unfold Machine.answer
  cases caller with
  | binding service =>
    have hcounted := h.callCount (w.callCount + 1)
    cases reply with
    | settled settlement => exact (hcounted.drop.enqueue (j := .answered (.binding _ service provider) _)).control
    | throws failure => exact (hcounted.drop.endBinding _ _).control
    | pending => exact (hcounted.openLookup (l := ⟨number, provider, services, .binding _ service provider⟩)).control
  | poll refresher generation =>
    cases reply with
    | settled settlement =>
      exact (h.drop.enqueue (j := .answered (.cycle refresher generation .timer services) _)).control
    | throws failure => exact (h.drop.failCycle (o := .timer) failure).control
    | pending =>
      exact (h.openLookup
        (l := ⟨number, provider, services, .cycle refresher generation .timer services⟩)).control
  | refresh refresher generation =>
    have hcounted := h.callCount (w.callCount + 1)
    cases reply with
    | settled settlement =>
      exact (hcounted.drop.enqueue (j := .answered (.cycle refresher generation (.call _) services) _)).control
    | throws failure => exact (hcounted.drop.failCycle (o := .call _) failure).control
    | pending =>
      exact (hcounted.openLookup
        (l := ⟨number, provider, services, .cycle refresher generation (.call _) services⟩)).control

end Still

end Machine

end Session

end Balancer
