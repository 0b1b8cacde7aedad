import Balancer.Session.Transition
import Mathlib.Data.List.Basic

/-!
# What a session holds at once

A lookup, a callback, or a cycle that a timer began is in one place at a time: in a frame, in
a lookup or callback that is open, or in a job. This file counts these places. Every one of them
holds *tokens*, and what a transition moves it takes from one place and puts in another.

* `Balancer.Session.Token` – **what is held**: a cycle that a timer began, unsettled or settled,
  or the number of a call.
* `Balancer.Session.Machine.tokens` – **all tokens of a machine**, with an equation for every
  operation that moves one.
* `Balancer.Session.Machine.flights` – **the cycles of a refresher that a timer began** and that
  have not been released; `Balancer.Session.Machine.unsettled` are those that have not settled.
-/

namespace Balancer.Session

/-! ### Tokens -/

/-- **Where calls are numbered.** -/
inductive Desk
  /-- The lookups. -/
  | lookups
  /-- The callbacks. -/
  | callbacks
  deriving DecidableEq

/-- **What a place in a session holds.** -/
inductive Token
  /-- A cycle that a timer of a refresher began, which has not settled. -/
  | flight (refresher : Nat)
  /-- A cycle that a timer of a refresher began, which has settled and is to be released. -/
  | landed (refresher : Nat)
  /-- The number of a call. -/
  | ticket (desk : Desk) (number : Nat)
  deriving DecidableEq

/-- The cycle that a lookup is made for, if a timer began it. -/
def Caller.tokens : Caller → List Token
  | .poll refresher _ => [.flight refresher]
  | _ => []

/-- A cycle of a refresher, if a timer began it. -/
def Origin.tokens (refresher : Nat) : Origin → List Token
  | .timer => [.flight refresher]
  | .call _ => []

/-- A cycle, if a timer began it. -/
def Cycle.tokens (cycle : Cycle) : List Token := cycle.origin.tokens cycle.refresher

/-- The cycle that waits for a lookup, if a timer began it. -/
def Waiter.tokens : Waiter → List Token
  | .binding .. => []
  | .cycle refresher _ origin _ => origin.tokens refresher

/-- What a job holds. -/
def Job.tokens : Job → List Token
  | .answered waiter _ => waiter.tokens
  | .taken cycle _ => cycle.tokens
  | .rejected _ => []
  | .released refresher => [.landed refresher]

/-- What an open lookup holds. -/
def OpenLookup.tokens (l : OpenLookup) : List Token :=
  .ticket .lookups l.number :: l.waiter.tokens

/-- What an open callback holds. -/
def OpenCallback.tokens (o : OpenCallback) : List Token :=
  .ticket .callbacks o.number :: o.cycle.tokens

/-- What a frame holds. -/
def Frame.tokens : Frame → List Token
  | .lookup _ number _ caller _ => .ticket .lookups number :: caller.tokens
  | .callback number cycle _ => .ticket .callbacks number :: cycle.tokens
  | .taken cycle => cycle.tokens
  | _ => []

/-- What the open callbacks hold. -/
def Callback.tokens (c : Callback) : List Token := c.pending.flatMap OpenCallback.tokens

/-- What is held outside the stack. -/
def World.tokens (w : World) : List Token :=
  w.lookups.flatMap OpenLookup.tokens ++ (w.jobs.flatMap Job.tokens ++
    w.callback.elim [] Callback.tokens)

/-- **All that is held.** -/
def Machine.tokens (m : Machine) : List Token := m.stack.flatMap Frame.tokens ++ m.world.tokens

/-- The number of the latest call at a desk. -/
def World.issued (w : World) : Desk → Nat
  | .lookups => w.lookupCount
  | .callbacks => w.callback.elim 0 Callback.count

/-! ### Cycles that a timer began -/

/-- Cycles of a refresher among tokens. -/
def flights (refresher : Nat) (tokens : List Token) : Nat :=
  tokens.count (.flight refresher) + tokens.count (.landed refresher)

theorem flights_append (n : Nat) (ts ts' : List Token) :
    flights n (ts ++ ts') = flights n ts + flights n ts' := by
  simp only [flights, List.count_append]
  omega

namespace Machine

/-- **The cycles of a refresher that a timer began** and that have not been released. -/
def flights (m : Machine) (number : Nat) : Nat := Session.flights number m.tokens

/-- **The cycles of a refresher that a timer began and that have not settled.** -/
def unsettled (m : Machine) (number : Nat) : Nat := m.tokens.count (.flight number)

/-- Cycles of a refresher that a timer began: they have settled, and the work that this makes
ready has not been done. -/
def landed (m : Machine) (number : Nat) : Nat := m.tokens.count (.landed number)

theorem flights_eq (m : Machine) (number : Nat) :
    m.flights number = m.unsettled number + m.landed number := rfl

/-! ### Tokens that are moved -/

variable {w : World} {k : List Frame} {c : Control}

@[simp]
theorem count_push (f : Frame) (t : Token) :
    (⟨w, f :: k, c⟩ : Machine).tokens.count t =
      f.tokens.count t + (⟨w, k, c⟩ : Machine).tokens.count t := by
  simp only [tokens, List.flatMap_cons, List.count_append]
  omega

theorem count_world (w : World) (k : List Frame) (c : Control) (t : Token) :
    (⟨w, k, c⟩ : Machine).tokens.count t =
      (k.flatMap Frame.tokens).count t + w.tokens.count t := by
  simp only [tokens, List.count_append]

theorem count_enqueue (w : World) (job : Job) (t : Token) :
    (w.enqueue job).tokens.count t = w.tokens.count t + job.tokens.count t := by
  simp only [World.enqueue, World.tokens, List.flatMap_append, List.flatMap_singleton,
    List.count_append]
  omega

theorem count_dequeue {job : Job} {jobs : List Job} (h : w.jobs = job :: jobs) (t : Token) :
    w.tokens.count t = job.tokens.count t + ({ w with jobs := jobs } : World).tokens.count t := by
  simp only [World.tokens, h, List.flatMap_cons, List.count_append]
  omega

theorem count_openLookup (w : World) (l : OpenLookup) (t : Token) :
    ({ w with lookups := w.lookups ++ [l] } : World).tokens.count t =
      w.tokens.count t + l.tokens.count t := by
  simp only [World.tokens, List.flatMap_append, List.flatMap_singleton, List.count_append]
  omega

theorem count_openCallback {b : Callback} (hb : w.callback = some b) (o : OpenCallback)
    (t : Token) :
    ({ w with callback := w.callback.map fun b => { b with pending := b.pending ++ [o] } } :
      World).tokens.count t = w.tokens.count t + o.tokens.count t := by
  simp only [World.tokens, hb, Option.map_some, Option.elim_some, Callback.tokens,
    List.flatMap_append, List.flatMap_singleton, List.count_append]
  omega

/-- An element whose ticket no other element holds is the only one of its number. -/
theorem exists_filter_eq_append {α : Type} {f : α → List Token} {number : α → Nat}
    (ticket : Nat → Token) (hticket : ∀ x, ticket (number x) ∈ f x) {xs : List α} {x : α}
    (hx : x ∈ xs) (hone : (xs.flatMap f).count (ticket (number x)) ≤ 1) :
    ∃ before after, xs = before ++ x :: after ∧
      xs.filter (fun y => number y != number x) = before ++ after := by
  obtain ⟨before, after, rfl⟩ := List.append_of_mem hx
  refine ⟨before, after, rfl, ?_⟩
  -- another element with the number would hold the ticket once more
  have hkeep : ∀ ys : List α, (ys.flatMap f).count (ticket (number x)) = 0 →
      ys.filter (fun y => number y != number x) = ys := by
    intro ys hnone
    refine List.filter_eq_self.mpr fun y hy => bne_iff_ne.mpr fun heq => ?_
    exact List.count_eq_zero.mp hnone (List.mem_flatMap.mpr ⟨y, hy, heq ▸ hticket y⟩)
  have hpos : 0 < (f x).count (ticket (number x)) := List.count_pos_iff.mpr (hticket x)
  simp only [List.flatMap_append, List.flatMap_cons, List.count_append] at hone
  rw [List.filter_append, List.filter_cons_of_neg (by simp), hkeep before (by omega),
    hkeep after (by omega)]

/-- What an element of a list holds leaves the list with it, if no other element is like it. -/
theorem count_flatMap_filter {α : Type} {f : α → List Token} {number : α → Nat}
    (ticket : Nat → Token) (hticket : ∀ x, ticket (number x) ∈ f x) {xs : List α}
    {x : α} (hx : x ∈ xs)
    (hone : (xs.flatMap f).count (ticket (number x)) ≤ 1) (t : Token) :
    (xs.flatMap f).count t =
      (f x).count t + ((xs.filter fun y => number y != number x).flatMap f).count t := by
  obtain ⟨before, after, hxs, hrest⟩ := exists_filter_eq_append ticket hticket hx hone
  rw [hrest, hxs]
  simp only [List.flatMap_append, List.flatMap_cons, List.count_append]
  omega

theorem count_closeLookup {l : OpenLookup} (hl : l ∈ w.lookups)
    (hone : w.tokens.count (.ticket .lookups l.number) ≤ 1) (t : Token) :
    w.tokens.count t = l.tokens.count t +
      ({ w with lookups := w.lookups.filter fun m => m.number != l.number } :
        World).tokens.count t := by
  have hlookups := count_flatMap_filter (f := OpenLookup.tokens) (.ticket .lookups)
    (fun x => List.mem_cons_self) hl
    (Nat.le_trans (by simp only [World.tokens, List.count_append]; omega) hone) t
  simp only [World.tokens, List.count_append, hlookups]
  omega

theorem count_closeCallback {b : Callback} (hb : w.callback = some b) {o : OpenCallback}
    (ho : o ∈ b.pending) (hone : w.tokens.count (.ticket .callbacks o.number) ≤ 1) (t : Token) :
    w.tokens.count t = o.tokens.count t +
      ({ w with callback := some { b with
        pending := b.pending.filter fun p => p.number != o.number } } : World).tokens.count t := by
  have hpending := count_flatMap_filter (f := OpenCallback.tokens) (.ticket .callbacks)
    (fun x => List.mem_cons_self) ho
    (Nat.le_trans (by
      simp only [World.tokens, hb, Option.elim_some, Callback.tokens, List.count_append]
      omega) hone) t
  simp only [World.tokens, hb, Option.elim_some, Callback.tokens, List.count_append, hpending]
  omega

end Machine

end Balancer.Session
