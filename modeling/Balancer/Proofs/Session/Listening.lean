import Balancer.Proofs.Session.Twin

/-!
# A session does not depend on its listener

A session is played from outside: a step is made, or a timer fires, and what a session shows before
is noted each time. The same session without its listener can be played in the same way and shows
the same, and the other way round, as long as the listener runs no steps of its own and log calls go
through; it makes no difference how its calls end, nor when. Only the failures of the listener are
logged in addition, each of them once.

* `Balancer.Session.Input`, `Balancer.Session.Machine.Plays` – **sessions that are played.**
* `Balancer.Session.Machine.Sight` – **what a session shows**: the outcome of the latest step, and
  its world without the listener.
* `Balancer.Session.Machine.Plays.follow`, `Balancer.Session.Machine.Plays.lead` – the session
  without the listener follows the one with it, and the other way round.
* `Balancer.Session.Machine.Twins.listener_influences_nothing` – **two sessions that differ in their
  listener only.**
-/

namespace Balancer.Session

/-! ### Sessions that are played -/

/-- **What comes from outside.** -/
inductive Input
  /-- A step, where nothing remains to be done. -/
  | step (step : Step)
  /-- A further step, made before the next piece of waiting work is done. -/
  | further (step : Step)
  /-- A timer fires, where nothing remains to be done. -/
  | timer (t : Timer)

namespace Machine

/-- **What comes from outside leads on.** A further step needs no more of the one before than the
outcome, which has been seen. -/
inductive Receives : Input → Machine → Machine → Prop
  /-- By a step. -/
  | step (w : World) (outcome : Outcome) (step : Step) :
      Receives (.step step) ⟨w, [], .deliver outcome⟩ (w.machine step)
  /-- By a further step. -/
  | further (w : World) (first : Option Outcome) (outcome : Outcome) (step : Step) :
      Receives (.further step) ⟨w, [.settle first], .deliver outcome⟩ (w.machine step)
  /-- By a timer. -/
  | timer (w : World) (outcome : Outcome) {t : Timer} (h : t ∈ w.timers) :
      Receives (.timer t) ⟨w, [], .deliver outcome⟩ (fire w [.settle none] t)

/-- The outcome of the latest step, where it has returned. -/
def shows? (m : Machine) : Option Outcome :=
  match m.stack, m.control with
  | [], .deliver outcome => some outcome
  | [.settle first], .deliver outcome => some (first.getD outcome)
  | _, _ => none

/-- **What a session shows.** -/
structure Sight where
  /-- The outcome of the latest step. -/
  outcome : Option Outcome
  /-- Whether nothing remains to be done. -/
  finished : Bool
  /-- The world without its listener. -/
  world : World

/-- What a session shows at a point. -/
def sight (m : Machine) : Sight := ⟨m.shows?, m.finished, m.world.deaf⟩

/-- **A session is played**, with log calls that go through. All that comes from outside is noted
with what the session has shown before. -/
inductive Plays (m : Machine) : List (Sight × Input) → Machine → Prop
  /-- It begins. -/
  | refl (logs : m.world.logs = true) : Plays m [] m
  /-- A transition is made. -/
  | next {seen : List (Sight × Input)} {a : Machine} (h : Plays m seen a)
      (logs : a.next.world.logs = true) : Plays m seen a.next
  /-- Something comes from outside. -/
  | input {seen : List (Sight × Input)} {a b : Machine} {input : Input} (h : Plays m seen a)
      (receives : Receives input a b) (logs : b.world.logs = true) :
      Plays m (seen ++ [(a.sight, input)]) b

variable {rs : List Reaction} {m n a b : Machine} {seen : List (Sight × Input)}

theorem Plays.logs (h : Plays m seen a) : a.world.logs = true := by
  cases h <;> assumption

/-- A number of transitions is made. -/
theorem Plays.run (h : Plays m seen a) (i : Nat) (hlogs : ∀ j ≤ i, (run j a).world.logs = true) :
    Plays m seen (run i a) := by
  induction i with
  | zero => exact h
  | succ i ih =>
    have hlast := hlogs (i + 1) (Nat.le_refl _)
    rw [run_succ_last] at hlast ⊢
    exact (ih fun j hj => hlogs j (Nat.le_succ_of_le hj)).next hlast

/-- A step is made, and a number of transitions. -/
theorem Plays.step (h : Plays m seen a) (hfinished : a.finished = true) (step : Step) (i : Nat)
    (hlogs : ∀ j ≤ i, (Machine.run j (a.world.machine step)).world.logs = true) :
    Plays m (seen ++ [(a.sight, .step step)]) (Machine.run i (a.world.machine step)) := by
  have hfirst : (a.world.machine step).world.logs = true := hlogs 0 (Nat.zero_le i)
  obtain ⟨w, _ | ⟨f, k⟩, step' | outcome⟩ := a
  · cases hfinished
  · exact (h.input (.step w outcome step) hfirst).run i hlogs
  · cases hfinished
  · cases hfinished

/-! ### What both sessions show -/

theorem deaf_deaf (w : World) : w.deaf.deaf = w.deaf := by
  simp only [World.deaf, Option.map_map, List.filter_filter, Bool.and_self]
  rfl

theorem Mirrors.world (h : Mirrors rs a b) : ∃ d l, a.world.Mirrors rs d l b.world := by
  cases h with
  | same h | finished h | told h | settled h | advanced h => exact ⟨_, _, h⟩

theorem Mirrors.world_eq (h : Mirrors rs a b) : b.world = a.world.deaf := by
  obtain ⟨d, l, hd⟩ := h.world
  exact hd.eq

theorem Mirrors.logs_eq (h : Mirrors rs a b) : b.world.logs = a.world.logs := by
  obtain ⟨d, l, hd⟩ := h.world
  exact hd.logs_eq

/-- **Both sessions show the same**, unless the listener is about to end. -/
theorem Mirrors.shows (h : Mirrors rs a b) (hhears : a.hears = false) :
    b.shows? = a.shows? ∧ b.finished = a.finished := by
  cases h with
  | @same w v k c =>
    refine ⟨rfl, ?_⟩
    cases k <;> cases c <;> rfl
  | finished => exact ⟨rfl, rfl⟩
  | told => cases hhears
  | @settled w v k => cases k <;> exact ⟨rfl, rfl⟩
  | advanced => exact ⟨rfl, rfl⟩

theorem Mirrors.sight (h : Mirrors rs a b) (hhears : a.hears = false) : b.sight = a.sight := by
  obtain ⟨hshows, hfinished⟩ := h.shows hhears
  rw [Machine.sight, Machine.sight, hshows, hfinished, h.world_eq, deaf_deaf]

/-- Where the listener is about to end, no step has returned. -/
theorem hears_of_shows? {outcome : Outcome} (h : a.shows? = some outcome) : a.hears = false := by
  unfold shows? at h
  rw [hears]
  split at h
  · next hstack _ =>
    rw [hstack]
    rfl
  · next hstack _ =>
    rw [hstack]
    rfl
  · cases h

/-- Where the listener is about to end, nothing comes from outside. -/
theorem Receives.hears {input : Input} (h : Receives input a b) : a.hears = false := by
  cases h <;> rfl

/-- **All failures of the listener have been logged**, or wait to be; where nothing remains to be
done, none waits. Each call that was left to a step has been ended by one, or still is left. -/
theorem Mirrors.tally (h : Mirrors rs a b) (hhears : a.hears = false) :
    a.world.errors + a.world.jobs.countP Job.isRejection =
        (rs.take a.world.notices.length).countP (fun r => r.ending.fails) + a.world.lateFailures ∧
      a.world.deferred + a.world.lateEnds.length =
        (rs.take a.world.notices.length).countP (fun r => r.ending.isDeferred) ∧
      (a.finished = true → a.world.jobs = []) := by
  cases h with
  | same h hk =>
    refine ⟨h.tally, h.left, fun hfinished => ?_⟩
    cases hk <;> cases hfinished
  | finished h hjobs => exact ⟨h.tally, h.left, fun _ => hjobs⟩
  | told => cases hhears
  | settled h => exact ⟨h.tally, h.left, fun hfinished => by cases hfinished⟩
  | advanced h => exact ⟨h.tally, h.left, fun hfinished => by cases hfinished⟩

/-! ### The session without the listener follows -/

/-- What comes from outside comes to both sessions. -/
theorem Mirrors.exists_receives_right (h : Mirrors rs a b) {input : Input} {a' : Machine}
    (hreceives : Receives input a a') : ∃ b', Receives input b b' ∧ Mirrors rs a' b' := by
  cases hreceives with
  | step w outcome step =>
    cases h with
    | same h hk => cases hk
    | finished h => exact ⟨_, .step _ outcome step, .same h (.settle none)⟩
  | further w first outcome step =>
    cases h with
    | same h => exact ⟨_, .further _ first outcome step, .same h (.settle none)⟩
    | settled h => exact ⟨_, .further _ _ _ step, .same h (.settle none)⟩
  | timer w outcome ht =>
    cases h with
    | same h hk => cases hk
    | @finished w v _ h =>
      have htimers : v.timers = w.timers := by
        rw [h.eq]
        rfl
      exact ⟨_, .timer v outcome (htimers ▸ ht), mirrors_fire h (.settle none) _⟩

/-- A piece of work that logs a rejection is one. -/
theorem exists_rejection (h : m.job?.any Job.isRejection = true) :
    ∃ failure, m.job? = some (.rejected failure) := by
  obtain ⟨job, hjob, hrejects⟩ := (Option.any_eq_true _ _).mp h
  cases job with
  | rejected failure => exact ⟨failure, hjob⟩
  | _ => cases hrejects

/-- **The session without the listener follows**: it shows the same along the way. -/
theorem Plays.follow (h : Plays m seen a) (hidle : Idle rs) (hm : Mirrors rs m n) :
    ∃ b, Plays n seen b ∧ Mirrors rs a b := by
  induction h with
  | refl logs => exact ⟨n, .refl (hm.logs_eq.trans logs), hm⟩
  | @next seen a h logs ih =>
    obtain ⟨b, hb, hmirrors⟩ := ih
    cases hhears : a.hears with
    | true => exact ⟨b, hb, (hmirrors.wait_listener hhears h.logs).1⟩
    | false =>
      cases hjob : a.job?.any Job.isRejection with
      | true =>
        obtain ⟨failure, hrejection⟩ := exists_rejection hjob
        exact ⟨b, hb, (hmirrors.wait_rejection hhears hrejection h.logs).1⟩
      | false =>
        have hnext := hmirrors.next hidle hhears hjob
        exact ⟨b.next, hb.next (hnext.logs_eq.trans logs), hnext⟩
  | @input seen a a' input h receives logs ih =>
    obtain ⟨b, hb, hmirrors⟩ := ih
    obtain ⟨b', hreceives, hmirrors'⟩ := hmirrors.exists_receives_right receives
    have hb' := hb.input hreceives (hmirrors'.logs_eq.trans logs)
    rw [hmirrors.sight receives.hears] at hb'
    exact ⟨b', hb', hmirrors'⟩

/-! ### The session with the listener follows -/

/-- The listener ends before anything else happens. -/
theorem Plays.exists_unheard (h : Plays m seen a) (hmirrors : Mirrors rs a b) :
    ∃ a', Plays m seen a' ∧ Mirrors rs a' b ∧ a'.hears = false := by
  cases hhears : a.hears with
  | false => exact ⟨a, h, hmirrors, hhears⟩
  | true =>
    obtain ⟨hnext, hunheard⟩ := hmirrors.wait_listener hhears h.logs
    have hlogs : a.next.world.logs = true :=
      hnext.logs_eq.symm.trans (hmirrors.logs_eq.trans h.logs)
    exact ⟨a.next, h.next hlogs, hnext, hunheard⟩

/-- The rejections that wait first are logged. -/
theorem Plays.exists_awake (h : Plays m seen a) (hmirrors : Mirrors rs a b)
    (hhears : a.hears = false) :
    ∃ a', Plays m seen a' ∧ Mirrors rs a' b ∧ a'.hears = false ∧
      a'.job?.any Job.isRejection = false := by
  -- each of them leaves less work that waits
  induction hlength : a.world.jobs.length using Nat.strongRecOn generalizing a with
  | _ length ih =>
    cases hjob : a.job?.any Job.isRejection with
    | false => exact ⟨a, h, hmirrors, hhears, hjob⟩
    | true =>
      obtain ⟨failure, hrejection⟩ := exists_rejection hjob
      obtain ⟨hnext, hunheard, hless⟩ := hmirrors.wait_rejection hhears hrejection h.logs
      have hlogs : a.next.world.logs = true :=
        hnext.logs_eq.symm.trans (hmirrors.logs_eq.trans h.logs)
      exact ih _ (hlength ▸ hless) (h.next hlogs) hnext hunheard rfl

/-- What comes from outside the session without the listener may come to the other one. -/
theorem Mirrors.exists_receives_left (h : Mirrors rs a b) (hhears : a.hears = false) {input : Input}
    {b' : Machine} (hreceives : Receives input b b') : ∃ a', Receives input a a' ∧ Mirrors rs a' b' := by
  cases hreceives with
  | step v outcome step =>
    cases h with
    | same h hk => cases hk
    | told => cases hhears
    | finished h => exact ⟨_, .step _ outcome step, .same h (.settle none)⟩
  | further v first outcome step =>
    cases h with
    | same h => exact ⟨_, .further _ first outcome step, .same h (.settle none)⟩
    | told => cases hhears
    | settled h => exact ⟨_, .further _ _ _ step, .same h (.settle none)⟩
  | timer v outcome ht =>
    cases h with
    | same h hk => cases hk
    | told => cases hhears
    | @finished w v _ h =>
      have htimers : v.timers = w.timers := by
        rw [h.eq]
        rfl
      exact ⟨_, .timer w outcome (htimers ▸ ht), mirrors_fire h (.settle none) _⟩

/-- **The session with the listener follows the one without it.** -/
theorem Plays.lead (h : Plays n seen b) (hidle : Idle rs) (hm : Mirrors rs m n) :
    ∃ a, Plays m seen a ∧ Mirrors rs a b ∧ a.hears = false := by
  induction h with
  | refl logs => exact (Plays.refl (hm.logs_eq.symm.trans logs)).exists_unheard hm
  | @next seen b h logs ih =>
    obtain ⟨a, ha, hmirrors, hhears⟩ := ih
    obtain ⟨a', ha', hmirrors', hhears', hjob⟩ := ha.exists_awake hmirrors hhears
    have hnext := hmirrors'.next hidle hhears' hjob
    exact (ha'.next (hnext.logs_eq.symm.trans logs)).exists_unheard hnext
  | @input seen b b' input h receives logs ih =>
    obtain ⟨a, ha, hmirrors, hhears⟩ := ih
    obtain ⟨a', hreceives, hmirrors'⟩ := hmirrors.exists_receives_left hhears receives
    have ha' := ha.input hreceives (hmirrors'.logs_eq.symm.trans logs)
    rw [← hmirrors.sight hhears] at ha'
    exact ha'.exists_unheard hmirrors'

/-! ### All sessions -/

/-- **The same session with a listener and without it**, at the beginning. -/
inductive Twins (rs : List Reaction) : Machine → Machine → Prop
  /-- With a strategy of given weights. -/
  | strategy (setup : Setup) (delay period : Option Binary64) (weights : Table Binary64) :
      Twins rs ⟨openStrategy setup ⟨delay, period, some rs⟩ weights, [], .deliver (.ok .nothing)⟩
        ⟨openStrategy setup ⟨delay, period, none⟩ weights, [], .deliver (.ok .nothing)⟩
  /-- With a strategy that is to follow a service. -/
  | bound (setup : Setup) (delay period : Option Binary64) (service provider : String) :
      Twins rs (boundMachine setup ⟨delay, period, some rs⟩ service provider)
        (boundMachine setup ⟨delay, period, none⟩ service provider)

theorem Twins.mirrors (h : Twins rs m n) : Mirrors rs m n := by
  have hopen : ∀ {w v : World}, v = w.deaf → w.trace = #[] → w.jobs = [] → w.deferred = 0 →
      (∀ s, w.strategy = some s → s.listener = some rs) → w.Mirrors rs 0 0 v := by
    intro w v heq htrace hjobs hdeferred hlistener
    have hnotices : w.notices = [] := by
      rw [World.notices, htrace]
      rfl
    have hends : w.lateEnds = [] := by
      rw [World.lateEnds, htrace]
      rfl
    refine ⟨heq, fun s hs => ?_, ?_, ?_⟩
    · rw [hnotices]
      exact hlistener s hs
    · rw [World.errors, htrace, hjobs, hnotices, World.lateFailures, hends]
      rfl
    · rw [hdeferred, hnotices, hends]
      rfl
  cases h with
  | strategy setup delay period weights =>
    refine .finished (hopen rfl rfl rfl rfl fun s hs => ?_) rfl
    cases hs
    rfl
  | bound setup delay period service provider =>
    refine mirrors_lookup (hopen rfl rfl rfl rfl fun s hs => ?_) (.settle none) _ _ _
    cases hs
    rfl

/-- **A failing listener influences nothing.** Take a session of a strategy whose listener runs no
steps of its own, but returns, throws, rejects, stays open, or is ended by a later step, perhaps
with a failure; log calls go through. Take the same session without the listener. However the one is
played, the other can be played with the same steps and timers, and shows the same before each of
them and at the end: the outcome of the latest step, whether anything remains to be done, and a
world that is the same but for the listener itself, its calls that are left to a step, the
rejections that wait to be logged, the calls of the listener with their late ends, and the errors
logged. So are, in particular, the tables, the sequence, the cursor, the binding, the lookups, the
ends of calls, the refreshers and the timers. As many errors are logged as calls of the listener
have failed, at once or later, those apart whose rejections wait; and none waits where nothing
remains to be done. Each call that ends later has been ended by one step, or is still left. -/
theorem Twins.listener_influences_nothing (h : Twins rs m n) (hidle : Idle rs) :
    (∀ seen a outcome, Plays m seen a → a.shows? = some outcome →
      ∃ b, Plays n seen b ∧ b.shows? = some outcome ∧ b.finished = a.finished ∧
        b.world = a.world.deaf) ∧
    (∀ seen b outcome, Plays n seen b → b.shows? = some outcome →
      ∃ a, Plays m seen a ∧ a.shows? = some outcome ∧ a.finished = b.finished ∧
        b.world = a.world.deaf) ∧
    (∀ seen a outcome, Plays m seen a → a.shows? = some outcome →
      a.world.errors + a.world.jobs.countP Job.isRejection =
          (rs.take a.world.notices.length).countP (fun r => r.ending.fails) +
            a.world.lateFailures ∧
        a.world.deferred + a.world.lateEnds.length =
          (rs.take a.world.notices.length).countP (fun r => r.ending.isDeferred) ∧
        (a.finished = true → a.world.jobs = [])) := by
  refine ⟨?_, ?_, ?_⟩
  · intro seen a outcome ha hshows
    obtain ⟨b, hb, hmirrors⟩ := ha.follow hidle h.mirrors
    obtain ⟨hsame, hfinished⟩ := hmirrors.shows (hears_of_shows? hshows)
    exact ⟨b, hb, hsame.trans hshows, hfinished, hmirrors.world_eq⟩
  · intro seen b outcome hb hshows
    obtain ⟨a, ha, hmirrors, hhears⟩ := hb.lead hidle h.mirrors
    obtain ⟨hsame, hfinished⟩ := hmirrors.shows hhears
    exact ⟨a, ha, hsame.symm.trans hshows, hfinished.symm, hmirrors.world_eq⟩
  · intro seen a outcome ha hshows
    obtain ⟨b, -, hmirrors⟩ := ha.follow hidle h.mirrors
    exact hmirrors.tally (hears_of_shows? hshows)

/-- A listener throws here when it is told that a target was taken out, rejects when it is told of
another one, and leaves to a step the call that tells it of the first one put back; the step rejects
it. Without the listener the same steps elect the same targets; with it three errors have been logged
besides. -/
theorem listener_influences_nothing_of_three_calls :
    ∃ m n seen a b, Twins [⟨[], .throws .notInitialized⟩, ⟨[], .rejects .notInitialized⟩,
        ⟨[], .deferred⟩] m n ∧
      Plays m seen a ∧ Plays n seen b ∧ seen.length = 5 ∧ a.finished = true ∧ b.finished = true ∧
      a.shows? = some (.ok (.targets ["c", "a", "a", "a"])) ∧ b.shows? = a.shows? ∧
      b.world = a.world.deaf ∧ a.world.notices.length = 3 ∧ a.world.errors = 3 ∧
      a.world.deferred = 0 := by
  let setup : Setup := ⟨.zero, ⟨none, none⟩, false, .empty⟩
  let weights : Table Binary64 := .ofList [("a", .ofNat 6), ("b", .ofNat 4), ("c", .ofNat 2)]
  let rs : List Reaction :=
    [⟨[], .throws .notInitialized⟩, ⟨[], .rejects .notInitialized⟩, ⟨[], .deferred⟩]
  let m : Machine := ⟨openStrategy setup ⟨none, none, some rs⟩ weights, [], .deliver (.ok .nothing)⟩
  let after (a : Machine) (step : Step) : Machine := run 9 (a.world.machine step)
  have htwins : Twins rs m _ := .strategy setup none none weights
  have hidle : Idle rs := by
    unfold Idle
    decide +kernel
  have hopen : Plays m [] m := .refl (by decide +kernel)
  have h₁ := hopen.step (by decide +kernel) (.remove "a") 9 (by decide +kernel)
  have h₂ := h₁.step (by decide +kernel) (.remove "b") 9 (by decide +kernel)
  have h₃ := h₂.step (by decide +kernel) (.recover "a") 9 (by decide +kernel)
  have h₄ := h₃.step (by decide +kernel) (.settleListener (some .notInitialized)) 9
    (by decide +kernel)
  have h₅ := h₄.step (by decide +kernel) (.elect 4) 9 (by decide +kernel)
  let a : Machine := after (after (after (after (after m (.remove "a")) (.remove "b")) (.recover "a"))
    (.settleListener (some .notInitialized))) (.elect 4)
  have hshows : a.shows? = some (.ok (.targets ["c", "a", "a", "a"])) := by decide +kernel
  have hfinished : a.finished = true := by decide +kernel
  have hnotices : a.world.notices.length = 3 := by decide +kernel
  have hleft : a.world.deferred = 0 ∧ a.world.lateFailures = 1 := by decide +kernel
  obtain ⟨hfollows, -, htally⟩ := htwins.listener_influences_nothing hidle
  obtain ⟨b, hb, hsame, hends, hworld⟩ := hfollows _ a _ h₅ hshows
  obtain ⟨herrors, -, hnone⟩ := htally _ a _ h₅ hshows
  have hfailed : (rs.take 3).countP (fun r => r.ending.fails) = 2 := by decide +kernel
  rw [hnone hfinished, hnotices, hfailed, hleft.2, List.countP_nil, Nat.add_zero] at herrors
  exact ⟨m, _, _, a, b, htwins, h₅, hb, rfl, hfinished, hends.trans hfinished, hshows,
    hsame.trans hshows.symm, hworld, hnotices, herrors, hleft.1⟩

end Machine

end Balancer.Session
