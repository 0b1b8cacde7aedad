import Balancer.Proofs.Session.Punctual
import Balancer.Proofs.Session.Stages

/-!
# Cycles of timers never overlap

A refresher marks itself while a cycle that a timer began is in flight, and a timer that fires
meanwhile does nothing. So a new lookup is made only where the cycle of the last one is gone, and
what a cycle compares is always the answer to the latest lookup: as long as no call begins a cycle
of its own, a slow answer is never applied over a later one.

* `Balancer.Session.World.inquiries` – the lookups that timers of a refresher have made, in order.
* `Balancer.Session.Machine.Current` – **every cycle under way goes back to the latest lookup** of
  its refresher, and compares what that was answered with.
* `Balancer.Session.Machine.Unforced` – a stretch of a session in which no step begins a cycle, with
  the answers to lookups.
* `Balancer.Session.Machine.Unforced.current` – along such a stretch all cycles are current.
* `Balancer.Session.Machine.Reachable.timer_cycles_never_overlap` – **the theorem.**
-/

namespace Balancer.Session

/-! ### The latest lookup -/

/-- The lookups of one refresher among those of all. -/
def inquiriesOf (number : Nat) (asked : List (Nat × Nat)) : List Nat :=
  asked.filterMap fun p => if p.1 = number then some p.2 else none

/-- **The lookups that timers of a refresher have made**, in the order in which they were made. -/
def World.inquiries (w : World) (number : Nat) : List Nat := inquiriesOf number w.asked

theorem inquiriesOf_append_self (n i : Nat) (asked : List (Nat × Nat)) :
    inquiriesOf n (asked ++ [(n, i)]) = inquiriesOf n asked ++ [i] := by
  simp only [inquiriesOf, List.filterMap_append, List.filterMap_cons, if_true, List.filterMap_nil]

theorem inquiriesOf_append_of_ne {n n' : Nat} (h : n' ≠ n) (i : Nat) (asked : List (Nat × Nat)) :
    inquiriesOf n (asked ++ [(n', i)]) = inquiriesOf n asked := by
  simp only [inquiriesOf, List.filterMap_append, List.filterMap_cons, if_neg h, List.filterMap_nil,
    List.append_nil]

/-! ### Stages and tokens -/

variable {s : Nat × Stage}

/-- A stage is a cycle in flight, unless a call began it. -/
theorem Origin.flight_mem_tokens {origin : Origin} {refresher : Nat} {stage : Stage}
    (hs : s = (refresher, origin.stage stage)) (hcalled : s.2 ≠ .called) :
    .flight s.1 ∈ origin.tokens refresher := by
  subst hs
  cases origin with
  | timer => exact List.mem_cons_self
  | call => exact absurd rfl hcalled

theorem Waiter.flight_mem_tokens {waiter : Waiter} {stage : Stage} (hs : waiter.stage? stage = some s)
    (hcalled : s.2 ≠ .called) : .flight s.1 ∈ waiter.tokens := by
  cases waiter with
  | binding => cases hs
  | cycle => exact Origin.flight_mem_tokens (Option.some.inj hs).symm hcalled

theorem Frame.flight_mem_tokens {f : Frame} (hs : f.stage? = some s) (hcalled : s.2 ≠ .called) :
    .flight s.1 ∈ f.tokens := by
  cases f with
  | lookup provider number services caller reply =>
    cases caller with
    | binding => cases hs
    | poll refresher generation =>
      cases hs
      exact List.mem_cons_of_mem _ List.mem_cons_self
    | refresh =>
      cases hs
      exact absurd rfl hcalled
  | callback =>
    exact List.mem_cons_of_mem _ (Origin.flight_mem_tokens (Option.some.inj hs).symm hcalled)
  | taken => exact Origin.flight_mem_tokens (Option.some.inj hs).symm hcalled
  | _ => cases hs

theorem Job.flight_mem_tokens {job : Job} (hs : job.stage? = some s) (hcalled : s.2 ≠ .called) :
    .flight s.1 ∈ job.tokens := by
  cases job with
  | answered waiter answer =>
    cases answer with
    | error => cases hs
    | ok => exact Waiter.flight_mem_tokens hs hcalled
  | taken => exact Origin.flight_mem_tokens (Option.some.inj hs).symm hcalled
  | _ => cases hs

/-- **A cycle under way is in flight**, unless a call began it. -/
theorem Machine.flight_mem_tokens {m : Machine} (hs : s ∈ m.stages) (hcalled : s.2 ≠ .called) :
    .flight s.1 ∈ m.tokens := by
  rcases List.mem_append.mp hs with hstack | hworld
  · obtain ⟨f, hf, hstage⟩ := List.mem_filterMap.mp hstack
    exact List.mem_append_left _ (List.mem_flatMap.mpr ⟨f, hf, f.flight_mem_tokens hstage hcalled⟩)
  refine List.mem_append_right _ ?_
  rcases List.mem_append.mp hworld with hwaits | hpending
  · rcases List.mem_append.mp hwaits with hlookup | hjob
    · obtain ⟨l, hl, hstage⟩ := List.mem_filterMap.mp hlookup
      refine List.mem_append_left _ (List.mem_flatMap.mpr ⟨l, hl, ?_⟩)
      exact List.mem_cons_of_mem _ (Waiter.flight_mem_tokens hstage hcalled)
    · obtain ⟨job, hj, hstage⟩ := List.mem_filterMap.mp hjob
      exact List.mem_append_right _ (List.mem_append_left _
        (List.mem_flatMap.mpr ⟨job, hj, job.flight_mem_tokens hstage hcalled⟩))
  · refine List.mem_append_right _ (List.mem_append_right _ ?_)
    rcases hb : m.world.callback with _ | b
    · rw [hb] at hpending
      cases hpending
    · rw [hb, Option.elim_some] at hpending
      obtain ⟨o, ho, rfl⟩ := List.mem_map.mp hpending
      exact List.mem_flatMap.mpr
        ⟨o, ho, List.mem_cons_of_mem _ (Origin.flight_mem_tokens rfl hcalled)⟩

namespace Machine

variable {m m' m₀ a b : Machine} {n : Nat} {answers answers' : List (Nat × Except Failure (Option Listing))}

/-! ### Cycles that are current -/

/-- **A cycle goes back to the latest lookup** that a timer of its refresher made: it waits for
that, or compares what it was answered with. -/
def Meets (asked : List (Nat × Nat)) (answers : List (Nat × Except Failure (Option Listing)))
    (s : Nat × Stage) : Prop :=
  match s.2 with
  | .asking i => (inquiriesOf s.1 asked).getLast? = some i
  | .comparing latest => ∃ i listing, (inquiriesOf s.1 asked).getLast? = some i ∧
      (i, .ok listing) ∈ answers ∧ latest = listing.getD Table.empty
  | .called => False

/-- **Every cycle under way is current**, and lookups have the numbers that have been given. -/
structure Current (answers : List (Nat × Except Failure (Option Listing))) (m : Machine) : Prop where
  /-- The cycles go back to the latest lookups. -/
  meets : ∀ s ∈ m.stages, Meets m.world.asked answers s
  /-- The numbers have been given. -/
  issued : ∀ p ∈ m.world.asked, p.2 ≤ m.world.lookupCount

/-- It does so as well where its refresher has made no further lookup. -/
theorem Meets.mono {asked asked' : List (Nat × Nat)} {s : Nat × Stage} (h : Meets asked answers s)
    (hasked : inquiriesOf s.1 asked' = inquiriesOf s.1 asked) (hanswers : answers ⊆ answers') :
    Meets asked' answers' s := by
  rw [Meets] at h ⊢
  rw [hasked]
  split
  · next hstage => rwa [hstage] at h
  · next hstage =>
    rw [hstage] at h
    obtain ⟨i, listing, hlast, hmem, hlatest⟩ := h
    exact ⟨i, listing, hlast, hanswers hmem, hlatest⟩
  · next hstage => rwa [hstage] at h

/-- **Where no cycle is in flight, none is current.** -/
theorem Current.ne_of_mem_stages (h : m.Current answers) (hreach : Reachable m)
    (hidle : (m.world.refreshers[n]?).any Refresher.inFlight = false) {s : Nat × Stage}
    (hs : s ∈ m.stages) : s.1 ≠ n := by
  rintro rfl
  have hcalled : s.2 ≠ .called := by
    intro heq
    have hmeets := h.meets s hs
    rw [Meets, heq] at hmeets
    exact hmeets
  have hmark : m.world.inFlight s.1 = false := by
    rw [World.inFlight, World.clockwork?, Option.any_map]
    exact hidle
  have hflights := hreach.marked s.1
  rw [hmark, flights, Session.flights] at hflights
  have hcount := List.count_pos_iff.mpr (flight_mem_tokens hs hcalled)
  simp only [Bool.toNat_false] at hflights
  omega

/-! ### Stretches in which no step begins a cycle -/

/-- Whether a step comes next that begins a cycle. -/
def forces (m : Machine) : Bool :=
  match m.control with
  | .perform .refresh => true
  | _ => false

theorem control_of_not_forces (h : m.forces = false) : m.control ≠ .perform .refresh := by
  intro heq
  rw [forces, heq] at h
  exact absurd h Bool.true_eq_false_eq_False

/-- **A stretch in which no step begins a cycle**, with the lookups that end and what with. -/
abbrev Unforced : Machine → List (Nat × Except Failure (Option Listing)) → Machine → Prop :=
  Stretch (fun a => a.forces = false) answered

theorem lookupCount_le (h : Reachable m) (hl : Leads m m') :
    m.world.lookupCount ≤ m'.world.lookupCount := by
  obtain ⟨beat, hbeats⟩ := h.exists_beats hl
  have hissued := hbeats.still.issued .lookups
  rwa [(beat.sameTokens m.world).issued] at hissued

/-- **What is current stays so**, from one point to the next. -/
theorem Current.leads (h : m.Current answers) (hreach : Reachable m) (hl : Leads m m')
    (hforces : m.forces = false) (hmore : m.answered ⊆ answers')
    (hold : answers ⊆ answers') : m'.Current answers' := by
  have hcount := lookupCount_le hreach hl
  rcases hl.staged (control_of_not_forces hforces) with hstaged | ⟨n, hasks⟩
  · refine ⟨fun s hs => ?_, fun p hp => ?_⟩
    · rw [hstaged.asked]
      rcases hstaged.stages s hs with hbefore | ⟨i, listing, hanswered, hwaits, heq⟩
      · exact (h.meets s hbefore).mono rfl hold
      · have hmeets := h.meets _ hwaits
        rw [Meets, heq]
        exact ⟨i, listing, hmeets, hmore hanswered, rfl⟩
    · exact Nat.le_trans (h.issued p (hstaged.asked ▸ hp)) hcount
  · refine ⟨fun s hs => ?_, fun p hp => ?_⟩
    · rw [hasks.staged.asked]
      rcases hasks.staged.stages s hs with hbefore | rfl
      · have hne := h.ne_of_mem_stages hreach hasks.idle hbefore
        exact (h.meets s hbefore).mono (inquiriesOf_append_of_ne hne.symm _ _) hold
      · rw [Meets, inquiriesOf_append_self, List.getLast?_concat]
    · rw [hasks.staged.asked] at hp
      rcases List.mem_append.mp hp with hbefore | hlast
      · exact Nat.le_trans (h.issued p hbefore) hcount
      · rw [List.mem_singleton.mp hlast]
        exact Nat.le_of_eq hasks.issued.symm

/-- Where a step begins or a timer fires, no step is performed and no lookup ends. -/
theorem Enters.unforced (h : Enters m m') : m.forces = false ∧ m.answered = [] := by
  cases h <;> exact ⟨rfl, rfl⟩

/-- **Along a stretch in which no step begins a cycle, all cycles are current.** -/
theorem Unforced.current (hs : Unforced m answers' b) (h : m.Current answers) (hreach : Reachable m) :
    b.Current (answers ++ answers') := by
  induction hs with
  | refl => rwa [List.append_nil]
  | @next seen a hs hforces ih =>
    refine ih.leads (hreach.run hs.run) (.next a) hforces (fun x hx => ?_) fun x hx => ?_
    · exact List.mem_append_right _ (List.mem_append_right _ hx)
    · rw [← List.append_assoc]
      exact List.mem_append_left _ hx
  | @enter seen a b hs henters ih =>
    obtain ⟨hforces, hnone⟩ := henters.unforced
    refine ih.leads (hreach.run hs.run) henters.leads hforces ?_ (List.Subset.refl _)
    rw [hnone]
    exact List.nil_subset _

/-- The latest lookup is a later one, or the same. -/
theorem exists_le_of_leads (hreach : Reachable m) (hl : Leads m m')
    (hforces : m.forces = false) {i : Nat}
    (h : (∃ j, (m.world.inquiries n).getLast? = some j ∧ i ≤ j) ∧ i ≤ m.world.lookupCount) :
    (∃ j, (m'.world.inquiries n).getLast? = some j ∧ i ≤ j) ∧ i ≤ m'.world.lookupCount := by
  refine ⟨?_, Nat.le_trans h.2 (lookupCount_le hreach hl)⟩
  rcases hl.staged (control_of_not_forces hforces) with hstaged | ⟨n', hasks⟩
  · rw [World.inquiries, hstaged.asked]
    exact h.1
  · rw [World.inquiries, hasks.staged.asked]
    by_cases hn : n' = n
    · subst hn
      rw [inquiriesOf_append_self, List.getLast?_concat]
      exact ⟨_, rfl, Nat.le_succ_of_le h.2⟩
    · rw [inquiriesOf_append_of_ne hn]
      exact h.1

/-- **The latest lookup is never an earlier one than before.** -/
theorem Current.exists_le (h : m.Current answers) (hreach : Reachable m)
    (hs : Unforced m answers' b) {i : Nat} (hi : (m.world.inquiries n).getLast? = some i) :
    ∃ j, (b.world.inquiries n).getLast? = some j ∧ i ≤ j := by
  have hmem : (n, i) ∈ m.world.asked := by
    obtain ⟨p, hp, heq⟩ := List.mem_filterMap.mp (List.mem_of_getLast? hi)
    split at heq
    · next hn =>
      cases heq
      exact hn ▸ hp
    · cases heq
  have hlast : (∃ j, (b.world.inquiries n).getLast? = some j ∧ i ≤ j) ∧ i ≤ b.world.lookupCount := by
    induction hs with
    | refl => exact ⟨⟨i, hi, Nat.le_refl i⟩, h.issued _ hmem⟩
    | @next seen a hs hforces ih =>
      exact exists_le_of_leads (hreach.run hs.run) (.next a) hforces ih
    | @enter seen a b hs henters ih =>
      exact exists_le_of_leads (hreach.run hs.run) henters.leads henters.unforced.1 ih
  exact hlast.1

/-- **A session begins with no cycle under way.** -/
theorem Opens.current (h : Opens m) : m.Current [] := by
  have hstaged : Staged (fun _ => False) [] m := by
    cases h with
    | strategy => exact .of_stages_eq_nil rfl rfl
    | bound setup options service provider =>
      let w : World := { setup.world strategyScope with strategy := some (Strategy.awaiting options) }
      have hbefore : Staged (fun _ => False) [] ⟨w, [.settle none], .deliver (.ok .nothing)⟩ :=
        .of_stages_eq_nil rfl rfl
      exact hbefore.lookup provider [service] (.binding service) fun s hs => by cases hs
    | refresher h =>
      rw [openRefresher_eq_ok h]
      exact .of_stages_eq_nil rfl rfl
  refine ⟨fun s hs => (hstaged.stages s hs).elim, fun p hp => ?_⟩
  rw [hstaged.asked] at hp
  cases hp

/-! ### What is handed over -/

theorem listed_eq (listing : Option Listing) (service : String) :
    listed listing service = ((listing.getD Table.empty).get? service).getD [] := by
  cases listing <;> rfl

/-- **A list that is handed over is the one that the latest lookup was answered with.** -/
theorem Current.exists_of_handing? (h : m.Current answers) {change : Refresher.Change}
    (hhands : m.handing? n = some change) :
    ∃ i listing, (m.world.inquiries n).getLast? = some i ∧ (i, .ok listing) ∈ answers ∧
      change.endpoints = listed listing change.service := by
  obtain ⟨cycle, hresumed, rfl, hchange⟩ := handing?_eq_some.mp hhands
  obtain ⟨r, -, -, -, hfirst⟩ := World.change?_eq_some.mp hchange
  obtain ⟨job, hjob, hcycle⟩ := Option.bind_eq_some_iff.mp hresumed
  obtain ⟨-, -, -, -, hstages⟩ := (Staged.refl m).exists_next_eq_work hjob
  have hmeets : Meets m.world.asked answers cycle.stage := by
    refine h.meets _ (hstages _ ?_)
    unfold Job.resumed? at hcycle
    split at hcycle
    · cases hcycle
      rfl
    · cases hcycle
      rfl
    · cases hcycle
  cases horigin : cycle.origin with
  | call number =>
    rw [Cycle.stage, horigin] at hmeets
    exact hmeets.elim
  | timer =>
    rw [Cycle.stage, horigin] at hmeets
    obtain ⟨i, listing, hlast, hanswered, hlatest⟩ := hmeets
    refine ⟨i, listing, hlast, hanswered, ?_⟩
    rw [(Refresher.nextChange?_eq_some hfirst).2.1, listed_eq, hlatest]

/-! ### Timers that fire -/

/-- **A timer that fires while a cycle is in flight does nothing** but wait for the next time. -/
theorem trace_fire_of_inFlight {w : World} {k : List Frame} {t : Timer}
    (howner : t.owner.refresher? = some n) (hmark : w.inFlight n = true) :
    (fire w k t).world.trace = w.trace := by
  have hskips : ∀ (v : World) (k : List Frame), (v.refreshers[n]?).map Refresher.inFlight = some true →
      (tick v k n).world = v := by
    intro v k hv
    obtain ⟨r, hr, hflag⟩ := Option.map_eq_some_iff.mp hv
    simp only [tick, hr, hflag, if_true]
    rfl
  obtain ⟨q, hq, hflag⟩ := (Option.any_eq_true _ _).mp hmark
  obtain ⟨r, hr, rfl⟩ := Option.map_eq_some_iff.mp hq
  unfold fire
  dsimp only
  split
  · next n' heq =>
    rw [heq] at howner
    cases howner
    rw [hskips]
    · rfl
    · simp only [World.modifyRefresher, World.reach, List.getElem?_modify, hr]
      exact congrArg some hflag
  · next n' heq =>
    rw [heq] at howner
    cases howner
    rw [hskips]
    · rfl
    · simp only [World.reach, hr]
      exact congrArg some hflag
  · rfl

/-- **A refresher that runs has a naming service to ask.** -/
theorem Reachable.exists_provider (h : Reachable m) {r : Refresher} (hr : m.world.core? n = some r)
    (hrunning : r.running = true) : ∃ provider, r.provider = some provider := by
  refine h.induction (P := fun m => ∀ r, m.world.core? n = some r → r.running = true →
    ∃ provider, r.provider = some provider) (fun m hopen r hr hrunning => ?_)
    (fun m m' hm ih hl r hr hrunning => ?_) r hr hrunning
  · obtain ⟨x, hblank, hbeats⟩ := hopen.exists_blank
    obtain ⟨q, hq, hruns, -⟩ := World.exists_clockwork_of_core? hr
    rw [hbeats.still.time.clockwork] at hq
    obtain ⟨provider, handler, timings, -, rfl⟩ := hblank.idle n q hq
    exact absurd (hruns.trans hrunning) Bool.false_ne_true
  · by_cases hbefore : m.Running n
    · obtain ⟨r₀, hr₀, hrunning₀⟩ := hbefore
      obtain ⟨provider, hprovider⟩ := ih r₀ hr₀ hrunning₀
      obtain ⟨r', hr', hgrows⟩ := (hm.grow (.single hl)).old n r₀ hr₀
      rw [hr] at hr'
      cases hr'
      exact ⟨provider, hgrows.provider.trans hprovider⟩
    · obtain ⟨q, provider, i, hq, -, hprovider, -⟩ := hm.exists_of_begins hl ⟨hbefore, r, hr, hrunning⟩
      obtain ⟨q', hq', -, -, hsame, -⟩ := World.exists_clockwork_of_core? hr
      rw [hq] at hq'
      cases hq'
      exact ⟨provider, hsame.symm.trans hprovider⟩

/-! ### The theorem -/

/-- **Cycles of timers never overlap**, and so lists are applied in the order of their lookups.

At every point of a session at most one cycle of a refresher that a timer began has not settled. A
timer of the refresher that fires meanwhile – that of the first poll, that of the later ones, or one
left over – does nothing that shows, so it makes no lookup. One that fires while the refresher runs,
where every earlier cycle that a timer began has settled and been released, makes a lookup for the
services that are tracked, in whatever way these cycles ended. Where no step begins a cycle of its
own, a list that is handed over is the one that the latest lookup was answered with; so of two such
lists, the later one is never from the earlier lookup. -/
theorem Reachable.timer_cycles_never_overlap (h : Reachable m) (n : Nat) :
    m.unsettled n ≤ 1 ∧
    (∀ t b, Fires t m b → t.owner.refresher? = some n → m.unsettled n = 1 →
      b.world.trace = m.world.trace) ∧
    (∀ t b r, Fires t m b → t.owner.refresher? = some n → m.world.core? n = some r →
      r.running = true → m.unsettled n = 0 → m.landed n = 0 →
      ∃ provider, r.provider = some provider ∧
        b.world.polls n = m.world.polls n ++ [(provider, r.snapshot.keys)]) ∧
    (∀ m₀ answers answers' b change change', Opens m₀ → Unforced m₀ answers m →
      Unforced m answers' b → m.handing? n = some change → b.handing? n = some change' →
      ∃ i j listing listing', i ≤ j ∧ (m.world.inquiries n).getLast? = some i ∧
        (b.world.inquiries n).getLast? = some j ∧
        (i, .ok listing) ∈ answers ∧ change.endpoints = listed listing change.service ∧
        (j, .ok listing') ∈ answers ++ answers' ∧
        change'.endpoints = listed listing' change'.service) := by
  have hmarked := h.marked n
  have hle := Bool.toNat_le (m.world.inFlight n)
  rw [flights_eq] at hmarked
  refine ⟨by omega, fun t b hfires howner hone => ?_, fun t b r hfires howner hr hrunning hnone hgone => ?_,
    fun m₀ answers answers' b change change' hopen hs hs' hhands hhands' => ?_⟩
  · have hmark : m.world.inFlight n = true := by
      cases hflag : m.world.inFlight n with
      | true => rfl
      | false =>
        rw [hflag, Bool.toNat_false] at hmarked
        omega
    cases hfires with
    | due hdue =>
      obtain ⟨w, time, settling, k, outcome, rfl, hnext⟩ := next_of_due? hdue
      rw [hnext]
      exact trace_fire_of_inFlight howner hmark
    | fire w outcome ht => exact trace_fire_of_inFlight howner hmark
  · obtain ⟨provider, hprovider⟩ := h.exists_provider hr hrunning
    refine ⟨provider, hprovider, ?_⟩
    have hmark : m.world.inFlight n = false := by
      cases hflag : m.world.inFlight n with
      | false => rfl
      | true =>
        rw [hflag, Bool.toNat_true] at hmarked
        omega
    rw [hfires.beats.polls_of_strike, if_pos howner, World.asks_eq hr hrunning hprovider, hmark]
    rfl
  · have hcurrent : m.Current answers := hs.current hopen.current hopen.reachable
    have hcurrent' : b.Current (answers ++ answers') := hs'.current hcurrent h
    obtain ⟨i, listing, hi, hanswered, hlist⟩ := hcurrent.exists_of_handing? hhands
    obtain ⟨j, listing', hj, hanswered', hlist'⟩ := hcurrent'.exists_of_handing? hhands'
    obtain ⟨j', hj', hij⟩ := hcurrent.exists_le h hs' hi
    rw [hj] at hj'
    cases hj'
    exact ⟨i, j, listing, listing', hij, hi, hj, hanswered, hlist, hanswered', hlist'⟩

/-- The first lookup is open for two seconds here. The timer that fires meanwhile is passed over;
the one after it makes a second lookup, and the two lists are applied in this order. -/
theorem timer_cycles_never_overlap_thrice :
    ∃ a b c d p q t t', Reachable a ∧ Fires t a b ∧ t.owner.refresher? = some 0 ∧
      a.unsettled 0 = 1 ∧ b.world.trace = a.world.trace ∧
      Run b c ∧ Fires t' c d ∧ t'.owner.refresher? = some 0 ∧
      d.world.polls 0 = c.world.polls 0 ++ [("registry", ["echo"])] ∧
      Run b p ∧ (p.handing? 0).map Refresher.Change.endpoints = some [⟨"a", .ofNat 1⟩] ∧
      Run p q ∧ (q.handing? 0).map Refresher.Change.endpoints = some [⟨"b", .ofNat 2⟩] ∧
      ∃ i j, i ≤ j ∧ (p.world.inquiries 0).getLast? = some i ∧
        (q.world.inquiries 0).getLast? = some j := by
  let services : Listing := .ofList [("echo", [])]
  let one : Listing := .ofList [("echo", [⟨"a", .ofNat 1⟩])]
  let two : Listing := .ofList [("echo", [⟨"b", .ofNat 2⟩])]
  let script : List Response := [(.pending, []), (.settled (.listing two), [])]
  let second : Step := .advance (.ofNat 1000)
  -- a second passes three times, and the first lookup ends before the third
  let m₀ : Machine := ⟨secondly .empty script [], [], .deliver (.ok .nothing)⟩
  let m₁ := run 2 (m₀.world.machine (.start services))
  let m₂ := run 6 (m₁.world.machine second)
  let a := run 1 (m₂.world.machine second)
  let m₃ := run 3 a
  let p := run 1 (m₃.world.machine (.settle .oldest (.listing one)))
  let m₄ := run 5 p
  let c := run 1 (m₄.world.machine second)
  let q := run 2 c
  have h₁ : Unforced m₀ _ m₁ := stretch_of_step _ rfl (.start services) 2 (by decide +kernel)
  have h₂ : Unforced m₁ _ m₂ := stretch_of_step _ (by decide +kernel) second 6 (by decide +kernel)
  have ha : Unforced m₂ _ a := stretch_of_step _ (by decide +kernel) second 1 (by decide +kernel)
  have h₃ : Unforced a _ m₃ := stretch_of_transitions _ 3 a (by decide +kernel)
  have hp : Unforced m₃ _ p := stretch_of_step _ (by decide +kernel) (.settle .oldest (.listing one)) 1
    (by decide +kernel)
  have h₄ : Unforced p _ m₄ := stretch_of_transitions _ 5 p (by decide +kernel)
  have hc : Unforced m₄ _ c := stretch_of_step _ (by decide +kernel) second 1 (by decide +kernel)
  have hq : Unforced c _ q := stretch_of_transitions _ 2 c (by decide +kernel)
  have hopen : Opens m₀ := opens_secondly .empty script []
  have hbefore := (h₁.trans h₂).trans ha
  have hra : Reachable a := hopen.reachable.run hbefore.run
  have hrp : Reachable p := hra.run (h₃.trans hp).run
  have hrc : Reachable c := hrp.run (h₄.trans hc).run
  have hab : Run a.next p := by
    have hrun : m₃ = run 2 a.next := run_succ 2 a
    exact (hrun ▸ run_of_transitions 2 a.next : Run a.next m₃).trans hp.run
  -- the timer that is passed over, and the one that is not
  have hdue : a.due?.map (fun t => t.owner.refresher?) = some (some 0) := by decide +kernel
  obtain ⟨t, ht, howner⟩ := Option.map_eq_some_iff.mp hdue
  have hdue' : c.due?.map (fun t => t.owner.refresher?) = some (some 0) := by decide +kernel
  obtain ⟨t', ht', howner'⟩ := Option.map_eq_some_iff.mp hdue'
  obtain ⟨-, hpassed, -, -⟩ := hra.timer_cycles_never_overlap 0
  obtain ⟨-, -, hasks, -⟩ := hrc.timer_cycles_never_overlap 0
  obtain ⟨-, -, -, hinOrder⟩ := hrp.timer_cycles_never_overlap 0
  have hcore : (c.world.core? 0).map (fun r => (r.running, r.provider, r.snapshot.keys)) =
      some (true, some "registry", ["echo"]) := by decide +kernel
  obtain ⟨r, hr, hrunning⟩ := Option.map_eq_some_iff.mp hcore
  simp only [Prod.mk.injEq] at hrunning
  obtain ⟨provider, hprovider, hpolls⟩ := hasks t' _ r (.due ht') howner' hr hrunning.1
    (by decide +kernel) (by decide +kernel)
  rw [hrunning.2.1, Option.some.injEq] at hprovider
  rw [← hprovider, hrunning.2.2] at hpolls
  -- the two lists
  have hfirst : (p.handing? 0).map Refresher.Change.endpoints = some [⟨"a", .ofNat 1⟩] := by
    decide +kernel
  have hsecond : (q.handing? 0).map Refresher.Change.endpoints = some [⟨"b", .ofNat 2⟩] := by
    decide +kernel
  obtain ⟨change, hchange, -⟩ := Option.map_eq_some_iff.mp hfirst
  obtain ⟨change', hchange', -⟩ := Option.map_eq_some_iff.mp hsecond
  obtain ⟨i, j, -, -, hij, hi, hj, -⟩ := hinOrder m₀ _ _ q change change' hopen
    ((hbefore.trans h₃).trans hp) ((h₄.trans hc).trans hq) hchange hchange'
  exact ⟨a, a.next, c, c.next, p, q, t, t', hra, .due ht, howner, by decide +kernel,
    hpassed t _ (.due ht) howner (by decide +kernel), hab.trans (h₄.trans hc).run, .due ht', howner',
    hpolls, hab, hfirst, ((h₄.trans hc).trans hq).run, hsecond, i, j, hij, hi, hj⟩

end Machine

end Balancer.Session
