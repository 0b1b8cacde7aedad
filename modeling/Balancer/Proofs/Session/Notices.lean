import Balancer.Proofs.Session.Awaiting
import Balancer.Proofs.Session.Stages

/-!
# What the listener is told

Each change of the membership ends with the listener being told of it, after the rotation is
complete and before anything else happens, and nothing else calls the listener. So along a session,
with all that the listener itself does in between, what it has been told is the list of these
changes.

* `Balancer.Session.Machine.announces` – what the next transition is to tell.
* `Balancer.Session.Machine.Reachable.told_of_alteration` – **a change is told when it is
  complete.**
* `Balancer.Session.Machine.Reachable.notices_next` – a transition tells what it is to tell, and no
  more.
* `Balancer.Session.Machine.Reachable.notices_are_membership_changes` – **the listener is told of
  the changes of the membership, of each once and in order.**
-/

namespace Balancer.Session.Machine

variable {w : World} {k : List Frame} {m m' b : Machine} {s : Strategy} {a : Alteration}

/-! ### Transitions -/

/-- **What the next transition tells the listener**: the change that it makes, with the targets in
service right after it and the clock. A strategy that is still building has nothing to tell. -/
def announces (m : Machine) : List Notice :=
  match m.world.strategy?, m.alteration? with
  | some _, some a => [⟨a.change, a.rotation.active.keys, m.world.clock.floor⟩]
  | _, _ => []

theorem announces_of_stays (h : m.alteration? = none) : m.announces = [] := by
  rw [announces, h]
  split
  · contradiction
  · rfl

theorem announces_of_no_strategy (h : m.world.strategy? = none) : m.announces = [] := by
  rw [announces, h]

theorem announces_of_alteration (hs : m.world.strategy? = some s) (ha : m.alteration? = some a) :
    m.announces = [⟨a.change, a.rotation.active.keys, m.world.clock.floor⟩] := by
  rw [announces, hs, ha]

/-- The strategy, if there is one, has a listener. -/
def Listens (m : Machine) : Prop := ∀ s, m.world.strategy = some s → s.listener.isSome = true

/-- Where nobody is told anything, the listener stays. -/
theorem Untold.listens (h : Untold m.world m') (hm : m.Listens) : m'.Listens := by
  intro s' hs'
  obtain ⟨s, hs, heq⟩ := h.listener s' hs'
  rw [heq]
  exact hm s hs

/-- A change of a strategy that is not built is told to nobody. -/
theorem untold_of_no_strategy (ha : m.alteration? = some a) (hs : m.world.strategy? = none) :
    Untold m.world m.next := by
  obtain ⟨w, k, hnext, hcompletes⟩ := next_of_alteration ha
  obtain ⟨f, hstrategy, hf⟩ := hcompletes.strategy
  have hdone : notify w k a.change = done w k := by
    rw [notify, hstrategy]
    rcases hthere : m.world.strategy with _ | s
    · rfl
    · have hbuilding : s.building = true := by
        rw [World.strategy?, hthere, Option.filter_eq_none_iff] at hs
        simpa using hs s rfl
      simp only [Option.map_some, (hf s).2, hbuilding]
  rw [hnext, hdone]
  exact hcompletes.mute.untold

/-- **A change of the membership is told when it is complete**: the listener begins to run its
steps, and the strategy has the rotation that the change leads to. -/
theorem Reachable.told_of_alteration (h : Reachable m) (hs : m.world.strategy? = some s)
    (hlistens : s.listener.isSome = true) (ha : m.alteration? = some a) :
    ∃ w k s', let reaction := (s.listener.getD []).headD Reaction.default
      m.next = runScript w (.listener reaction.ending :: k) reaction.steps ∧
      w.notices = m.world.notices ++ [⟨a.change, a.rotation.active.keys, m.world.clock.floor⟩] ∧
      w.strategy = some s' ∧ s'.rotation = a.rotation ∧ s'.listener.isSome = true := by
  obtain ⟨hthere, hbuilt⟩ := Option.filter_eq_some_iff.mp hs
  obtain ⟨w, k, hnext, hcompletes⟩ := next_of_alteration ha
  obtain ⟨f, hstrategy, hf⟩ := hcompletes.strategy
  rw [hthere, Option.map_some] at hstrategy
  obtain ⟨s₀, hs₀, hlistener⟩ := hcompletes.mute.listener (f s) hstrategy
  obtain rfl : s₀ = s := Option.some.inj (hs₀.symm.trans hthere)
  obtain ⟨reactions, hreactions⟩ := Option.isSome_iff_exists.mp hlistens
  rw [hreactions] at hlistener
  rw [hreactions, Option.getD_some]
  have hbuilding : (f s₀).building = false := (hf s₀).2.trans (by simpa using hbuilt)
  let told : Notice := ⟨a.change, (f s₀).rotation.targets, w.clock.floor⟩
  let w' := (w.emit (.notice told)).modifyStrategy fun s => { s with listener := some reactions.tail }
  have hrun : m.next = runScript w' (.listener (reactions.headD Reaction.default).ending :: k)
      (reactions.headD Reaction.default).steps := by
    rw [hnext, notify, hstrategy]
    simp only [hbuilding, hlistener]
    rfl
  have hw' : w'.strategy = some { f s₀ with listener := some reactions.tail } :=
    congrArg (Option.map _) hstrategy
  -- the targets are read off the sequence, which is sound after the change
  have htargets : (f s₀).rotation.targets = a.rotation.active.keys := by
    have hsound := (h.leads (.next m)).sound
    rw [hrun, World.Sound, world_runScript] at hsound
    rw [← (hf s₀).1]
    exact (hsound _ hw').targets_eq
  refine ⟨w', k, _, hrun, ?_, hw', (hf s₀).1, rfl⟩
  show (w.emit (.notice told)).notices = _
  rw [World.notices_emit, hcompletes.mute.notices, Event.notice?, Option.toList_some]
  simp only [told, htargets, hcompletes.clock]

/-- **A transition tells the listener what it is to tell, and no more.** -/
theorem Reachable.notices_next (h : Reachable m) (hlistens : m.Listens) :
    m.next.world.notices = m.world.notices ++ m.announces ∧ m.next.Listens := by
  have hquiet : Untold m.world m.next → m.announces = [] →
      m.next.world.notices = m.world.notices ++ m.announces ∧ m.next.Listens := by
    intro huntold hnone
    rw [hnone, List.append_nil]
    exact ⟨huntold.notices, huntold.listens hlistens⟩
  rcases ha : m.alteration? with _ | a
  · exact hquiet (untold_next ha) (announces_of_stays ha)
  · rcases hs : m.world.strategy? with _ | s
    · exact hquiet (untold_of_no_strategy ha hs) (announces_of_no_strategy hs)
    · have hthere := (Option.filter_eq_some_iff.mp hs).1
      obtain ⟨w, k, s', hnext, hnotices, hs', -, hlistens'⟩ :=
        h.told_of_alteration hs (hlistens s hthere) ha
      rw [announces_of_alteration hs ha]
      refine ⟨by rw [hnext, world_runScript, hnotices], fun s'' hs'' => ?_⟩
      rw [hnext, world_runScript, hs'] at hs''
      cases hs''
      exact hlistens'

/-- Where a step begins or a timer fires, nobody is told anything. -/
theorem Enters.untold (h : Enters m m') : Untold m.world m' := by
  cases h with
  | perform w => exact World.Mute.refl w
  | interject w => exact World.Mute.refl w
  | fire w => exact untold_fire (.refl w) _

/-- **Along a session the listener is told what each transition is to tell, in order.** -/
theorem Stretch.notices {told : List Notice} (hb : Stretch (fun _ => True) announces m told b)
    (h : Reachable m) (hlistens : m.Listens) :
    b.world.notices = m.world.notices ++ told ∧ b.Listens := by
  induction hb with
  | refl => exact ⟨(List.append_nil _).symm, hlistens⟩
  | @next told a hstretch _ ih =>
    obtain ⟨hnotices, hlistens'⟩ := (h.run hstretch.run).notices_next ih.2
    rw [hnotices, ih.1, List.append_assoc]
    exact ⟨rfl, hlistens'⟩
  | enter _ henters ih =>
    exact ⟨henters.untold.notices.trans ih.1, henters.untold.listens ih.2⟩

/-! ### All runs -/

/-- **The listener is told of the changes of the membership, of each once and in order.** Let a
strategy have a listener. Then, along any stretch of a session, with whatever the listener itself
calls in between, the listener is told of exactly the changes that the transitions make. A change is
told in the transition that makes it: the notice has its kind with its target or service, the
targets in service right after it, in the order of their table, and the clock; and where the
listener begins to run its steps, the strategy has the rotation that the change leads to, with both
tables, the sequence and the cursor. A transition that makes no such change tells nothing, and
leaves both tables as they are. While the strategy is building nothing is told either, and the only
change made then is to take the list that its first lookup was answered with. -/
theorem Reachable.notices_are_membership_changes (h : Reachable m)
    (hs : m.world.strategy = some s) (hlistens : s.listener.isSome = true) :
    (∀ told b, Stretch (fun _ => True) announces m told b →
      b.world.notices = m.world.notices ++ told) ∧
    (s.building = false → ∀ a, m.alteration? = some a →
      ∃ w k s', let reaction := (s.listener.getD []).headD Reaction.default
        m.announces = [⟨a.change, a.rotation.active.keys, m.world.clock.floor⟩] ∧
        m.next = runScript w (.listener reaction.ending :: k) reaction.steps ∧
        w.notices = m.world.notices ++ m.announces ∧
        w.strategy = some s' ∧ s'.rotation = a.rotation) ∧
    (m.alteration? = none → m.announces = [] ∧ m.next.world.notices = m.world.notices ∧
      ∀ s', m.next.world.strategy = some s' →
        s'.rotation.active = s.rotation.active ∧ s'.rotation.failed = s.rotation.failed) ∧
    (s.building = true → m.announces = [] ∧ m.next.world.notices = m.world.notices ∧
      ∀ a, m.alteration? = some a → m.world.lookupCount = 1 ∧
        ∃ call service provider listing,
          m.job? = some (.answered (.binding call service provider) (.ok listing)) ∧
          a = .reset service (listed listing service)) := by
  have hm : m.Listens := by
    intro s' hs'
    cases hs.symm.trans hs'
    exact hlistens
  refine ⟨fun told b hb => (hb.notices h hm).1, ?_, ?_, ?_⟩
  · intro hbuilt a ha
    have hthere : m.world.strategy? = some s := by
      rw [World.strategy?, hs, Option.filter_some, hbuilt]
      rfl
    obtain ⟨w, k, s', hnext, hnotices, hs', hrotation, -⟩ := h.told_of_alteration hthere hlistens ha
    have htold := announces_of_alteration hthere ha
    exact ⟨w, k, s', htold, hnext, htold ▸ hnotices, hs', hrotation⟩
  · intro hstays
    refine ⟨announces_of_stays hstays, (untold_next hstays).notices, fun s' hs' => ?_⟩
    obtain ⟨s₀, hs₀, hrotation⟩ := (hs' ▸ h.evolves_next).exists_of_some
    obtain rfl : s₀ = s := Option.some.inj (hs₀.symm.trans hs)
    rw [hrotation]
    exact tables_of_stays hstays hs
  · intro hbuilding
    have hnone := announces_of_no_strategy (strategy?_of_building hs hbuilding)
    refine ⟨hnone, ?_, fun a ha => h.alteration_of_building hs hbuilding ha⟩
    rw [(h.notices_next hm).1, hnone, List.append_nil]

/-- The listener is told here that one of three targets was taken out. It takes out another one, of
which it is told at once, and then that one once more, which changes nothing, and elects a target.
When it is told the second time, it puts the first one back and throws. -/
theorem notices_are_membership_changes_while_listening :
    ∃ m b, Reachable m ∧ m.world.notices = [] ∧
      Stretch (fun _ => True) announces m b.world.notices b ∧
      b.world.notices = [⟨.removed "a", ["b", "c"], .ofNat 5⟩, ⟨.removed "b", ["c"], .ofNat 5⟩,
        ⟨.recovered "a", ["c", "a"], .ofNat 5⟩] := by
  let setup : Setup := ⟨.ofNat 5, ⟨none, none⟩, false, .empty⟩
  let reactions : List Reaction :=
    [⟨[.remove "b", .remove "b", .elect 1], .returns⟩, ⟨[.recover "a"], .throws .notInitialized⟩]
  let weights : Table Binary64 := .ofList [("a", .ofNat 6), ("b", .ofNat 4), ("c", .ofNat 2)]
  let w := openStrategy setup ⟨none, none, some reactions⟩ weights
  let m : Machine := ⟨w, [], .deliver (.ok .nothing)⟩
  have hopen : Reachable m := (Opens.strategy setup _ weights).reachable
  have hstretch : Stretch (fun _ => True) announces m _ _ :=
    stretch_of_step announces rfl (.remove "a") 20 fun _ _ => trivial
  have htold : ((List.range 20).flatMap fun i => announces (run i (w.machine (.remove "a")))) =
      [⟨.removed "a", ["b", "c"], .ofNat 5⟩, ⟨.removed "b", ["c"], .ofNat 5⟩,
        ⟨.recovered "a", ["c", "a"], .ofNat 5⟩] := by
    decide +kernel
  rw [htold] at hstretch
  obtain ⟨s, hs, hlistens⟩ : ∃ s, m.world.strategy = some s ∧ s.listener.isSome = true := ⟨_, rfl, rfl⟩
  obtain ⟨hnotices, -⟩ := hopen.notices_are_membership_changes hs hlistens
  have hlist := hnotices _ _ hstretch
  have hempty : m.world.notices = [] := by decide +kernel
  rw [hempty, List.nil_append] at hlist
  exact ⟨m, _, hopen, hempty, hlist.symm ▸ hstretch, hlist⟩

end Balancer.Session.Machine
