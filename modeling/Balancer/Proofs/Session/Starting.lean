import Balancer.Proofs.Session.Forgone

/-!
# Starting to poll

A start of polling chooses two timings, checks them, makes a refresher and starts it, in this order;
what it does not get, it takes from the settings of the process. Whatever fails, fails before the
first change.

* `Balancer.Settings.fault?` – **the first setting that cannot be read.**
* `Balancer.Session.Strategy.asked` – **what a start asks for as a timing**: the first given of
  argument, option and setting.
* `Balancer.Session.Strategy.Refuses`, `Balancer.Session.Strategy.Asks` – why a start fails, and
  what it polls with if it does not; `Balancer.Session.Strategy.chooseTimings_cases` – there is
  nothing else.
* `Balancer.Session.Machine.Reachable.starting_is_all_or_nothing` – **a start changes nothing, or it
  leaves one refresher that runs.**
* `Balancer.Session.Machine.starting_agrees_iff` – **in which settings a start does the same**, if
  these agree on the timings that are not given.
-/

namespace Balancer

/-! ### Timings -/

/-- A timing by its name. -/
def Timings.get (timings : Timings) : TimingField → Binary64
  | .delay => timings.delay
  | .period => timings.period

/-- A number of milliseconds that a timer can wait: it is positive and finite. -/
def Binary64.Waitable (x : Binary64) : Prop := x.isFinite = true ∧ Binary64.zero.lt x = true

theorem checkTiming_of_waitable {field : TimingField} {value : Binary64} (h : value.Waitable) :
    checkTiming field value = .ok () := by
  rw [checkTiming, h.1, h.2]
  rfl

theorem checkTiming_of_not_waitable {field : TimingField} {value : Binary64} (h : ¬ value.Waitable) :
    checkTiming field value = .error (.invalidTiming field value) := by
  rw [checkTiming, if_neg]
  rwa [Bool.and_eq_true]

/-- **A check fails at the first bad timing.** -/
theorem Timings.check_cases (timings : Timings) :
    (timings.check = .ok () ∧ ∀ field, (timings.get field).Waitable) ∨
      ∃ field, timings.check = .error (.invalidTiming field (timings.get field)) ∧
        ¬ (timings.get field).Waitable := by
  by_cases hdelay : timings.delay.Waitable
  · have hfirst : timings.check = checkTiming .period timings.period := by
      rw [check, checkTiming_of_waitable hdelay]
      rfl
    by_cases hperiod : timings.period.Waitable
    · refine .inl ⟨hfirst.trans (checkTiming_of_waitable hperiod), fun field => ?_⟩
      cases field
      · exact hdelay
      · exact hperiod
    · exact .inr ⟨.period, hfirst.trans (checkTiming_of_not_waitable hperiod), hperiod⟩
  · refine .inr ⟨.delay, ?_, hdelay⟩
    rw [check, checkTiming_of_not_waitable hdelay]
    rfl

/-- **Timings that are good**, or the failure of their check. -/
def Timings.checked (timings : Timings) : Except Failure Timings := do
  timings.check
  return timings

theorem Timings.checked_cases (timings : Timings) :
    (timings.checked = .ok timings ∧ ∀ field, (timings.get field).Waitable) ∨
      ∃ field, timings.checked = .error (.invalidTiming field (timings.get field)) ∧
        ¬ (timings.get field).Waitable := by
  rw [checked]
  rcases timings.check_cases with ⟨hcheck, hwaitable⟩ | ⟨field, hcheck, hbad⟩
  · rw [hcheck]
    exact .inl ⟨rfl, hwaitable⟩
  · rw [hcheck]
    exact .inr ⟨field, rfl, hbad⟩

/-! ### Settings -/

/-- The setting of a timing. -/
def Settings.get (settings : Settings) : TimingField → Option String
  | .delay => settings.delay
  | .period => settings.period

/-- **The first setting that cannot be read**, as the failure to read it. -/
def Settings.fault? (settings : Settings) : Option Failure :=
  match readSetting .delay settings.delay, readSetting .period settings.period with
  | .error failure, _ => some failure
  | .ok _, .error failure => some failure
  | .ok _, .ok _ => none

theorem exists_of_readSetting_eq_error {field : TimingField} {setting : Option String}
    {failure : Failure} (h : readSetting field setting = .error failure) :
    ∃ raw, setting = some raw ∧ failure = .invalidSetting field raw := by
  rcases setting with _ | raw
  · cases h
  · refine ⟨raw, rfl, ?_⟩
    simp only [readSetting] at h
    split at h
    · cases h
    · split at h
      · split at h
        · cases h
        · cases h
          rfl
      · cases h
        rfl

/-- **Reading the settings fails at the first one that cannot be read.** -/
theorem Settings.timings_cases (settings : Settings) :
    (∃ field raw, settings.fault? = some (.invalidSetting field raw) ∧
        settings.timings = .error (.invalidSetting field raw)) ∨
      ∃ timings : Timings, settings.fault? = none ∧ settings.timings = .ok timings ∧
        ∀ field, readSetting field (settings.get field) = .ok (timings.get field) := by
  rw [fault?, timings]
  rcases hdelay : readSetting .delay settings.delay with failure | delay
  · obtain ⟨raw, -, rfl⟩ := exists_of_readSetting_eq_error hdelay
    exact .inl ⟨_, _, rfl, rfl⟩
  · rcases hperiod : readSetting .period settings.period with failure | period
    · obtain ⟨raw, -, rfl⟩ := exists_of_readSetting_eq_error hperiod
      exact .inl ⟨_, _, rfl, rfl⟩
    · refine .inr ⟨⟨delay, period⟩, rfl, rfl, fun field => ?_⟩
      cases field
      · exact hdelay
      · exact hperiod

namespace Session

/-! ### What a start asks for -/

namespace Strategy

variable {s : Strategy} {settings settings' : Settings} {delay period : Option Binary64}
  {failure : Failure} {timings : Timings}

/-- A timing as it is given: as an argument, or else as an option. -/
def given (s : Strategy) (delay period : Option Binary64) : TimingField → Option Binary64
  | .delay => delay <|> s.delay
  | .period => period <|> s.period

/-- **What a start asks for as a timing**: the first given of argument, option and setting. -/
def asked (s : Strategy) (settings : Settings) (delay period : Option Binary64)
    (field : TimingField) : Except Failure Binary64 :=
  match s.given delay period field with
  | some value => .ok value
  | none => readSetting field (settings.get field)

/-- **Why a start fails.** -/
inductive Refuses (s : Strategy) (settings : Settings) (delay period : Option Binary64) :
    Failure → Prop
  /-- A timing is not given, and one of the settings cannot be read. -/
  | setting {failure : Failure} (missing : ∃ field, s.given delay period field = none)
      (fault : settings.fault? = some failure) : Refuses s settings delay period failure
  /-- A timing that is asked for is not positive and finite. -/
  | timing {field : TimingField} {value : Binary64}
      (asked : s.asked settings delay period field = .ok value) (bad : ¬ value.Waitable) :
      Refuses s settings delay period (.invalidTiming field value)

/-- **The timings of a start**: what it asks for, and nothing is wrong with it. -/
structure Asks (s : Strategy) (settings : Settings) (delay period : Option Binary64)
    (timings : Timings) : Prop where
  /-- Each timing comes from the first of its own sources. -/
  asked : ∀ field, s.asked settings delay period field = .ok (timings.get field)
  /-- Each timing is positive and finite. -/
  waitable : ∀ field, (timings.get field).Waitable
  /-- If one is not given, all settings can be read. -/
  readable : (∃ field, s.given delay period field = none) → settings.fault? = none

/-- A start that fails does so for a bad configuration. -/
theorem Refuses.name (h : s.Refuses settings delay period failure) :
    failure.name? = some "ConfigurationError" := by
  cases h with
  | setting missing fault =>
    rcases settings.timings_cases with ⟨field, raw, hfault, -⟩ | ⟨timings, hnone, -⟩
    · cases hfault.symm.trans fault
      rfl
    · cases hnone.symm.trans fault
  | timing asked bad => rfl

/-- The timings of a start, where the settings have been read. -/
def filled (s : Strategy) (delay period : Option Binary64) (read : Timings) : Timings where
  delay := (s.given delay period .delay).getD read.delay
  period := (s.given delay period .period).getD read.period

theorem get_filled (read : Timings) (field : TimingField) :
    (s.filled delay period read).get field = (s.given delay period field).getD (read.get field) := by
  cases field <;> rfl

/-- Where both timings are given the settings are not read. -/
theorem chooseTimings_of_given (h : ∀ field, ∃ value, s.given delay period field = some value)
    (read : Timings) :
    s.chooseTimings settings delay period = (s.filled delay period read).checked := by
  obtain ⟨d, hdelay⟩ := h .delay
  obtain ⟨p, hperiod⟩ := h .period
  simp only [filled, hdelay, hperiod]
  simp only [given] at hdelay hperiod
  simp only [chooseTimings, hdelay, hperiod]
  rfl

/-- Where a timing is not given both settings are read. -/
theorem chooseTimings_of_missing (h : ∃ field, s.given delay period field = none) :
    s.chooseTimings settings delay period =
      settings.timings.bind fun read => (s.filled delay period read).checked := by
  obtain ⟨field, hmissing⟩ := h
  rcases hdelay : s.given delay period .delay with _ | d <;>
    rcases hperiod : s.given delay period .period with _ | p <;>
    simp only [filled, hdelay, hperiod] <;> simp only [given] at hdelay hperiod <;>
    simp only [chooseTimings, hdelay, hperiod]
  · rfl
  · rfl
  · rfl
  · -- one of the two is missing
    cases field <;> simp only [given, hdelay, hperiod, reduceCtorEq] at hmissing

/-- Where the settings do not matter or can be read, a choice yields what is asked for, unless a
timing is bad. -/
theorem filled_cases {read : Timings}
    (hasked : ∀ field, s.asked settings delay period field =
      .ok ((s.given delay period field).getD (read.get field)))
    (hreadable : (∃ field, s.given delay period field = none) → settings.fault? = none) :
    (∃ failure, (s.filled delay period read).checked = .error failure ∧
        s.Refuses settings delay period failure) ∨
      ∃ timings, (s.filled delay period read).checked = .ok timings ∧
        s.Asks settings delay period timings := by
  have hget : ∀ field, s.asked settings delay period field =
      .ok ((s.filled delay period read).get field) := fun field => by rw [get_filled, hasked]
  rcases (s.filled delay period read).checked_cases with ⟨hchecked, hwaitable⟩ | ⟨field, hchecked, hbad⟩
  · exact .inr ⟨_, hchecked, hget, hwaitable, hreadable⟩
  · exact .inl ⟨_, hchecked, .timing (hget field) hbad⟩

/-- **A choice of timings fails for one of the reasons to refuse, or yields what is asked for.** -/
theorem chooseTimings_cases (s : Strategy) (settings : Settings) (delay period : Option Binary64) :
    (∃ failure, s.chooseTimings settings delay period = .error failure ∧
        s.Refuses settings delay period failure) ∨
      ∃ timings, s.chooseTimings settings delay period = .ok timings ∧
        s.Asks settings delay period timings := by
  by_cases hmissing : ∃ field, s.given delay period field = none
  · rw [chooseTimings_of_missing hmissing]
    rcases settings.timings_cases with ⟨field, raw, hfault, hread⟩ | ⟨read, hnone, hread, heach⟩
    · rw [hread]
      exact .inl ⟨_, rfl, .setting hmissing hfault⟩
    · rw [hread]
      refine filled_cases (fun field => ?_) fun _ => hnone
      rw [asked]
      cases hgiven : s.given delay period field with
      | some value => rfl
      | none => exact heach field
  · have hgiven : ∀ field, ∃ value, s.given delay period field = some value := fun field =>
      Option.ne_none_iff_exists'.mp fun hnone => hmissing ⟨field, hnone⟩
    rw [chooseTimings_of_given hgiven ⟨.zero, .zero⟩]
    refine filled_cases (fun field => ?_) fun h => absurd h hmissing
    obtain ⟨value, hvalue⟩ := hgiven field
    rw [asked, hvalue]
    rfl

/-- Timings that are there are never refused for a setting. -/
theorem checked_ne_invalidSetting (timings : Timings) (field : TimingField) (raw : String) :
    timings.checked ≠ .error (.invalidSetting field raw) := by
  intro h
  rcases timings.checked_cases with ⟨hchecked, -⟩ | ⟨_, hchecked, -⟩
  · cases hchecked.symm.trans h
  · cases hchecked.symm.trans h

/-- **In which settings the same timings are chosen**, if these agree on the timings that are not
given: in all of them where both are given, and else where the same setting cannot be read. -/
theorem chooseTimings_eq_iff
    (hagree : ∀ field, s.given delay period field = none → settings'.get field = settings.get field) :
    s.chooseTimings settings' delay period = s.chooseTimings settings delay period ↔
      (∀ field, ∃ value, s.given delay period field = some value) ∨
        settings'.fault? = settings.fault? := by
  by_cases hmissing : ∃ field, s.given delay period field = none
  · have hnot : ¬ ∀ field, ∃ value, s.given delay period field = some value := by
      obtain ⟨field, hfield⟩ := hmissing
      intro hall
      obtain ⟨value, hvalue⟩ := hall field
      cases hfield.symm.trans hvalue
    rw [or_iff_right hnot, chooseTimings_of_missing hmissing, chooseTimings_of_missing hmissing]
    rcases settings'.timings_cases with ⟨field', raw', hfault', hread'⟩ |
        ⟨read', hfault', hread', heach'⟩ <;>
      rcases settings.timings_cases with ⟨field, raw, hfault, hread⟩ | ⟨read, hfault, hread, heach⟩ <;>
      rw [hfault', hfault, hread', hread]
    · -- in both a setting cannot be read
      exact ⟨fun h => congrArg some (Except.error.inj h),
        fun h => congrArg Except.error (Option.some.inj h)⟩
    · refine iff_of_false (fun h => ?_) (by simp)
      exact checked_ne_invalidSetting _ field' raw' h.symm
    · refine iff_of_false (fun h => ?_) (by simp)
      exact checked_ne_invalidSetting _ field raw h
    · -- in both all can be read, and what is missing is the same
      refine iff_of_true ?_ rfl
      have hsame : ∀ field, (s.given delay period field).getD (read'.get field) =
          (s.given delay period field).getD (read.get field) := by
        intro field
        cases hfield : s.given delay period field with
        | some value => rfl
        | none =>
          have hread := heach' field
          rw [hagree field hfield, heach field] at hread
          exact (Except.ok.inj hread).symm
      have hfilled : s.filled delay period read' = s.filled delay period read := by
        rw [filled, filled]
        exact congrArg₂ Timings.mk (hsame .delay) (hsame .period)
      exact congrArg Timings.checked hfilled
  · have hgiven : ∀ field, ∃ value, s.given delay period field = some value := fun field =>
      Option.ne_none_iff_exists'.mp fun hnone => hmissing ⟨field, hnone⟩
    refine iff_of_true ?_ (.inl hgiven)
    rw [chooseTimings_of_given hgiven ⟨.zero, .zero⟩, chooseTimings_of_given hgiven ⟨.zero, .zero⟩]

end Strategy

/-- The world in a process of some settings. -/
def World.within (w : World) (settings : Settings) : World := { w with settings := settings }

/-! ### What a start does -/

namespace Machine

/-- The machine in a process of some settings. -/
def within (m : Machine) (settings : Settings) : Machine :=
  { m with world := m.world.within settings }

variable {m m' : Machine} {s : Strategy} {b : Binding} {delay period : Option Binary64}
  {timings : Timings}

/-- **Polling has begun**: the strategy has a new refresher, which runs and no other does; it knows
the list of the bound service and waits on a new timer. -/
structure BeginsPolling (m m' : Machine) (s : Strategy) (b : Binding) (timings : Timings) : Prop where
  /-- The step is done. -/
  returns : m'.stack = m.stack ∧ m'.control = .deliver (.ok .nothing)
  /-- The strategy has the refresher and its timings, and is the same otherwise. -/
  strategy : m'.world.strategy = some (s.pollBy m.world.refreshers.length timings)
  /-- The refresher runs from the beginning, and knows the list of the service. -/
  refreshers : m'.world.refreshers = m.world.refreshers ++
    [(Refresher.idle (some b.provider) .strategy timings).begin
      (Table.empty.insert b.service b.endpoints) (m.world.timerCount + 1)]
  /-- It is the only one that runs. -/
  runs : ∀ n, m'.Running n ↔ n = m.world.refreshers.length
  /-- It waits for its first poll on the only new timer, which does not keep the program going. -/
  timers : ∃ t : Timer, m'.world.timers = m.world.timers ++ [t] ∧ t.detached = true ∧
    t.every = none ∧ t.due = m.world.clock + timings.delay ∧
    t.owner = .delay m.world.refreshers.length ∧ t.id = m.world.timerCount + 1
  /-- The rest of the world is the same, but for a log line. -/
  elsewhere : m'.world = { m.world with
    strategy := m'.world.strategy, refreshers := m'.world.refreshers, timers := m'.world.timers,
    timerCount := m.world.timerCount + 1, trace := m'.world.trace }

/-- **A strategy polls where one of its refreshers runs.** -/
theorem Follows.polling_iff (hm : m.Follows) : m.world.polling = true ↔ ∃ n, m.Running n := by
  rw [World.polling_iff]
  constructor
  · rintro ⟨n, r, -, hr, hrunning⟩
    exact ⟨n, r, hr, hrunning⟩
  · rintro ⟨n, r, hr, hrunning⟩
    obtain ⟨s, b, hpolls⟩ := hm.poller n r hr hrunning
    refine ⟨n, r, ?_, hr, hrunning⟩
    rw [World.poller?, hpolls.strategy]
    exact hpolls.latest

/-- A step that starts polling does nothing else. -/
theorem next_startPolling (hcontrol : m.control = .perform (.startPolling delay period))
    (hs : m.world.strategy? = some s) :
    m.next = finish (m.world.startPolling delay period) m.stack := by
  obtain ⟨w, k, c⟩ := m
  cases hcontrol
  show perform w k (.startPolling delay period) = _
  simp only [perform, Step.drivesRefresher, Bool.false_eq_true, if_false, hs]
  rfl

/-- A start does nothing where the strategy follows no service, or polls. -/
theorem startPolling_of_idle {w : World} (hs : w.strategy = some s)
    (h : s.binding = none ∨ w.polling = true) : w.startPolling delay period = (w, .ok ()) := by
  simp only [World.startPolling, hs]
  rcases h with hunbound | hpolling
  · rw [hunbound]
  · cases s.binding with
    | none => rfl
    | some b => exact if_pos hpolling

/-- Where the strategy follows a service and does not poll, the timings are chosen. -/
theorem startPolling_of_bound {w : World} (hs : w.strategy = some s) (hb : s.binding = some b)
    (hidle : w.polling = false) : w.startPolling delay period =
      match s.chooseTimings w.settings delay period with
      | .error failure => (w, .error failure)
      | .ok timings => (w.pollWith b timings).log .info
          ("Refreshing \"" ++ b.service ++ "\" from naming service") none := by
  cases hchosen : s.chooseTimings w.settings delay period <;>
    simp only [World.startPolling, hs, hb, hidle, hchosen, Bool.false_eq_true, if_false]

/-- A log call that goes through leaves a line, and changes nothing else. -/
theorem exists_log_eq_emit {w : World} (hlogs : w.logs = true) (level : Level) (message : String)
    (failure : Option Failure) : ∃ e, w.log level message failure = (w.emit e, .ok ()) := by
  obtain ⟨w', hlog⟩ := World.log_of_logs hlogs level message failure
  rw [hlog]
  rw [World.log] at hlog
  split at hlog
  · cases hlog
    exact ⟨_, rfl⟩
  · split at hlog
    · cases hlog
      exact ⟨_, rfl⟩
    · cases hlog

theorem modify_concat_length {α : Type} (f : α → α) (xs : List α) (x : α) :
    (xs ++ [x]).modify xs.length f = xs ++ [f x] := by
  induction xs with
  | nil => rfl
  | cons y xs ih => exact congrArg (y :: ·) ih

/-- The world in which a strategy has begun to poll, written out. -/
theorem pollWith_eq (w : World) (b : Binding) (timings : Timings) :
    w.pollWith b timings = { w with
      strategy := w.strategy.map fun s => s.pollBy w.refreshers.length timings
      refreshers := w.refreshers ++ [(Refresher.idle (some b.provider) .strategy timings).begin
        (Table.empty.insert b.service b.endpoints) (w.timerCount + 1)]
      timers := w.timers ++
        [⟨w.timerCount + 1, w.clock + timings.delay, none, .delay w.refreshers.length⟩]
      timerCount := w.timerCount + 1 } := by
  simp only [World.pollWith, World.startRefresher, World.modifyStrategy, List.getElem?_concat_length]
  simp only [World.modifyRefresher, World.setTimer, Refresher.idle, Option.isNone_some, Bool.or_self,
    Bool.false_eq_true, if_false]
  congr 1
  exact modify_concat_length _ _ _

/-- **A start that polls leaves one refresher that runs.** -/
theorem beginsPolling (hs : m.world.strategy = some s) (hidle : ∀ n, ¬ m.Running n)
    {e : Event} (hnext : m' = done ((m.world.pollWith b timings).emit e) m.stack) :
    BeginsPolling m m' s b timings := by
  have hworld : m'.world = (m.world.pollWith b timings).emit e := by rw [hnext]; rfl
  have hcore : ∀ n, m'.world.core? n = (m.world.pollWith b timings).core? n := by
    rw [hworld]
    exact fun _ => rfl
  rw [pollWith_eq] at hworld
  refine ⟨by rw [hnext]; exact ⟨rfl, rfl⟩, ?_, ?_, fun n => ?_, ?_, ?_⟩
  · rw [hworld]
    show m.world.strategy.map _ = _
    rw [hs, Option.map_some]
  · rw [hworld]
    rfl
  · simp only [Running, hcore n, World.core?_pollWith]
    split
    · next hnew => exact ⟨fun _ => hnew.symm, fun _ => ⟨_, rfl, rfl⟩⟩
    · next hold => exact ⟨fun hrunning => absurd hrunning (hidle n), fun hn => absurd hn.symm hold⟩
  · rw [hworld]
    exact ⟨_, rfl, rfl, rfl, rfl, rfl, rfl⟩
  · rw [hworld]
    rfl

/-- **A start is all or nothing.** Where the strategy follows no service or polls already, a start
does nothing and fails never, whatever is asked for. Otherwise it fails for a bad configuration and
leaves the world as it was, with everything that comes after it; or each timing is the first given
of argument, option and setting, both are positive and finite, and the strategy polls: one refresher
runs, which knows the list of the bound service and waits on the one new timer, and all else is as
it was. -/
theorem Reachable.starting_is_all_or_nothing (h : Reachable m)
    (hcontrol : m.control = .perform (.startPolling delay period))
    (hs : m.world.strategy? = some s) (hlogs : m.world.logs = true) :
    (s.binding = none ∨ (∃ n, m.Running n) →
      m.next = ⟨m.world, m.stack, .deliver (.ok .nothing)⟩) ∧
    ∀ b, s.binding = some b → (∀ n, ¬ m.Running n) →
      (∃ failure, s.Refuses m.world.settings delay period failure ∧
        failure.name? = some "ConfigurationError" ∧
        m.next = ⟨m.world, m.stack, .deliver (.error failure)⟩) ∨
      ∃ timings, s.Asks m.world.settings delay period timings ∧
        BeginsPolling m m.next s b timings := by
  have hthere : m.world.strategy = some s := (Option.filter_eq_some_iff.mp hs).1
  have hfollows : m.Follows := h.follows (h.callback_eq_none hthere)
  have hnext := next_startPolling hcontrol hs
  constructor
  · intro hidle
    rw [hnext, startPolling_of_idle hthere (hidle.imp_right hfollows.polling_iff.mpr)]
    rfl
  · intro b hb hidle
    have hpolling : m.world.polling = false := by
      refine Bool.eq_false_iff.mpr fun hpolling => ?_
      obtain ⟨n, hn⟩ := hfollows.polling_iff.mp hpolling
      exact hidle n hn
    rw [startPolling_of_bound hthere hb hpolling] at hnext
    rcases s.chooseTimings_cases m.world.settings delay period with
      ⟨failure, hchosen, hrefuses⟩ | ⟨timings, hchosen, hasks⟩
    · rw [hchosen] at hnext
      exact .inl ⟨failure, hrefuses, hrefuses.name, hnext⟩
    · rw [hchosen] at hnext
      have hlogs' : (m.world.pollWith b timings).logs = true := by
        rw [pollWith_eq]
        exact hlogs
      obtain ⟨e, hlog⟩ := exists_log_eq_emit hlogs' .info
        ("Refreshing \"" ++ b.service ++ "\" from naming service") none
      simp only [hlog] at hnext
      exact .inr ⟨timings, hasks, beginsPolling hthere hidle hnext⟩

/-- A strategy with a delay of its own follows a service, in a process of some settings. -/
def resting (settings : Settings) : Machine :=
  let setup : Setup := ⟨.zero, settings, false,
    .ofList [("registry", ⟨.ofList [("echo", [⟨"10.0.0.1", .ofNat 80⟩])], []⟩)]⟩
  run 8 (boundMachine setup ⟨some (.ofNat 20), none, none⟩ "echo" "registry")

/-- It is about to poll. -/
def starting (settings : Settings) (delay period : Option Binary64) : Machine :=
  (resting settings).world.machine (.startPolling delay period)

theorem reachable_starting (settings : Settings) (delay period : Option Binary64) :
    Reachable (starting settings delay period) := by
  have hresting : Reachable (resting settings) :=
    (Opens.bound ..).reachable.run (run_of_transitions 8 _)
  exact hresting.run (run_of_step (m := resting settings) rfl (.startPolling delay period) 0)

/-- A start in which each timing has a source of its own: an option and a setting. -/
theorem starting_is_all_or_nothing_of_option_and_setting :
    ∃ m s b, Reachable m ∧ m.control = .perform (.startPolling none none) ∧
      m.world.strategy? = some s ∧ m.world.logs = true ∧ s.binding = some b ∧
      (∀ n, ¬ m.Running n) ∧ BeginsPolling m m.next s b ⟨.ofNat 20, .ofNat 250⟩ := by
  let m := starting ⟨none, some " 250 "⟩ none none
  have hm : Reachable m := reachable_starting _ none none
  have hthere : (m.world.strategy?.bind Strategy.binding).isSome = true := by decide +kernel
  obtain ⟨b, hb⟩ := Option.isSome_iff_exists.mp hthere
  obtain ⟨s, hs, hsb⟩ := Option.bind_eq_some_iff.mp hb
  have hidle : ∀ n, ¬ m.Running n := by
    have hnone : m.world.refreshers.isEmpty = true := by decide +kernel
    rintro n ⟨r, hr, -⟩
    rw [World.core?, List.isEmpty_iff.mp hnone] at hr
    cases hr
  have hlogs : m.world.logs = true := by decide +kernel
  have hasked : m.world.strategy?.map (fun s => (s.asked m.world.settings none none .delay,
      s.asked m.world.settings none none .period)) =
      some (.ok (.ofNat 20), .ok (.ofNat 250)) := by decide +kernel
  rw [hs, Option.map_some, Option.some.injEq, Prod.mk.injEq] at hasked
  have hstarts := (hm.starting_is_all_or_nothing rfl hs hlogs).2 b hsb hidle
  refine ⟨m, s, b, hm, rfl, hs, hlogs, hsb, hidle, ?_⟩
  rcases hstarts with ⟨failure, -, -, hfails⟩ | ⟨⟨d, p⟩, hasks, hbegins⟩
  · -- the step does not fail
    have hok : m.next.control.outcome? = some (.ok .nothing) := by decide +kernel
    rw [hfails] at hok
    cases hok
  · have hd : d = .ofNat 20 := Except.ok.inj ((hasks.asked .delay).symm.trans hasked.1)
    have hp : p = .ofNat 250 := Except.ok.inj ((hasks.asked .period).symm.trans hasked.2)
    rw [← hd, ← hp]
    exact hbegins

/-! ### What a start reads of the settings -/

/-- What a start makes of a choice of timings. -/
def carryOut (w : World) (b : Binding) (chosen : Except Failure Timings) :
    World × Except Failure Unit :=
  match chosen with
  | .error failure => (w, .error failure)
  | .ok timings => (w.pollWith b timings).log .info
      ("Refreshing \"" ++ b.service ++ "\" from naming service") none

/-- A choice that is carried out does not concern the settings any more. -/
theorem carryOut_within (w : World) (settings : Settings) (b : Binding)
    (chosen : Except Failure Timings) : carryOut (w.within settings) b chosen =
      ((carryOut w b chosen).1.within settings, (carryOut w b chosen).2) := by
  have hlog : ∀ (w : World) (message : String), (w.within settings).log .info message none =
      ((w.log .info message none).1.within settings, (w.log .info message none).2) := by
    intro w message
    simp only [World.log, World.within]
    split
    · rfl
    · split <;> rfl
  cases chosen with
  | error failure => rfl
  | ok timings =>
    have hpoll : (w.within settings).pollWith b timings = (w.pollWith b timings).within settings := by
      rw [pollWith_eq, pollWith_eq]
      rfl
    rw [carryOut, hpoll, hlog, carryOut]

/-- What is carried out shows what was chosen. -/
theorem carryOut_inj {w : World} (hs : w.strategy = some s) {chosen chosen' : Except Failure Timings}
    (hstrategy : (carryOut w b chosen').1.strategy = (carryOut w b chosen).1.strategy)
    (hcount : (carryOut w b chosen').1.refreshers = (carryOut w b chosen).1.refreshers)
    (houtcome : (carryOut w b chosen').2 = (carryOut w b chosen).2) : chosen' = chosen := by
  have hlog : ∀ (w : World) (message : String), (w.log .info message none).1.strategy = w.strategy ∧
      (w.log .info message none).1.refreshers = w.refreshers := fun w message =>
    have hsame := w.same_log .info message none
    ⟨hsame.strategy, hsame.refreshers⟩
  have hpolls : ∀ timings, (carryOut w b (.ok timings)).1.strategy =
        some (s.pollBy w.refreshers.length timings) ∧
      (carryOut w b (.ok timings)).1.refreshers.length = w.refreshers.length + 1 := by
    intro timings
    rw [carryOut, (hlog _ _).1, (hlog _ _).2, pollWith_eq, hs]
    exact ⟨rfl, List.length_append⟩
  cases chosen with
  | error failure =>
    cases chosen' with
    | error failure' => exact congrArg Except.error (Except.error.inj houtcome)
    | ok timings' =>
      have hlength := congrArg List.length hcount
      rw [(hpolls timings').2] at hlength
      exact absurd hlength (Nat.succ_ne_self _)
  | ok timings =>
    cases chosen' with
    | error failure' =>
      have hlength := congrArg List.length hcount
      rw [(hpolls timings).2] at hlength
      exact absurd hlength.symm (Nat.succ_ne_self _)
    | ok timings' =>
      rw [(hpolls timings').1, (hpolls timings).1] at hstrategy
      have htimings := congrArg Strategy.timings (Option.some.inj hstrategy)
      exact congrArg Except.ok (Option.some.inj htimings)

/-- What a step delivers shows whether it failed. -/
theorem outcome_inj {v w : World × Except Failure Unit} {k : List Frame}
    (h : (finish v k).control = (finish w k).control) : v.2 = w.2 := by
  obtain ⟨v, failure | u⟩ := v <;> obtain ⟨w, failure' | u'⟩ := w <;> cases h <;> rfl

/-- **In which settings a start does the same**, if these agree on every timing that is given
neither as an argument nor as an option. It does where it has nothing to do, and where both timings
are given; a start that misses one timing reads both settings, and does the same exactly if the
first setting that cannot be read is the same in both processes, or there is none in either. Doing
the same is to leave the same world, its settings apart, and to yield the same. -/
theorem starting_agrees_iff (hcontrol : m.control = .perform (.startPolling delay period))
    (hs : m.world.strategy? = some s) {settings settings' : Settings}
    (hagree : ∀ field, s.given delay period field = none →
      settings'.get field = settings.get field) :
    (m.within settings').next = (m.within settings).next.within settings' ↔
      s.binding = none ∨ m.world.polling = true ∨
      (∀ field, ∃ value, s.given delay period field = some value) ∨
      settings'.fault? = settings.fault? := by
  have hthere : m.world.strategy = some s := (Option.filter_eq_some_iff.mp hs).1
  have hnext : ∀ settings, (m.within settings).next =
      finish ((m.world.within settings).startPolling delay period) m.stack := fun settings =>
    next_startPolling (m := m.within settings) hcontrol hs
  by_cases hidle : s.binding = none ∨ m.world.polling = true
  · refine iff_of_true ?_ (hidle.imp_right .inl)
    rw [hnext, hnext, startPolling_of_idle (w := m.world.within settings') hthere hidle,
      startPolling_of_idle (w := m.world.within settings) hthere hidle]
    rfl
  · rw [not_or, Bool.not_eq_true] at hidle
    obtain ⟨b, hb⟩ := Option.ne_none_iff_exists'.mp hidle.1
    have hcarries : ∀ settings, (m.within settings).next =
        (finish (carryOut m.world b (s.chooseTimings settings delay period)) m.stack).within
          settings := by
      intro settings
      rw [hnext, startPolling_of_bound (w := m.world.within settings) hthere hb hidle.2]
      exact congrArg (finish · m.stack) (carryOut_within m.world settings b _)
    rw [or_iff_right hidle.1, or_iff_right (by rw [hidle.2]; exact Bool.false_ne_true),
      ← Strategy.chooseTimings_eq_iff hagree, hcarries, hcarries]
    constructor
    · intro h
      have hworld := congrArg Machine.world h
      exact carryOut_inj hthere (congrArg World.strategy hworld :)
        (congrArg World.refreshers hworld :)
        (outcome_inj (k := m.stack) (congrArg Machine.control h :))
    · intro h
      rw [h]
      rfl

/-- Where only the period is missing, a delay in the settings may be any that can be read. -/
theorem starting_agrees_in_two_settings :
    ∃ m s, Reachable m ∧ m.control = .perform (.startPolling none none) ∧
      m.world.strategy? = some s ∧ m.world.polling = false ∧ s.binding.isSome = true ∧
      s.given none none .delay = some (.ofNat 20) ∧ s.given none none .period = none ∧
      (m.within ⟨some "70", some "250"⟩).next =
        (m.within ⟨none, some "250"⟩).next.within ⟨some "70", some "250"⟩ := by
  let m := starting ⟨none, none⟩ none none
  have hgiven : (m.world.strategy?.map fun s =>
      (s.binding.isSome, s.given none none .delay, s.given none none .period)) =
        some (true, some (.ofNat 20), none) := by decide +kernel
  obtain ⟨s, hs, heq⟩ := Option.map_eq_some_iff.mp hgiven
  rw [Prod.mk.injEq, Prod.mk.injEq] at heq
  refine ⟨m, s, reachable_starting _ _ _, rfl, hs, by decide +kernel, heq.1, heq.2.1, heq.2.2, ?_⟩
  refine (starting_agrees_iff rfl hs fun field hmissing => ?_).mpr
    (.inr (.inr (.inr (by decide +kernel))))
  cases field with
  | delay => cases heq.2.1.symm.trans hmissing
  | period => rfl

/-- **A start reads a setting that it does not need**: the delay is given, and the period is missing
in both processes; where the delay of the settings is no number the start fails for it, and where it
is missing the strategy polls. -/
theorem starting_reads_given_delay :
    ∃ (m : Machine) (s : Strategy), Reachable (m.within ⟨some "abc", none⟩) ∧
      Reachable (m.within ⟨none, none⟩) ∧
      m.control = .perform (.startPolling (some (.ofNat 100)) none) ∧
      m.world.strategy? = some s ∧
      (∀ field, s.given (some (.ofNat 100)) none field = none →
        (⟨some "abc", none⟩ : Settings).get field = (⟨none, none⟩ : Settings).get field) ∧
      (m.within ⟨some "abc", none⟩).next.control =
        .deliver (.error (.invalidSetting .delay "abc")) ∧
      (m.within ⟨some "abc", none⟩).next.world.polling = false ∧
      (m.within ⟨none, none⟩).next.control = .deliver (.ok .nothing) ∧
      (m.within ⟨none, none⟩).next.world.polling = true := by
  let m := starting ⟨none, none⟩ (some (.ofNat 100)) none
  have hthere : m.world.strategy?.isSome = true := by decide +kernel
  obtain ⟨s, hs⟩ := Option.isSome_iff_exists.mp hthere
  have hinvalid : Reachable (m.within ⟨some "abc", none⟩) :=
    reachable_starting ⟨some "abc", none⟩ (some (.ofNat 100)) none
  refine ⟨m, s, hinvalid, reachable_starting _ _ _, rfl, hs, ?_,
    Control.eq_deliver_of_outcome? (by decide +kernel), by decide +kernel,
    Control.eq_deliver_of_outcome? (by decide +kernel), by decide +kernel⟩
  intro field hmissing
  cases field with
  | delay => cases hmissing
  | period => rfl

end Machine

end Session

end Balancer
