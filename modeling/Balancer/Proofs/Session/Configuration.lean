import Balancer.Proofs.Grammar
import Balancer.Proofs.Session.Starting

/-!
# The configuration of a process

The timings of a process come from two of its variables. A variable that is missing or blank leaves
the default. Any other has to be a numeral, and the number nearest to its value has to be a positive
integer. What passes here passes wherever timings are checked again.

* `Balancer.Binary64.Whole` – **a number of milliseconds that a variable may ask for.**
* `Balancer.AsksFor` – a text asks for a number; `Balancer.asksFor_iff` says how that is read.
* `Balancer.readSetting_eq_ok_iff`, `Balancer.readSetting_eq_error_iff` – **what is read of a
  variable**, and when that fails.
* `Balancer.Environment.Faulty`, `Balancer.Environment.Yields` – the same of the variables of a
  process.
* `Balancer.Settings.check_of_timings` – **timings that were read pass every check.**
* `Balancer.Environment.accepted_exactly_if_usable` – **a configuration is accepted exactly if it
  can be used**; a start of polling that is given no timing fails for no other reason.
-/

namespace Balancer

/-! ### Numbers of milliseconds -/

/-- **A positive integer**, which is finite. -/
def Binary64.Whole (x : Binary64) : Prop := ∃ n : Int, 0 < n ∧ x.toInt? = some n

theorem Binary64.isInteger_iff {x : Binary64} : x.isInteger = true ↔ ∃ n, x.toInt? = some n := by
  cases x with
  | nan | infinite => exact iff_of_false Bool.false_ne_true (by simp [toInt?])
  | finite negative units representable =>
    rw [isInteger, toInt?, beq_iff_eq]
    split
    · next h => exact iff_of_true h ⟨_, rfl⟩
    · next h => exact iff_of_false h (by simp)

theorem Binary64.whole_iff {x : Binary64} :
    x.Whole ↔ (x.isInteger && Binary64.zero.lt x) = true := by
  have hzero : Binary64.zero.toInt? = some 0 := by decide +kernel
  rw [Bool.and_eq_true, isInteger_iff]
  constructor
  · rintro ⟨n, hpos, hn⟩
    refine ⟨⟨n, hn⟩, ?_⟩
    rw [lt_eq_of_toInt? hzero hn]
    exact decide_eq_true hpos
  · rintro ⟨⟨n, hn⟩, hlt⟩
    rw [lt_eq_of_toInt? hzero hn, decide_eq_true_eq] at hlt
    exact ⟨n, hlt, hn⟩

/-- A timer can wait for it. -/
theorem Binary64.Whole.waitable {x : Binary64} (h : x.Whole) : x.Waitable := by
  have hgood := whole_iff.mp h
  rw [Bool.and_eq_true] at hgood
  obtain ⟨n, -, hn⟩ := h
  obtain ⟨negative, units, representable, rfl, -⟩ := exists_of_toInt? hn
  exact ⟨rfl, hgood.2⟩

/-- The default is one. -/
theorem whole_defaultTiming : defaultTiming.Whole :=
  ⟨1000, by decide, Binary64.toInt?_ofNat (Weight.representable_whole (by decide))⟩

/-! ### What is read of a text -/

/-- **A text asks for a number of milliseconds**: it denotes a value, and the number nearest to the
value is a positive integer. -/
def AsksFor (raw : String) (value : Binary64) : Prop :=
  ∃ negative magnitude, Literal.Denotes raw negative magnitude ∧
    value.Rounds negative magnitude ∧ value.Whole

theorem asksFor_iff {raw : String} {value : Binary64} :
    AsksFor raw value ↔ Literal.read? raw = some value ∧ value.Whole := by
  constructor
  · rintro ⟨negative, magnitude, hdenotes, hrounds, hwhole⟩
    exact ⟨Literal.read?_eq_some_iff.mpr (.inl ⟨negative, magnitude, hdenotes, hrounds⟩), hwhole⟩
  · rintro ⟨hread, hwhole⟩
    rcases Literal.read?_eq_some_iff.mp hread with ⟨negative, magnitude, hdenotes, hrounds⟩ |
      ⟨negative, -, rfl⟩
    · exact ⟨negative, magnitude, hdenotes, hrounds, hwhole⟩
    · -- infinity is no integer
      obtain ⟨n, -, hn⟩ := hwhole
      cases hn

/-- **A text that is blank.** -/
def Blank (raw : String) : Prop := ∀ c ∈ raw.toList, Text.isBlank c = true

theorem blank_iff {raw : String} : Blank raw ↔ (Text.trim raw.toList).isEmpty = true := by
  rw [List.isEmpty_iff, Literal.trim_eq_nil_iff, Blank]

/-- A blank text asks for nothing. -/
theorem AsksFor.not_blank {raw : String} {value : Binary64} (h : AsksFor raw value) :
    ¬ Blank raw := by
  intro hblank
  have hread := (asksFor_iff.mp h).1
  rw [Literal.read?, List.isEmpty_iff.mp (blank_iff.mp hblank)] at hread
  cases hread

variable {field : TimingField} {setting : Option String} {value : Binary64} {failure : Failure}

theorem readSetting_of_blank {raw : String} (h : Blank raw) :
    readSetting field (some raw) = .ok defaultTiming :=
  if_pos (blank_iff.mp h)

theorem readSetting_of_asksFor {raw : String} (h : AsksFor raw value) :
    readSetting field (some raw) = .ok value := by
  obtain ⟨hread, hwhole⟩ := asksFor_iff.mp h
  rw [readSetting, if_neg (mt blank_iff.mpr h.not_blank), hread]
  exact if_pos (Binary64.whole_iff.mp hwhole)

theorem readSetting_of_not_asksFor {raw : String} (hblank : ¬ Blank raw)
    (h : ∀ value, ¬ AsksFor raw value) :
    readSetting field (some raw) = .error (.invalidSetting field raw) := by
  rw [readSetting, if_neg (mt blank_iff.mpr hblank)]
  rcases hread : Literal.read? raw with _ | value
  · rfl
  · exact if_neg fun hwhole => h value (asksFor_iff.mpr ⟨hread, Binary64.whole_iff.mpr hwhole⟩)

/-- **What is read of a setting**: the default where it is missing or blank, and else the number
that it asks for. -/
theorem readSetting_eq_ok_iff :
    readSetting field setting = .ok value ↔
      (∀ raw, setting = some raw → Blank raw) ∧ value = defaultTiming ∨
        ∃ raw, setting = some raw ∧ AsksFor raw value := by
  constructor
  · intro h
    rcases setting with _ | raw
    · exact .inl ⟨fun _ hraw => absurd hraw (by simp), (Except.ok.inj h).symm⟩
    by_cases hblank : Blank raw
    · rw [readSetting_of_blank hblank] at h
      exact .inl ⟨fun raw' hraw => Option.some.inj hraw ▸ hblank, (Except.ok.inj h).symm⟩
    by_cases hasks : ∃ value, AsksFor raw value
    · obtain ⟨value', hasks⟩ := hasks
      rw [readSetting_of_asksFor hasks] at h
      exact .inr ⟨raw, rfl, Except.ok.inj h ▸ hasks⟩
    · rw [readSetting_of_not_asksFor hblank fun value hvalue => hasks ⟨value, hvalue⟩] at h
      cases h
  · rintro (⟨hvacant, hvalue⟩ | ⟨raw, rfl, hasks⟩)
    · rw [hvalue]
      rcases setting with _ | raw
      · rfl
      · exact readSetting_of_blank (hvacant raw rfl)
    · exact readSetting_of_asksFor hasks

/-- **A setting cannot be read** where it is there, is not blank and asks for nothing. -/
theorem readSetting_eq_error_iff :
    readSetting field setting = .error failure ↔
      ∃ raw, setting = some raw ∧ ¬ Blank raw ∧ (∀ value, ¬ AsksFor raw value) ∧
        failure = .invalidSetting field raw := by
  constructor
  · intro h
    obtain ⟨raw, rfl, rfl⟩ := exists_of_readSetting_eq_error h
    refine ⟨raw, rfl, fun hblank => ?_, fun value hasks => ?_, rfl⟩
    · cases (readSetting_of_blank hblank).symm.trans h
    · cases (readSetting_of_asksFor hasks).symm.trans h
  · rintro ⟨raw, rfl, hblank, hasks, rfl⟩
    exact readSetting_of_not_asksFor hblank hasks

/-- What is read is a number of milliseconds. -/
theorem whole_of_readSetting (h : readSetting field setting = .ok value) : value.Whole := by
  rcases readSetting_eq_ok_iff.mp h with ⟨-, hvalue⟩ | ⟨raw, -, hasks⟩
  · rw [hvalue]
    exact whole_defaultTiming
  · exact (asksFor_iff.mp hasks).2

namespace Settings

variable {settings : Settings} {timings : Timings}

/-- **Reading yields both timings**, each from its own setting. -/
theorem timings_eq_ok_iff : settings.timings = .ok timings ↔
    ∀ field, readSetting field (settings.get field) = .ok (timings.get field) := by
  constructor
  · intro h
    rcases settings.timings_cases with ⟨_, _, -, hfails⟩ | ⟨read, -, hread, heach⟩
    · cases hfails.symm.trans h
    · cases hread.symm.trans h
      exact heach
  · intro h
    have hdelay : readSetting .delay settings.delay = .ok timings.delay := h .delay
    have hperiod : readSetting .period settings.period = .ok timings.period := h .period
    rw [Settings.timings, hdelay, hperiod]
    rfl

/-- **It fails at the first setting that cannot be read.** -/
theorem timings_eq_error_iff {failure : Failure} : settings.timings = .error failure ↔
    ∃ field, readSetting field (settings.get field) = .error failure ∧
      (field = .period → ∃ value, readSetting .delay settings.delay = .ok value) := by
  rw [Settings.timings]
  constructor
  · intro h
    rcases hdelay : readSetting .delay settings.delay with failure' | value
    · rw [hdelay] at h
      cases h
      exact ⟨.delay, hdelay, fun heq => by cases heq⟩
    rcases hperiod : readSetting .period settings.period with failure' | value'
    · rw [hdelay, hperiod] at h
      cases h
      exact ⟨.period, hperiod, fun _ => ⟨value, rfl⟩⟩
    · rw [hdelay, hperiod] at h
      cases h
  · rintro ⟨field, hfails, hfirst⟩
    cases field with
    | delay =>
      have hdelay : readSetting .delay settings.delay = .error failure := hfails
      rw [hdelay]
      rfl
    | period =>
      have hperiod : readSetting .period settings.period = .error failure := hfails
      obtain ⟨value, hdelay⟩ := hfirst rfl
      rw [hdelay, hperiod]
      rfl

/-- **Timings that were read pass every check.** -/
theorem check_of_timings (h : settings.timings = .ok timings) : timings.check = .ok () := by
  refine timings.check_cases.elim (fun hchecks => hchecks.1) ?_
  rintro ⟨field, -, hbad⟩
  exact absurd (whole_of_readSetting (timings_eq_ok_iff.mp h field)).waitable hbad

end Settings

/-! ### The variables of a process -/

/-- **The variables of a process**, by name. -/
abbrev Environment := String → Option String

/-- The settings that a process takes from its variables. -/
def Settings.ofEnvironment (env : Environment) : Settings where
  delay := env TimingField.delay.setting
  period := env TimingField.period.setting

namespace Environment

/-- **A variable that cannot be used**, with its text: it is set and not blank, and asks for
nothing. -/
def Faulty (env : Environment) (field : TimingField) (raw : String) : Prop :=
  env field.setting = some raw ∧ ¬ Blank raw ∧ ∀ value, ¬ AsksFor raw value

/-- **What a variable yields**: the default where it is not set or blank, and else what it asks
for. -/
def Yields (env : Environment) (field : TimingField) (value : Binary64) : Prop :=
  (∀ raw, env field.setting = some raw → Blank raw) ∧ value = defaultTiming ∨
    ∃ raw, env field.setting = some raw ∧ AsksFor raw value

variable {env : Environment}

theorem get_ofEnvironment (env : Environment) (field : TimingField) :
    (Settings.ofEnvironment env).get field = env field.setting := by
  cases field <;> rfl

/-- **Reading fails at the first variable that cannot be used.** -/
theorem timings_eq_error_iff {failure : Failure} :
    (Settings.ofEnvironment env).timings = .error failure ↔ ∃ field raw, env.Faulty field raw ∧
      (field = .period → ∀ raw', ¬ env.Faulty .delay raw') ∧
      failure = .invalidSetting field raw := by
  rw [Settings.timings_eq_error_iff]
  constructor
  · rintro ⟨field, hfails, hfirst⟩
    rw [get_ofEnvironment] at hfails
    obtain ⟨raw, hraw, hblank, hasks, rfl⟩ := readSetting_eq_error_iff.mp hfails
    refine ⟨field, raw, ⟨hraw, hblank, hasks⟩, fun heq raw' hfaulty => ?_, rfl⟩
    obtain ⟨value, hread⟩ := hfirst heq
    obtain ⟨hraw', hblank', hasks'⟩ := hfaulty
    have hfails' : readSetting .delay (Settings.ofEnvironment env).delay =
        .error (.invalidSetting .delay raw') :=
      readSetting_eq_error_iff.mpr ⟨raw', hraw', hblank', hasks', rfl⟩
    cases hfails'.symm.trans hread
  · rintro ⟨field, raw, ⟨hraw, hblank, hasks⟩, hfirst, rfl⟩
    refine ⟨field, ?_, fun heq => ?_⟩
    · rw [get_ofEnvironment]
      exact readSetting_eq_error_iff.mpr ⟨raw, hraw, hblank, hasks, rfl⟩
    · rcases hdelay : readSetting .delay (Settings.ofEnvironment env).delay with failure | value
      · obtain ⟨raw', hraw', hblank', hasks', -⟩ := readSetting_eq_error_iff.mp hdelay
        exact absurd ⟨hraw', hblank', hasks'⟩ (hfirst heq raw')
      · exact ⟨value, rfl⟩

/-- **Reading yields what each variable yields.** -/
theorem timings_eq_ok_iff {timings : Timings} :
    (Settings.ofEnvironment env).timings = .ok timings ↔
      ∀ field, env.Yields field (timings.get field) := by
  rw [Settings.timings_eq_ok_iff]
  refine forall_congr' fun field => ?_
  rw [get_ofEnvironment]
  exact readSetting_eq_ok_iff

end Environment

/-! ### A start without timings -/

namespace Session

/-- **A refresher takes timings that were read.** -/
theorem exists_openRefresher {timings : Timings} (h : timings.check = .ok ()) (setup : Setup)
    (provider : Option String) (reactions : List Reaction) :
    ∃ w, openRefresher setup provider timings reactions = .ok w := by
  rw [openRefresher, h]
  exact ⟨_, rfl⟩

/-- **Where no timing is given, timings are chosen as the settings are read.** -/
theorem Strategy.chooseTimings_of_none {s : Strategy} (hdelay : s.delay = none)
    (hperiod : s.period = none) (settings : Settings) :
    s.chooseTimings settings none none = settings.timings := by
  rw [chooseTimings, hdelay, hperiod]
  rcases hread : settings.timings with failure | timings
  · rfl
  · show (do timings.check; return timings : Except Failure Timings) = .ok timings
    rw [Settings.check_of_timings hread]
    rfl

namespace Machine

variable {m : Machine} {s : Strategy}

/-- **A start of polling that is given no timing fails** exactly where it would poll and the
settings cannot be read. -/
theorem startPolling_fails_iff (hcontrol : m.control = .perform (.startPolling none none))
    (hs : m.world.strategy? = some s) (hdelay : s.delay = none) (hperiod : s.period = none)
    (hlogs : m.world.logs = true) {failure : Failure} :
    m.next.control = .deliver (.error failure) ↔
      s.binding.isSome = true ∧ m.world.polling = false ∧
        m.world.settings.timings = .error failure := by
  have hthere : m.world.strategy = some s := (Option.filter_eq_some_iff.mp hs).1
  have hnext := next_startPolling hcontrol hs
  by_cases hidle : s.binding = none ∨ m.world.polling = true
  · rw [hnext, startPolling_of_idle hthere hidle]
    refine iff_of_false (fun h => by cases h) ?_
    rintro ⟨hbound, hpolling, -⟩
    rcases hidle with hnone | hpolls
    · rw [hnone] at hbound
      cases hbound
    · cases hpolling.symm.trans hpolls
  · rw [not_or, Bool.not_eq_true] at hidle
    obtain ⟨b, hb⟩ := Option.ne_none_iff_exists'.mp hidle.1
    rw [startPolling_of_bound hthere hb hidle.2,
      Strategy.chooseTimings_of_none hdelay hperiod] at hnext
    rw [hb, hidle.2, Option.isSome_some, eq_self, eq_self, true_and, true_and, hnext]
    rcases hread : m.world.settings.timings with failure' | timings
    · exact ⟨fun h => by cases h; rfl, fun h => by cases h; rfl⟩
    · -- the log call goes through
      have hlogs' : (m.world.pollWith b timings).logs = true := by
        rw [pollWith_eq]
        exact hlogs
      obtain ⟨e, hlog⟩ := exists_log_eq_emit hlogs' .info
        ("Refreshing \"" ++ b.service ++ "\" from naming service") none
      simp only [hlog]
      exact iff_of_false (fun h => by cases h) fun h => by cases h

end Machine

end Session

/-! ### The theorem -/

namespace Environment

open Session

/-- **A configuration is accepted exactly if it can be used.** Reading the timings of a process fails
exactly where one of their two variables is set, is not blank and is no numeral whose value, rounded
to the nearest number, is a positive integer; the failure is a bad configuration, which names the
first such variable and shows its text. Otherwise each timing is that number, or the default where
the variable is not set or blank, and no other variable matters. A refresher takes all timings that
were read. So a start of polling that is given no timing fails exactly where it would poll and the
timings of the process cannot be read, as long as log calls go through. -/
theorem accepted_exactly_if_usable (env : Environment) :
    (∀ failure, (Settings.ofEnvironment env).timings = .error failure ↔
      ∃ field raw, env.Faulty field raw ∧ (field = .period → ∀ raw', ¬ env.Faulty .delay raw') ∧
        failure = .invalidSetting field raw) ∧
    (∀ field raw, (Failure.invalidSetting field raw).name? = some "ConfigurationError" ∧
      (Failure.invalidSetting field raw).reason =
        .ok (field.setting ++ " must be a positive integer, got \"" ++ raw ++ "\".")) ∧
    (∀ timings, (Settings.ofEnvironment env).timings = .ok timings ↔
      ∀ field, env.Yields field (timings.get field)) ∧
    (∀ env' : Environment, (∀ field : TimingField, env' field.setting = env field.setting) →
      (Settings.ofEnvironment env').timings = (Settings.ofEnvironment env).timings) ∧
    (∀ timings, (Settings.ofEnvironment env).timings = .ok timings →
      timings.check = .ok () ∧ ∀ setup provider reactions,
        ∃ w, openRefresher setup provider timings reactions = .ok w) ∧
    ∀ (m : Machine) (s : Strategy), m.control = .perform (.startPolling none none) →
      m.world.strategy? = some s → s.delay = none → s.period = none → m.world.logs = true →
      m.world.settings = Settings.ofEnvironment env → ∀ failure,
        m.next.control = .deliver (.error failure) ↔
          s.binding.isSome = true ∧ m.world.polling = false ∧
            (Settings.ofEnvironment env).timings = .error failure := by
  refine ⟨fun failure => timings_eq_error_iff, fun field raw => ⟨rfl, rfl⟩,
    fun timings => timings_eq_ok_iff, fun env' hsame => ?_, fun timings hread => ?_,
    fun m s hcontrol hs hdelay hperiod hlogs hsettings failure => ?_⟩
  · rw [Settings.ofEnvironment, Settings.ofEnvironment, hsame, hsame]
  · have hcheck := Settings.check_of_timings hread
    exact ⟨hcheck, exists_openRefresher hcheck⟩
  · rw [← hsettings]
    exact Machine.startPolling_fails_iff hcontrol hs hdelay hperiod hlogs

/-- Two numerals that are read, with blanks, a base and an exponent; and two texts that ask for
nothing, of which the delay is named. A strategy that follows a service does not begin to poll
then. -/
theorem accepted_exactly_if_usable_of_two :
    let good : Environment := fun name =>
      if name = "LB_REFRESH_DELAY_MS" then some " 0x1F4 "
      else if name = "LB_REFRESH_PERIOD_MS" then some "+2.5e3" else none
    let bad : Environment := fun name =>
      if name = "LB_REFRESH_DELAY_MS" then some "1.5"
      else if name = "LB_REFRESH_PERIOD_MS" then some "soon" else none
    good.Yields .delay (.ofNat 500) ∧ good.Yields .period (.ofNat 2500) ∧
      ∃ raw, bad.Faulty .delay raw ∧ ∃ m, Machine.Reachable m ∧
        m.control = .perform (.startPolling none none) ∧
        m.next.control = .deliver (.error (.invalidSetting .delay raw)) := by
  intro good bad
  have hgood : (Settings.ofEnvironment good).timings = .ok ⟨.ofNat 500, .ofNat 2500⟩ := by
    decide +kernel
  have hbad : (Settings.ofEnvironment bad).timings = .error (.invalidSetting .delay "1.5") := by
    decide +kernel
  have hyields := ((accepted_exactly_if_usable good).2.2.1 _).mp hgood
  have hdelay := hyields .delay
  have hperiod := hyields .period
  simp only [Timings.get] at hdelay hperiod
  obtain ⟨hfails, -, -, -, -, hstarts⟩ := accepted_exactly_if_usable bad
  obtain ⟨field, raw, hfaulty, -, heq⟩ := (hfails _).mp hbad
  cases heq
  let setup : Setup := ⟨.zero, Settings.ofEnvironment bad, false,
    .ofList [("registry", ⟨.ofList [("echo", [⟨"10.0.0.1", .ofNat 80⟩])], []⟩)]⟩
  let m₀ := Machine.run 8 (boundMachine setup ⟨none, none, none⟩ "echo" "registry")
  let m := m₀.world.machine (.startPolling none none)
  have hm : Machine.Reachable m :=
    ((Machine.Opens.bound ..).reachable.run (Machine.run_of_transitions 8 _)).run
      (Machine.run_of_step (m := m₀) (by decide +kernel) (.startPolling none none) 0)
  have hthere : (m.world.strategy?.map fun s => (s.delay, s.period, s.binding.isSome)) =
      some (none, none, true) := by decide +kernel
  obtain ⟨s, hs, hgiven⟩ := Option.map_eq_some_iff.mp hthere
  rw [Prod.mk.injEq, Prod.mk.injEq] at hgiven
  refine ⟨hdelay, hperiod, "1.5", hfaulty, m, hm, rfl, ?_⟩
  exact (hstarts m s rfl hs hgiven.1 hgiven.2.1 (by decide +kernel) (by decide +kernel) _).mpr
    ⟨hgiven.2.2, by decide +kernel, hbad⟩

end Environment

end Balancer
