import Balancer.Proofs.Calendar
import Balancer.Proofs.Grammar
import Balancer.Proofs.Whole
import Balancer.Session.Opening
import Mathlib.Data.Rat.Floor

/-!
# Time stamps

A log line begins with a time stamp: a date and a time of day, to the second. Read by the rules of
the calendar it denotes the second in which the line was written, before 1970 as well as after. It is
what is left of the full text of the clock reading once the letter between date and time and the
fraction of the second are taken out.

* `Balancer.Calendar.Stamp` – **the grammar of time stamps**, with the moment that one shows
  (`Balancer.Calendar.Stamp.unique`).
* `Balancer.Calendar.Denotes` – **the second that a stamp denotes.**
* `Balancer.Calendar.Moment.stamp_text` – the text of a moment shows that moment.
* `Balancer.Calendar.Moment.iso` – the full text, with the milliseconds;
  `Balancer.Calendar.Moment.toList_text_eq` – **the text of a moment is what is left of it.**
* `Balancer.Binary64.value?` – the value of a number; `Balancer.Calendar.milliseconds?_eq_some_iff`
  says which clock readings are dates.
* `Balancer.Session.World.lines_show_their_second` – **a log line shows the second in which it was
  written.**
-/

namespace Balancer

namespace Calendar

/-! ### The grammar -/

/-- **A number of a fixed width**: so many decimal digits. -/
def Field (width : Nat) (cs : List Char) (n : Nat) : Prop :=
  cs.length = width ∧ Literal.Digits 10 cs n

/-- **A year**: four digits, or a sign and six digits where four are not enough. -/
inductive Year : List Char → Int → Prop
  /-- One of the years 0 to 9999. -/
  | plain {cs : List Char} {n : Nat} (digits : Field 4 cs n) : Year cs n
  /-- A later one. -/
  | later {cs : List Char} {n : Nat} (digits : Field 6 cs n) (beyond : 9999 < n) : Year ('+' :: cs) n
  /-- An earlier one. -/
  | earlier {cs : List Char} {n : Nat} (digits : Field 6 cs n) (below : 0 < n) : Year ('-' :: cs) (-n)

/-- **A time stamp**, and the moment that it shows. -/
inductive Stamp : List Char → Moment → Prop
  /-- Year, month and day, and hour, minute and second. -/
  | intro {ys os ds hs is ss : List Char} {m : Moment} (year : Year ys m.year)
      (month : Field 2 os m.month) (day : Field 2 ds m.day) (hour : Field 2 hs m.hour)
      (minute : Field 2 is m.minute) (second : Field 2 ss m.second) :
      Stamp (ys ++ ('-' :: os ++ ('-' :: ds ++ (' ' :: hs ++ (':' :: is ++ ':' :: ss))))) m

/-- **The second that a time stamp denotes**, counted from the beginning of 1970. -/
def Denotes (stamp : String) (second : Int) : Prop :=
  ∃ m, Stamp stamp.toList m ∧ m.Valid ∧ m.seconds = second

/-! ### Reading a stamp -/

theorem Field.unique {width n n' : Nat} {cs : List Char} (h : Field width cs n)
    (h' : Field width cs n') : n = n' := by
  obtain ⟨-, -, rfl⟩ := Literal.digits_ten_iff.mp h.2
  exact (Literal.digits_ten_iff.mp h'.2).2.2

theorem Field.isDigit {width n : Nat} {cs : List Char} (h : Field width cs n) :
    ∀ c ∈ cs, c.isDigit = true :=
  h.2.isDigit

theorem Year.unique {cs : List Char} {y y' : Int} (h : Year cs y) (h' : Year cs y') : y = y' := by
  have hsign : ∀ {sign : Char} {rest : List Char} {n : Nat}, sign.isDigit = false →
      ¬ Field 4 (sign :: rest) n := fun hsign digits =>
    Bool.false_ne_true (hsign.symm.trans (digits.isDigit _ List.mem_cons_self))
  rcases h with digits | ⟨digits, -⟩ | ⟨digits, -⟩ <;>
    rcases h' with digits' | ⟨digits', -⟩ | ⟨digits', -⟩
  · rw [digits.unique digits']
  · exact absurd digits (hsign rfl)
  · exact absurd digits (hsign rfl)
  · exact absurd digits' (hsign rfl)
  · rw [digits.unique digits']
  · exact absurd digits' (hsign rfl)
  · rw [digits.unique digits']

/-- Of two texts that begin with fields of one width the fields agree, and what follows. -/
theorem Field.append_inj {width n n' : Nat} {mark : Char} {cs cs' rest rest' : List Char}
    (h : Field width cs n) (h' : Field width cs' n')
    (heq : mark :: cs ++ rest = mark :: cs' ++ rest') : n = n' ∧ rest = rest' := by
  have hlength : (mark :: cs).length = (mark :: cs').length := by
    rw [List.length_cons, List.length_cons, h.1, h'.1]
  obtain ⟨hcs, hrest⟩ := List.append_inj heq hlength
  obtain rfl := (List.cons.inj hcs).2
  exact ⟨h.unique h', hrest⟩

/-- **A time stamp shows one moment only.** -/
theorem Stamp.unique {cs : List Char} {m m' : Moment} (h : Stamp cs m) (h' : Stamp cs m') :
    m = m' := by
  generalize heq : cs = cs' at h'
  obtain ⟨year, month, day, hour, minute, second⟩ := h
  obtain ⟨year', month', day', hour', minute', second'⟩ := h'
  -- what follows the year has the same width in all stamps
  obtain ⟨rfl, hafter⟩ := List.append_inj' heq (by
    simp only [List.length_append, List.length_cons, month.1, month'.1, day.1, day'.1, hour.1,
      hour'.1, minute.1, minute'.1, second.1, second'.1])
  obtain ⟨hmonth, hafter⟩ := month.append_inj month' hafter
  obtain ⟨hday, hafter⟩ := day.append_inj day' hafter
  obtain ⟨hhour, hafter⟩ := hour.append_inj hour' hafter
  obtain ⟨hminute, hafter⟩ := minute.append_inj minute' hafter
  have hsecond := (second.append_inj second' (congrArg (· ++ []) hafter)).1
  have hyear := year.unique year'
  cases m
  cases m'
  exact Moment.mk.injEq .. ▸ ⟨hyear, hmonth, hday, hhour, hminute, hsecond⟩

/-! ### The text of a moment -/

theorem isDigit_padded (width n : Nat) : ∀ c ∈ (padded width n).toList, c.isDigit = true := by
  rw [padded, String.toList_ofList]
  refine List.forall_mem_append.mpr ⟨fun c hc => ?_, fun c hc => ?_⟩
  · rw [List.eq_of_mem_replicate hc]
    rfl
  · exact Nat.isDigit_of_mem_toDigits (by decide) (by decide) hc

theorem padded_ne_nil (width n : Nat) : (padded width n).toList ≠ [] := by
  rw [padded, String.toList_ofList]
  exact List.append_ne_nil_of_right_ne_nil _ Nat.toDigits_ne_nil

theorem field_padded {width n : Nat} (hpos : 0 < width) (h : n < 10 ^ width) :
    Field width (padded width n).toList n := by
  have hlength := (Nat.length_toDigits_le_iff (b := 10) (by decide) hpos).mpr h
  refine ⟨?_, Literal.digits_ten_iff.mpr ⟨padded_ne_nil width n, isDigit_padded width n, ?_⟩⟩
  · rw [padded, String.toList_ofList, List.length_append, List.length_replicate]
    omega
  · rw [padded, String.toList_ofList, Nat.ofDigitChars_append, Nat.ofDigitChars_replicate_zero,
      Nat.mul_zero, Nat.ofDigitChars_ten_toDigits]

theorem year_yearText {year : Int} (h : year.natAbs < 10 ^ 6) : Year (yearText year).toList year := by
  rw [yearText]
  split
  · next hplain =>
    have hyear := Int.toNat_of_nonneg hplain.1
    have hfield : Field 4 (padded 4 year.toNat).toList year.toNat :=
      field_padded (by decide) (by omega)
    exact hyear ▸ Year.plain hfield
  · next hsigned =>
    have hfield := field_padded (by decide) h
    rw [String.toList_append]
    split
    · next hneg =>
      have hyear : year = -(year.natAbs : Int) := by omega
      rw [hyear, Int.natAbs_neg, Int.natAbs_natCast]
      exact .earlier hfield (by omega)
    · have hyear : year = (year.natAbs : Int) := by omega
      rw [hyear, Int.natAbs_natCast]
      exact .later hfield (by omega)

/-- **The text of a moment shows that moment.** -/
theorem Moment.stamp_text {m : Moment} (h : m.Valid) (hyear : m.year.natAbs < 10 ^ 6) :
    Stamp m.text.toList m := by
  have hdays : ∀ leap : Bool, ∀ month ≤ 12, monthLength leap month < 100 := by decide
  have hday := hdays (isLeap m.year) m.month h.month.2
  have hvalid := h.day
  have htext : m.text.toList = (yearText m.year).toList ++ ('-' :: (padded 2 m.month).toList ++
      ('-' :: (padded 2 m.day).toList ++ (' ' :: (padded 2 m.hour).toList ++
        (':' :: (padded 2 m.minute).toList ++ ':' :: (padded 2 m.second).toList)))) := by
    simp [Moment.text, String.toList_append]
  rw [htext]
  have hmonth := h.month
  have hhour := h.hour
  have hminute := h.minute
  have hsecond := h.second
  refine .intro (year_yearText hyear) (field_padded (by decide) ?_) (field_padded (by decide) ?_)
    (field_padded (by decide) ?_) (field_padded (by decide) ?_) (field_padded (by decide) ?_) <;> omega

/-- **It denotes the second for which the moment is found**, and no other. -/
theorem denotes_text_iff {seconds second : Int} (hnear : seconds.natAbs ≤ 8640000000000) :
    Denotes (Moment.ofSeconds seconds).text second ↔ second = seconds := by
  obtain ⟨hvalid, hseconds⟩ := Moment.ofSeconds_spec seconds
  have hstamp := Moment.stamp_text hvalid (hvalid.natAbs_year_lt (by rwa [hseconds]))
  constructor
  · rintro ⟨m, hm, -, rfl⟩
    rw [hm.unique hstamp, hseconds]
  · rintro rfl
    exact ⟨_, hstamp, hvalid, hseconds⟩

/-! ### The full text -/

namespace Moment

/-- **The full text of a moment** and of the milliseconds after it. -/
def iso (m : Moment) (millis : Nat) : String :=
  yearText m.year ++ "-" ++ padded 2 m.month ++ "-" ++ padded 2 m.day ++ "T" ++
    padded 2 m.hour ++ ":" ++ padded 2 m.minute ++ ":" ++ padded 2 m.second ++ "." ++
    padded 3 millis ++ "Z"

/-- The date in the text of a moment. -/
def date (m : Moment) : List Char :=
  (yearText m.year).toList ++ '-' :: (padded 2 m.month).toList ++ '-' :: (padded 2 m.day).toList

/-- The time of day in it. -/
def time (m : Moment) : List Char :=
  (padded 2 m.hour).toList ++ ':' :: (padded 2 m.minute).toList ++ ':' :: (padded 2 m.second).toList

theorem toList_text (m : Moment) : m.text.toList = m.date ++ ' ' :: m.time := by
  simp [text, date, time, String.toList_append]

theorem toList_iso (m : Moment) (millis : Nat) :
    (m.iso millis).toList = m.date ++ 'T' :: (m.time ++ '.' :: (padded 3 millis).toList ++ ['Z']) := by
  simp [iso, date, time, String.toList_append]

end Moment

/-- A text in which the first occurrence of a character is replaced by another. -/
def replaceFirst (old new : Char) : List Char → List Char
  | [] => []
  | c :: cs => if c = old then new :: cs else c :: replaceFirst old new cs

/-- A text without its first fraction: a point, digits and the letter of the time zone. -/
def dropFraction : List Char → List Char
  | [] => []
  | c :: cs =>
    if c = '.' ∧ (cs.takeWhile Char.isDigit) ≠ [] ∧ (cs.dropWhile Char.isDigit).head? = some 'Z' then
      (cs.dropWhile Char.isDigit).tail
    else c :: dropFraction cs

theorem replaceFirst_append {old new : Char} {before : List Char} (h : ∀ c ∈ before, c ≠ old)
    (after : List Char) :
    replaceFirst old new (before ++ old :: after) = before ++ new :: after := by
  induction before with
  | nil => exact if_pos rfl
  | cons c cs ih =>
    rw [List.cons_append, replaceFirst, if_neg (h c List.mem_cons_self),
      ih fun c hc => h c (List.mem_cons_of_mem _ hc), List.cons_append]

theorem dropFraction_append {before ds : List Char} (h : ∀ c ∈ before, c ≠ '.') (hne : ds ≠ [])
    (hdigits : ∀ c ∈ ds, c.isDigit = true) :
    dropFraction (before ++ '.' :: ds ++ ['Z']) = before := by
  induction before with
  | nil =>
    have htake : (ds ++ ['Z']).takeWhile Char.isDigit = ds := by
      rw [List.takeWhile_append_of_pos hdigits]
      exact List.append_nil ds
    have hdrop : (ds ++ ['Z']).dropWhile Char.isDigit = ['Z'] := by
      rw [List.dropWhile_append_of_pos hdigits]
      rfl
    rw [List.nil_append, List.cons_append, dropFraction, htake, hdrop, if_pos ⟨rfl, hne, rfl⟩,
      List.tail_cons]
  | cons c cs ih =>
    rw [List.cons_append, List.cons_append, dropFraction,
      if_neg fun hpoint => h c List.mem_cons_self hpoint.1,
      ih fun c hc => h c (List.mem_cons_of_mem _ hc)]

theorem mem_yearText {year : Int} {c : Char} (h : c ∈ (yearText year).toList) :
    c.isDigit = true ∨ c = '+' ∨ c = '-' := by
  rw [yearText] at h
  split at h
  · exact .inl (isDigit_padded _ _ c h)
  · rw [String.toList_append, List.mem_append] at h
    rcases h with hsign | hdigit
    · split at hsign
      · exact .inr (.inr (List.mem_singleton.mp hsign))
      · exact .inr (.inl (List.mem_singleton.mp hsign))
    · exact .inl (isDigit_padded _ _ c hdigit)

/-- **Neither a letter nor a point** stands in date or time. -/
theorem Moment.mem_text {m : Moment} {c : Char} (h : c ∈ m.text.toList) :
    c.isDigit = true ∨ c ∈ ['+', '-', ' ', ':'] := by
  have hfield : ∀ {width n : Nat}, c ∈ (padded width n).toList → c.isDigit = true :=
    fun h => isDigit_padded _ _ c h
  simp only [toList_text, date, time, List.mem_append, List.mem_cons] at h
  have hyear := @mem_yearText m.year c
  simp only [List.mem_cons]
  grind

/-- **The text of a moment is what is left of the full text** once the letter between date and time
and the fraction are taken out. -/
theorem Moment.toList_text_eq (m : Moment) (millis : Nat) :
    m.text.toList = dropFraction (replaceFirst 'T' ' ' (m.iso millis).toList) := by
  have hne : ∀ c ∈ m.text.toList, c ≠ 'T' ∧ c ≠ '.' := by
    intro c hc
    constructor <;> rintro rfl <;> exact absurd (mem_text hc) (by decide)
  rw [toList_text] at hne ⊢
  rw [toList_iso, replaceFirst_append fun c hc => (hne c (List.mem_append_left _ hc)).1,
    ← List.cons_append, ← List.append_assoc, ← List.cons_append, ← List.append_assoc,
    dropFraction_append (fun c hc => (hne c hc).2) (padded_ne_nil 3 millis) (isDigit_padded 3 millis)]

end Calendar

/-! ### Clock readings -/

namespace Binary64

/-- **The value of a number**, if it is finite. -/
def value? : Binary64 → Option ℚ
  | finite negative units _ => some (signed negative units / unitsPerOne)
  | _ => none

/-- A number with a fraction lies below `2 ^ 53`. -/
theorem lt_of_fraction {units : Nat} (hr : Representable units) (h : units % unitsPerOne ≠ 0) :
    units < 2 ^ 53 * unitsPerOne := by
  have hne : units ≠ 0 := by
    rintro rfl
    exact h (Nat.zero_mod unitsPerOne)
  have hbound : ∀ places, 2 ^ 53 * 2 ^ places = 2 ^ (53 + places) :=
    fun places => (Nat.pow_add 2 53 places).symm
  refine Nat.lt_of_not_le fun hlarge => h (Nat.mod_eq_zero_of_dvd (Nat.dvd_trans ?_ hr.1))
  rw [unitsPerOne, hbound, ← Nat.le_log2 hne] at hlarge
  exact Nat.pow_dvd_pow 2 (by omega)

theorem natAbs_ediv_le {a : Int} {u bound : Nat} (hpos : 0 < u) (h : a.natAbs ≤ bound * u) :
    (a / u).natAbs ≤ bound := by
  have hu : (0 : Int) < u := Int.natCast_pos.mpr hpos
  have hcast : ((bound * u : Nat) : Int) = bound * u := Int.natCast_mul bound u
  have hlow : -(bound : Int) ≤ a / u := (Int.le_ediv_iff_mul_le hu).mpr (by
    rw [Int.neg_mul]
    omega)
  have hhigh : a / u < bound + 1 := (Int.ediv_lt_iff_lt_mul hu).mpr (by
    rw [Int.add_mul]
    omega)
  omega

/-- **The greatest integer that is not greater** is that of the value. -/
theorem toInt?_floor {x : Binary64} {v : ℚ} (h : x.value? = some v) :
    x.floor.toInt? = some ⌊v⌋ := by
  cases x with
  | nan | infinite => cases h
  | finite negative units hr =>
    obtain rfl := Option.some.inj h
    rw [Rat.floor_intCast_div_natCast, floor]
    split
    · next hwhole =>
      have hunits := Nat.div_mul_cancel (Nat.dvd_of_mod_eq_zero hwhole)
      have hsigned := signed_eq_mul negative (units / unitsPerOne) unitsPerOne
      rw [hunits] at hsigned
      have hne : (unitsPerOne : Int) ≠ 0 := Int.natCast_ne_zero.mpr unitsPerOne_pos.ne'
      rw [toInt?, if_pos hwhole, hsigned, Int.mul_ediv_cancel _ hne]
    · next hfraction =>
      have hnatAbs : (signed negative units).natAbs = units := by
        cases negative <;> simp [signed]
      have hlt := lt_of_fraction hr hfraction
      exact toInt?_ofInt (natAbs_ediv_le unitsPerOne_pos (by omega))

end Binary64

namespace Calendar

/-- **The clock readings that are dates**: those whose whole milliseconds lie within a hundred
million days of 1970. -/
theorem milliseconds?_eq_some_iff {clock : Binary64} {ms : Int} :
    milliseconds? clock = some ms ↔ ∃ now, clock.value? = some now ∧ ⌊now⌋ = ms ∧ |ms| ≤ range := by
  rw [milliseconds?, Option.filter_eq_some_iff, decide_eq_true_eq, Int.natCast_natAbs]
  constructor
  · rintro ⟨hfloor, hrange⟩
    rcases hvalue : clock.value? with _ | now
    · cases clock <;> cases hvalue <;> cases hfloor
    · rw [Binary64.toInt?_floor hvalue] at hfloor
      exact ⟨now, rfl, Option.some.inj hfloor, hrange⟩
  · rintro ⟨now, hvalue, rfl, hrange⟩
    exact ⟨Binary64.toInt?_floor hvalue, hrange⟩

/-- **The stamp of a clock reading** is the text of its second. -/
theorem stamp_eq_ok {clock : Binary64} {now : ℚ} (hvalue : clock.value? = some now)
    (hrange : |⌊now⌋| ≤ range) : stamp clock = .ok (Moment.ofSeconds (⌊now⌋ / 1000)).text := by
  rw [stamp, milliseconds?_eq_some_iff.mpr ⟨now, hvalue, rfl, hrange⟩]

/-- The last reading that is a date. -/
example : stamp (.ofInt range) = .ok "+275760-09-13 00:00:00" := by decide +kernel

/-- Any other reading has none. -/
theorem stamp_eq_error {clock : Binary64}
    (h : ∀ now, clock.value? = some now → ¬ |⌊now⌋| ≤ range) : stamp clock = .error .invalidTime := by
  rw [stamp]
  split
  · next ms hms =>
    obtain ⟨now, hvalue, rfl, hrange⟩ := milliseconds?_eq_some_iff.mp hms
    exact absurd hrange (h now hvalue)
  · rfl

end Calendar

/-! ### Log lines -/

/-- **A line that begins with a time stamp**: stamp, scope and message. -/
def Line.dated (ts scope : String) (level : Level) (message : String) (failure : Option Failure) :
    Line :=
  ⟨level, some ("[" ++ ts ++ "] [" ++ scope ++ "] " ++ message), shown level failure⟩

/-- Lines that differ in the stamp only are different. -/
theorem Line.dated_inj {ts ts' scope : String} {level : Level} {message : String}
    {failure : Option Failure} :
    dated ts scope level message failure = dated ts' scope level message failure ↔ ts = ts' := by
  constructor
  · intro h
    have htext := congrArg String.toList (Option.some.inj (congrArg Line.text h))
    simp only [String.toList_append, List.append_assoc] at htext
    exact String.toList_inj.mp (List.append_cancel_right (List.append_cancel_left htext))
  · rintro rfl
    rfl

namespace Session.World

open Calendar

section Console

variable {w : World} {scope : String} (hconsole : w.logging = .console scope) (level : Level)
  (message : String) (failure : Option Failure)
include hconsole

theorem log_eq_of_stamp {ts : String} (h : stamp w.clock = .ok ts) :
    w.log level message failure =
      (w.emit (.console (Line.dated ts scope level message failure)), .ok ()) := by
  rw [log, hconsole]
  simp only [Line.stamped, h]
  rfl

theorem log_eq_of_error {problem : Failure} (h : stamp w.clock = .error problem) :
    w.log level message failure = (w, .error problem) := by
  rw [log, hconsole]
  simp only [Line.stamped, h]
  rfl

/-- **A log line shows the second in which it was written.** Where the whole milliseconds of the
clock are a date, a log call on the console writes one line: a time stamp, the scope and the message.
The time stamp denotes the second of the clock and no other, and is what is left of the full text of
the clock without the letter and the fraction. So another log call writes the same stamp exactly if
its clock lies in the same second. Where the clock shows no date the call fails with a range error
and writes nothing. -/
theorem lines_show_their_second :
    (∀ now, w.clock.value? = some now → |⌊now⌋| ≤ range → ∃ ts,
      w.log level message failure =
        (w.emit (.console (Line.dated ts scope level message failure)), .ok ()) ∧
      ts.toList = dropFraction (replaceFirst 'T' ' '
        ((Moment.ofSeconds (⌊now⌋ / 1000)).iso (⌊now⌋ % 1000).toNat).toList) ∧
      (∀ second, Denotes ts second ↔ second = ⌊now⌋ / 1000) ∧
      ∀ (w' : World) (scope' : String) (level' : Level) (message' : String)
        (failure' : Option Failure) (now' : ℚ), w'.logging = .console scope' →
        w'.clock.value? = some now' → |⌊now'⌋| ≤ range →
        ((w'.log level' message' failure').1 =
            w'.emit (.console (Line.dated ts scope' level' message' failure')) ↔
          ⌊now'⌋ / 1000 = ⌊now⌋ / 1000)) ∧
    ((∀ now, w.clock.value? = some now → ¬ |⌊now⌋| ≤ range) →
      w.log level message failure = (w, .error .invalidTime) ∧
      Failure.invalidTime.name? = some "RangeError") := by
  constructor
  · intro now hvalue hrange
    have hdenotes : ∀ {now : ℚ}, |⌊now⌋| ≤ range → ∀ second,
        Denotes (Moment.ofSeconds (⌊now⌋ / 1000)).text second ↔ second = ⌊now⌋ / 1000 := by
      intro now hrange second
      refine denotes_text_iff ?_
      rw [range, abs_le] at hrange
      omega
    refine ⟨_, log_eq_of_stamp hconsole level message failure (stamp_eq_ok hvalue hrange),
      Moment.toList_text_eq .., hdenotes hrange, ?_⟩
    intro w' scope' level' message' failure' now' hconsole' hvalue' hrange'
    rw [log_eq_of_stamp hconsole' level' message' failure' (stamp_eq_ok hvalue' hrange')]
    constructor
    · intro heq
      have hline := Event.console.inj (Array.push_eq_push.mp (congrArg World.trace heq)).1
      have hsecond := (hdenotes hrange' _).mpr rfl
      rw [Line.dated_inj.mp hline] at hsecond
      exact (hdenotes hrange _).mp hsecond
    · intro hsecond
      rw [hsecond]
  · intro hinvalid
    exact ⟨log_eq_of_error hconsole level message failure (stamp_eq_error hinvalid), rfl⟩

end Console

/-- Half a millisecond before 1970 a line shows the last second of 1969; a clock that shows no number
has no line. -/
theorem lines_show_their_second_of_1969 :
    let w : World := (Setup.mk (.round true unitsPerOne 2) ⟨none, none⟩ true Table.empty).world "a"
    w.clock.value? = some (-1 / 2) ∧
      (∃ ts, Denotes ts (-1) ∧ w.log .info "b" none =
        (w.emit (.console (Line.dated ts "a" .info "b" none)), .ok ())) ∧
      ({ w with clock := .nan }.log .info "b" none).2 = .error .invalidTime := by
  intro w
  have hvalue : w.clock.value? = some (-1 / 2) := by decide +kernel
  have hfloor : ⌊(-1 / 2 : ℚ)⌋ = -1 := by decide +kernel
  obtain ⟨ts, hlog, -, hdenotes, -⟩ := (lines_show_their_second (w := w) rfl .info "b" none).1 _ hvalue
    (by rw [hfloor]; decide)
  rw [hfloor] at hdenotes
  have hconsole : { w with clock := .nan }.logging = .console "a" := rfl
  have hnever := (lines_show_their_second hconsole .info "b" none).2 fun now h => by cases h
  exact ⟨hvalue, ⟨ts, (hdenotes (-1)).mpr rfl, hlog⟩, congrArg Prod.snd hnever.1⟩

end Session.World

end Balancer
