import Balancer.Proofs.Session.Configuration
import Balancer.Proofs.Shortest

/-!
# Padded settings

The timings of a process survive being written down, padded and read again. What counts as blank
where a setting is tested for being empty is what the numerals are stripped of, so that padding
neither makes a text unreadable nor changes what is read.

* `Balancer.Text.whiteSpace`, `Balancer.Text.lineEnds` – the characters of padding, by code point;
  `Balancer.Text.isBlank_iff` – **they are the blank ones.**
* `Balancer.Text.trim_append` – what stands between blanks is stripped as it is without them.
* `Balancer.readSetting_padded` – **padding does not matter to what is read.**
* `Balancer.Environment.padding_is_ignored` – the same of the variables of a process, and **what was
  written is read again.**
-/

namespace Balancer

/-! ### Padding -/

namespace Text

/-- **The white space characters**: tabulators, the form feed, the spaces and the byte order mark. -/
def whiteSpace : List Nat :=
  [0x09, 0x0B, 0x0C, 0x20, 0xA0, 0x1680, 0x2000, 0x2001, 0x2002, 0x2003, 0x2004, 0x2005, 0x2006,
    0x2007, 0x2008, 0x2009, 0x200A, 0x202F, 0x205F, 0x3000, 0xFEFF]

/-- **The line ends**: line feed and carriage return, and the separators of lines and paragraphs. -/
def lineEnds : List Nat := [0x0A, 0x0D, 0x2028, 0x2029]

theorem isBlank_iff {c : Char} : isBlank c = true ↔ c.toNat ∈ whiteSpace ∨ c.toNat ∈ lineEnds := by
  simp only [isBlank, whiteSpace, lineEnds, Bool.or_eq_true, Bool.and_eq_true, decide_eq_true_eq,
    beq_iff_eq, List.mem_cons, List.not_mem_nil, or_false]
  omega

/-- **What stands between blanks** is stripped as it is without them. -/
theorem trim_append {before after : List Char} (hbefore : ∀ c ∈ before, isBlank c = true)
    (hafter : ∀ c ∈ after, isBlank c = true) (cs : List Char) :
    trim (before ++ cs ++ after) = trim cs := by
  have hreverse : ∀ c ∈ after.reverse, isBlank c = true := fun c hc => hafter c (List.mem_reverse.mp hc)
  rw [trim, trim, List.append_assoc, List.dropWhile_append_of_pos hbefore, List.dropWhile_append]
  split
  · next hempty =>
    rw [List.isEmpty_iff] at hempty
    rw [hempty, List.dropWhile_eq_nil_iff.mpr hafter]
  · rw [List.reverse_append, List.dropWhile_append_of_pos hreverse]

end Text

/-- **A text of white space and line ends.** -/
def Padding (text : String) : Prop :=
  ∀ c ∈ text.toList, c.toNat ∈ Text.whiteSpace ∨ c.toNat ∈ Text.lineEnds

theorem padding_iff {text : String} : Padding text ↔ Blank text :=
  forall₂_congr fun _ _ => Text.isBlank_iff.symm

instance (text : String) : Decidable (Padding text) :=
  decidable_of_iff (text.toList.all Text.isBlank = true) (List.all_eq_true.trans padding_iff.symm)

section Padded

variable {before after : String} (hbefore : Padding before) (hafter : Padding after)
include hbefore hafter

theorem trim_padded (raw : String) :
    Text.trim (before ++ raw ++ after).toList = Text.trim raw.toList := by
  rw [String.toList_append, String.toList_append]
  exact Text.trim_append (padding_iff.mp hbefore) (padding_iff.mp hafter) raw.toList

theorem blank_padded_iff (raw : String) : Blank (before ++ raw ++ after) ↔ Blank raw := by
  rw [blank_iff, blank_iff, trim_padded hbefore hafter]

theorem asksFor_padded_iff (raw : String) (value : Binary64) :
    AsksFor (before ++ raw ++ after) value ↔ AsksFor raw value := by
  rw [asksFor_iff, asksFor_iff, Literal.read?, Literal.read?, trim_padded hbefore hafter]

/-- **Padding does not matter to what is read.** -/
theorem readSetting_padded (field : TimingField) (raw : String) (value : Binary64) :
    readSetting field (some (before ++ raw ++ after)) = .ok value ↔
      readSetting field (some raw) = .ok value := by
  simp only [readSetting_eq_ok_iff, Option.some.injEq, exists_eq_left', forall_eq',
    blank_padded_iff hbefore hafter, asksFor_padded_iff hbefore hafter]

end Padded

/-! ### Numbers -/

namespace Binary64

/-- A positive integer is a positive magnitude. -/
theorem Whole.exists_finite {x : Binary64} (h : x.Whole) :
    ∃ units hr, x = finite false units hr ∧ units ≠ 0 := by
  obtain ⟨n, hpos, hn⟩ := h
  obtain ⟨negative, k, hr, rfl, rfl⟩ := exists_of_toInt? hn
  cases negative with
  | true =>
    simp only [signed, if_true] at hpos
    omega
  | false =>
    refine ⟨_, hr, rfl, Nat.mul_ne_zero ?_ unitsPerOne_pos.ne'⟩
    rintro rfl
    exact absurd hpos (by decide)

/-- **A positive integer is read from every text that it is written with.** -/
theorem Whole.asksFor {x : Binary64} (h : x.Whole) {text : String} (htext : x.Prints text) :
    AsksFor text x := by
  obtain ⟨s, k, n, hshortest, htoList⟩ := htext
  obtain ⟨hread, hparts⟩ := hshortest.read?_layOut
  refine asksFor_iff.mpr ⟨?_, h⟩
  rw [← String.ofList_toList (s := text), htoList, Literal.read?_ofList hparts, hread]

end Binary64

/-! ### The variables of a process -/

namespace Environment

/-- The variables with a timing set to a text. -/
def set (env : Environment) (field : TimingField) (raw : String) : Environment :=
  fun name => if name = field.setting then some raw else env name

variable {env : Environment} {field : TimingField}

theorem setting_injective : Function.Injective TimingField.setting := by
  intro field other h
  cases field <;> cases other <;> first | rfl | exact absurd h (by decide)

theorem set_setting (raw : String) (other : TimingField) :
    env.set field raw other.setting = if other = field then some raw else env other.setting := by
  simp only [set, setting_injective.eq_iff]

/-- **With a timing set**, reading yields what is read of its text, and leaves the other one. -/
theorem timings_set_iff {raw : String} {timings : Timings} :
    (Settings.ofEnvironment (env.set field raw)).timings = .ok timings ↔
      readSetting field (some raw) = .ok (timings.get field) ∧
        ∀ other, other ≠ field → env.Yields other (timings.get other) := by
  rw [Settings.timings_eq_ok_iff]
  have hyields : ∀ other, readSetting other (env other.setting) = .ok (timings.get other) ↔
      env.Yields other (timings.get other) := fun other => readSetting_eq_ok_iff
  simp only [get_ofEnvironment, set_setting, ← hyields]
  constructor
  · intro h
    refine ⟨?_, fun other hne => ?_⟩
    · simpa using h field
    · simpa [hne] using h other
  · rintro ⟨hfield, hother⟩ other
    by_cases heq : other = field
    · rw [heq]
      simpa using hfield
    · simpa [heq] using hother other heq

/-- **Timings survive printing, padding and reading again.** A positive integer is read from every
text that it is written with, with white space and line ends on both sides, and its own text is one
of those. Any text is read with padding exactly if it is read without, as the same number; if nothing
but padding is there it is the default. So it is for the variables of a process. -/
theorem padding_is_ignored (env : Environment) (field : TimingField) {before after : String}
    (hbefore : Padding before) (hafter : Padding after) :
    (∀ x : Binary64, x.Whole → x.Prints x.text ∧ ∀ text, x.Prints text →
      readSetting field (some (before ++ text ++ after)) = .ok x ∧
      ∀ timings, (Settings.ofEnvironment (env.set field (before ++ text ++ after))).timings =
          .ok timings ↔
        timings.get field = x ∧ ∀ other, other ≠ field → env.Yields other (timings.get other)) ∧
    (∀ raw, (∀ value, readSetting field (some (before ++ raw ++ after)) = .ok value ↔
        readSetting field (some raw) = .ok value) ∧
      ∀ timings, (Settings.ofEnvironment (env.set field (before ++ raw ++ after))).timings =
          .ok timings ↔
        (Settings.ofEnvironment (env.set field raw)).timings = .ok timings) ∧
    (∀ raw, Padding raw →
      readSetting field (some (before ++ raw ++ after)) = .ok defaultTiming) := by
  have hpadded := readSetting_padded hbefore hafter field
  refine ⟨fun x hx => ⟨?_, fun text htext => ?_⟩, fun raw => ⟨hpadded raw, fun timings => ?_⟩,
    fun raw hraw => ?_⟩
  · obtain ⟨units, hr, rfl, hunits⟩ := hx.exists_finite
    exact Binary64.prints_text hr hunits
  · have hread : readSetting field (some text) = .ok x := readSetting_of_asksFor (hx.asksFor htext)
    refine ⟨(hpadded text x).mpr hread, fun timings => ?_⟩
    rw [timings_set_iff, hpadded, hread, Except.ok.injEq, eq_comm]
  · rw [timings_set_iff, timings_set_iff, hpadded]
  · exact (hpadded raw _).mpr (readSetting_of_blank (padding_iff.mp hraw))

/-- The first number that is written with an exponent, between a byte order mark and a space that
does not break the line. -/
theorem padding_is_ignored_of_exponent :
    let x : Binary64 := .ofNat 1000000000000000000000
    Padding "\uFEFF\n" ∧ Padding "\u00A0" ∧ x.Whole ∧ x.text = "1e+21" ∧
      readSetting .period (some ("\uFEFF\n" ++ "1e+21" ++ "\u00A0")) = .ok x := by
  intro x
  have hbefore : Padding "\uFEFF\n" := by decide
  have hafter : Padding "\u00A0" := by decide
  have hx : x.Whole := ⟨(1000000000000000000000 : Nat), by decide, Binary64.toInt?_ofNat (by decide +kernel)⟩
  have htext : x.text = "1e+21" := by decide +kernel
  obtain ⟨hprints, hread⟩ := (padding_is_ignored (fun _ => none) .period hbefore hafter).1 x hx
  exact ⟨hbefore, hafter, hx, htext, (hread _ (htext ▸ hprints)).1⟩

end Environment

end Balancer
