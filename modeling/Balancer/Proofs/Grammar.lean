import Balancer.Proofs.Literal
import Balancer.Proofs.Nearest

/-!
# The grammar of numeric literals

Which texts denote a number, and which number, is said by a grammar, without reading them from one
end to the other: a numeral is a decimal one with an optional sign, fraction and exponent, or one of
base sixteen, eight or two without a sign. Its value is exact; what is read is the floating-point
number nearest to it.

* `Balancer.Literal.Digits`, `Exponent`, `Mantissa`, `Numeral` – **the grammar**, with values.
* `Balancer.Literal.digits_iff` – digits denote what is read from them.
* `Balancer.Literal.unsigned?_eq_some_iff` – so do decimal numerals without a sign.
* `Balancer.Literal.bare?_eq_some_iff` – **a text is read exactly if it is a numeral**, or says
  infinity, and what is read is its value, correctly rounded.
* `Balancer.Literal.Denotes` – **a text denotes a value**: it is a numeral between blanks.
* `Balancer.Literal.read?_eq_some_iff` – the same of texts with blanks.
-/

namespace Balancer.Literal

/-! ### The grammar -/

/-- **A digit of a base**, and its value; a letter may be a small or a capital one. -/
def IsDigit (base : Nat) (c : Char) (value : Nat) : Prop :=
  value < base ∧ (c = value.digitChar ∨ c = value.digitChar.toUpper)

/-- **Digits of a base**, one at least, and the number that they denote. -/
inductive Digits (base : Nat) : List Char → Nat → Prop
  /-- A digit. -/
  | one {c : Char} {d : Nat} (digit : IsDigit base c d) : Digits base [c] d
  /-- Digits, and one more behind them. -/
  | snoc {cs : List Char} {n : Nat} {c : Char} {d : Nat} (digits : Digits base cs n)
      (digit : IsDigit base c d) : Digits base (cs ++ [c]) (n * base + d)

/-- **An exponent**, and the power of ten that it denotes; it may be missing. -/
inductive Exponent : List Char → Int → Prop
  /-- No exponent. -/
  | none : Exponent [] 0
  /-- Without a sign. -/
  | unsigned {mark : Char} {ds : List Char} {n : Nat} (letter : mark = 'e' ∨ mark = 'E')
      (digits : Digits 10 ds n) : Exponent (mark :: ds) n
  /-- Behind a plus sign. -/
  | plus {mark : Char} {ds : List Char} {n : Nat} (letter : mark = 'e' ∨ mark = 'E')
      (digits : Digits 10 ds n) : Exponent (mark :: '+' :: ds) n
  /-- Behind a minus sign. -/
  | minus {mark : Char} {ds : List Char} {n : Nat} (letter : mark = 'e' ∨ mark = 'E')
      (digits : Digits 10 ds n) : Exponent (mark :: '-' :: ds) (-n)

/-- **The digits of a decimal numeral**, with or without a point among them, and their value. -/
inductive Mantissa : List Char → ℚ → Prop
  /-- Without a point. -/
  | whole {ds : List Char} {n : Nat} (digits : Digits 10 ds n) : Mantissa ds n
  /-- With nothing behind the point. -/
  | pointed {ds : List Char} {n : Nat} (digits : Digits 10 ds n) : Mantissa (ds ++ ['.']) n
  /-- With nothing before the point. -/
  | fraction {fs : List Char} {f : Nat} (digits : Digits 10 fs f) :
      Mantissa ('.' :: fs) (f / 10 ^ fs.length)
  /-- With digits on both sides of the point. -/
  | mixed {ds fs : List Char} {n f : Nat} (whole : Digits 10 ds n) (fraction : Digits 10 fs f) :
      Mantissa (ds ++ '.' :: fs) (n + f / 10 ^ fs.length)

/-- A decimal numeral without a sign, and its value. -/
inductive Decimals : List Char → ℚ → Prop
  /-- Digits and an exponent. -/
  | scaled {ms es : List Char} {m : ℚ} {e : Int} (mantissa : Mantissa ms m)
      (exponent : Exponent es e) : Decimals (ms ++ es) (m * 10 ^ e)

/-- **A numeral**, whether it has a minus sign, and the magnitude of its value. -/
inductive Numeral : List Char → Bool → ℚ → Prop
  /-- A decimal one without a sign. -/
  | unsigned {cs : List Char} {v : ℚ} (decimals : Decimals cs v) : Numeral cs false v
  /-- One behind a plus sign. -/
  | plus {cs : List Char} {v : ℚ} (decimals : Decimals cs v) : Numeral ('+' :: cs) false v
  /-- One behind a minus sign. -/
  | minus {cs : List Char} {v : ℚ} (decimals : Decimals cs v) : Numeral ('-' :: cs) true v
  /-- One of base sixteen. -/
  | hexadecimal {mark : Char} {ds : List Char} {n : Nat} (letter : mark = 'x' ∨ mark = 'X')
      (digits : Digits 16 ds n) : Numeral ('0' :: mark :: ds) false n
  /-- One of base eight. -/
  | octal {mark : Char} {ds : List Char} {n : Nat} (letter : mark = 'o' ∨ mark = 'O')
      (digits : Digits 8 ds n) : Numeral ('0' :: mark :: ds) false n
  /-- One of base two. -/
  | binary {mark : Char} {ds : List Char} {n : Nat} (letter : mark = 'b' ∨ mark = 'B')
      (digits : Digits 2 ds n) : Numeral ('0' :: mark :: ds) false n

/-- **The word for infinity**, and whether it has a minus sign. -/
inductive Word : List Char → Bool → Prop
  /-- Without a sign. -/
  | unsigned : Word "Infinity".toList false
  /-- Behind a plus sign. -/
  | plus : Word ('+' :: "Infinity".toList) false
  /-- Behind a minus sign. -/
  | minus : Word ('-' :: "Infinity".toList) true

/-! ### Digits -/

theorem digitChar_of_digitValue? {c : Char} {d : Nat} (h : digitValue? c = some d) :
    c = d.digitChar ∨ c = d.digitChar.toUpper := by
  have hdigit : ∀ n < 58, 48 ≤ n → Char.ofNat n = (n - 48).digitChar := by decide
  have hsmall : ∀ n < 103, 97 ≤ n → Char.ofNat n = (n - 97 + 10).digitChar := by decide
  have hcapital : ∀ n < 71, 65 ≤ n → Char.ofNat n = (n - 65 + 10).digitChar.toUpper := by decide
  have hcode := Char.ofNat_toNat c
  simp only [digitValue?, Char.isDigit, Bool.and_eq_true, decide_eq_true_eq, ge_iff_le, Char.le_def,
    UInt32.le_iff_toNat_le] at h
  split at h
  · next hrange =>
    cases h
    exact .inl (hcode.symm.trans (hdigit c.toNat (Nat.lt_succ_of_le hrange.2) hrange.1))
  split at h
  · next hrange =>
    cases h
    exact .inl (hcode.symm.trans (hsmall c.toNat (Nat.lt_succ_of_le hrange.2) hrange.1))
  split at h
  · next hrange =>
    cases h
    exact .inr (hcode.symm.trans (hcapital c.toNat (Nat.lt_succ_of_le hrange.2) hrange.1))
  · cases h

/-- The digits up to sixteen are those that are read, with their values. -/
theorem isDigit_iff {base : Nat} (hbase : base ≤ 16) {c : Char} {d : Nat} :
    IsDigit base c d ↔ digitValue? c = some d ∧ d < base := by
  constructor
  · rintro ⟨hlt, hc⟩
    have hread : ∀ d < 16, digitValue? d.digitChar = some d ∧
        digitValue? d.digitChar.toUpper = some d := by decide
    obtain ⟨hsmall, hcapital⟩ := hread d (by omega)
    refine ⟨?_, hlt⟩
    rcases hc with rfl | rfl
    · exact hsmall
    · exact hcapital
  · rintro ⟨hread, hlt⟩
    exact ⟨hlt, digitChar_of_digitValue? hread⟩

/-- No blank is a digit. -/
theorem IsDigit.isBlank_eq_false {base : Nat} (hbase : base ≤ 16) {c : Char} {d : Nat}
    (h : IsDigit base c d) : Text.isBlank c = false := by
  have hnone : ∀ d < 16, Text.isBlank d.digitChar = false ∧
      Text.isBlank d.digitChar.toUpper = false := by decide
  obtain ⟨hlt, hc⟩ := h
  obtain ⟨hsmall, hcapital⟩ := hnone d (by omega)
  rcases hc with rfl | rfl
  · exact hsmall
  · exact hcapital

/-- **Digits are read from the first one on.** -/
theorem radixNatural?_concat (base : Nat) {cs : List Char} (hne : cs ≠ []) (c : Char) :
    radixNatural? base (cs ++ [c]) = (radixNatural? base cs).bind fun value =>
      (digitValue? c).bind fun digit =>
        if digit < base then some (value * base + digit) else none := by
  rw [radixNatural?, radixNatural?]
  simp [hne, List.foldlM_append]

theorem radixNatural?_singleton (base : Nat) (c : Char) :
    radixNatural? base [c] =
      (digitValue? c).bind fun digit => if digit < base then some digit else none := by
  rw [radixNatural?]
  simp

/-- **Digits denote what is read from them.** -/
theorem digits_iff {base : Nat} (hbase : base ≤ 16) {cs : List Char} {n : Nat} :
    Digits base cs n ↔ radixNatural? base cs = some n := by
  have hdigit : ∀ {c d} {α : Type} (f : Nat → α) (a : α), IsDigit base c d → f d = a →
      ((digitValue? c).bind fun digit => if digit < base then some (f digit) else none) = some a := by
    intro c d α f a h hf
    obtain ⟨hread, hlt⟩ := (isDigit_iff hbase).mp h
    rw [hread, Option.bind_some, if_pos hlt, hf]
  constructor
  · intro h
    induction h with
    | one digit =>
      rw [radixNatural?_singleton]
      exact hdigit id _ digit rfl
    | @snoc cs n c d digits digit ih =>
      have hne : cs ≠ [] := by
        rintro rfl
        cases ih
      rw [radixNatural?_concat base hne, ih, Option.bind_some]
      exact hdigit (n * base + ·) _ digit rfl
  · intro h
    induction cs using List.reverseRecOn generalizing n with
    | nil => cases h
    | append_singleton cs c ih =>
      by_cases hne : cs = []
      · subst hne
        rw [List.nil_append, radixNatural?_singleton] at h
        obtain ⟨d, hread, hvalue⟩ := Option.bind_eq_some_iff.mp h
        split at hvalue
        · next hlt =>
          cases hvalue
          exact .one ((isDigit_iff hbase).mpr ⟨hread, hlt⟩)
        · cases hvalue
      · rw [radixNatural?_concat base hne] at h
        obtain ⟨value, hvalue, hlast⟩ := Option.bind_eq_some_iff.mp h
        obtain ⟨d, hread, hsum⟩ := Option.bind_eq_some_iff.mp hlast
        split at hsum
        · next hlt =>
          cases hsum
          exact (ih hvalue).snoc ((isDigit_iff hbase).mpr ⟨hread, hlt⟩)
        · cases hsum

/-! ### Decimal digits -/

theorem isDigit_ten_iff {c : Char} {d : Nat} :
    IsDigit 10 c d ↔ c.isDigit = true ∧ c.toNat - '0'.toNat = d := by
  rw [isDigit_iff (by decide), digitValue?]
  split
  · next hdigit =>
    have hlt : c.toNat - '0'.toNat < 10 := by
      simp only [Char.isDigit, Bool.and_eq_true, decide_eq_true_eq,
        UInt32.le_iff_toNat_le] at hdigit
      have hhigh : c.toNat ≤ 57 := hdigit.2
      show c.toNat - 48 < 10
      omega
    rw [Option.some.injEq]
    exact ⟨fun h => ⟨hdigit, h.1⟩, fun h => ⟨h.2, h.2 ▸ hlt⟩⟩
  · next hdigit =>
    -- a letter is worth ten at least
    refine iff_of_false (fun h => ?_) fun h => hdigit h.1
    obtain ⟨hread, hlt⟩ := h
    split at hread
    · cases hread
      omega
    split at hread
    · cases hread
      omega
    · cases hread

/-- **Decimal digits denote what is read from them.** -/
theorem digits_ten_iff {cs : List Char} {n : Nat} :
    Digits 10 cs n ↔ cs ≠ [] ∧ (∀ c ∈ cs, c.isDigit = true) ∧ Nat.ofDigitChars 10 cs 0 = n := by
  have hconcat : ∀ cs c, Nat.ofDigitChars 10 (cs ++ [c]) 0 =
      Nat.ofDigitChars 10 cs 0 * 10 + (c.toNat - '0'.toNat) := fun cs c => by
    rw [Nat.ofDigitChars_append, Nat.ofDigitChars_cons, Nat.mul_comm]
    rfl
  constructor
  · intro h
    induction h with
    | @one c d digit =>
      obtain ⟨hdigit, rfl⟩ := isDigit_ten_iff.mp digit
      refine ⟨by simp, by simpa using hdigit, ?_⟩
      rw [← List.nil_append [c], hconcat]
      exact Nat.zero_add _
    | @snoc cs n c d digits digit ih =>
      obtain ⟨hdigit, rfl⟩ := isDigit_ten_iff.mp digit
      obtain ⟨-, hall, rfl⟩ := ih
      refine ⟨by simp, fun c' hc' => ?_, hconcat cs c⟩
      rcases List.mem_append.mp hc' with hold | hnew
      · exact hall c' hold
      · rw [List.mem_singleton.mp hnew]
        exact hdigit
  · rintro ⟨hne, hall, rfl⟩
    induction cs using List.reverseRecOn with
    | nil => exact absurd rfl hne
    | append_singleton cs c ih =>
      have hdigit := isDigit_ten_iff.mpr ⟨hall c (by simp), rfl⟩
      rw [hconcat]
      by_cases hempty : cs = []
      · subst hempty
        rw [Nat.ofDigitChars_nil, Nat.zero_mul, Nat.zero_add]
        exact .one hdigit
      · exact (ih hempty fun c' hc' => hall c' (List.mem_append_left _ hc')).snoc hdigit

theorem natural?_eq_some_iff {cs : List Char} {n : Nat} :
    natural? cs = some n ↔ Digits 10 cs n := by
  rw [digits_ten_iff, natural?]
  split
  · next h =>
    rw [Bool.and_eq_true, Bool.not_eq_true', List.isEmpty_eq_false_iff, List.all_eq_true] at h
    rw [Option.some.injEq]
    exact ⟨fun heq => ⟨h.1, h.2, heq⟩, fun hdigits => hdigits.2.2⟩
  · next h =>
    refine iff_of_false (by simp) fun hdigits => h ?_
    rw [Bool.and_eq_true, Bool.not_eq_true', List.isEmpty_eq_false_iff, List.all_eq_true]
    exact ⟨hdigits.1, hdigits.2.1⟩

theorem Digits.isDigit {cs : List Char} {n : Nat} (h : Digits 10 cs n) :
    ∀ c ∈ cs, c.isDigit = true :=
  (digits_ten_iff.mp h).2.1

/-! ### Exponents -/

/-- **An exponent denotes what is read from it.** -/
theorem exponent?_eq_some_iff {es : List Char} {e : Int} :
    exponent? es = some e ↔ Exponent es e := by
  have hmap : ∀ (o : Option Nat) (f : Int → Int),
      Option.map f (do let a ← o; pure (a : Int)) = o.map fun (n : Nat) => f n :=
    fun o f => by cases o <;> rfl
  constructor
  · intro h
    unfold exponent? at h
    split at h
    · cases h
      exact .none
    split at h
    · next letter =>
      split at h
      all_goals
        rw [hmap] at h
        obtain ⟨n, hn, rfl⟩ := Option.map_eq_some_iff.mp h
      · exact .plus letter (natural?_eq_some_iff.mp hn)
      · exact .minus letter (natural?_eq_some_iff.mp hn)
      · exact .unsigned letter (natural?_eq_some_iff.mp hn)
    · cases h
  · intro h
    cases h with
    | none => rfl
    | @unsigned mark ds n letter digits =>
      unfold exponent?
      dsimp only
      rw [if_pos letter]
      split
      · exact absurd (digits.isDigit '+' List.mem_cons_self) (by decide)
      · exact absurd (digits.isDigit '-' List.mem_cons_self) (by decide)
      · rw [hmap, natural?_eq_some_iff.mpr digits, Option.map_some]
    | plus letter digits =>
      rw [exponent?, if_pos letter, hmap, natural?_eq_some_iff.mpr digits, Option.map_some]
    | minus letter digits =>
      rw [exponent?, if_pos letter, hmap, natural?_eq_some_iff.mpr digits, Option.map_some]

/-! ### Decimal numerals -/

/-- The value of digits before and behind a point. -/
theorem ofDigitChars_append_div (whole places : List Char) :
    (Nat.ofDigitChars 10 (whole ++ places) 0 / 10 ^ places.length : ℚ) =
      Nat.ofDigitChars 10 whole 0 + Nat.ofDigitChars 10 places 0 / 10 ^ places.length := by
  have hpower : (10 : ℚ) ^ places.length ≠ 0 := pow_ne_zero _ (by norm_num)
  rw [Nat.ofDigitChars_append, Nat.ofDigitChars_eq_ofDigitChars_zero, Nat.cast_add, Nat.cast_mul,
    Nat.cast_pow, Nat.cast_ofNat, add_div, mul_div_cancel_left₀ _ hpower]

/-- **The two ways to write the digits of a decimal numeral**: without a point, or with one and
digits on one side of it at least. -/
theorem mantissa_iff {ms : List Char} {m : ℚ} :
    Mantissa ms m ↔
      (ms ≠ [] ∧ (∀ c ∈ ms, c.isDigit = true) ∧ m = Nat.ofDigitChars 10 ms 0) ∨
      ∃ whole places, ms = whole ++ '.' :: places ∧ whole ++ places ≠ [] ∧
        (∀ c ∈ whole, c.isDigit = true) ∧ (∀ c ∈ places, c.isDigit = true) ∧
        m = Nat.ofDigitChars 10 (whole ++ places) 0 / 10 ^ places.length := by
  constructor
  · intro h
    cases h with
    | whole digits =>
      obtain ⟨hne, hall, rfl⟩ := digits_ten_iff.mp digits
      exact .inl ⟨hne, hall, rfl⟩
    | @pointed ds n digits =>
      obtain ⟨hne, hall, rfl⟩ := digits_ten_iff.mp digits
      refine .inr ⟨ds, [], rfl, by simpa using hne, hall, by simp, ?_⟩
      rw [List.append_nil, List.length_nil, pow_zero, div_one]
    | @fraction fs f digits =>
      obtain ⟨hne, hall, rfl⟩ := digits_ten_iff.mp digits
      exact .inr ⟨[], fs, rfl, hne, by simp, hall, rfl⟩
    | @mixed ds fs n f whole fraction =>
      obtain ⟨hne, hall, rfl⟩ := digits_ten_iff.mp whole
      obtain ⟨-, hall', rfl⟩ := digits_ten_iff.mp fraction
      exact .inr ⟨ds, fs, rfl, by simp [hne], hall, hall', (ofDigitChars_append_div ds fs).symm⟩
  · rintro (⟨hne, hall, rfl⟩ | ⟨whole, places, rfl, hne, hall, hall', rfl⟩)
    · exact .whole (digits_ten_iff.mpr ⟨hne, hall, rfl⟩)
    · by_cases hwhole : whole = []
      · subst hwhole
        exact .fraction (digits_ten_iff.mpr ⟨hne, hall', rfl⟩)
      by_cases hplaces : places = []
      · subst hplaces
        rw [List.append_nil, List.length_nil, pow_zero, div_one]
        exact .pointed (digits_ten_iff.mpr ⟨hwhole, hall, rfl⟩)
      · rw [ofDigitChars_append_div]
        exact .mixed (digits_ten_iff.mpr ⟨hwhole, hall, rfl⟩)
          (digits_ten_iff.mpr ⟨hplaces, hall', rfl⟩)

/-- The value of digits with a point and an exponent. -/
theorem value_point (digits places : Nat) (e : Int) :
    Decimal.value ⟨digits, e - places⟩ = digits / 10 ^ places * 10 ^ e := by
  rw [Decimal.value, zpow_sub₀ (by norm_num), zpow_natCast]
  ring

/-- **A decimal numeral is read as the number nearest to its value.** -/
theorem unsigned?_of_decimals {cs : List Char} {v : ℚ} (h : Decimals cs v) (negative : Bool) :
    ∃ x, unsigned? negative cs = some x ∧ Binary64.Rounds negative v x := by
  cases h with
  | @scaled ms es m e mantissa exponent =>
    have htail := exponent?_eq_some_iff.mpr exponent
    rcases mantissa_iff.mp mantissa with ⟨hne, hall, rfl⟩ |
      ⟨whole, places, rfl, hne, hall, hall', rfl⟩
    · exact ⟨_, unsigned?_whole hall htail negative hne, Decimal.rounds_round ⟨_, e⟩ negative⟩
    · rw [List.append_assoc, List.cons_append, ← value_point]
      exact ⟨_, unsigned?_point hall htail negative hall' hne, Decimal.rounds_round _ negative⟩

/-- What is read without a sign is a decimal numeral, or says infinity. -/
theorem exists_decimals {cs : List Char} {negative : Bool} {x : Binary64}
    (h : unsigned? negative cs = some x) (hword : cs ≠ "Infinity".toList) : ∃ v, Decimals cs v := by
  rw [unsigned?, if_neg hword] at h
  have hsplit := List.takeWhile_append_dropWhile (p := Char.isDigit) (l := cs)
  have hall : ∀ c ∈ cs.takeWhile Char.isDigit, c.isDigit = true := fun c => List.mem_takeWhile_imp
  generalize cs.takeWhile Char.isDigit = whole at h hsplit hall
  generalize cs.dropWhile Char.isDigit = rest at h hsplit
  subst hsplit
  dsimp only at h
  split at h
  · cases h
  next hne =>
  obtain ⟨e, htail, -⟩ := Option.map_eq_some_iff.mp h
  rw [List.isEmpty_iff] at hne
  unfold fraction at hne htail
  split at hne
  · next after =>
    have hfraction := List.takeWhile_append_dropWhile (p := Char.isDigit) (l := after)
    have hall' : ∀ c ∈ after.takeWhile Char.isDigit, c.isDigit = true :=
      fun c => List.mem_takeWhile_imp
    rw [← hfraction, ← List.cons_append, ← List.append_assoc]
    exact ⟨_, .scaled (mantissa_iff.mpr (.inr ⟨_, _, rfl, hne, hall, hall', rfl⟩))
      (exponent?_eq_some_iff.mp htail)⟩
  · next _ hpoint =>
    rw [List.append_nil] at hne
    split at htail
    · exact absurd rfl (hpoint _)
    · exact ⟨_, .scaled (mantissa_iff.mpr (.inl ⟨hne, hall, rfl⟩))
        (exponent?_eq_some_iff.mp htail)⟩

/-- **What is read without a sign**, and as which number. -/
theorem unsigned?_eq_some_iff {cs : List Char} {negative : Bool} {x : Binary64} :
    unsigned? negative cs = some x ↔ (∃ v, Decimals cs v ∧ x.Rounds negative v) ∨
      cs = "Infinity".toList ∧ x = .infinite negative := by
  constructor
  · intro h
    by_cases hword : cs = "Infinity".toList
    · rw [unsigned?, if_pos hword] at h
      exact .inr ⟨hword, (Option.some.inj h).symm⟩
    · obtain ⟨v, hdecimals⟩ := exists_decimals h hword
      obtain ⟨y, hy, hrounds⟩ := unsigned?_of_decimals hdecimals negative
      cases hy.symm.trans h
      exact .inl ⟨v, hdecimals, hrounds⟩
  · rintro (⟨v, hdecimals, hrounds⟩ | ⟨rfl, rfl⟩)
    · obtain ⟨y, hy, hrounds'⟩ := unsigned?_of_decimals hdecimals negative
      rw [hy, hrounds.unique hrounds']
    · rfl

/-- A decimal numeral is made of the characters that numbers are written with, but for a capital
letter before the exponent. -/
theorem Decimals.isPart {cs : List Char} {v : ℚ} (h : Decimals cs v) :
    ∀ c ∈ cs, isPart c = true ∨ c = 'E' := by
  have hdigits : ∀ {ds : List Char}, (∀ c ∈ ds, c.isDigit = true) →
      ∀ c ∈ ds, Literal.isPart c = true ∨ c = 'E' :=
    fun hall c hc => .inl (isPart_of_isDigit (hall c hc))
  have hletter : ∀ {mark : Char}, mark = 'e' ∨ mark = 'E' →
      Literal.isPart mark = true ∨ mark = 'E' := by
    rintro mark (rfl | rfl)
    · exact .inl rfl
    · exact .inr rfl
  cases h with
  | @scaled ms es m e mantissa exponent =>
    refine List.forall_mem_append.mpr ⟨?_, ?_⟩
    · rcases mantissa_iff.mp mantissa with ⟨-, hall, -⟩ | ⟨whole, places, rfl, -, hall, hall', -⟩
      · exact hdigits hall
      · exact List.forall_mem_append.mpr ⟨hdigits hall, List.forall_mem_cons.mpr
          ⟨.inl rfl, hdigits hall'⟩⟩
    · cases exponent with
      | none => simp
      | unsigned letter digits =>
        exact List.forall_mem_cons.mpr ⟨hletter letter, hdigits digits.isDigit⟩
      | plus letter digits | minus letter digits =>
        exact List.forall_mem_cons.mpr ⟨hletter letter, List.forall_mem_cons.mpr
          ⟨.inl rfl, hdigits digits.isDigit⟩⟩

/-- It begins with a digit or a point. -/
theorem Decimals.head {cs : List Char} {v : ℚ} (h : Decimals cs v) :
    ∃ c rest, cs = c :: rest ∧ (c.isDigit = true ∨ c = '.') := by
  cases h with
  | @scaled ms es m e mantissa exponent =>
    rcases mantissa_iff.mp mantissa with ⟨hne, hall, -⟩ | ⟨whole, places, rfl, -, hall, -, -⟩
    · obtain ⟨c, rest, rfl⟩ := List.exists_cons_of_ne_nil hne
      exact ⟨c, rest ++ es, rfl, .inl (hall c List.mem_cons_self)⟩
    · cases whole with
      | nil => exact ⟨'.', places ++ es, rfl, .inr rfl⟩
      | cons c rest => exact ⟨c, _, rfl, .inl (hall c List.mem_cons_self)⟩

/-- So it has no sign. -/
theorem Decimals.decimal?_eq {cs : List Char} {v : ℚ} (h : Decimals cs v) :
    decimal? cs = unsigned? false cs := by
  obtain ⟨c, rest, rfl, hc⟩ := h.head
  unfold decimal?
  split
  · next heq =>
    rw [(List.cons.inj heq).1] at hc
    exact absurd hc (by decide)
  · next heq =>
    rw [(List.cons.inj heq).1] at hc
    exact absurd hc (by decide)
  · rfl

/-! ### Numerals -/

theorem base?_of_isPart {c : Char} (h : isPart c = true ∨ c = 'E') : base? c = none := by
  rcases h with h | rfl
  · exact base?_eq_none h
  · rfl

theorem bare?_of_isPart {cs : List Char} (h : ∀ c ∈ cs, isPart c = true ∨ c = 'E') :
    bare? cs = decimal? cs :=
  bare?_eq_decimal? fun c hc => base?_of_isPart (h c hc)

/-- What is read behind a sign, or without one, makes a numeral with the sign, or says infinity. -/
theorem numeral_of_unsigned? {cs rest : List Char} {negative : Bool} {x : Binary64}
    (h : unsigned? negative rest = some x) (hsigned : ∀ v, Decimals rest v → Numeral cs negative v)
    (hword : rest = "Infinity".toList → Word cs negative) :
    (∃ negative v, Numeral cs negative v ∧ x.Rounds negative v) ∨
      ∃ negative, Word cs negative ∧ x = .infinite negative := by
  rcases unsigned?_eq_some_iff.mp h with ⟨v, hdecimals, hrounds⟩ | ⟨hinfinity, hx⟩
  · exact .inl ⟨negative, v, hsigned v hdecimals, hrounds⟩
  · exact .inr ⟨negative, hword hinfinity, hx⟩

/-- **What is read as a decimal literal is a numeral**, or says infinity. -/
theorem numeral_of_decimal? {cs : List Char} {x : Binary64} (h : decimal? cs = some x) :
    (∃ negative v, Numeral cs negative v ∧ x.Rounds negative v) ∨
      ∃ negative, Word cs negative ∧ x = .infinite negative := by
  unfold decimal? at h
  split at h
  · exact numeral_of_unsigned? h (fun v => .plus) fun hword => hword ▸ .plus
  · exact numeral_of_unsigned? h (fun v => .minus) fun hword => hword ▸ .minus
  · exact numeral_of_unsigned? h (fun v => .unsigned) fun hword => hword ▸ .unsigned

/-- What is read behind the letter of a base is a numeral of the base. -/
theorem numeral_of_base? {letter : Char} {base n : Nat} {ds : List Char}
    (hbase : base? letter = some base) (h : radixNatural? base ds = some n) :
    Numeral ('0' :: letter :: ds) false n := by
  unfold base? at hbase
  split at hbase
  · cases hbase
    exact .hexadecimal (.inl rfl) ((digits_iff (by decide)).mpr h)
  · cases hbase
    exact .hexadecimal (.inr rfl) ((digits_iff (by decide)).mpr h)
  · cases hbase
    exact .octal (.inl rfl) ((digits_iff (by decide)).mpr h)
  · cases hbase
    exact .octal (.inr rfl) ((digits_iff (by decide)).mpr h)
  · cases hbase
    exact .binary (.inl rfl) ((digits_iff (by decide)).mpr h)
  · cases hbase
    exact .binary (.inr rfl) ((digits_iff (by decide)).mpr h)
  · cases hbase

/-- **A numeral is read as the number nearest to its value.** -/
theorem bare?_of_numeral {cs : List Char} {negative : Bool} {v : ℚ} (h : Numeral cs negative v) :
    ∃ x, bare? cs = some x ∧ x.Rounds negative v := by
  have hradix : ∀ {letter : Char} {base n : Nat} {ds : List Char}, base? letter = some base →
      base ≤ 16 → Digits base ds n →
      ∃ x, bare? ('0' :: letter :: ds) = some x ∧ x.Rounds false n := by
    intro letter base n ds hletter hbase digits
    refine ⟨.ofNat n, ?_, Binary64.rounds_ofNat n⟩
    rw [bare?, hletter]
    show (radixNatural? base ds).map Binary64.ofNat = _
    rw [(digits_iff hbase).mp digits, Option.map_some]
  cases h with
  | unsigned decimals =>
    rw [bare?_of_isPart decimals.isPart, decimals.decimal?_eq]
    exact unsigned?_of_decimals decimals false
  | plus decimals =>
    rw [bare?_of_isPart (List.forall_mem_cons.mpr ⟨.inl rfl, decimals.isPart⟩)]
    exact unsigned?_of_decimals decimals false
  | minus decimals =>
    rw [bare?_of_isPart (List.forall_mem_cons.mpr ⟨.inl rfl, decimals.isPart⟩)]
    exact unsigned?_of_decimals decimals true
  | hexadecimal letter digits =>
    exact hradix (by rcases letter with rfl | rfl <;> rfl) (by decide) digits
  | octal letter digits =>
    exact hradix (by rcases letter with rfl | rfl <;> rfl) (by decide) digits
  | binary letter digits =>
    exact hradix (by rcases letter with rfl | rfl <;> rfl) (by decide) digits

/-- **A text is read exactly if it is a numeral**, or says infinity; what is read is the number
nearest to its value. -/
theorem bare?_eq_some_iff {cs : List Char} {x : Binary64} :
    bare? cs = some x ↔ (∃ negative v, Numeral cs negative v ∧ x.Rounds negative v) ∨
      ∃ negative, Word cs negative ∧ x = .infinite negative := by
  constructor
  · intro h
    unfold bare? at h
    split at h
    · split at h
      · next hbase =>
        obtain ⟨n, hn, rfl⟩ := Option.map_eq_some_iff.mp h
        exact .inl ⟨false, n, numeral_of_base? hbase hn, Binary64.rounds_ofNat n⟩
      · exact numeral_of_decimal? h
    · exact numeral_of_decimal? h
  · rintro (⟨negative, v, hnumeral, hrounds⟩ | ⟨negative, hword, rfl⟩)
    · obtain ⟨y, hy, hrounds'⟩ := bare?_of_numeral hnumeral
      rw [hy, hrounds.unique hrounds']
    · cases hword <;> rfl

/-! ### Blanks around a numeral -/

/-- **A text that holds something between blanks.** -/
def Framed (P : List Char → Prop) (cs : List Char) : Prop :=
  ∃ before core after, cs = before ++ core ++ after ∧ (∀ c ∈ before, Text.isBlank c = true) ∧
    (∀ c ∈ after, Text.isBlank c = true) ∧ P core

/-- **A text denotes a value with a sign**: it is a numeral between blanks. -/
def Denotes (text : String) (negative : Bool) (magnitude : ℚ) : Prop :=
  Framed (fun core => Numeral core negative magnitude) text.toList

/-- A text says infinity with a sign. -/
def SaysInfinity (text : String) (negative : Bool) : Prop :=
  Framed (fun core => Word core negative) text.toList

/-- **What stands between the blanks is what is left of the text without them.** -/
theorem framed_iff {P : List Char → Prop} (hP : ∀ core, P core → core ≠ [] ∧
    ∀ c ∈ core, Text.isBlank c = false) {cs : List Char} : Framed P cs ↔ P (Text.trim cs) := by
  have hdrop : ∀ {core : List Char} (after : List Char), core ≠ [] →
      (∀ c ∈ core, Text.isBlank c = false) → (core ++ after).dropWhile Text.isBlank = core ++ after := by
    intro core after hne hcore
    obtain ⟨c, rest, rfl⟩ := List.exists_cons_of_ne_nil hne
    rw [List.cons_append, List.dropWhile_cons_of_neg]
    rw [hcore c List.mem_cons_self]
    exact Bool.false_ne_true
  constructor
  · rintro ⟨before, core, after, rfl, hbefore, hafter, hcore⟩
    obtain ⟨hne, hnone⟩ := hP core hcore
    have hreverse : ∀ c ∈ after.reverse, Text.isBlank c = true :=
      fun c hc => hafter c (List.mem_reverse.mp hc)
    have hback : (core.reverse ++ []).dropWhile Text.isBlank = core.reverse ++ [] :=
      hdrop [] (by simpa using hne) fun c hc => hnone c (List.mem_reverse.mp hc)
    rw [List.append_nil] at hback
    rw [Text.trim, List.append_assoc, List.dropWhile_append_of_pos hbefore, hdrop after hne hnone,
      List.reverse_append, List.dropWhile_append_of_pos hreverse, hback, List.reverse_reverse]
    exact hcore
  · intro h
    refine ⟨cs.takeWhile Text.isBlank, Text.trim cs,
      ((cs.dropWhile Text.isBlank).reverse.takeWhile Text.isBlank).reverse, ?_,
      fun c => List.mem_takeWhile_imp,
      fun c hc => List.mem_takeWhile_imp (List.mem_reverse.mp hc), h⟩
    rw [Text.trim, List.append_assoc, ← List.reverse_append, List.takeWhile_append_dropWhile,
      List.reverse_reverse, List.takeWhile_append_dropWhile]

/-- A text has nothing left without its blanks exactly if it has nothing else. -/
theorem trim_eq_nil_iff {cs : List Char} :
    Text.trim cs = [] ↔ ∀ c ∈ cs, Text.isBlank c = true := by
  rw [Text.trim, List.reverse_eq_nil_iff, List.dropWhile_eq_nil_iff]
  constructor
  · intro h c hc
    rw [← List.takeWhile_append_dropWhile (p := Text.isBlank) (l := cs), List.mem_append] at hc
    rcases hc with hfirst | hrest
    · exact List.mem_takeWhile_imp hfirst
    · exact h c (List.mem_reverse.mpr hrest)
  · intro h c hc
    exact h c ((List.dropWhile_sublist _).subset (List.mem_reverse.mp hc))

theorem Digits.isBlank_eq_false {base : Nat} (hbase : base ≤ 16) {cs : List Char} {n : Nat}
    (h : Digits base cs n) : ∀ c ∈ cs, Text.isBlank c = false := by
  induction h with
  | one digit => exact List.forall_mem_singleton.mpr (digit.isBlank_eq_false hbase)
  | snoc digits digit ih =>
    exact List.forall_mem_append.mpr ⟨ih, List.forall_mem_singleton.mpr
      (digit.isBlank_eq_false hbase)⟩

/-- **No numeral is empty or holds a blank.** -/
theorem Numeral.solid {cs : List Char} {negative : Bool} {v : ℚ} (h : Numeral cs negative v) :
    cs ≠ [] ∧ ∀ c ∈ cs, Text.isBlank c = false := by
  have hpart : ∀ {c : Char}, isPart c = true ∨ c = 'E' → Text.isBlank c = false := by
    rintro c (h | rfl)
    · exact Literal.isBlank_eq_false h
    · rfl
  have hradix : ∀ {base n : Nat} {mark : Char} {ds : List Char}, Text.isBlank mark = false →
      base ≤ 16 → Digits base ds n → ∀ c ∈ '0' :: mark :: ds, Text.isBlank c = false :=
    fun hmark hbase digits => List.forall_mem_cons.mpr ⟨rfl, List.forall_mem_cons.mpr
      ⟨hmark, digits.isBlank_eq_false hbase⟩⟩
  cases h with
  | unsigned decimals =>
    obtain ⟨c, rest, rfl, -⟩ := decimals.head
    exact ⟨by simp, fun c hc => hpart (decimals.isPart c hc)⟩
  | plus decimals | minus decimals =>
    exact ⟨by simp, List.forall_mem_cons.mpr ⟨rfl, fun c hc => hpart (decimals.isPart c hc)⟩⟩
  | hexadecimal letter digits | octal letter digits | binary letter digits =>
    exact ⟨by simp, hradix (by rcases letter with rfl | rfl <;> rfl) (by decide) digits⟩

theorem Word.solid {cs : List Char} {negative : Bool} (h : Word cs negative) :
    cs ≠ [] ∧ ∀ c ∈ cs, Text.isBlank c = false := by
  have hword : ∀ c ∈ "Infinity".toList, Text.isBlank c = false := by simp [Text.isBlank]
  cases h with
  | unsigned => exact ⟨List.cons_ne_nil _ _, hword⟩
  | plus | minus => exact ⟨List.cons_ne_nil _ _, List.forall_mem_cons.mpr ⟨rfl, hword⟩⟩

/-- **A text is read exactly if it denotes a value**, or says infinity; what is read is the number
nearest to the value. -/
theorem read?_eq_some_iff {text : String} {x : Binary64} :
    read? text = some x ↔
      (∃ negative magnitude, Denotes text negative magnitude ∧ x.Rounds negative magnitude) ∨
        ∃ negative, SaysInfinity text negative ∧ x = .infinite negative := by
  have hdenotes : ∀ negative magnitude, Denotes text negative magnitude ↔
      Numeral (Text.trim text.toList) negative magnitude :=
    fun negative magnitude => framed_iff fun core h => h.solid
  have hsays : ∀ negative, SaysInfinity text negative ↔ Word (Text.trim text.toList) negative :=
    fun negative => framed_iff fun core h => h.solid
  simp only [hdenotes, hsays]
  exact bare?_eq_some_iff

end Balancer.Literal
