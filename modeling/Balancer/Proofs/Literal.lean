import Balancer.Number.Literal
import Balancer.Proofs.Decimal
import Balancer.Proofs.Endpoint
import Mathlib.Data.List.TakeWhile

/-!
# Numbers written and read back

A number other than not a number is read back from its own text, up to the sign of a zero. So
the text tells numbers apart that differ.

* `Balancer.Literal.unsigned?_whole`, `Balancer.Literal.unsigned?_point` – a text of digits with an
  exponent, without and with a point, read.
* `Balancer.Decimal.Significant` – the digits of a decimal number that are written.
* `Balancer.Decimal.unsigned?_render` – **a decimal number laid out reads back**, in any layout.
* `Balancer.Literal.read?_text` – **so does a number.**
* `Balancer.Binary64.text_eq_text_iff` – **numbers are written alike exactly where they agree**, or
  where neither is a number.
-/

namespace Balancer

/-! ### The characters of a number -/

namespace Literal

/-- The characters that a finite number is written with. -/
def isPart (c : Char) : Bool := c.isDigit || c == '.' || c == 'e' || c == '+' || c == '-'

theorem isPart_of_isDigit {c : Char} (h : c.isDigit = true) : isPart c = true := by
  simp only [isPart, h, Bool.true_or]

theorem isBlank_eq_false {c : Char} (h : isPart c = true) : Text.isBlank c = false := by
  simp only [isPart, Bool.or_eq_true, beq_iff_eq] at h
  obtain (((hdigit | rfl) | rfl) | rfl) | rfl := h
  · obtain ⟨hlow, hhigh⟩ : 48 ≤ c.toNat ∧ c.toNat ≤ 57 := by
      simp only [Char.isDigit, Bool.and_eq_true, decide_eq_true_eq, ge_iff_le,
        UInt32.le_iff_toNat_le] at hdigit
      exact hdigit
    rw [Bool.eq_false_iff]
    intro hblank
    simp only [Text.isBlank, Bool.or_eq_true, Bool.and_eq_true, decide_eq_true_eq,
      beq_iff_eq] at hblank
    omega
  all_goals decide

theorem base?_eq_none {c : Char} (h : isPart c = true) : base? c = none := by
  unfold base?
  split
  case h_7 => rfl
  all_goals exact absurd h (by decide)

theorem ne_colon {c : Char} (h : isPart c = true) : c ≠ ':' := by
  rintro rfl
  exact absurd h (by decide)

/-- A text without blanks has none to lose. -/
theorem trim_eq_self {cs : List Char} (h : ∀ c ∈ cs, Text.isBlank c = false) :
    Text.trim cs = cs := by
  have hdrop : ∀ l : List Char, (∀ c ∈ l, Text.isBlank c = false) →
      l.dropWhile Text.isBlank = l := by
    intro l hl
    refine List.dropWhile_eq_self_iff.mpr fun hpos => ?_
    simp only [hl _ (List.getElem_mem hpos), Bool.false_eq_true, not_false_iff]
  rw [Text.trim, hdrop cs h, hdrop _ fun c hc => h c (List.mem_reverse.mp hc), List.reverse_reverse]

/-- Without a letter of a base, a literal is a decimal one. -/
theorem bare?_eq_decimal? {cs : List Char} (h : ∀ c ∈ cs, base? c = none) :
    bare? cs = decimal? cs := by
  unfold bare?
  split
  · next letter ds => rw [h letter (by simp)]
  · rfl

/-! ### Reading -/

theorem natural?_toDigits (n : Nat) : natural? (Nat.toDigits 10 n) = some n := by
  have hall : (Nat.toDigits 10 n).all Char.isDigit = true :=
    List.all_eq_true.mpr fun c hc => Nat.isDigit_of_mem_toDigits (by decide) (by decide) hc
  have hne : (Nat.toDigits 10 n).isEmpty = false := by
    rw [List.isEmpty_eq_false_iff]
    exact Nat.toDigits_ne_nil
  simp only [natural?, hall, hne, Bool.not_false, Bool.and_true, if_true,
    Nat.ofDigitChars_ten_toDigits]

/-- **An exponent reads back.** -/
theorem exponent?_exponentText (e : Int) : exponent? (Decimal.exponentText e) = some e := by
  rw [Decimal.exponentText]
  split
  · have habs : -(e.natAbs : Int) = e := by omega
    simp only [exponent?, true_or, if_true, natural?_toDigits, Option.bind_eq_bind, Option.bind_some,
      Option.pure_def, Option.map_some, habs]
  · have habs : (e.natAbs : Int) = e := by omega
    simp only [exponent?, true_or, if_true, natural?_toDigits, Option.bind_eq_bind, Option.bind_some,
      Option.pure_def, Option.map_some, habs]

/-- An exponent begins with its mark, neither a digit nor a point. -/
theorem ends_of_exponent? {tail : List Char} {e : Int} (h : exponent? tail = some e) :
    tail.takeWhile Char.isDigit = [] ∧ tail.dropWhile Char.isDigit = tail ∧
      fraction tail = ([], tail) := by
  cases tail with
  | nil => exact ⟨rfl, rfl, rfl⟩
  | cons mark rest =>
    by_cases hmark : mark = 'e' ∨ mark = 'E'
    · obtain rfl | rfl := hmark <;> exact ⟨rfl, rfl, rfl⟩
    · exact absurd h (by simp only [exponent?, hmark, if_false, reduceCtorEq, not_false_iff])

section Unsigned

variable {whole places tail : List Char} {e : Int} (hwhole : ∀ c ∈ whole, c.isDigit = true)
  (htail : exponent? tail = some e) (negative : Bool)
include hwhole htail

/-- **A text of digits with an exponent, read.** -/
theorem unsigned?_whole (hne : whole ≠ []) : unsigned? negative (whole ++ tail) =
    some (Decimal.round ⟨Nat.ofDigitChars 10 whole 0, e⟩ negative) := by
  obtain ⟨htake, hdrop, hfraction⟩ := ends_of_exponent? htail
  have hword : whole ++ tail ≠ "Infinity".toList := by
    obtain ⟨c, cs, rfl⟩ := List.exists_cons_of_ne_nil hne
    intro heq
    have hdigit := hwhole c List.mem_cons_self
    rw [(List.cons.inj heq).1] at hdigit
    exact absurd hdigit (by decide)
  simp only [unsigned?, hword, if_false, List.takeWhile_append_of_pos hwhole,
    List.dropWhile_append_of_pos hwhole, htake, hdrop, hfraction, List.append_nil,
    List.isEmpty_eq_false_iff.mpr hne, htail, Option.map_some, Bool.false_eq_true, List.length_nil,
    Int.natCast_zero, Int.sub_zero]

/-- **A text of digits with a point and an exponent, read**; digits may stand on one side of the
point only. -/
theorem unsigned?_point (hplaces : ∀ c ∈ places, c.isDigit = true) (hne : whole ++ places ≠ []) :
    unsigned? negative (whole ++ '.' :: (places ++ tail)) =
      some (Decimal.round ⟨Nat.ofDigitChars 10 (whole ++ places) 0, e - places.length⟩ negative) := by
  obtain ⟨htake, hdrop, -⟩ := ends_of_exponent? htail
  have hword : whole ++ '.' :: (places ++ tail) ≠ "Infinity".toList := by
    intro heq
    have hpoint : '.' ∈ "Infinity".toList := heq ▸ List.mem_append_right whole List.mem_cons_self
    exact absurd hpoint (by decide)
  have hends : ('.' :: (places ++ tail)).takeWhile Char.isDigit = [] ∧
      ('.' :: (places ++ tail)).dropWhile Char.isDigit = '.' :: (places ++ tail) := ⟨rfl, rfl⟩
  simp only [unsigned?, hword, if_false, List.takeWhile_append_of_pos hwhole,
    List.dropWhile_append_of_pos hwhole, hends, fraction, List.takeWhile_append_of_pos hplaces,
    List.dropWhile_append_of_pos hplaces, htake, hdrop, List.append_nil,
    List.isEmpty_eq_false_iff.mpr hne, htail, Option.map_some, Bool.false_eq_true]

/-- Without digits behind the point the point is left out. -/
theorem unsigned?_pointed (hne : whole ≠ []) (hplaces : ∀ c ∈ places, c.isDigit = true) :
    unsigned? negative (whole ++ (Decimal.pointed places ++ tail)) =
      some (Decimal.round ⟨Nat.ofDigitChars 10 (whole ++ places) 0, e - places.length⟩ negative) := by
  cases places with
  | nil =>
    rw [List.append_nil, List.length_nil, Int.natCast_zero, Int.sub_zero]
    exact unsigned?_whole hwhole htail negative hne
  | cons c cs => exact unsigned?_point hwhole htail negative hplaces (by simp [hne])

end Unsigned

end Literal

/-! ### Laying out -/

namespace Decimal

theorem exists_dropZeros (ds : List Char) :
    ∃ zeros, ds = dropZeros ds ++ List.replicate zeros '0' := by
  refine ⟨(ds.reverse.takeWhile (· == '0')).length, ?_⟩
  have hzeros : ds.reverse.takeWhile (· == '0') =
      List.replicate (ds.reverse.takeWhile (· == '0')).length '0' :=
    List.eq_replicate_iff.mpr ⟨rfl, fun c hc => by simpa using List.mem_takeWhile_imp hc⟩
  calc ds
      = (ds.reverse.takeWhile (· == '0') ++ ds.reverse.dropWhile (· == '0')).reverse := by
        rw [List.takeWhile_append_dropWhile, List.reverse_reverse]
    _ = dropZeros ds ++ (ds.reverse.takeWhile (· == '0')).reverse := List.reverse_append
    _ = dropZeros ds ++ List.replicate (ds.reverse.takeWhile (· == '0')).length '0' := by
        conv_lhs => rw [hzeros, List.reverse_replicate]

theorem pointed_eq {ds : List Char} (h : ds ≠ []) : pointed ds = '.' :: ds := by
  cases ds with
  | nil => exact absurd rfl h
  | cons c cs => rfl

theorem mem_pointed {ds : List Char} {c : Char} (h : c ∈ pointed ds) : c = '.' ∨ c ∈ ds := by
  cases ds with
  | nil => exact absurd h List.not_mem_nil
  | cons d ds => exact List.mem_cons.mp h

/-- **The digits of a decimal number that are written**, without the zeros at their end. -/
structure Significant (d : Decimal) (ds : List Char) (zeros : Nat) : Prop where
  /-- The digits denote something. -/
  ne_zero : Nat.ofDigitChars 10 ds 0 ≠ 0
  /-- They are digits. -/
  isDigit : ∀ c ∈ ds, c.isDigit = true
  /-- With the zeros they are the number. -/
  digits_eq : d.digits = Nat.ofDigitChars 10 ds 0 * 10 ^ zeros
  /-- With the zeros they are all digits of the number. -/
  length_eq : (Nat.toDigits 10 d.digits).length = ds.length + zeros

theorem exists_significant {d : Decimal} (hd : d.digits ≠ 0) :
    ∃ zeros, d.Significant (dropZeros (Nat.toDigits 10 d.digits)) zeros := by
  obtain ⟨zeros, hzeros⟩ := exists_dropZeros (Nat.toDigits 10 d.digits)
  have hvalue : d.digits =
      Nat.ofDigitChars 10 (dropZeros (Nat.toDigits 10 d.digits)) 0 * 10 ^ zeros := by
    calc d.digits
        = Nat.ofDigitChars 10 (Nat.toDigits 10 d.digits) 0 := Nat.ofDigitChars_ten_toDigits.symm
      _ = Nat.ofDigitChars 10 (dropZeros (Nat.toDigits 10 d.digits) ++ List.replicate zeros '0') 0 := by
        rw [← hzeros]
      _ = _ := by rw [Nat.ofDigitChars_append, Nat.ofDigitChars_replicate_zero, Nat.mul_comm]
  refine ⟨zeros, ?_, fun c hc => ?_, hvalue, ?_⟩
  · intro hzero
    exact hd (by rw [hvalue, hzero, Nat.zero_mul])
  · have hmem : c ∈ Nat.toDigits 10 d.digits := by
      rw [hzeros]
      exact List.mem_append_left _ hc
    exact Nat.isDigit_of_mem_toDigits (by decide) (by decide) hmem
  · have hlength := congrArg List.length hzeros
    rwa [List.length_append, List.length_replicate] at hlength

namespace Significant

variable {d : Decimal} {ds : List Char} {zeros : Nat} (hd : d.Significant ds zeros)
include hd

theorem ne_nil : ds ≠ [] := by
  rintro rfl
  exact hd.ne_zero rfl

/-- They round as the number does, at the exponent that accounts for the zeros. -/
theorem round_eq (negative : Bool) :
    round ⟨Nat.ofDigitChars 10 ds 0, d.exponent + zeros⟩ negative = d.round negative := by
  rw [← round_mul_ten_pow hd.ne_zero, ← hd.digits_eq]

/-- The number of places follows from their number. -/
theorem places_eq : d.places = ds.length + zeros + d.exponent := by
  rw [places, hd.length_eq]
  omega

end Significant

/-- The digits written before and behind the point, and the exponent: **a layout of a decimal
number.** -/
structure Laid (d : Decimal) (text whole places tail : List Char) (e : Int) : Prop where
  /-- The text is made of them. -/
  text_eq : text = whole ++ (pointed places ++ tail)
  /-- There is a digit before the point. -/
  ne_nil : whole ≠ []
  /-- Before the point stand digits. -/
  isDigit_whole : ∀ c ∈ whole, c.isDigit = true
  /-- Behind the point stand digits. -/
  isDigit_places : ∀ c ∈ places, c.isDigit = true
  /-- The exponent closes the text. -/
  exponent : Literal.exponent? tail = some e
  /-- What closes the text is made of the characters of a number. -/
  isPart_tail : ∀ c ∈ tail, Literal.isPart c = true
  /-- Together they are worth the number. -/
  round_eq : ∀ negative,
    round ⟨Nat.ofDigitChars 10 (whole ++ places) 0, e - places.length⟩ negative = d.round negative

/-! #### The three forms -/

namespace Significant

variable {d : Decimal} {ds : List Char} {zeros : Nat}

/-- **One digit before the point, and the exponent.** -/
theorem laid_exponent {first : Char} {rest : List Char} (hs : d.Significant (first :: rest) zeros) :
    d.Laid (first :: pointed rest ++ exponentText (d.places - 1)) [first] rest
      (exponentText (d.places - 1)) (d.places - 1) where
  text_eq := by simp
  ne_nil := List.cons_ne_nil _ _
  isDigit_whole := by simpa using hs.isDigit first List.mem_cons_self
  isDigit_places c hc := hs.isDigit c (List.mem_cons_of_mem first hc)
  exponent := Literal.exponent?_exponentText _
  isPart_tail c hc := by
    rw [exponentText, List.mem_cons, List.mem_cons] at hc
    obtain rfl | rfl | hdigit := hc
    · decide
    · split <;> decide
    · exact Literal.isPart_of_isDigit (Nat.isDigit_of_mem_toDigits (by decide) (by decide) hdigit)
  round_eq negative := by
    have hplaces := hs.places_eq
    rw [← hs.round_eq negative, List.singleton_append]
    simp only [List.length_cons] at hplaces
    congr 2
    omega

/-- **Zeros between the point and the digits.** -/
theorem laid_zeros (hs : d.Significant ds zeros) (hnegative : d.places - 1 < 0) {count : Nat}
    (hcount : (-(d.places - 1) - 1).toNat = count) :
    d.Laid ('0' :: '.' :: List.replicate count '0' ++ ds) ['0'] (List.replicate count '0' ++ ds) [] 0 where
  text_eq := by
    have hne : List.replicate count '0' ++ ds ≠ [] := by simp [hs.ne_nil]
    rw [pointed_eq hne, List.append_nil]
    rfl
  ne_nil := List.cons_ne_nil _ _
  isDigit_whole := by simp
  isDigit_places c hc := by
    rcases List.mem_append.mp hc with hzero | hdigit
    · rw [List.eq_of_mem_replicate hzero]
      decide
    · exact hs.isDigit c hdigit
  exponent := rfl
  isPart_tail := by simp
  round_eq negative := by
    have hvalue : Nat.ofDigitChars 10 (['0'] ++ (List.replicate count '0' ++ ds)) 0 =
        Nat.ofDigitChars 10 ds 0 := by
      rw [Nat.ofDigitChars_append, Nat.ofDigitChars_append, Nat.ofDigitChars_replicate_zero]
      rfl
    have hplaces := hs.places_eq
    rw [← hs.round_eq negative, hvalue, List.length_append, List.length_replicate]
    congr 2
    omega

/-- **The point between the digits, or behind them and as many zeros as it takes.** -/
theorem laid_whole (hs : d.Significant ds zeros) {count : Nat} (hcount : (count : Int) = d.places)
    (hpos : count ≠ 0) :
    d.Laid (ds.take count ++ List.replicate (count - ds.length) '0' ++ pointed (ds.drop count))
      (ds.take count ++ List.replicate (count - ds.length) '0') (ds.drop count) [] 0 where
  text_eq := by rw [List.append_nil]
  ne_nil := by simp [hs.ne_nil, hpos]
  isDigit_whole c hc := by
    rcases List.mem_append.mp hc with hdigit | hzero
    · exact hs.isDigit c (List.mem_of_mem_take hdigit)
    · rw [List.eq_of_mem_replicate hzero]
      decide
  isDigit_places c hc := hs.isDigit c (List.mem_of_mem_drop hc)
  exponent := rfl
  isPart_tail := by simp
  round_eq negative := by
    have hplaces := hs.places_eq
    rcases Nat.lt_or_ge count ds.length with hlt | hge
    · -- no zeros are written
      have hzeros : count - ds.length = 0 := by omega
      rw [hzeros, List.replicate_zero, List.append_nil, List.take_append_drop, List.length_drop,
        ← hs.round_eq negative]
      congr 2
      omega
    · -- nothing stands behind the point
      rw [List.take_of_length_le hge, List.drop_of_length_le hge, List.append_nil,
        Nat.ofDigitChars_append, Nat.ofDigitChars_replicate_zero, Nat.mul_comm,
        round_mul_ten_pow hs.ne_zero, ← hs.round_eq negative]
      congr 2
      simp only [List.length_nil]
      omega

end Significant

/-- **A decimal number laid out**, whichever layout is chosen. -/
theorem exists_laid (layout : Layout) {d : Decimal} (hd : d.digits ≠ 0) :
    ∃ whole places tail e, d.Laid (d.render layout) whole places tail e := by
  obtain ⟨zeros, hs⟩ := exists_significant hd
  rw [render]
  generalize dropZeros (Nat.toDigits 10 d.digits) = ds at hs ⊢
  dsimp only
  split
  · cases ds with
    | nil => exact absurd rfl hs.ne_nil
    | cons first rest => exact ⟨_, _, _, _, hs.laid_exponent⟩
  split
  · next hnegative => exact ⟨_, _, _, _, hs.laid_zeros hnegative rfl⟩
  · next hnegative => exact ⟨_, _, _, _, hs.laid_whole (by omega) (Nat.succ_ne_zero _)⟩

variable {layout : Layout} {d : Decimal}

/-- **A decimal number laid out is made of the characters of a number, and begins with a digit.** -/
theorem isPart_of_mem_render (hd : d.digits ≠ 0) {c : Char} (hc : c ∈ d.render layout) :
    Literal.isPart c = true := by
  obtain ⟨whole, places, tail, e, hlaid⟩ := exists_laid layout hd
  rw [hlaid.text_eq, List.mem_append, List.mem_append] at hc
  obtain hwhole | hplaces | htail := hc
  · exact Literal.isPart_of_isDigit (hlaid.isDigit_whole c hwhole)
  · obtain rfl | hdigit := mem_pointed hplaces
    · decide
    · exact Literal.isPart_of_isDigit (hlaid.isDigit_places c hdigit)
  · exact hlaid.isPart_tail c htail

theorem isDigit_head_render (layout : Layout) (hd : d.digits ≠ 0) :
    ∃ c cs, d.render layout = c :: cs ∧ c.isDigit = true := by
  obtain ⟨whole, places, tail, e, hlaid⟩ := exists_laid layout hd
  obtain ⟨c, cs, rfl⟩ := List.exists_cons_of_ne_nil hlaid.ne_nil
  exact ⟨c, _, hlaid.text_eq, hlaid.isDigit_whole c List.mem_cons_self⟩

/-- **A decimal number laid out reads back.** -/
theorem unsigned?_render (layout : Layout) (hd : d.digits ≠ 0) (negative : Bool) :
    Literal.unsigned? negative (d.render layout) = some (d.round negative) := by
  obtain ⟨whole, places, tail, e, hlaid⟩ := exists_laid layout hd
  rw [hlaid.text_eq, Literal.unsigned?_pointed hlaid.isDigit_whole hlaid.exponent negative
    hlaid.ne_nil hlaid.isDigit_places, hlaid.round_eq]

/-- With its sign it is made of the characters of a number. -/
theorem isPart_of_mem_signed (hd : d.digits ≠ 0) (negative : Bool) {c : Char}
    (hc : c ∈ if negative then '-' :: d.render layout else d.render layout) :
    Literal.isPart c = true := by
  cases negative with
  | false => exact isPart_of_mem_render hd hc
  | true =>
    obtain rfl | hmem := List.mem_cons.mp hc
    · decide
    · exact isPart_of_mem_render hd hmem

/-- **With its sign it reads back as well.** -/
theorem decimal?_signed (hd : d.digits ≠ 0) (negative : Bool) :
    Literal.decimal? (if negative then '-' :: d.render layout else d.render layout) =
      some (d.round negative) := by
  cases negative with
  | true => exact unsigned?_render layout hd true
  | false =>
    rw [← unsigned?_render layout hd false]
    obtain ⟨c, cs, hrender, hdigit⟩ := isDigit_head_render layout hd
    -- a digit is no sign
    rw [if_neg Bool.false_ne_true, hrender]
    unfold Literal.decimal?
    split
    · next heq => exact absurd hdigit (by rw [(List.cons.inj heq).1]; decide)
    · next heq => exact absurd hdigit (by rw [(List.cons.inj heq).1]; decide)
    · rfl

end Decimal

/-! ### Numbers -/

/-- A text made of the characters of a number is a decimal literal as it stands. -/
theorem Literal.read?_ofList {cs : List Char} (h : ∀ c ∈ cs, isPart c = true) :
    read? (String.ofList cs) = decimal? cs := by
  rw [read?, String.toList_ofList, trim_eq_self fun c hc => isBlank_eq_false (h c hc),
    bare?_eq_decimal? fun c hc => base?_eq_none (h c hc)]

namespace Binary64

/-- **A number is read back from its own text**, up to the sign of a zero. -/
theorem read?_text {x : Binary64} (h : x ≠ .nan) :
    ∃ y, Literal.read? x.text = some y ∧ x.same y = true := by
  cases x with
  | nan => exact absurd rfl h
  | infinite negative =>
    refine ⟨.infinite negative, ?_, same_self (by simp)⟩
    cases negative <;> decide +kernel
  | finite negative units representable =>
    by_cases hunits : units = 0
    · refine ⟨zero, ?_, ?_⟩
      · rw [text, if_pos hunits]
        decide +kernel
      · subst hunits
        cases negative <;> rfl
    · have hd := digits_shortest_ne_zero hunits representable
      refine ⟨.finite negative units representable, ?_, same_self (by simp)⟩
      rw [text, if_neg hunits, Literal.read?_ofList fun c => Decimal.isPart_of_mem_signed hd negative,
        Decimal.decimal?_signed hd, round_shortest hunits]

/-- Not a number is written with a word that no number is read from. -/
theorem read?_text_nan : Literal.read? (text .nan) = none := by decide +kernel

/-- The text of a number holds no colon. -/
theorem colon_not_mem_text (x : Binary64) : ':' ∉ x.text.toList := by
  cases x with
  | nan => decide
  | infinite negative => cases negative <;> decide
  | finite negative units representable =>
    by_cases hunits : units = 0
    · rw [text, if_pos hunits]
      decide
    · rw [text, if_neg hunits, String.toList_ofList]
      intro hmem
      have hd := digits_shortest_ne_zero hunits representable
      exact Literal.ne_colon (Decimal.isPart_of_mem_signed hd negative hmem) rfl

/-- Numbers that agree with the same number agree. -/
theorem same_of_same {x y z : Binary64} (hx : x.same z = true) (hy : y.same z = true) :
    x.same y = true := by
  simp only [same] at hx hy ⊢
  cases hxu : x.units? <;> cases hyu : y.units? <;> cases hzu : z.units? <;>
    simp_all

/-- **Numbers are written alike exactly where they agree**, or where neither is a number. -/
theorem text_eq_text_iff {x y : Binary64} :
    x.text = y.text ↔ x.same y = true ∨ x = .nan ∧ y = .nan := by
  constructor
  · intro heq
    by_cases hx : x = .nan
    · by_cases hy : y = .nan
      · exact .inr ⟨hx, hy⟩
      · obtain ⟨z, hz, -⟩ := read?_text hy
        rw [← heq, hx, read?_text_nan] at hz
        cases hz
    · obtain ⟨z, hz, hsame⟩ := read?_text hx
      have hy : y ≠ .nan := by
        rintro rfl
        rw [heq, read?_text_nan] at hz
        cases hz
      obtain ⟨z', hz', hsame'⟩ := read?_text hy
      rw [heq, hz'] at hz
      exact .inl (same_of_same hsame (Option.some.inj hz ▸ hsame'))
  · rintro (hsame | ⟨rfl, rfl⟩)
    · exact text_eq_of_same hsame
    · rfl

end Binary64

end Balancer
