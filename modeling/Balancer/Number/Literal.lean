import Balancer.Number.Decimal
import Balancer.Text.Blank

/-!
# Numeric literals

What a setting may hold: a decimal literal with an optional sign, fraction and
exponent, the word `Infinity` with an optional sign, or an unsigned literal of base
sixteen, eight or two behind `0x`, `0o` or `0b`; blanks around it are ignored.

* `Balancer.Literal.read?` – **the number that a text denotes**, correctly rounded.
-/

namespace Balancer.Literal

/-! ### Parts of a literal -/

/-- The natural number that a text of decimal digits denotes, unless it is empty or
holds anything else. -/
def natural? (cs : List Char) : Option Nat :=
  if !cs.isEmpty && cs.all Char.isDigit then some (Nat.ofDigitChars 10 cs 0) else none

/-- The value of a digit in the bases up to sixteen. -/
def digitValue? (c : Char) : Option Nat :=
  if c.isDigit then some (c.toNat - '0'.toNat)
  else if 'a' ≤ c ∧ c ≤ 'f' then some (c.toNat - 'a'.toNat + 10)
  else if 'A' ≤ c ∧ c ≤ 'F' then some (c.toNat - 'A'.toNat + 10)
  else none

/-- The natural number that a text of digits denotes in a base. -/
def radixNatural? (base : Nat) (cs : List Char) : Option Nat :=
  if cs.isEmpty then none
  else cs.foldlM (fun value c => do
    let digit ← digitValue? c
    if digit < base then some (value * base + digit) else none) 0

/-- The base that the letter behind a leading zero announces. -/
def base? : Char → Option Nat
  | 'x' | 'X' => some 16
  | 'o' | 'O' => some 8
  | 'b' | 'B' => some 2
  | _ => none

/-- The exponent at the end of a decimal literal; nothing stands for zero. -/
def exponent? : List Char → Option Int
  | [] => some 0
  | mark :: rest =>
    if mark = 'e' ∨ mark = 'E' then
      match rest with
      | '+' :: ds => (natural? ds).map fun n => (n : Int)
      | '-' :: ds => (natural? ds).map fun n => -(n : Int)
      | ds => (natural? ds).map fun n => (n : Int)
    else none

/-! ### Whole literals -/

/-- The digits behind the point, if there is one, and what follows them. -/
def fraction : List Char → List Char × List Char
  | '.' :: rest => (rest.takeWhile Char.isDigit, rest.dropWhile Char.isDigit)
  | rest => ([], rest)

/-- A decimal literal without its sign. -/
def unsigned? (negative : Bool) (cs : List Char) : Option Binary64 :=
  if cs = "Infinity".toList then some (.infinite negative)
  else
    let whole := cs.takeWhile Char.isDigit
    let (places, rest) := fraction (cs.dropWhile Char.isDigit)
    if (whole ++ places).isEmpty then none
    else (exponent? rest).map fun exponent =>
      Decimal.round ⟨Nat.ofDigitChars 10 (whole ++ places) 0, exponent - places.length⟩ negative

/-- A decimal literal with an optional sign. -/
def decimal? : List Char → Option Binary64
  | '+' :: cs => unsigned? false cs
  | '-' :: cs => unsigned? true cs
  | cs => unsigned? false cs

/-- A literal without blanks around it. -/
def bare? : List Char → Option Binary64
  | cs@('0' :: letter :: ds) =>
    match base? letter with
    | some base => (radixNatural? base ds).map Binary64.ofNat
    | none => decimal? cs
  | cs => decimal? cs

/-- **The number that a text denotes.** -/
def read? (text : String) : Option Binary64 :=
  bare? (Text.trim text.toList)

end Balancer.Literal
