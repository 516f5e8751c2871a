/-!
# Binary floating point numbers

The values of the 64-bit binary format, and the value nearest to a decimal numeral. All arithmetic
is exact, on natural numbers; of two nearest values the one with the even significand is taken.

## Main definitions

* `Binary64` — the values: a number of the form `m · 2 ^ q`, an infinity, or no number
* `Decimal.roundDiv` — the integer nearest to a quotient, ties to even
* `Binary64.ofQuotient` — the value nearest to a quotient of natural numbers
* `Binary64.ofDecimal` — the value nearest to `digits · 10 ^ exponent`
-/

namespace TokenGrammar

/-- A value of the 64-bit binary format. A finite value is `significand · 2 ^ exponent` with its
sign, where the significand has 53 bits, or fewer if the exponent is the least one, -1074. -/
inductive Binary64
  | nan
  | infinite (negative : Bool)
  | finite (negative : Bool) (significand : Nat) (exponent : Int)
  deriving DecidableEq, Repr

namespace Decimal

/-- The integer nearest to `num / den`; halfway, the even one of the two. -/
def roundDiv (num den : Nat) : Nat :=
  let quotient := num / den
  let rest := num % den
  if den < 2 * rest ∨ (2 * rest = den ∧ quotient % 2 = 1) then quotient + 1 else quotient

/-- The quotient `num / den` times `base ^ exponent`, as a numerator and a denominator. -/
def scale (base : Nat) (num den : Nat) : (exponent : Int) → Nat × Nat
  | .ofNat k => (num * Nat.pow base k, den)
  | .negSucc k => (num, den * Nat.pow base (k + 1))

/-- How many decimal digits a number has; zero has none. -/
def digitCount (n : Nat) : Nat :=
  if n = 0 then 0 else (Nat.toDigits 10 n).length

/-- The nearest integer is at most half a unit away. -/
theorem roundDiv_bounds (num : Nat) {den : Nat} (h : 0 < den) :
    2 * num ≤ (2 * roundDiv num den + 1) * den ∧ (2 * roundDiv num den) * den ≤ 2 * num + den := by
  have hdiv := Nat.div_add_mod num den
  have hmod := Nat.mod_lt num h
  have hcomm : den * (num / den) = num / den * den := Nat.mul_comm ..
  simp only [roundDiv]
  split
  · constructor
    · simp only [Nat.add_mul, Nat.mul_add, Nat.mul_assoc]; omega
    · simp only [Nat.add_mul, Nat.mul_add, Nat.mul_assoc]; omega
  · constructor
    · simp only [Nat.add_mul, Nat.mul_assoc]; omega
    · simp only [Nat.mul_assoc]; omega

end Decimal

namespace Binary64

/-- The least exponent. -/
def minExponent : Int := -1074

/-- The greatest exponent of a finite value. -/
def maxExponent : Int := 971

/-- The least significand of 53 bits: two to the power 52. -/
def leastNormal : Nat := 0x10000000000000

/-- The value zero. -/
def zero (negative : Bool) : Binary64 := .finite negative 0 minExponent

/-- The exponent `e` for which `2 ^ e ≤ num / den < 2 ^ (e + 1)`, of a positive quotient. -/
def binaryExponent (num den : Nat) : Int :=
  let estimate : Int := (Nat.log2 num : Int) - Nat.log2 den
  let scaled := Decimal.scale 2 num den (-estimate)
  if scaled.1 < scaled.2 then estimate - 1 else estimate

/-- The value nearest to a positive quotient. -/
def ofQuotient (negative : Bool) (num den : Nat) : Binary64 :=
  let exponent := max (binaryExponent num den - 52) minExponent
  let scaled := Decimal.scale 2 num den (-exponent)
  let significand := Decimal.roundDiv scaled.1 scaled.2
  let carried := significand = 2 * leastNormal
  let exponent := if carried then exponent + 1 else exponent
  if maxExponent < exponent then .infinite negative
  else .finite negative (if carried then leastNormal else significand) exponent

/-- The value nearest to `digits · 10 ^ exponent`. A numeral of magnitude `10 ^ 310` or more is
infinite and one below `10 ^ -330` is zero, so their powers are not worked out. -/
def ofDecimal (negative : Bool) (digits : Nat) (exponent : Int) : Binary64 :=
  let magnitude := Decimal.digitCount digits + exponent
  if digits = 0 ∨ magnitude < -330 then zero negative
  else if 310 < magnitude then .infinite negative
  else
    let quotient := Decimal.scale 10 digits 1 exponent
    ofQuotient negative quotient.1 quotient.2

end Binary64

end TokenGrammar
