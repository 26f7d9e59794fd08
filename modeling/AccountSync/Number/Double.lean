/-
  AccountSync.Number.Double
  ─────────────────────────
  **BINARY FLOATING POINT NUMBERS, EXACTLY.**

  A `Double` is a sign, a significand of at most 53 bits and a power of two, and
  stands for the rational number `± significand · 2 ^ exponent`.  Everything here
  is arithmetic on natural numbers: no rounding happens that is not written down.

      Double.ofRatio neg p q     — the double nearest to ± p/q, ties to even
      Double.ofDecimal neg d x   — the double nearest to ± d · 10^x
      Double.same                — equality of numbers: both zeros are equal

  The exponent lies between -1074 and 971; a number too large for that has no
  double.
-/
import AccountSync.Number.Power

namespace AccountSync

/-- A finite binary floating point number: `± significand · 2 ^ exponent`.  Zero has
exponent 0, every other number the least exponent that keeps 53 significant bits. -/
structure Double where
  negative : Bool
  significand : Nat
  exponent : Int
deriving DecidableEq, Repr, Inhabited

namespace Double

/-- The quotient of two natural numbers, rounded to the nearest; a half goes to the
even neighbour. -/
def roundQuotient (num den : Nat) : Nat :=
  let q := num / den
  let twice := 2 * (num % den)
  if den < twice ∨ (twice = den ∧ q % 2 = 1) then q + 1 else q

/-- The least exponent of a double. -/
def minExponent : Int := -1074

/-- The greatest exponent of a double. -/
def maxExponent : Int := 971

/-- The exponent `k` with `2 ^ k ≤ num / den < 2 ^ (k + 1)`, for positive arguments. -/
def binaryOrder (num den : Nat) : Int :=
  let k : Int := (Nat.log2 num : Int) - (Nat.log2 den : Int)
  if den * twoTo k.toNat ≤ num * twoTo (-k).toNat then k else k - 1

/-- The double nearest to `± num / den`, or nothing if that is too large. -/
def ofRatio (negative : Bool) (num den : Nat) : Option Double :=
  if num = 0 then some ⟨negative, 0, 0⟩
  else
    let e := max (binaryOrder num den - 52) minExponent
    let m := roundQuotient (num * twoTo (-e).toNat) (den * twoTo e.toNat)
    if m = 0 then some ⟨negative, 0, 0⟩
    else
      let carried := m = twoTo 53
      let m' := if carried then twoTo 52 else m
      let e' := if carried then e + 1 else e
      if maxExponent < e' then none else some ⟨negative, m', e'⟩

/-- The double nearest to `± digits · 10 ^ exponent`, or nothing if that is too large.
Exponents far outside the range are answered without computing the power. -/
def ofDecimal (negative : Bool) (digits : Nat) (exponent : Int) : Option Double :=
  if digits = 0 then some ⟨negative, 0, 0⟩
  else
    let order : Int := exponent + (Nat.log2 digits : Int) * 30103 / 100000
    if 400 < order then none
    else if order < -400 then some ⟨negative, 0, 0⟩
    else ofRatio negative (digits * tenTo exponent.toNat) (tenTo (-exponent).toNat)

/-- Equality of the numbers that two doubles stand for. -/
def same (a b : Double) : Bool :=
  (a.significand = 0 && b.significand = 0) || a = b

end Double

end AccountSync
