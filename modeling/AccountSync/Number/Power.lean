/-
  AccountSync.Number.Power
  ────────────────────────
  **POWERS OF TWO AND OF TEN.**

  The bounds of machine words and the places of binary fractions are powers of two,
  the places of decimal fractions powers of ten.

      twoTo   — powers of two
      tenTo   — powers of ten
-/

namespace AccountSync

/-- A power of two. -/
def twoTo (exponent : Nat) : Nat :=
  Nat.pow 2 exponent

/-- A power of ten. -/
def tenTo (exponent : Nat) : Nat :=
  Nat.pow 10 exponent

end AccountSync
