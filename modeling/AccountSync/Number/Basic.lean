/-
  AccountSync.Number.Basic
  ────────────────────────
  **NUMBERS OF CONFIGURATION DATA.**

  A number is an integer or a double, and the two never compare equal: `1` and
  `1.0` are different data.  A number written without point and exponent is an
  integer as long as it fits 64 bits, signed or unsigned; any other is a double.

      Number.read    — read a number from the front of a text
      Number.text    — how a number is written
      Number.same    — equality, where both zeros among the doubles are equal
-/
import AccountSync.Number.Shortest

namespace AccountSync

/-- An integer or a floating point number. -/
inductive Number where
  | int (value : Int)
  | float (value : Double)
deriving DecidableEq, Repr, Inhabited

namespace Number

/-- Equality of numbers; an integer never equals a double. -/
def same : Number → Number → Bool
  | .int a, .int b => a = b
  | .float a, .float b => a.same b
  | _, _ => false

/-- How a number is written. -/
def text : Number → String
  | .int i => if i < 0 then "-" ++ String.ofList (Nat.toDigits 10 i.natAbs)
    else String.ofList (Nat.toDigits 10 i.natAbs)
  | .float d => d.text

/-- The least signed 64-bit integer. -/
def minSigned : Int := -twoTo 63

/-- The greatest signed 64-bit integer. -/
def maxSigned : Int := twoTo 63 - 1

/-- The greatest unsigned 64-bit integer. -/
def maxUnsigned : Int := twoTo 64 - 1

/-- The integer that a number holds, if it fits a signed 64-bit word. -/
def signed? : Number → Option Int
  | .int i => if minSigned ≤ i ∧ i ≤ maxSigned then some i else none
  | .float _ => none

/-- The integer that a number holds, if it fits an unsigned 64-bit word. -/
def unsigned? : Number → Option Nat
  | .int i => if 0 ≤ i ∧ i ≤ maxUnsigned then some i.toNat else none
  | .float _ => none

/-! ## Reading -/

/-- The value of a run of decimal digits. -/
def digitsValue (digits : List Char) : Nat :=
  digits.foldl (fun n c => 10 * n + (c.toNat - '0'.toNat)) 0

/-- The digits at the front of a text, and what follows them. -/
def takeDigits (cs : List Char) : List Char × List Char :=
  (cs.takeWhile Char.isDigit, cs.dropWhile Char.isDigit)

/-- A fraction at the front of a text: a point followed by at least one digit.  A text
that starts otherwise has an empty fraction. -/
def takeFraction : List Char → Option (Option (List Char) × List Char)
  | '.' :: rest =>
    match takeDigits rest with
    | ([], _) => none
    | (digits, rest') => some (some digits, rest')
  | rest => some (none, rest)

/-- An exponent at the front of a text: `e` or `E`, a sign or none, at least one digit. -/
def takeExponent : List Char → Option (Option Int × List Char)
  | c :: rest =>
    if c = 'e' ∨ c = 'E' then
      let (negative, rest) := match rest with
        | '+' :: r => (false, r)
        | '-' :: r => (true, r)
        | r => (false, r)
      match takeDigits rest with
      | ([], _) => none
      | (digits, rest') =>
        let size : Int := digitsValue digits
        some (some (if negative then -size else size), rest')
    else some (none, c :: rest)
  | [] => some (none, [])

/-- The number with the given sign, integer digits, fraction and exponent. -/
def assemble (negative : Bool) (whole : List Char) (fraction : Option (List Char))
    (exponent : Option Int) : Option Number :=
  match fraction, exponent with
  | none, none =>
    let size : Int := digitsValue whole
    let value := if negative then -size else size
    if negative && size = 0 then some (.float ⟨true, 0, 0⟩)
    else if minSigned ≤ value ∧ value ≤ maxUnsigned then some (.int value)
    else (Double.ofDecimal negative size.toNat 0).map .float
  | _, _ =>
    let places := fraction.getD []
    (Double.ofDecimal negative (digitsValue (whole ++ places))
      (exponent.getD 0 - places.length)).map .float

/-- Reads a number from the front of a text.  The integer part has no leading zero. -/
def read (cs : List Char) : Option (Number × List Char) := do
  let (negative, cs) := match cs with
    | '-' :: rest => (true, rest)
    | rest => (false, rest)
  let (whole, rest) := takeDigits cs
  match whole with
  | [] => none
  | '0' :: _ :: _ => none
  | _ =>
    let (fraction, rest) ← takeFraction rest
    let (exponent, rest) ← takeExponent rest
    let number ← assemble negative whole fraction exponent
    pure (number, rest)

end Number

end AccountSync
