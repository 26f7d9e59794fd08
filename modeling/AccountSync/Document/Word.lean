/-
  AccountSync.Document.Word
  ─────────────────────────
  **WHAT WORDS WITHOUT QUOTES STAND FOR.**

  A word may stand for nothing, for a truth value, for an integer or for a decimal
  number.  Which of these counts is decided by whoever asks.

      Word.isNothing   — whether a word stands for nothing
      Word.bool?       — the truth value of a word
      Word.natural?    — the natural number of a word
      Word.integer?    — the integer of a word
      Word.isDecimal   — whether a word is a number with a point or an exponent
-/
import AccountSync.Number.Basic

namespace AccountSync.Word

/-- Whether a word names nothing. -/
def namesNothing (s : String) : Bool :=
  ["~", "null", "Null", "NULL"].contains s

/-- Whether a word stands for nothing: it names nothing, or it is empty. -/
def isNothing (s : String) : Bool :=
  s = "" || namesNothing s

/-- The truth value that a word stands for. -/
def bool? (s : String) : Option Bool :=
  if ["true", "True", "TRUE"].contains s then some true
  else if ["false", "False", "FALSE"].contains s then some false
  else none

/-! ## Integers -/

/-- The value of digits to a base, if there are any and all are digits. -/
def digitsToBase? (base : Nat) (cs : List Char) : Option Nat :=
  if cs = [] then none
  else cs.foldl
    (fun n c =>
      let digit :=
        if '0' ≤ c ∧ c ≤ '9' then c.toNat - '0'.toNat
        else if 'a' ≤ c ∧ c ≤ 'f' then c.toNat - 'a'.toNat + 10
        else if 'A' ≤ c ∧ c ≤ 'F' then c.toNat - 'A'.toNat + 10
        else base
      n.bind (fun n => if digit < base then some (base * n + digit) else none))
    (some 0)

/-- The size of an integer without a sign: decimal without leading zeros, or with `0x`, `0o`
or `0b` in front. -/
def magnitude? : List Char → Option Nat
  | '0' :: 'x' :: digits => digitsToBase? 16 digits
  | '0' :: 'o' :: digits => digitsToBase? 8 digits
  | '0' :: 'b' :: digits => digitsToBase? 2 digits
  | '0' :: _ :: _ => none
  | digits => digitsToBase? 10 digits

/-- The natural number that a word stands for, with a plus sign or without. -/
def natural? (s : String) : Option Nat :=
  match s.toList with
  | '+' :: rest => magnitude? rest
  | rest => magnitude? rest

/-- The integer that a word stands for. -/
def integer? (s : String) : Option Int :=
  match s.toList with
  | '-' :: rest => (magnitude? rest).map (fun n => -(n : Int))
  | _ => (natural? s).map (fun n => (n : Int))

/-! ## Decimal numbers -/

/-- Whether a word, after its sign, is a row of digits with a zero in front of others.  Such a
row is no number. -/
def isPaddedDigits (s : String) : Bool :=
  let unsigned := match s.toList with
    | '+' :: rest => rest
    | '-' :: rest => rest
    | rest => rest
  match unsigned with
  | '0' :: c :: rest => (c :: rest).all Char.isDigit
  | _ => false

/-- Whether these are digits, a point or none, digits, at least one of them, and then an
exponent or none, for a number that a double can hold. -/
def isFiniteDecimal (cs : List Char) : Bool :=
  let (whole, rest) := Number.takeDigits cs
  let (places, rest) := match rest with
    | '.' :: r => Number.takeDigits r
    | r => ([], r)
  (whole ≠ [] || places ≠ []) &&
    (match Number.takeExponent rest with
      | some (exponent, []) =>
        (Double.ofDecimal false (Number.digitsValue (whole ++ places))
          (exponent.getD 0 - places.length)).isSome
      | _ => false)

/-- Whether a word is a decimal number, an infinity or no number by name. -/
def isDecimal (s : String) : Bool :=
  [".nan", ".NaN", ".NAN"].contains s ||
    (let unsigned := match s.toList with
      | '+' :: rest => rest
      | '-' :: rest => rest
      | rest => rest
    [".inf", ".Inf", ".INF"].contains (String.ofList unsigned) || isFiniteDecimal unsigned)

end AccountSync.Word
