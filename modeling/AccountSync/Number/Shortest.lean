/-
  AccountSync.Number.Shortest
  ───────────────────────────
  **THE SHORTEST DECIMAL THAT READS BACK.**

  The reals that round to a double form an interval around it.  For 1, 2, … 17
  digits the two neighbours of the double on that decimal grid are tested against
  the interval: the first grid with a hit wins, and of two hits the nearer one.

      Decimal                — coefficient · 10 ^ exponent
      Double.shortest d      — the decimal chosen for `d`, its sign left out
      Double.text d          — how a double is written
-/
import AccountSync.Number.Double

namespace AccountSync

/-- The number `coefficient · 10 ^ exponent`. -/
structure Decimal where
  coefficient : Nat
  exponent : Int
deriving DecidableEq, Repr, Inhabited

/-- Whether `x · 2 ^ u ≤ c · 10 ^ g`. -/
def binaryLeDecimal (x : Nat) (u : Int) (c : Nat) (g : Int) : Bool :=
  x * twoTo u.toNat * tenTo (-g).toNat ≤ c * tenTo g.toNat * twoTo (-u).toNat

/-- Whether `c · 10 ^ g ≤ x · 2 ^ u`. -/
def decimalLeBinary (c : Nat) (g : Int) (x : Nat) (u : Int) : Bool :=
  c * tenTo g.toNat * twoTo (-u).toNat ≤ x * twoTo u.toNat * tenTo (-g).toNat

/-- The greatest `c` with `c · 10 ^ g ≤ x · 2 ^ u`. -/
def decimalFloor (x : Nat) (u g : Int) : Nat :=
  (x * twoTo u.toNat * tenTo (-g).toNat) / (tenTo g.toNat * twoTo (-u).toNat)

namespace Double

/-- The rounding interval of a positive double, in units of a quarter of its last
place: lower end, upper end, and the exponent of the unit.  Below a power of two the
doubles lie twice as close. -/
def roundingInterval (d : Double) : Nat × Nat × Int :=
  let below := if d.significand = twoTo 52 ∧ minExponent < d.exponent then 1 else 2
  (4 * d.significand - below, 4 * d.significand + 2, d.exponent - 2)

/-- Whether a decimal rounds to the double; the ends of the interval belong to it when
the significand is even. -/
def isReadFrom (d : Double) (c : Nat) (g : Int) : Bool :=
  let (low, high, u) := roundingInterval d
  if d.significand % 2 = 0 then binaryLeDecimal low u c g && decimalLeBinary c g high u
  else !decimalLeBinary c g low u && !binaryLeDecimal high u c g

/-- The number `k` with `10 ^ (k - 1) ≤ d < 10 ^ k`, for a positive double. -/
def decimalOrder (d : Double) : Int :=
  let estimate := ((Nat.log2 d.significand : Int) + d.exponent) * 30103 / 100000
  if decimalLeBinary 1 (estimate + 1) d.significand d.exponent then estimate + 2
  else if decimalLeBinary 1 estimate d.significand d.exponent then estimate + 1
  else estimate

/-- The decimal with `n` digits that is nearest to the double among those that read
back as it, if there is one. -/
def onGrid (d : Double) (n : Nat) : Option Decimal :=
  let g := decimalOrder d - n
  let c := decimalFloor d.significand d.exponent g
  match isReadFrom d c g, isReadFrom d (c + 1) g with
  | true, false => some ⟨c, g⟩
  | false, true => some ⟨c + 1, g⟩
  | false, false => none
  | true, true =>
    -- twice the value lies below, at or above the middle of the two neighbours
    let upperNearer := !binaryLeDecimal (2 * d.significand) d.exponent (2 * c + 1) g
    let tie := decimalLeBinary (2 * c + 1) g (2 * d.significand) d.exponent && !upperNearer
    if upperNearer || (tie && c % 2 = 1) then some ⟨c + 1, g⟩ else some ⟨c, g⟩

/-- The shortest decimal that reads back as the double. -/
def shortest (d : Double) : Decimal :=
  ((List.range 17).findSome? (fun i => onGrid d (i + 1))).getD
    ⟨decimalFloor d.significand d.exponent (decimalOrder d - 17), decimalOrder d - 17⟩

/-- Digits without the zeros at their end, and how many zeros were dropped. -/
def dropTrailingZeros (digits : List Char) : List Char × Nat :=
  let kept := (digits.reverse.dropWhile (· = '0')).reverse
  (kept, digits.length - kept.length)

/-- Doubles are written with the fewest digits that read back.  From `10 ^ -5` up to but
not including `10 ^ 16` they are written positionally with at least one place after the
point; outside, with one digit before the point and a signed exponent. -/
def text (d : Double) : String :=
  let sign := if d.negative then "-" else ""
  if d.significand = 0 then sign ++ "0.0"
  else
    let chosen := shortest d
    let (digits, dropped) := dropTrailingZeros (Nat.toDigits 10 chosen.coefficient)
    -- the point stands after `point` digits
    let point : Int := digits.length + dropped + chosen.exponent
    let body : List Char :=
      if 0 < point ∧ point ≤ 16 then
        let n := point.toNat
        if digits.length ≤ n then
          digits ++ List.replicate (n - digits.length) '0' ++ ['.', '0']
        else digits.take n ++ '.' :: digits.drop n
      else if -5 < point ∧ point ≤ 0 then
        '0' :: '.' :: List.replicate (-point).toNat '0' ++ digits
      else
        let mark := if 0 < point then ['e', '+'] else ['e', '-']
        let size := (point - 1).natAbs
        digits.take 1 ++ (if digits.length ≤ 1 then [] else '.' :: digits.drop 1)
          ++ mark ++ Nat.toDigits 10 size
    sign ++ String.ofList body

end Double

end AccountSync
