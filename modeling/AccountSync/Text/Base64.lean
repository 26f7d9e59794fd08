/-
  AccountSync.Text.Base64
  ───────────────────────
  **BYTES AS PRINTABLE TEXT.**

  Three bytes are written as four characters of an alphabet of 64.  At the end, one
  byte takes two characters and two bytes take three; equals signs fill up the four.

      Base64.encode   — the characters for bytes
-/
import AccountSync.Number.Power

namespace AccountSync.Base64

/-- The character for six bits. -/
def digit (n : Nat) : Char :=
  if n < 26 then Char.ofNat ('A'.toNat + n)
  else if n < 52 then Char.ofNat ('a'.toNat + (n - 26))
  else if n < 62 then Char.ofNat ('0'.toNat + (n - 52))
  else if n = 62 then '+'
  else '/'

/-- The `i`-th of the characters for three bytes. -/
def place (bits i : Nat) : Char :=
  digit (bits / twoTo (6 * (3 - i)) % 64)

/-- The characters for bytes. -/
def encode : List Nat → List Char
  | a :: b :: c :: rest =>
    let bits := 65536 * a + 256 * b + c
    place bits 0 :: place bits 1 :: place bits 2 :: place bits 3 :: encode rest
  | [a, b] =>
    let bits := 65536 * a + 256 * b
    [place bits 0, place bits 1, place bits 2, '=']
  | [a] => [place (65536 * a) 0, place (65536 * a) 1, '=', '=']
  | [] => []

end AccountSync.Base64
