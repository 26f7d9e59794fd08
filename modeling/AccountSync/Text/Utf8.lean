/-
  AccountSync.Text.Utf8
  ─────────────────────
  **TEXT AS BYTES.**

      Utf8.encode   — the bytes of a text
      Utf8.decode   — the text of bytes; what is no text becomes a replacement character
      Utf8.decode?  — the text of bytes that are one

  Where a character breaks off, the bytes of it that are there become one replacement
  character, and reading goes on with the byte that does not belong to it.
-/

namespace AccountSync.Utf8

/-- The bytes of a text. -/
def encode (text : String) : List Nat :=
  text.toList.flatMap (fun c => (String.utf8EncodeChar c).map UInt8.toNat)

/-- Stands for bytes that are no text. -/
def replacement : Char := '\ufffd'

/-- How a character of several bytes begins: its leading bits, the number of bytes that
follow, and the range of the first of these. -/
structure Lead where
  bits : Nat
  count : Nat
  low : Nat := 0x80
  high : Nat := 0xBF

/-- The character that a byte begins.  The ranges leave out longer forms than needed, half
surrogates and everything beyond the last character. -/
def lead? (b : Nat) : Option Lead :=
  if b < 0xC2 then none
  else if b < 0xE0 then some { bits := b - 0xC0, count := 1 }
  else if b = 0xE0 then some { bits := 0, count := 2, low := 0xA0 }
  else if b = 0xED then some { bits := 0xD, count := 2, high := 0x9F }
  else if b < 0xF0 then some { bits := b - 0xE0, count := 2 }
  else if b = 0xF0 then some { bits := 0, count := 3, low := 0x90 }
  else if b = 0xF4 then some { bits := 4, count := 3, high := 0x8F }
  else if b < 0xF4 then some { bits := b - 0xF0, count := 3 }
  else none

/-- Reads the bytes that follow the first one of a character. -/
def continue? : Nat → Nat → Nat → Nat → List Nat → Option Nat × List Nat
  | 0, bits, _, _, bytes => (some bits, bytes)
  | _ + 1, _, _, _, [] => (none, [])
  | count + 1, bits, low, high, b :: rest =>
    if low ≤ b ∧ b ≤ high then continue? count (64 * bits + (b - 0x80)) 0x80 0xBF rest
    else (none, b :: rest)

/-- Reads a character from the front of bytes. -/
def next (b : Nat) (rest : List Nat) : Char × List Nat :=
  if b < 0x80 then (Char.ofNat b, rest)
  else match lead? b with
    | none => (replacement, rest)
    | some l =>
      match continue? l.count l.bits l.low l.high rest with
      | (some code, rest) => (Char.ofNat code, rest)
      | (none, rest) => (replacement, rest)

/-- Reads at most the given number of characters. -/
def decodeUpTo : Nat → List Nat → List Char
  | 0, _ => []
  | _ + 1, [] => []
  | n + 1, b :: rest =>
    let (c, rest) := next b rest
    c :: decodeUpTo n rest

/-- The text of bytes. -/
def decode (bytes : List Nat) : String :=
  String.ofList (decodeUpTo bytes.length bytes)

/-- The text of bytes, if they are the bytes of one. -/
def decode? (bytes : List Nat) : Option String :=
  if encode (decode bytes) = bytes then some (decode bytes) else none

end AccountSync.Utf8
