/-
  AccountSync.Json.Reader
  ───────────────────────
  **READING JSON.**

  Each step takes the text that is left and answers what it read and what is left
  then.  Arrays and objects may nest 127 deep.  Of two entries with one key the
  later one stays.

      Json.read   — the data that a whole text stands for
-/
import AccountSync.Json.Basic
import AccountSync.Text.Split

namespace AccountSync.Json

/-- How deep arrays and objects may nest. -/
def depthLimit : Nat := 127

/-- The blanks between tokens. -/
def isBlank (c : Char) : Bool :=
  c = ' ' || c = '\t' || c = '\n' || c = '\r'

/-- The text without the blanks at its front. -/
def skipBlanks (cs : List Char) : List Char :=
  cs.dropWhile isBlank

/-! ## Strings -/

/-- The value of a hexadecimal digit. -/
def hexValue? (c : Char) : Option Nat :=
  if '0' ≤ c ∧ c ≤ '9' then some (c.toNat - '0'.toNat)
  else if 'a' ≤ c ∧ c ≤ 'f' then some (c.toNat - 'a'.toNat + 10)
  else if 'A' ≤ c ∧ c ≤ 'F' then some (c.toNat - 'A'.toNat + 10)
  else none

/-- The number that four hexadecimal digits stand for. -/
def hexUnit? (a b c d : Char) : Option Nat := do
  let a ← hexValue? a
  let b ← hexValue? b
  let c ← hexValue? c
  let d ← hexValue? d
  pure (((a * 16 + b) * 16 + c) * 16 + d)

/-- Whether a 16-bit unit is the first half of a pair. -/
def isHighSurrogate (u : Nat) : Bool :=
  0xD800 ≤ u && u < 0xDC00

/-- Whether a 16-bit unit is the second half of a pair. -/
def isLowSurrogate (u : Nat) : Bool :=
  0xDC00 ≤ u && u < 0xE000

/-- The character of an escape with one letter. -/
def simpleEscape? : Char → Option Char
  | '"' => some '"'
  | '\\' => some '\\'
  | '/' => some '/'
  | 'b' => some '\x08'
  | 'f' => some '\x0c'
  | 'n' => some '\n'
  | 'r' => some '\r'
  | 't' => some '\t'
  | _ => none

/-- The characters of a string up to its closing quote, and what follows that.  Control
characters have to be escaped, and an escaped half of a pair needs the other half. -/
def readString : List Char → Option (List Char × List Char)
  | [] => none
  | '"' :: rest => some ([], rest)
  | '\\' :: 'u' :: a :: b :: c :: d :: '\\' :: 'u' :: a' :: b' :: c' :: d' :: rest =>
    match hexUnit? a b c d, hexUnit? a' b' c' d' with
    | some high, some low =>
      if isHighSurrogate high then
        if isLowSurrogate low then
          let point := 0x10000 + (high - 0xD800) * 0x400 + (low - 0xDC00)
          (readString rest).map (fun (cs, r) => (Char.ofNat point :: cs, r))
        else none
      else if isLowSurrogate high then none
      else
        (readString ('\\' :: 'u' :: a' :: b' :: c' :: d' :: rest)).map
          (fun (cs, r) => (Char.ofNat high :: cs, r))
    | _, _ => none
  | '\\' :: 'u' :: a :: b :: c :: d :: rest =>
    match hexUnit? a b c d with
    | some unit =>
      if isHighSurrogate unit || isLowSurrogate unit then none
      else (readString rest).map (fun (cs, r) => (Char.ofNat unit :: cs, r))
    | none => none
  | '\\' :: e :: rest =>
    match simpleEscape? e with
    | some c => (readString rest).map (fun (cs, r) => (c :: cs, r))
    | none => none
  | c :: rest =>
    if c = '\\' || c.toNat < 0x20 then none
    else (readString rest).map (fun (cs, r) => (c :: cs, r))

/-! ## Values -/

/-- Items up to the closing character, separated by commas; the text starts at an item. -/
def readItems {α : Type} (item : List Char → Option (α × List Char)) (close : Char) :
    Nat → List Char → Option (List α × List Char)
  | 0, _ => none
  | fuel + 1, cs => do
    let (first, rest) ← item (skipBlanks cs)
    match skipBlanks rest with
    | ',' :: rest =>
      let (others, rest) ← readItems item close fuel rest
      pure (first :: others, rest)
    | c :: rest => if c = close then pure ([first], rest) else none
    | [] => none

/-- A possibly empty series of items, after the opening character. -/
def readSeries {α : Type} (item : List Char → Option (α × List Char)) (close : Char)
    (cs : List Char) : Option (List α × List Char) :=
  match skipBlanks cs with
  | [] => none
  | c :: rest =>
    if c = close then some ([], rest) else readItems item close (c :: rest).length (c :: rest)

/-- An entry of an object: a key, a colon and a value. -/
def readEntry (value : List Char → Option (Json × List Char)) :
    List Char → Option ((String × Json) × List Char)
  | '"' :: rest => do
    let (key, rest) ← readString rest
    match skipBlanks rest with
    | ':' :: rest =>
      let (j, rest) ← value (skipBlanks rest)
      pure ((String.ofList key, j), rest)
    | _ => none
  | _ => none

/-- Reads a value that nests at most `depth` arrays and objects; the text starts at it. -/
def readValue : Nat → List Char → Option (Json × List Char)
  | _, 'n' :: 'u' :: 'l' :: 'l' :: rest => some (.null, rest)
  | _, 't' :: 'r' :: 'u' :: 'e' :: rest => some (.bool true, rest)
  | _, 'f' :: 'a' :: 'l' :: 's' :: 'e' :: rest => some (.bool false, rest)
  | _, '"' :: rest =>
    (readString rest).map (fun (cs, r) => (.string (String.ofList cs), r))
  | depth + 1, '[' :: rest =>
    (readSeries (readValue depth) ']' rest).map (fun (items, r) => (.array items, r))
  | depth + 1, '\x7b' :: rest =>
    (readSeries (readEntry (readValue depth)) Text.rightBrace rest).map
      (fun (entries, r) => (ofEntries entries, r))
  | _, cs => (Number.read cs).map (fun (n, r) => (.number n, r))

/-- The data that a whole text stands for. -/
def read (text : String) : Option Json :=
  match readValue depthLimit (skipBlanks text.toList) with
  | some (j, rest) => if skipBlanks rest = [] then some j else none
  | none => none

end AccountSync.Json
