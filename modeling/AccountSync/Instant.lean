/-
  AccountSync.Instant
  ───────────────────
  **POINTS IN TIME.**

  A point in time is written as a date of the Gregorian calendar, a time of day and
  an offset from universal time:

      2024-06-01T12:30:00.25+02:00

  `T` may be lower case or a space, and `Z` in either case is the offset zero.  The
  60th second of a minute is a leap second: it comes after all of the second before
  it and before the next one.

      Instant.read?     — the point in time that is written so
      Instant.order     — the earlier one first
-/
import AccountSync.Number.Basic

namespace AccountSync

/-- Seconds since the beginning of 1970 in universal time, and nanoseconds since then; in a
leap second there are more than a second's worth of these. -/
structure Instant where
  second : Int
  nanosecond : Nat
deriving DecidableEq, Repr

namespace Instant

/-- The earlier instant first. -/
def order (a b : Instant) : Ordering :=
  (compare a.second b.second).then (compare a.nanosecond b.nanosecond)

/-! ## The calendar -/

/-- Whether a year has a 29th of February. -/
def isLeapYear (year : Nat) : Bool :=
  year % 4 = 0 && (year % 100 ≠ 0 || year % 400 = 0)

/-- How many days a month has. -/
def daysInMonth (year month : Nat) : Nat :=
  if month = 2 then (if isLeapYear year then 29 else 28)
  else if month = 4 ∨ month = 6 ∨ month = 9 ∨ month = 11 then 30
  else 31

/-- How many of the years before a year are leap years. -/
def leapYearsBefore (year : Nat) : Nat :=
  (year + 3) / 4 - (year + 99) / 100 + (year + 399) / 400

/-- How many days of a year lie before a month. -/
def daysBeforeMonth (year : Nat) : Nat → Nat
  | 0 => 0
  | 1 => 0
  | month + 1 => daysBeforeMonth year month + daysInMonth year month

/-- How many days lie between the first day of year 0 and a date. -/
def dayNumber (year month day : Nat) : Nat :=
  365 * year + leapYearsBefore year + daysBeforeMonth year month + (day - 1)

/-- The first day of 1970. -/
def epochDay : Nat :=
  dayNumber 1970 1 1

/-! ## Reading -/

/-- A number of exactly `n` decimal digits at the front of a text. -/
def digits? (n : Nat) (cs : List Char) : Option (Nat × List Char) :=
  let front := cs.take n
  if front.length = n ∧ front.all Char.isDigit then
    some (Number.digitsValue front, cs.drop n)
  else none

/-- A certain character at the front of a text. -/
def char? (c : Char) : List Char → Option (List Char)
  | [] => none
  | d :: rest => if d = c then some rest else none

/-- What stands between date and time. -/
def dateEnd? : List Char → Option (List Char)
  | c :: rest => if c = 'T' ∨ c = 't' ∨ c = ' ' then some rest else none
  | [] => none

/-- A fraction of a second in nanoseconds; digits after the ninth do not count. -/
def fraction? : List Char → Option (Nat × List Char)
  | '.' :: rest =>
    match Number.takeDigits rest with
    | ([], _) => none
    | (digits, rest) =>
      some (Number.digitsValue ((digits ++ List.replicate 9 '0').take 9), rest)
  | rest => some (0, rest)

/-- Hours and minutes of an offset, in minutes.  An offset is shorter than a day. -/
def offsetSize? (cs : List Char) : Option (Nat × List Char) := do
  let (hours, cs) ← digits? 2 cs
  let cs ← char? ':' cs
  let (minutes, cs) ← digits? 2 cs
  if minutes < 60 ∧ hours < 24 then some (60 * hours + minutes, cs) else none

/-- An offset from universal time in minutes.  A minus sign may be written as a hyphen. -/
def offset? : List Char → Option (Int × List Char)
  | [] => none
  | c :: rest =>
    if c = 'Z' ∨ c = 'z' then some (0, rest)
    else if c = '+' then (offsetSize? rest).map (fun (size, rest) => ((size : Int), rest))
    else if c = '-' ∨ c = '−' then
      (offsetSize? rest).map (fun (size, rest) => (-(size : Int), rest))
    else none

/-- A date, as the number of its day. -/
def date? (cs : List Char) : Option (Nat × List Char) := do
  let (year, cs) ← digits? 4 cs
  let cs ← char? '-' cs
  let (month, cs) ← digits? 2 cs
  let cs ← char? '-' cs
  let (day, cs) ← digits? 2 cs
  if 1 ≤ month ∧ month ≤ 12 ∧ 1 ≤ day ∧ day ≤ daysInMonth year month then
    some (dayNumber year month day, cs)
  else none

/-- A time of day: the second of the day, and nanoseconds since then. -/
def time? (cs : List Char) : Option (Nat × Nat × List Char) := do
  let (hour, cs) ← digits? 2 cs
  let cs ← char? ':' cs
  let (minute, cs) ← digits? 2 cs
  let cs ← char? ':' cs
  let (second, cs) ← digits? 2 cs
  let (nanosecond, cs) ← fraction? cs
  if hour < 24 ∧ minute < 60 then
    let start := 3600 * hour + 60 * minute
    if second < 60 then some (start + second, nanosecond, cs)
    else if second = 60 then some (start + 59, tenTo 9 + nanosecond, cs)
    else none
  else none

/-- The point in time that a text stands for. -/
def read? (text : String) : Option Instant := do
  let (day, cs) ← date? text.toList
  let cs ← dateEnd? cs
  let (second, nanosecond, cs) ← time? cs
  let (offset, cs) ← offset? cs
  if cs.isEmpty then
    some ⟨86400 * ((day : Int) - epochDay) + second - 60 * offset, nanosecond⟩
  else none

end Instant

end AccountSync
