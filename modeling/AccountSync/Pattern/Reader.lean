/-
  AccountSync.Pattern.Reader
  ──────────────────────────
  **WRITTEN PATTERNS.**

  The notation for patterns: characters stand for themselves, `.` for any character
  but a line break, `\d` for a digit, `[a-z]` and `[^a-z]` for sets; `*`, `+` and `?`
  follow what they repeat, `|` separates alternatives, and parentheses group.

      Pattern.parse?   — the pattern that a text describes
-/
import AccountSync.Pattern.Basic

namespace AccountSync.Pattern

/-- The set that an escaped letter stands for; escaped punctuation stands for itself. -/
def escaped? (c : Char) : Option CharSet :=
  if c = 'd' then some .decimalDigit
  else if c = 'D' then some (.complement .decimalDigit)
  else if c = 'n' then some (.one '\n')
  else if c = 't' then some (.one '\t')
  else if c = 'r' then some (.one '\r')
  else if c.isAlphanum then none
  else some (.one c)

/-- The members of a set in brackets, up to the closing one. -/
def readMembers (found : Option CharSet) : List Char → Option (CharSet × List Char)
  | [] => none
  | ']' :: rest => found.map (fun set => (set, rest))
  | '\\' :: c :: rest =>
    match escaped? c with
    | some set => readMembers (some (found.elim set (fun f => .union f set))) rest
    | none => none
  | low :: '-' :: high :: rest =>
    if high = ']' then
      let set := CharSet.union (.one low) (.one '-')
      some (found.elim set (fun f => .union f set), rest)
    else
      let set := CharSet.range low high
      readMembers (some (found.elim set (fun f => .union f set))) rest
  | c :: rest =>
    let set := CharSet.one c
    readMembers (some (found.elim set (fun f => .union f set))) rest

/-- A set in brackets, after the opening one. -/
def readSet : List Char → Option (CharSet × List Char)
  | '^' :: rest => (readMembers none rest).map (fun (set, r) => (.complement set, r))
  | rest => readMembers none rest

/-- The pattern with the repetition signs that follow it. -/
def readRepetition (p : Pattern) : List Char → Pattern × List Char
  | '*' :: rest => readRepetition (.many p) rest
  | '+' :: rest => readRepetition (oneOrMore p) rest
  | '?' :: rest => readRepetition (optional p) rest
  | rest => (p, rest)

/-- Alternatives up to the end or to a closing parenthesis.  `before` are the alternatives
that are complete, `here` is the one being read. -/
def readAlternatives : Nat → Option Pattern → Pattern → List Char → Option (Pattern × List Char)
  | 0, _, _, _ => none
  | fuel + 1, before, here, cs =>
    let all := match before with
      | some p => Pattern.either p here
      | none => here
    match cs with
    | [] => some (all, [])
    | ')' :: rest => some (all, ')' :: rest)
    | '|' :: rest => readAlternatives fuel (some all) .empty rest
    | '(' :: rest =>
      let rest := match rest with
        | '?' :: ':' :: inner => inner
        | inner => inner
      match readAlternatives fuel none .empty rest with
      | some (inner, ')' :: rest) =>
        let (p, rest) := readRepetition inner rest
        readAlternatives fuel before (.seq here p) rest
      | _ => none
    | '[' :: rest => do
      let (set, rest) ← readSet rest
      let (p, rest) := readRepetition (.char set) rest
      readAlternatives fuel before (.seq here p) rest
    | '\\' :: c :: rest => do
      let set ← escaped? c
      let (p, rest) := readRepetition (.char set) rest
      readAlternatives fuel before (.seq here p) rest
    | '.' :: rest =>
      let (p, rest) := readRepetition (.char (.complement (.one '\n'))) rest
      readAlternatives fuel before (.seq here p) rest
    | c :: rest =>
      if c = '*' || c = '+' || c = '?' || c = '\\' then none
      else
        let (p, rest) := readRepetition (.char (.one c)) rest
        readAlternatives fuel before (.seq here p) rest

/-- The pattern that a text describes. -/
def parse? (text : String) : Option Pattern :=
  match readAlternatives (text.length + 1) none .empty text.toList with
  | some (p, []) => some p
  | _ => none

end AccountSync.Pattern
