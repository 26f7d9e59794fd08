/-
  AccountSync.Yaml.Scalar
  ───────────────────────
  **WORDS AND QUOTED TEXTS.**

  A single line feed inside a word or a quoted text stands for a space, and each
  further one for itself; blanks around it do not count.

      Gap             — blanks and line breaks between the parts of a scalar
      plain           — a plain word over as many lines as it goes on
      doubleQuoted    — a text in double quotes
      singleQuoted    — a text in single quotes
-/
import AccountSync.Json.Reader
import AccountSync.Yaml.Cursor

namespace AccountSync.Yaml

/-! ## Gaps -/

/-- What has been read since the last part of a scalar. -/
inductive Gap where
  /-- Some blanks, last one first, that count unless the line ends. -/
  | held (blanks : List Char)
  /-- Line breaks, latest of the further ones first, and blanks that do not count.  The first
  one is absent where it was escaped. -/
  | broken (first : Option Char) (further : List Char)

namespace Gap

/-- The gap where nothing has been read. -/
def none : Gap := .held []

/-- The gap after a blank. -/
def blank (c : Char) : Gap → Gap
  | .held blanks => .held (c :: blanks)
  | gap => gap

/-- The gap after a line break. -/
def lineBreak (c : Char) : Gap → Gap
  | .held _ => .broken (some c) []
  | .broken first further => .broken first (c :: further)

/-- Whether a line has ended. -/
def isBroken : Gap → Bool
  | .held _ => false
  | .broken _ _ => true

/-- Whether nothing has been read. -/
def isNone : Gap → Bool
  | .held blanks => blanks.isEmpty
  | .broken _ _ => false

/-- What the gap stands for once the scalar goes on. -/
def text : Gap → List Char
  | .held blanks => blanks.reverse
  | .broken (some '\n') [] => [' ']
  | .broken (some '\n') further => further.reverse
  | .broken (some first) further => first :: further.reverse
  | .broken .none further => further.reverse

end Gap

/-! ## Plain words -/

/-- The characters that structure lists and tables in brackets. -/
def isBracket (c : Char) : Bool :=
  c = ',' || c = '[' || c = ']' || c = Text.leftBrace || c = Text.rightBrace

/-- Whether a plain word may start here. -/
def startsPlain (inBrackets : Bool) : List Char → Bool
  | [] => false
  | c :: rest =>
    if c = '-' then !rest.head?.any isBlank
    else if c = '?' || c = ':' then !inBrackets && !startsBlank rest
    else !(isBlank c || isBreak c || isBracket c || "#&*!|>'\"%@".toList.contains c || c = '\x60')

/-- Whether a colon in brackets clings to the character behind it, where it may not stand. -/
def clings (c : Char) (rest : List Char) : Bool :=
  c = ':' && rest.head?.any (fun x => isBracket x || x = '?')

/-- Whether a plain word ends in front of a character. -/
def endsPlain (inBrackets : Bool) (c : Char) (rest : List Char) : Bool :=
  (c = ':' && startsBlank rest) || (inBrackets && isBracket c)

/-- Whether a plain word does not go on behind a gap: the next line is not deep enough, a mark
stands there, or a comment. -/
def stopsPlain (inBrackets : Bool) (least column : Nat) (cs : List Char) : Bool :=
  (!inBrackets && column < least) || (column = 0 && startsMark cs) || cs.head? = some '#'

/-- A plain word from a gap on: its text, the gap at its end, and what follows.  In front of
the column `least` of a new line no tab may stand. -/
def plain (inBrackets : Bool) (least : Nat) :
    Gap → Nat → List Char → Option (List Char × Gap × List Char)
  | gap, _, [] => some ([], gap, [])
  | gap, column, c :: rest =>
    if isBlank c then
      if gap.isBroken && column < least && c = '\t' then .none
      else plain inBrackets least (gap.blank c) (column + 1) rest
    else if isBreak c then plain inBrackets least (gap.lineBreak c) 0 rest
    else if !gap.isNone && stopsPlain inBrackets least column (c :: rest) then
      some ([], gap, c :: rest)
    else if inBrackets && clings c rest then .none
    else if endsPlain inBrackets c rest then some ([], gap, c :: rest)
    else
      (plain inBrackets least Gap.none (column + 1) rest).map
        (fun (t, last, r) => (gap.text ++ c :: t, last, r))

/-! ## Quoted texts -/

/-- A text in single quotes, after the first one, and what follows it.  No mark may start a
line of it. -/
def singleQuoted (gap : Gap) : List Char → Option (List Char × List Char)
  | [] => none
  | '\'' :: '\'' :: rest =>
    (singleQuoted Gap.none rest).map (fun (t, r) => (gap.text ++ '\'' :: t, r))
  | c :: rest =>
    if c = '\'' then some (gap.text, rest)
    else if isBreak c then
      if startsMark rest then none else singleQuoted (gap.lineBreak c) rest
    else if isBlank c then singleQuoted (gap.blank c) rest
    else (singleQuoted Gap.none rest).map (fun (t, r) => (gap.text ++ c :: t, r))

/-- The character of an escape with one letter. -/
def escape? : Char → Option Char
  | '0' => some '\x00'
  | 'a' => some '\x07'
  | 'b' => some '\x08'
  | 't' => some '\t'
  | '\t' => some '\t'
  | 'n' => some '\n'
  | 'v' => some '\x0b'
  | 'f' => some '\x0c'
  | 'r' => some '\r'
  | 'e' => some '\x1b'
  | ' ' => some ' '
  | '"' => some '"'
  | '/' => some '/'
  | '\\' => some '\\'
  | 'N' => some '\u0085'
  | '_' => some '\u00a0'
  | 'L' => some '\u2028'
  | 'P' => some '\u2029'
  | _ => none

/-- The character of a code point given by hexadecimal digits. -/
def codePoint? (digits : List Char) : Option Char := do
  let values ← digits.mapM Json.hexValue?
  let n := values.foldl (fun n d => 16 * n + d) 0
  if n.isValidChar then some (Char.ofNat n) else none

/-- A text in double quotes, after the first one, and what follows it.  No mark may start a
line of it. -/
def doubleQuoted (gap : Gap) : List Char → Option (List Char × List Char)
  | [] => none
  | '\\' :: 'x' :: a :: b :: rest => do
    let c ← codePoint? [a, b]
    (doubleQuoted Gap.none rest).map (fun (t, r) => (gap.text ++ c :: t, r))
  | '\\' :: 'u' :: a :: b :: c :: d :: rest => do
    let x ← codePoint? [a, b, c, d]
    (doubleQuoted Gap.none rest).map (fun (t, r) => (gap.text ++ x :: t, r))
  | '\\' :: 'U' :: a :: b :: c :: d :: e :: f :: g :: h :: rest => do
    let x ← codePoint? [a, b, c, d, e, f, g, h]
    (doubleQuoted Gap.none rest).map (fun (t, r) => (gap.text ++ x :: t, r))
  | '\\' :: e :: rest =>
    if isBreak e then
      if startsMark rest then none
      else (doubleQuoted (.broken .none []) rest).map (fun (t, r) => (gap.text ++ t, r))
    else do
      let c ← escape? e
      (doubleQuoted Gap.none rest).map (fun (t, r) => (gap.text ++ c :: t, r))
  | c :: rest =>
    if c = '"' then some (gap.text, rest)
    else if isBreak c then
      if startsMark rest then none else doubleQuoted (gap.lineBreak c) rest
    else if isBlank c then doubleQuoted (gap.blank c) rest
    else (doubleQuoted Gap.none rest).map (fun (t, r) => (gap.text ++ c :: t, r))

end AccountSync.Yaml
