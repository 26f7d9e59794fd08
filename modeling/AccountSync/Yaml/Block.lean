/-
  AccountSync.Yaml.Block
  ──────────────────────
  **BLOCKS OF TEXT.**

  A block is a run of lines that are indented deeper than what surrounds it.  Its sign
  says whether line breaks are kept or folded, what becomes of those at its end, and
  maybe how deep it is indented.

      Line            — a line and the break at its end
      Block.header?   — the signs in front of a block
      Block.lines?    — the lines of a block
      Block.text      — the text of these lines
-/
import AccountSync.Yaml.Cursor

namespace AccountSync.Yaml

/-- A line, and the break at its end unless the text ends there. -/
structure Line where
  text : List Char
  lineBreak : Option Char

namespace Line

/-- The lines of a text, the last one without a break. -/
def ofText : List Char → List Line
  | [] => [⟨[], none⟩]
  | c :: rest =>
    if isBreak c then ⟨[], some c⟩ :: ofText rest
    else match ofText rest with
      | line :: lines => { line with text := c :: line.text } :: lines
      | [] => [⟨[c], none⟩]

/-- How many spaces a line starts with. -/
def indentation (line : Line) : Nat :=
  (line.text.takeWhile (· = ' ')).length

/-- How many characters a line takes, its break among them. -/
def length (line : Line) : Nat :=
  line.text.length + line.lineBreak.toList.length

end Line

namespace Block

/-- What becomes of the line breaks at the end of a block. -/
inductive Chomping where
  | strip
  | clip
  | keep
deriving DecidableEq

/-- The signs of a block behind the one that starts it. -/
structure Header where
  chomping : Chomping := .clip
  /-- How much deeper than what surrounds it the block is indented, if that is said. -/
  depth : Option Nat := none

/-- The sign of a treatment of the end, and what follows it. -/
def chomping? : List Char → Option (Chomping × List Char)
  | '+' :: rest => some (.keep, rest)
  | '-' :: rest => some (.strip, rest)
  | _ => none

/-- The sign of a depth, and what follows it; a depth of zero is none. -/
def depth? : List Char → Option (Option Nat × List Char)
  | c :: rest =>
    if c = '0' then none
    else if c.isDigit then some (some (c.toNat - '0'.toNat), rest)
    else some (none, c :: rest)
  | [] => some (none, [])

/-- The signs of a block, in either order, and the text behind its first line. -/
def header? (cs : List Char) : Option (Header × List Char) := do
  let (header, rest) ← match chomping? cs with
    | some (chomping, rest) => do
      let (depth, rest) ← depth? rest
      pure ({ chomping, depth : Header }, rest)
    | none => do
      let (depth, rest) ← depth? cs
      match depth, chomping? rest with
      | some _, some (chomping, rest) => pure ({ chomping, depth : Header }, rest)
      | _, _ => pure ({ depth : Header }, rest)
  pure (header, (← lineEnd? rest).drop 1)

/-! ## Lines -/

/-- The indentation of the first line that is not empty, or that of an empty line in front of
it if that is deeper.  No tab may stand there. -/
def firstIndentation? : List Line → Option Nat
  | [] => some 0
  | line :: rest =>
    let depth := line.indentation
    match line.text.drop depth, line.lineBreak with
    | '\t' :: _, _ => none
    | [], some _ => (firstIndentation? rest).map (max depth)
    | _, _ => some depth

/-- The lines of a block that is indented so deep, without their indentation; the lines from
the first one that is not part of it on are left.  No tab may stand in the indentation. -/
def linesAt? (depth : Nat) : List Line → Option (List Line)
  | [] => some []
  | line :: rest =>
    let spaces := min line.indentation depth
    match line.text.drop spaces, line.lineBreak with
    | [], none => some []
    | [], some c => (linesAt? depth rest).map (⟨[], some c⟩ :: ·)
    | c :: text, lineBreak =>
      if spaces = depth then (linesAt? depth rest).map (⟨c :: text, lineBreak⟩ :: ·)
      else if c = '\t' then none
      else some []

/-- The lines of a block with the given header, where what surrounds it is at the given column
or at none. -/
def lines? (parent : Option Nat) (header : Header) (lines : List Line) : Option (List Line) := do
  let depth ← match header.depth with
    | some depth => pure (parent.getD 0 + depth)
    | none => do
      let first ← firstIndentation? lines
      pure (max first (max (parent.elim 0 (· + 1)) 1))
  linesAt? depth lines

/-! ## Text -/

/-- The text of a block up to some line. -/
structure State where
  /-- The text without the breaks at its end, last character first. -/
  text : List Char := []
  /-- The break of the last line that is not empty. -/
  lastBreak : Option Char := none
  /-- Whether that line starts with a blank. -/
  indented : Bool := false
  /-- The breaks of the empty lines since. -/
  further : List Char := []

/-- The text after one more line.  Folding makes a line feed between two lines a space, or
drops it in front of empty lines, unless one of the two starts with a blank. -/
def State.add (isFolded : Bool) (s : State) (line : Line) : State :=
  match line.text with
  | [] => { s with further := s.further ++ line.lineBreak.toList }
  | c :: _ =>
    let folds := isFolded && s.lastBreak = some '\n' && !s.indented && !isBlank c
    let gap := if !folds then s.lastBreak.toList else if s.further.isEmpty then [' '] else []
    { text := line.text.reverse ++ ((gap ++ s.further).reverse ++ s.text),
      lastBreak := line.lineBreak, indented := isBlank c }

/-- The text of the lines of a block. -/
def text (isFolded : Bool) (chomping : Chomping) (lines : List Line) : List Char :=
  let s := lines.foldl (State.add isFolded) {}
  match chomping with
  | .strip => s.text.reverse
  | .clip => s.text.reverse ++ s.lastBreak.toList
  | .keep => s.text.reverse ++ s.lastBreak.toList ++ s.further

/-- A block behind the sign that starts it, where what surrounds it is at the given column or
at none, and what follows it. -/
def read? (isFolded : Bool) (parent : Option Nat) (cs : List Char) :
    Option (List Char × List Char) := do
  let (header, body) ← header? cs
  let all := Line.ofText body
  let lines ← lines? parent header all
  let taken := (all.take lines.length).foldl (fun n line => n + line.length) 0
  pure (text isFolded header.chomping lines, body.drop taken)

end Block

end AccountSync.Yaml
