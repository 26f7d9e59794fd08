/-
  AccountSync.Yaml.Token
  ──────────────────────
  **TEXTS AS TOKENS.**

  Indentation opens and closes lists and tables.  A key is only known by the colon
  behind it, so the place where one may have started is kept, and the tokens that
  announce it are put there once the colon is found.

      Token            — a token
      Layout           — how far a text has been read, and in what surroundings
      Layout.token?    — reads one more token
      Token.ofText?    — the tokens of a text
-/
import AccountSync.Document.Basic
import AccountSync.Yaml.Block
import AccountSync.Yaml.Scalar
import AccountSync.Yaml.Tag

namespace AccountSync.Yaml

/-! ## Tokens -/

/-- A token that says nothing but its kind. -/
inductive Sign where
  | documentStart
  | documentEnd
  /-- Deeper indentation opens a list. -/
  | indentedList
  /-- Deeper indentation opens a table. -/
  | indentedTable
  /-- Indentation closes a list or a table. -/
  | dedent
  | openList
  | closeList
  | openTable
  | closeTable
  | comma
  /-- An item of an indented list follows. -/
  | item
  | key
  | value
deriving DecidableEq, Repr

/-- A token, where anchors are known by names of the given kind. -/
inductive Token (α : Type) where
  | sign (s : Sign)
  | directive (d : Directive)
  | anchor (name : α)
  | aliasOf (name : α)
  | tag (handle : String) (suffix : List Nat)
  | scalar (style : ScalarStyle) (text : String)

/-! ## Layout -/

/-- A place where a key may have started. -/
structure KeyStart where
  /-- How many tokens come before it. -/
  position : Nat
  index : Nat
  line : Nat
  column : Nat
  /-- Nothing else than a key may stand there. -/
  required : Bool

/-- How far a text has been read, and in what surroundings. -/
structure Layout where
  cursor : Cursor
  tokens : Array (Token String) := #[]
  /-- The columns of the indented lists and tables around, innermost first. -/
  columns : List Nat := []
  /-- The place where a key may have started. -/
  keyStart : Option KeyStart := none
  /-- The same outside of each pair of brackets around, innermost first. -/
  outer : List (Option KeyStart) := []
  /-- Whether a key may start here. -/
  keyAllowed : Bool := true

namespace Layout

/-- Whether the place is in brackets. -/
def inBrackets (s : Layout) : Bool :=
  !s.outer.isEmpty

/-- The column that deeper indentation starts at. -/
def least (s : Layout) : Nat :=
  s.columns.head?.elim 0 (· + 1)

/-- The layout after one more token. -/
def push (s : Layout) (t : Token String) : Layout :=
  { s with tokens := s.tokens.push t }

/-- The layout after a token that says nothing but its kind. -/
def sign (s : Layout) (t : Sign) : Layout :=
  s.push (.sign t)

/-- The layout with a token in front of the ones at a position and behind it. -/
def insert (s : Layout) (position : Nat) (t : Sign) : Layout :=
  { s with tokens :=
      s.tokens.extract 0 position ++ #[.sign t] ++ s.tokens.extract position s.tokens.size }

/-- The layout behind some more characters. -/
def skip (s : Layout) (count : Nat) : Layout :=
  { s with cursor := s.cursor.skip count }

/-- The layout at a later rest of the text. -/
def advance (s : Layout) (rest : List Char) : Layout :=
  { s with cursor := s.cursor.advance rest }

/-- The layout where keys may start or not. -/
def allowKey (s : Layout) (allowed : Bool) : Layout :=
  { s with keyAllowed := allowed }

/-! ### Keys -/

/-- Gives up the place where a key may have started; none may be given up that has to be a
key. -/
def forgetKey? (s : Layout) : Option Layout :=
  if s.keyStart.any (·.required) then none else some { s with keyStart := none }

/-- Keeps the place where a key may start.  One has to start at the column of an indented
table. -/
def markKey? (s : Layout) : Option Layout :=
  if s.keyAllowed then do
    let s ← s.forgetKey?
    let c := s.cursor
    pure { s with keyStart := some {
      position := s.tokens.size, index := c.index, line := c.line, column := c.column,
      required := !s.inBrackets && s.columns.head? = some c.column } }
  else some s

/-- What is left of a place where a key may have started: a key stands on one line and takes
no more than 1024 bytes. -/
def keepKey? (c : Cursor) : Option KeyStart → Option (Option KeyStart)
  | none => some none
  | some k =>
    if k.line < c.line || k.index + 1024 < c.index then
      if k.required then none else some none
    else some (some k)

/-- Gives up all places where no key can have started any more. -/
def dropStaleKeys? (s : Layout) : Option Layout := do
  pure { s with
    keyStart := ← keepKey? s.cursor s.keyStart
    outer := ← s.outer.mapM (keepKey? s.cursor) }

/-! ### Indentation -/

/-- Whether a column is deeper than the lists and tables around. -/
def isDeeper (s : Layout) (column : Nat) : Bool :=
  !s.inBrackets && s.least ≤ column

/-- Opens a list or a table at a column if that is deeper than what is around; its token goes
to the given position. -/
def openAt (s : Layout) (column position : Nat) (t : Sign) : Layout :=
  if s.isDeeper column then
    { s.insert position t with columns := column :: s.columns }
  else s

/-- Closes lists and tables until the condition on the column of the innermost one fails. -/
def closeWhile (p : Nat → Bool) (s : Layout) : Layout :=
  if s.inBrackets then s
  else
    let closed := s.columns.takeWhile p
    { s with
      tokens := s.tokens ++ (closed.map (fun _ => Token.sign Sign.dedent)).toArray
      columns := s.columns.drop closed.length }

/-! ### Gaps between tokens -/

/-- The text behind blanks, comments and line breaks, and whether a key may start there.  Tabs
are blanks only in brackets and where no key may start; outside of brackets a key may start on
a new line. -/
def gap (inBrackets : Bool) :
    (lineStart comment keyAllowed : Bool) → List Char → List Char × Bool
  | _, _, keyAllowed, [] => ([], keyAllowed)
  | lineStart, comment, keyAllowed, c :: rest =>
    if isBreak c then gap inBrackets true false (keyAllowed || !inBrackets) rest
    else if comment then gap inBrackets false true keyAllowed rest
    else if c = ' ' || (c = '\t' && (inBrackets || !keyAllowed)) || (lineStart && c = byteOrderMark)
    then gap inBrackets false false keyAllowed rest
    else if c = '#' then gap inBrackets false true keyAllowed rest
    else (c :: rest, keyAllowed)

/-- The layout at the next token. -/
def skipGap (s : Layout) : Layout :=
  let (rest, keyAllowed) := gap s.inBrackets (s.cursor.column = 0) false s.keyAllowed s.cursor.rest
  (s.advance rest).allowKey keyAllowed

/-! ### Single tokens -/

/-- The layout where everything indented is closed and no key may start. -/
def closeAll? (s : Layout) : Option Layout := do
  pure ((← (s.closeWhile (fun _ => true)).forgetKey?).allowKey false)

/-- A mark that starts or ends a document. -/
def mark? (s : Layout) (t : Sign) : Option Layout := do
  pure (((← s.closeAll?).sign t).skip 3)

/-- The bracket that opens a list or a table; it may itself start a key. -/
def open? (s : Layout) (t : Sign) : Option Layout := do
  let s ← s.markKey?
  let s := { s with outer := s.keyStart :: s.outer, keyStart := none }
  pure (((s.allowKey true).sign t).skip 1)

/-- The bracket that closes a list or a table. -/
def close? (s : Layout) (t : Sign) : Option Layout := do
  let s ← s.forgetKey?
  let s := match s.outer with
    | k :: outer => { s with keyStart := k, outer }
    | [] => s
  pure (((s.allowKey false).sign t).skip 1)

/-- A comma. -/
def comma? (s : Layout) : Option Layout := do
  pure ((((← s.forgetKey?).allowKey true).sign .comma).skip 1)

/-- The sign of an item. -/
def item? (s : Layout) : Option Layout := do
  if !s.inBrackets && !s.keyAllowed then none
  else
    let s := s.openAt s.cursor.column s.tokens.size .indentedList
    pure ((((← s.forgetKey?).allowKey true).sign .item).skip 1)

/-- The sign of a key. -/
def key? (s : Layout) : Option Layout := do
  if !s.inBrackets && !s.keyAllowed then none
  else
    let s := s.openAt s.cursor.column s.tokens.size .indentedTable
    pure ((((← s.forgetKey?).allowKey (!s.inBrackets)).sign .key).skip 1)

/-- The sign of a value: behind a key on the same line, or on its own. -/
def value? (s : Layout) : Option Layout := do
  let s ← match s.keyStart with
    | some k =>
      let s := (s.insert k.position .key).openAt k.column k.position .indentedTable
      pure ({ s with keyStart := none }.allowKey false)
    | none =>
      if !s.inBrackets && !s.keyAllowed then none
      else pure ((s.openAt s.cursor.column s.tokens.size .indentedTable).allowKey (!s.inBrackets))
  pure ((s.sign .value).skip 1)

/-- A token that may start a key but does not let one start behind it. -/
def word? (s : Layout) (t : Token String) (rest : List Char) : Option Layout := do
  pure ((((← s.markKey?).allowKey false).push t).advance rest)

/-- A plain word; a key may start behind it if its line has ended. -/
def plain? (s : Layout) : Option Layout := do
  let (text, last, rest) ← plain s.inBrackets s.least Gap.none s.cursor.column s.cursor.rest
  let s ← s.word? (.scalar .plain (String.ofList text)) rest
  pure (s.allowKey last.isBroken)

/-- A block of text. -/
def block? (s : Layout) (style : ScalarStyle) (cs : List Char) : Option Layout := do
  let (text, rest) ← Block.read? (style = .folded) s.columns.head? cs
  pure ((((← s.forgetKey?).allowKey true).push (.scalar style (String.ofList text))).advance rest)

/-- Reads the token that starts here. -/
def token? (s : Layout) : Option Layout :=
  match s.cursor.rest with
  | [] => none
  | c :: rest =>
    if s.cursor.column = 0 && c = '%' then do
      let (directive, rest) ← directive? rest
      pure (((← s.closeAll?).push (.directive directive)).advance rest)
    else if s.cursor.column = 0 && startsMarkOf '-' (c :: rest) then s.mark? .documentStart
    else if s.cursor.column = 0 && startsMarkOf '.' (c :: rest) then s.mark? .documentEnd
    else if c = '[' then s.open? .openList
    else if c = Text.leftBrace then s.open? .openTable
    else if c = ']' then s.close? .closeList
    else if c = Text.rightBrace then s.close? .closeTable
    else if c = ',' then s.comma?
    else if c = '-' && startsBlank rest then s.item?
    else if c = '?' && (s.inBrackets || startsBlank rest) then s.key?
    else if c = ':' && (s.inBrackets || startsBlank rest) then s.value?
    else if c = '*' then do
      let (name, rest) ← anchorName? rest
      s.word? (.aliasOf name) rest
    else if c = '&' then do
      let (name, rest) ← anchorName? rest
      s.word? (.anchor name) rest
    else if c = '!' then do
      let ((handle, suffix), rest) ← tag? s.inBrackets rest
      s.word? (.tag handle suffix) rest
    else if c = '|' && !s.inBrackets then s.block? .literal rest
    else if c = '>' && !s.inBrackets then s.block? .folded rest
    else if c = '\'' then do
      let (text, rest) ← singleQuoted Gap.none rest
      s.word? (.scalar .quoted (String.ofList text)) rest
    else if c = '"' then do
      let (text, rest) ← doubleQuoted Gap.none rest
      s.word? (.scalar .quoted (String.ofList text)) rest
    else if startsPlain s.inBrackets (c :: rest) then s.plain?
    else none

/-- The layout at the next token, with everything closed that ends in front of it. -/
def settle? (s : Layout) : Option Layout := do
  let s ← s.skipGap.dropStaleKeys?
  pure (s.closeWhile (fun column => s.cursor.column < column))

/-- Reads tokens up to the end of the text; every token has to take something of it. -/
def run? (s : Layout) : Option Layout :=
  match s.settle? with
  | none => none
  | some next =>
    match next.token? with
    | none => if next.cursor.rest.isEmpty then next.closeAll? else none
    | some after =>
      if after.cursor.rest.length < s.cursor.rest.length then run? after else none
termination_by s.cursor.rest.length
decreasing_by omega

end Layout

/-- The tokens of a text. -/
def Token.ofText? (cs : List Char) : Option (List (Token String)) :=
  if cs.all isPermitted then
    ((⟨⟨unifyBreaks cs, 0, 0, 0⟩, #[], [], none, [], true⟩ : Layout).run?).map (·.tokens.toList)
  else none

end AccountSync.Yaml
