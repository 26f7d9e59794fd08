/-
  AccountSync.Yaml.Cursor
  ───────────────────────
  **A PLACE IN A TEXT THAT IS LAID OUT BY INDENTATION.**

  A cursor holds the text that is left and says where in the text that is.

      unifyBreaks      — a text with one kind of line feed
      isPermitted      — whether a character may stand in a text
      Cursor.advance   — the cursor at a later rest of the same text
      Cursor.skip      — the cursor after some more characters
      startsMark       — whether a mark between documents starts a text
-/

namespace AccountSync.Yaml

/-! ## Characters -/

/-- Whether a character separates words on a line. -/
def isBlank (c : Char) : Bool :=
  c = ' ' || c = '\t'

/-- Whether a character ends a line: a line feed, a line separator or a paragraph separator. -/
def isBreak (c : Char) : Bool :=
  c = '\n' || c = '\u2028' || c = '\u2029'

/-- The mark of byte order, which may stand in front of a line. -/
def byteOrderMark : Char := '\ufeff'

/-- A text with one kind of line feed: returns and the line end of old terminals are made
line feeds. -/
def unifyBreaks : List Char → List Char
  | [] => []
  | '\r' :: '\n' :: rest => '\n' :: unifyBreaks rest
  | c :: rest => (if c = '\r' || c = '\u0085' then '\n' else c) :: unifyBreaks rest

/-- Whether a character may stand in a text: it is printable or one that separates. -/
def isPermitted (c : Char) : Bool :=
  let n := c.toNat
  n = 9 || n = 10 || n = 13 || (32 ≤ n && n ≤ 126) || n = 0x85 || (0xa0 ≤ n && n ≤ 0xd7ff)
    || (0xe000 ≤ n && n ≤ 0xfffd) || 0x10000 ≤ n

/-- Whether a character may stand in a name. -/
def isNameChar (c : Char) : Bool :=
  c.isAlphanum || c = '_' || c = '-'

/-- Whether a text starts with a blank, with a line break, or not at all. -/
def startsBlank : List Char → Bool
  | [] => true
  | c :: _ => isBlank c || isBreak c

/-- Whether a text starts with a line break or not at all. -/
def startsBreak : List Char → Bool
  | [] => true
  | c :: _ => isBreak c

/-- Whether a text starts with the given mark, three times the same character. -/
def startsMarkOf (mark : Char) : List Char → Bool
  | x :: y :: z :: rest => x = mark && y = mark && z = mark && startsBlank rest
  | _ => false

/-- Whether a text starts with a mark that starts or ends a document. -/
def startsMark (cs : List Char) : Bool :=
  startsMarkOf '-' cs || startsMarkOf '.' cs

/-- The text behind blanks and a comment, if that is the end of a line. -/
def lineEnd? (cs : List Char) : Option (List Char) :=
  match cs.dropWhile isBlank with
  | '#' :: rest => some (rest.dropWhile (fun c => !isBreak c))
  | rest => if startsBreak rest then some rest else none

/-! ## Cursors -/

/-- The text that is left, how many bytes and lines are behind it, and the column where it
starts. -/
structure Cursor where
  rest : List Char
  index : Nat := 0
  line : Nat := 0
  column : Nat := 0

namespace Cursor

/-- The place behind one more character. -/
def pass (c : Cursor) (x : Char) : Cursor :=
  if isBreak x then { c with index := c.index + x.utf8Size, line := c.line + 1, column := 0 }
  else { c with index := c.index + x.utf8Size, column := c.column + 1 }

/-- The cursor at a later rest of the same text. -/
def advance (c : Cursor) (rest : List Char) : Cursor :=
  { (c.rest.take (c.rest.length - rest.length)).foldl pass c with rest }

/-- The cursor after some more characters. -/
def skip (c : Cursor) (count : Nat) : Cursor :=
  c.advance (c.rest.drop count)

end Cursor

end AccountSync.Yaml
