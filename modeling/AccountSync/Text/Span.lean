/-
  AccountSync.Text.Span
  ─────────────────────
  **STRETCHES OF A TEXT.**

  What is of interest in a text are stretches of it, each given by how many characters are
  in front of its start and of its end.  Whoever finds them gives them in order and apart
  from each other, and the text is cut around all of them.

      Finder            — where the stretches of interest are
      Text.slice        — the characters of a stretch
      Text.cutAround    — the stretches and what is between them, as pieces
      Text.segments     — a text cut around all that is found in it
-/

namespace AccountSync

/-- A stretch of a text: how many characters are in front of its start and of its end. -/
structure Span where
  start : Nat
  stop : Nat
deriving DecidableEq, Repr

/-- Says where the stretches of interest in a text are, one after the other. -/
abbrev Finder := List Char → List Span

namespace Text

/-- The characters of a text from one position up to another. -/
def slice (cs : List Char) (start stop : Nat) : List Char :=
  (cs.drop start).take (stop - start)

/-- A piece of text, unless it is empty. -/
def nonEmpty (piece : List Char) : List (List Char) :=
  if piece = [] then [] else [piece]

/-- What comes after the first `done` characters of a text, cut around stretches: each of them is
a piece, and so is what lies in front of it. -/
def cutAround (cs : List Char) : Nat → List Span → List (List Char)
  | done, [] => nonEmpty (cs.drop done)
  | done, found :: rest =>
    nonEmpty (slice cs done found.start) ++ nonEmpty (slice cs found.start found.stop)
      ++ cutAround cs found.stop rest

/-- A text cut around all that is found in it. -/
def segments (find : Finder) (text : String) : List String :=
  (cutAround text.toList 0 (find text.toList)).map String.ofList

end Text

end AccountSync
