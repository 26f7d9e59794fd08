/-
  AccountSync.Template.Extract
  ────────────────────────────
  **FINDING REFERENCES IN TEXT.**

  A text is cut around what is found in it, by one finder after the other, and every piece is
  turned into parts of a template.

      Template.cutBy       — the pieces in order; together they are the text
      Template.extractBy   — the template, or the text itself when no piece has a
                             reference in it
      Template.extractFrom — the same where pieces do not depend on each other
      Template.pieces, Template.extract — the same for patterns
-/
import AccountSync.Pattern.Basic
import AccountSync.Template.Basic

namespace AccountSync.Template

/-- A text cut by one finder after the other. -/
def cutBy (finders : List Finder) (text : String) : List String :=
  finders.foldl (fun found find => found.flatMap (Text.segments find)) [text]

/-- The value that a text stands for when every piece of it is turned into parts.  What a piece is
turned into may depend on the pieces before. -/
def extractBy {m : Type → Type} [Monad m] (finders : List Finder)
    (toParts : String → m (List Part)) (text : String) : m Value := do
  let parts ← (cutBy finders text).mapM toParts
  pure (build parts.flatten)

/-- The value that a text stands for when every piece of it is turned into parts by itself. -/
def extractFrom (finders : List Finder) (toParts : String → List Part) (text : String) : Value :=
  Id.run (extractBy finders (fun piece => pure (toParts piece)) text)

/-- A text cut by one pattern after the other. -/
def pieces (patterns : List Pattern) (text : String) : List String :=
  cutBy (patterns.map Pattern.spans) text

/-- The value that a text stands for when every piece that patterns cut out of it is turned into
parts. -/
def extract (patterns : List Pattern) (toParts : String → List Part) (text : String) : Value :=
  extractFrom (patterns.map Pattern.spans) toParts text

end AccountSync.Template
