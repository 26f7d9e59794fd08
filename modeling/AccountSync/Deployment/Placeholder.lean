/-
  AccountSync.Deployment.Placeholder
  ──────────────────────────────────
  **FILLING IN THE URL OF A REQUEST.**

  A url is literal text with placeholders in it: names in braces, each of which
  extends to the next closing brace.  A placeholder is replaced by the text or number
  under its name; what is filled in is never read again.

      UrlTemplate.fill   — the url with all placeholders replaced
-/
import AccountSync.Json.Basic
import AccountSync.Text.Split

namespace AccountSync

/-- Why a url could not be filled in. -/
inductive UrlFault where
  /-- A brace of the url is never closed. -/
  | unterminated (url : String)
  /-- There is no text and no number of that name. -/
  | missing (name : String)
deriving DecidableEq, Repr

/-- The wording of a fault. -/
def UrlFault.message : UrlFault → String
  | .unterminated url => "unterminated placeholder in url " ++ url
  | .missing name => "missing value for url placeholder " ++ Text.braced name

namespace UrlTemplate

/-- Begins a placeholder. -/
def opening : Char := Text.leftBrace

/-- Ends a placeholder. -/
def closing : Char := Text.rightBrace

/-- What is filled in for a value: a text as it is, a number as it is written. -/
def filling? : Option Json → Option String
  | some (.string s) => some s
  | some (.number n) => some n.text
  | _ => none

/-- What is filled in for a name. -/
def lookup (values : Json) (name : String) : Except UrlFault (List Char) :=
  match filling? (values.get? name) with
  | some text => .ok text.toList
  | none => .error (.missing name)

/-- Reads a url from left to right.  `name` is what was read of the name of a placeholder,
last character first, when the reading is inside one. -/
def fillFrom (url : String) (values : Json) :
    Option (List Char) → List Char → Except UrlFault (List Char)
  | none, [] => .ok []
  | some _, [] => .error (.unterminated url)
  | none, c :: rest =>
    if c = opening then fillFrom url values (some []) rest
    else do
      let tail ← fillFrom url values none rest
      pure (c :: tail)
  | some name, c :: rest =>
    if c = closing then do
      let text ← lookup values (String.ofList name.reverse)
      let tail ← fillFrom url values none rest
      pure (text ++ tail)
    else fillFrom url values (some (c :: name)) rest

/-- The url with every placeholder replaced by the value of its name. -/
def fill (url : String) (values : Json) : Except UrlFault String :=
  (fillFrom url values none url.toList).map String.ofList

end UrlTemplate

end AccountSync
