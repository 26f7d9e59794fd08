/-
  AccountSync.Yaml.Reader
  ───────────────────────
  **READING YAML.**

  Configuration texts are written in YAML: tables and lists by indentation or in
  brackets, words, quoted texts and blocks of text, with anchors, aliases and tags.  A
  text holds one document.

      Yaml.read?   — what is read from a text
-/
import AccountSync.Yaml.Node

namespace AccountSync.Yaml

/-- What is read from the document of a text, if the text holds exactly one. -/
def read? {α : Type} (f : Document → Reading α) (text : String) : Option α := do
  let tokens ← (← Token.ofText? text.toList) |> Token.numbered?
  let (root, anchors) ← Node.ofTokens? tokens
  root.readWith? anchors f

end AccountSync.Yaml
