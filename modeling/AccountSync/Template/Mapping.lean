/-
  AccountSync.Template.Mapping
  ────────────────────────────
  **SWAPPING TEMPLATES FOR THEIR TEXT AND BACK.**

  While changes are deployed, templates are replaced by their text.  The mapping
  remembers for every text the template it came from; of two templates with one
  text the later one is remembered.

      Mapping.replace   — a template becomes its text
      Mapping.restore   — a text becomes the template it came from
      Mapping.Step.run  — either of them, in place
      Mapping.after     — the mapping after any number of steps
-/
import AccountSync.Template.Basic

namespace AccountSync.Template

/-- The templates that texts came from. -/
abbrev Mapping := Dict (List Part)

namespace Mapping

/-- Replaces a template by its text and remembers it.  Any other value stays, and so do
value and mapping when the text cannot be written. -/
def replace (mapping : Mapping) (v : Value) : Except Failure (Value × Mapping) :=
  match v with
  | .template parts => do
    let text ← rendered parts
    pure (.string text, Dict.insert mapping text parts)
  | v => .ok (v, mapping)

/-- Replaces a text by the template it came from. -/
def restore (mapping : Mapping) (v : Value) : Value :=
  match v with
  | .string s =>
    match Dict.get? mapping s with
    | some parts => .template parts
    | none => v
  | v => v

/-- What is done to a value with the mapping at hand. -/
inductive Step where
  | replace
  | restore
deriving DecidableEq, Repr

/-- Does a step in place. -/
def Step.run : Step → ExceptT Failure (StateM (Value × Mapping)) Unit
  | .replace => do
    let (v, mapping) ← get
    let replaced ← mapping.replace v
    set replaced
  | .restore =>
    modify fun (v, mapping) => (mapping.restore v, mapping)

/-- The mapping after steps that are done with it, each on a value of its own.  A step that fails
does not keep the ones after it from being done. -/
def after (mapping : Mapping) : List (Step × Value) → Mapping
  | [] => mapping
  | (step, v) :: rest =>
    let (_, _, mapping) := step.run.run (v, mapping)
    after mapping rest

end Mapping

end AccountSync.Template
