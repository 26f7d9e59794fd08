/-
  AccountSync.Template.Basic
  ──────────────────────────
  **TEXT WITH REFERENCES IN IT.**

  A template is a list of parts, each a piece of text or a reference.  Its normal
  form has no empty piece and no two pieces side by side.

      Template.normal     — the normal form
      Template.joined     — the text, with any way to write references
      Template.rendered   — the text, each reference written as what it stands for
      Template.build      — a template, or a plain text when there is no reference
-/
import AccountSync.Failure
import AccountSync.Value.Basic

namespace AccountSync

/-- The reason given when the target of a reference to an element has no usable `id`. -/
def Reference.noTargetId : String := "target has no id"

/-- A reference as a piece of text: the `id` of a whole element, or the text inside one. -/
def Reference.rendered (r : Reference) : Except Failure String :=
  match r.target with
  | none => .error (.unresolvedReference r.id)
  | some target =>
    if r.id.isTopLevel then
      match (target.get? "id").bind Value.keyText? with
      | some text => .ok text
      | none => .error (.invalidTemplateValue r.id Reference.noTargetId)
    else match target with
      | .string s => .ok s
      | other => .error (.invalidTemplateValue r.id ("expected string, found " ++ other.shape))

namespace Template

/-- Puts a piece of text in front of parts in normal form. -/
def consText (text : String) : List Part → List Part
  | .literal next :: rest => .literal (text ++ next) :: rest
  | rest => if text = "" then rest else .literal text :: rest

/-- The parts without empty pieces, with pieces that stand side by side joined. -/
def normal : List Part → List Part
  | [] => []
  | .literal text :: rest => consText text (normal rest)
  | .reference r :: rest => .reference r :: normal rest

/-- The references of a template in order. -/
def references : List Part → List Reference
  | [] => []
  | .literal _ :: rest => references rest
  | .reference r :: rest => r :: references rest

/-- Whether the targets of all references are known. -/
def isResolved (parts : List Part) : Bool :=
  (references parts).all Reference.isResolved

/-- The text of a template, where `write` says how a reference is written.  It is asked for the
references in order and may remember the ones before; the first one that cannot be written
decides the failure. -/
def joined {m : Type → Type} [Monad m] (write : Reference → m String) : List Part → m String
  | [] => pure ""
  | .literal text :: rest => do
    let tail ← joined write rest
    pure (text ++ tail)
  | .reference r :: rest => do
    let text ← write r
    let tail ← joined write rest
    pure (text ++ tail)

/-- The text of a template. -/
def rendered (parts : List Part) : Except Failure String :=
  joined Reference.rendered parts

/-- The pieces of text of a template, joined. -/
def literalText : List Part → String
  | [] => ""
  | .literal text :: rest => text ++ literalText rest
  | .reference _ :: rest => literalText rest

/-- The value that parts stand for: a template in normal form if there is a reference among
them, else the plain text. -/
def build (parts : List Part) : Value :=
  let parts := normal parts
  if (references parts).isEmpty then .string (literalText parts) else .template parts

end Template

end AccountSync
