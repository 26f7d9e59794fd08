/-
  AccountSync.Value.Wire
  ──────────────────────
  **THE SERIALIZED FORM OF VALUES.**

  A reference is written as an object with the one key `_ref` and the full name of
  its target, a template as an object with the one key `_template` and its parts.
  Copies of targets are not written.

      Value.encode   — write
      Value.decode   — read; an object of one of these two forms is a reference or a
                       template
-/
import AccountSync.Json.Writer
import AccountSync.Template.Basic

namespace AccountSync

/-- The one key of a serialized reference. -/
def Reference.marker : String := "_ref"

/-- The one key of a serialized template. -/
def Template.marker : String := "_template"

/-- A serialized reference. -/
def Reference.encode (r : Reference) : Json :=
  .object [(Reference.marker, .string r.id.fullName)]

/-- A serialized part of a template. -/
def Part.encode : Part → Json
  | .literal text => .string text
  | .reference r => r.encode

/-- The reference that a marked value names. -/
def Reference.decodeName : Json → Except Failure Reference
  | .string text =>
    match ElementId.parse? text with
    | some id => .ok (.to id none)
    | none => .error (.invalidElementId text)
  | other => .error (.invalidElementId other.compact)

/-- The part of a template that is serialized so. -/
def Part.decode : Json → Except Failure Part
  | .string text => .ok (.literal text)
  | .object [(key, target)] =>
    if key = Reference.marker then (Reference.decodeName target).map .reference
    else .error (.invalidElementId (Json.object [(key, target)]).compact)
  | other => .error (.invalidElementId other.compact)

namespace Value

mutual

/-- A serialized value. -/
def encode : Value → Json
  | .null => .null
  | .bool b => .bool b
  | .number n => .number n
  | .string s => .string s
  | .list items => .array (encodeItems items)
  | .map entries => .object (encodeEntries entries)
  | .reference r => r.encode
  | .template parts => .object [(Template.marker, .array (parts.map Part.encode))]

/-- The serialized items of a list. -/
def encodeItems : List Value → List Json
  | [] => []
  | v :: rest => encode v :: encodeItems rest

/-- The serialized entries of a map. -/
def encodeEntries : List (String × Value) → List (String × Json)
  | [] => []
  | (k, v) :: rest => (k, encode v) :: encodeEntries rest

end

/-- The reference or template that an object stands for, if it has one of the two marked
forms. -/
def decodeMarked? : List (String × Json) → Option (Except Failure Value)
  | [(key, content)] =>
    if key = Reference.marker then some ((Reference.decodeName content).map .reference)
    else if key = Template.marker then
      match content with
      | .array parts => some ((parts.mapM Part.decode).map (fun ps => .template (Template.normal ps)))
      | _ => none
    else none
  | _ => none

mutual

/-- The value that is serialized so. -/
def decode : Json → Except Failure Value
  | .null => .ok .null
  | .bool b => .ok (.bool b)
  | .number n => .ok (.number n)
  | .string s => .ok (.string s)
  | .array items => (decodeItems items).map .list
  | .object entries =>
    match decodeMarked? entries with
    | some result => result
    | none => (decodeEntries entries).map .map

/-- The items of an array. -/
def decodeItems : List Json → Except Failure (List Value)
  | [] => .ok []
  | j :: rest => do
    let v ← decode j
    let vs ← decodeItems rest
    pure (v :: vs)

/-- The entries of an object. -/
def decodeEntries : List (String × Json) → Except Failure (List (String × Value))
  | [] => .ok []
  | (k, j) :: rest => do
    let v ← decode j
    let vs ← decodeEntries rest
    pure ((k, v) :: vs)

end

end Value

/-- The serialized fields of an element. -/
def Fields.encode (fields : Fields) : Json :=
  .object (Value.encodeEntries fields)

/-- The fields that are serialized so.  Here the object itself is never a marked form. -/
def Fields.decode : Json → Except Failure Fields
  | .object entries => Value.decodeEntries entries
  | _ => .error .malformedJson

end AccountSync
