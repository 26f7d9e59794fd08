/-
  AccountSync.Value.Dump
  ──────────────────────
  **A FORM OF VALUES THAT LEAVES NOTHING OUT.**

  The serialized form leaves out what references carry.  A dump keeps it: a reference
  is an object with the full name of its target under `$ref` and, if the target is
  known, a copy of it under `$value`; a template has its parts under `$template`.

      Value.dump   — write
      Value.load   — read
-/
import AccountSync.Json.Basic
import AccountSync.Template.Basic

namespace AccountSync

/-- The identifier of a full name. -/
def ElementId.load (text : String) : Except Failure ElementId :=
  match parse? text with
  | some id => .ok id
  | none => .error (.invalidElementId text)

namespace Value

/-- The key of the full name of a reference. -/
def refKey : String := "$ref"

/-- The key of the copy that a reference carries. -/
def targetKey : String := "$value"

/-- The key of the parts of a template. -/
def partsKey : String := "$template"

mutual

/-- A dumped value. -/
def dump : Value → Json
  | .null => .null
  | .bool b => .bool b
  | .number n => .number n
  | .string s => .string s
  | .list items => .array (dumpItems items)
  | .map entries => .object (dumpEntries entries)
  | .reference r => dumpReference r
  | .template parts => .object [(partsKey, .array (dumpParts parts))]

/-- The dumped items of a list. -/
def dumpItems : List Value → List Json
  | [] => []
  | v :: rest => dump v :: dumpItems rest

/-- The dumped entries of a map. -/
def dumpEntries : List (String × Value) → List (String × Json)
  | [] => []
  | (k, v) :: rest => (k, dump v) :: dumpEntries rest

/-- A dumped reference. -/
def dumpReference : Reference → Json
  | .to id none => .object [(refKey, .string id.fullName)]
  | .to id (some target) => .object [(refKey, .string id.fullName), (targetKey, dump target)]

/-- The dumped parts of a template. -/
def dumpParts : List Part → List Json
  | [] => []
  | .literal text :: rest => .string text :: dumpParts rest
  | .reference r :: rest => dumpReference r :: dumpParts rest

end

/-- The identifier that a dumped reference names. -/
def loadName (entries : List (String × Json)) : Except Failure ElementId :=
  match Dict.get? entries refKey with
  | some (.string text) => ElementId.load text
  | _ => .error .malformedJson

mutual

/-- The value that is dumped so. -/
def load : Json → Except Failure Value
  | .null => .ok .null
  | .bool b => .ok (.bool b)
  | .number n => .ok (.number n)
  | .string s => .ok (.string s)
  | .array items => (loadItems items).map .list
  | .object entries =>
    if Dict.contains entries refKey then (loadReference entries).map .reference
    else match loadTemplate? entries with
      | some parts => parts.map (fun ps => .template (Template.normal ps))
      | none => (loadEntries entries).map .map

/-- The items that are dumped so. -/
def loadItems : List Json → Except Failure (List Value)
  | [] => .ok []
  | j :: rest => do
    let v ← load j
    let vs ← loadItems rest
    pure (v :: vs)

/-- The entries that are dumped so. -/
def loadEntries : List (String × Json) → Except Failure (List (String × Value))
  | [] => .ok []
  | (k, j) :: rest => do
    let v ← load j
    let vs ← loadEntries rest
    pure ((k, v) :: vs)

/-- The copy that a dumped reference carries. -/
def loadTarget : List (String × Json) → Except Failure (Option Value)
  | [] => .ok none
  | (k, j) :: rest => if k = targetKey then (load j).map some else loadTarget rest

/-- The reference that is dumped so. -/
def loadReference (entries : List (String × Json)) : Except Failure Reference := do
  let id ← loadName entries
  let target ← loadTarget entries
  pure (.to id target)

/-- The parts of a dumped template, if the object is one. -/
def loadTemplate? : List (String × Json) → Option (Except Failure (List Part))
  | [] => none
  | (k, .array parts) :: rest => if k = partsKey then some (loadParts parts) else loadTemplate? rest
  | _ :: rest => loadTemplate? rest

/-- The parts that are dumped so. -/
def loadParts : List Json → Except Failure (List Part)
  | [] => .ok []
  | .string text :: rest => do
    let ps ← loadParts rest
    pure (.literal text :: ps)
  | .object entries :: rest => do
    let r ← loadReference entries
    let ps ← loadParts rest
    pure (.reference r :: ps)
  | _ :: _ => .error .malformedJson

end

end Value

/-- Dumped fields. -/
def Fields.dump (fields : Fields) : Json :=
  .object (Value.dumpEntries fields)

/-- The fields that are dumped so. -/
def Fields.load : Json → Except Failure Fields
  | .object entries => Value.loadEntries entries
  | _ => .error .malformedJson

end AccountSync
