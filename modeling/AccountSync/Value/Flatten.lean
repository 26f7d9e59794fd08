/-
  AccountSync.Value.Flatten
  ─────────────────────────
  **WRITING VALUES OUT AS PLAIN DATA.**

  What is sent to the remote account knows neither references nor templates.  A
  reference to a whole element is replaced by the `id` of its target, one to a value
  inside an element by that value, and a template by its text.

      Value.flatten   — a tree as plain data
      Value.ofJson    — plain data as a tree
-/
import AccountSync.Template.Basic

namespace AccountSync

namespace Value

mutual

/-- A tree as plain data. -/
def flatten : Value → Except Failure Json
  | .null => .ok .null
  | .bool b => .ok (.bool b)
  | .number n => .ok (.number n)
  | .string s => .ok (.string s)
  | .list items => (flattenItems items).map .array
  | .map entries => (flattenEntries entries).map .object
  | .reference r => flattenReference r
  | .template parts => (Template.rendered parts).map .string

/-- The items of a list as plain data. -/
def flattenItems : List Value → Except Failure (List Json)
  | [] => .ok []
  | v :: rest => do
    let j ← flatten v
    let js ← flattenItems rest
    pure (j :: js)

/-- The entries of a map as plain data. -/
def flattenEntries : List (String × Value) → Except Failure (List (String × Json))
  | [] => .ok []
  | (k, v) :: rest => do
    let j ← flatten v
    let js ← flattenEntries rest
    pure ((k, j) :: js)

/-- A reference as plain data. -/
def flattenReference : Reference → Except Failure Json
  | .to id none => .error (.unresolvedReference id)
  | .to id (some target) =>
    if id.isTopLevel then
      match target with
      | .map entries =>
        match flattenUnder "id" entries with
        | some result => result
        | none => .error (.invalidTemplateValue id Reference.noTargetId)
      | _ => .error (.invalidTemplateValue id Reference.noTargetId)
    else flatten target

/-- The value under a key as plain data. -/
def flattenUnder (key : String) : List (String × Value) → Option (Except Failure Json)
  | [] => none
  | (k, v) :: rest => if k = key then some (flatten v) else flattenUnder key rest

end

mutual

/-- Plain data as a value tree. -/
def ofJson : Json → Value
  | .null => .null
  | .bool b => .bool b
  | .number n => .number n
  | .string s => .string s
  | .array items => .list (itemsOfJson items)
  | .object entries => .map (entriesOfJson entries)

/-- The items of an array as value trees. -/
def itemsOfJson : List Json → List Value
  | [] => []
  | j :: rest => ofJson j :: itemsOfJson rest

/-- The entries of an object as value trees. -/
def entriesOfJson : List (String × Json) → List (String × Value)
  | [] => []
  | (k, j) :: rest => (k, ofJson j) :: entriesOfJson rest

end

end Value

/-- The fields of an element as plain data. -/
def Fields.flatten (fields : Fields) : Except Failure (Dict Json) :=
  Value.flattenEntries fields

/-- The fields that plain data stands for; data that is no object has none. -/
def Fields.ofJson : Json → Fields
  | .object entries => Value.entriesOfJson entries
  | _ => []

end AccountSync
