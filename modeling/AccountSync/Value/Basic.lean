/-
  AccountSync.Value.Basic
  ───────────────────────
  **VALUE TREES.**

  The data of an element: JSON-like data with two more kinds of leaves.  A
  *reference* points at another element, or at a value inside one, and may carry a
  copy of what it points at.  A *template* is a text with references in it.

      Value.same       — equality of trees; references are equal when they point at
                         the same identifier, whatever they carry
      Value.getPath?   — the value at a path of keys and list positions
      Value.setPath    — the tree with another value there
      Value.bare       — the tree without the copies that references carry
      Value.nodeCount  — how many nodes the tree has
-/
import AccountSync.Dict
import AccountSync.ElementId.Basic
import AccountSync.Number.Basic
import AccountSync.Text.Split

namespace AccountSync

mutual

/-- A value tree. -/
inductive Value where
  | null
  | bool (b : Bool)
  | number (n : Number)
  | string (s : String)
  | list (items : List Value)
  | map (entries : List (String × Value))
  | reference (r : Reference)
  | template (parts : List Part)

/-- A pointer to an element or to a value inside one, with a copy of the target when it
is known. -/
inductive Reference where
  | to (id : ElementId) (target : Option Value)

/-- A piece of a template. -/
inductive Part where
  | literal (text : String)
  | reference (r : Reference)

end

instance : Inhabited Value := ⟨.null⟩

/-- The values of an element by field name. -/
abbrev Fields := Dict Value

namespace Reference

/-- What the reference points at. -/
def id : Reference → ElementId
  | .to id _ => id

/-- The copy of the target, when it is known. -/
def target : Reference → Option Value
  | .to _ target => target

/-- Whether the target is known. -/
def isResolved (r : Reference) : Bool :=
  r.target.isSome

/-- How the names of placeholder instances start. -/
def placeholderStem : String := "missing_"

/-- Whether the reference points at a placeholder instance or into one. -/
def isMissing (r : Reference) : Bool :=
  Text.startsWith placeholderStem r.id.topLevel.1.name

end Reference

namespace Value

/-! ## Shapes -/

/-- The name of the value's shape. -/
def shape : Value → String
  | .null => "null"
  | .bool _ => "boolean"
  | .number _ => "number"
  | .string _ => "string"
  | .list _ => "list"
  | .map _ => "map"
  | .reference _ => "reference"
  | .template _ => "template"

/-- Whether the value is null. -/
def isNull : Value → Bool
  | .null => true
  | _ => false

/-- The text, if the value is one. -/
def string? : Value → Option String
  | .string s => some s
  | _ => none

/-- The truth value, if the value is one. -/
def bool? : Value → Option Bool
  | .bool b => some b
  | _ => none

/-- The integer, if the value is one that fits a signed 64-bit word. -/
def signed? : Value → Option Int
  | .number n => n.signed?
  | _ => none

/-- The items, if the value is a list. -/
def list? : Value → Option (List Value)
  | .list items => some items
  | _ => none

/-- The entries, if the value is a map. -/
def map? : Value → Option Fields
  | .map entries => some entries
  | _ => none

/-- The reference, if the value is one. -/
def reference? : Value → Option Reference
  | .reference r => some r
  | _ => none

/-- The value under a key of a map. -/
def get? : Value → String → Option Value
  | .map entries, key => Dict.get? entries key
  | _, _ => none

/-- The text under which a scalar is looked up; identifiers may come as numbers or as
text. -/
def keyText? : Value → Option String
  | .string s => some s
  | .number n => some n.text
  | .bool true => some "true"
  | .bool false => some "false"
  | _ => none

/-! ## Equality -/

mutual

/-- Equality of trees. -/
def same : Value → Value → Bool
  | .null, .null => true
  | .bool a, .bool b => a == b
  | .number a, .number b => a.same b
  | .string a, .string b => a == b
  | .list a, .list b => sameItems a b
  | .map a, .map b => sameEntries a b
  | .reference (.to a _), .reference (.to b _) => a = b
  | .template a, .template b => sameParts a b
  | _, _ => false

/-- Equality of lists, item by item. -/
def sameItems : List Value → List Value → Bool
  | [], [] => true
  | a :: as, b :: bs => same a b && sameItems as bs
  | _, _ => false

/-- Equality of maps, entry by entry. -/
def sameEntries : List (String × Value) → List (String × Value) → Bool
  | [], [] => true
  | (j, a) :: as, (k, b) :: bs => j == k && same a b && sameEntries as bs
  | _, _ => false

/-- Equality of templates, part by part. -/
def sameParts : List Part → List Part → Bool
  | [], [] => true
  | .literal a :: as, .literal b :: bs => a == b && sameParts as bs
  | .reference (.to a _) :: as, .reference (.to b _) :: bs => a = b && sameParts as bs
  | _, _ => false

end

/-- Equality of values that may be absent. -/
def sameOption : Option Value → Option Value → Bool
  | none, none => true
  | some a, some b => a.same b
  | _, _ => false

/-! ## Paths -/

/-- The position that a path component stands for in a list: decimal digits, a plus sign
in front of them or not.  Positions beyond 64 bits do not exist. -/
def position? (part : String) : Option Nat :=
  let digits := match part.toList with
    | '+' :: rest => rest
    | rest => rest
  if digits ≠ [] ∧ digits.all Char.isDigit then
    let n := Number.digitsValue digits
    if n < twoTo 64 then some n else none
  else none

/-- The child that a path component selects. -/
def child? (v : Value) (part : String) : Option Value :=
  match v with
  | .map entries => Dict.get? entries part
  | .list items => (position? part).bind (fun i => items[i]?)
  | _ => none

/-- The value at a path. -/
def getPath? : Value → List String → Option Value
  | v, [] => some v
  | v, part :: rest => (child? v part).bind (fun c => getPath? c rest)

/-- The value with another child where the path component selects one. -/
def setChild (v : Value) (part : String) (new : Value) : Value :=
  match v with
  | .map entries => .map (Dict.modify entries part (fun _ => new))
  | .list items =>
    match position? part with
    | some i => .list (items.set i new)
    | none => v
  | _ => v

/-- The tree with another value at a path; a path that leads nowhere changes nothing. -/
def setPath : Value → List String → Value → Value
  | _, [], new => new
  | v, part :: rest, new =>
    match child? v part with
    | some c => setChild v part (setPath c rest new)
    | none => v

/-! ## Measures and views -/

mutual

/-- How many nodes a tree has; references and templates count as one. -/
def nodeCount : Value → Nat
  | .list items => 1 + itemCount items
  | .map entries => 1 + entryCount entries
  | _ => 1

/-- How many nodes the items of a list have. -/
def itemCount : List Value → Nat
  | [] => 0
  | v :: rest => nodeCount v + itemCount rest

/-- How many nodes the entries of a map have. -/
def entryCount : List (String × Value) → Nat
  | [] => 0
  | (_, v) :: rest => nodeCount v + entryCount rest

end

/-- A piece of a template without the copy that a reference carries. -/
def barePart : Part → Part
  | .literal s => .literal s
  | .reference r => .reference (.to r.id none)

mutual

/-- The tree without the copies that references carry. -/
def bare : Value → Value
  | .list items => .list (bareItems items)
  | .map entries => .map (bareEntries entries)
  | .reference (.to id _) => .reference (.to id none)
  | .template parts => .template (parts.map barePart)
  | v => v

/-- The items without the copies that references carry. -/
def bareItems : List Value → List Value
  | [] => []
  | v :: rest => bare v :: bareItems rest

/-- The entries without the copies that references carry. -/
def bareEntries : List (String × Value) → List (String × Value)
  | [] => []
  | (k, v) :: rest => (k, bare v) :: bareEntries rest

end

end Value

namespace Reference

/-- The `id` of the target, for a reference to a whole element whose target is known. -/
def targetId? (r : Reference) : Option Value :=
  if r.id.isTopLevel then r.target.bind (fun v => v.get? "id") else none

end Reference

end AccountSync
