/-
  AccountSync.Schema.Coercion
  ───────────────────────────
  **FETCHED LISTS IN CANONICAL FORM.**

  An account may answer with a bare item where a list of one is meant, and lists some
  things in no particular order.  Bare items are put into lists as the declared types
  say, and lists whose order means nothing are sorted.

      Coercion.wrapped   — bare items become lists
      Coercion.sorted    — lists without an order are sorted
-/
import AccountSync.Schema.Walk
import AccountSync.Settings.Basic
import AccountSync.Sorting

namespace AccountSync.Coercion

/-! ## Bare items -/

/-- The types that elements declare. -/
def registryOf (elements : List Element) : Registry :=
  Registry.ofTypes (elements.filterMap Element.object?)

/-- The annotations of a type with bare items put into lists. -/
def annotationsOf (registry : Registry) (o : ObjectType) : Except Failure Fields :=
  ((Walk.annotations registry false Walk.keepAll
    (Walk.depthBound registry o o.annotations) o).run ()).1.map (fun found => found.getD [])

/-- How deep a walk over an instance has to go. -/
def instanceDepth (registry : Registry) (i : Instance) : Nat :=
  match registry.find? i.type.fullName with
  | some o => Walk.depthBound registry o i.value
  | none => 0

/-- The instance with bare items put into lists; one of an undeclared type stays. -/
def wrapInstance (registry : Registry) (i : Instance) : Instance :=
  match ((Walk.ofInstance registry false Walk.keepAll (instanceDepth registry i) i).run ()).1 with
  | .ok value => { i with value }
  | .error _ => i

/-- The annotations of all declared types with bare items put into lists. -/
def allAnnotations (registry : Registry) : List (String × ObjectType) →
    Except Failure (Dict Fields)
  | [] => .ok []
  | (name, o) :: rest => do
    let first ← annotationsOf registry o
    let others ← allAnnotations registry rest
    pure ((name, first) :: others)

/-- All elements with bare items put into lists.  The annotations of a type go to the first
element that declares it; another element that declares it again is left without any. -/
def wrapElements (registry : Registry) : Dict Fields → List Element → List Element
  | _, [] => []
  | found, .inst i :: rest => .inst (wrapInstance registry i) :: wrapElements registry found rest
  | found, .object o :: rest =>
    match Dict.get? found o.id.fullName with
    | some annotations =>
      .object { o with annotations }
        :: wrapElements registry (Dict.insert found o.id.fullName []) rest
    | none => .object o :: wrapElements registry found rest

/-- All elements with bare items put into lists. -/
def wrapped (elements : List Element) : Except Failure (List Element) := do
  let registry := registryOf elements
  let found ← allAnnotations registry registry
  pure (wrapElements registry found elements)

/-! ## Lists without an order -/

/-- The text by which an item is sorted. -/
def sortKey? (sortBy : Option String) (item : Value) : Option String :=
  match sortBy with
  | some key => (item.get? key).bind Value.keyText?
  | none => item.keyText?

/-- Compares items by their texts; an item without one comes last. -/
def order (sortBy : Option String) (a b : Value) : Ordering :=
  Sorting.lastIfAbsent compare (sortKey? sortBy a) (sortKey? sortBy b)

/-- A list with its items sorted; any other value stays. -/
def sortValue (sortBy : Option String) : Value → Value
  | .list items => .list (Sorting.sortedBy (order sortBy) items)
  | v => v

/-- All elements with the lists sorted that a rule names. -/
def sortedBy (elements : List Element) (rule : UnorderedListRule) : List Element :=
  Element.mapInstances
    (fun i =>
      if i.typeName = rule.typeName then
        { i with value := Dict.modify i.value rule.field (sortValue rule.sortBy) }
      else i)
    elements

/-- All elements with the lists sorted that the rules name, rule after rule. -/
def sorted (rules : List UnorderedListRule) (elements : List Element) : List Element :=
  rules.foldl sortedBy elements

/-- All elements with their lists in canonical form. -/
def canonical (rules : List UnorderedListRule) (elements : List Element) :
    Except Failure (List Element) :=
  (wrapped elements).map (sorted rules)

end AccountSync.Coercion
