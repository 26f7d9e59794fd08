/-
  AccountSync.Schema.Walk
  ───────────────────────
  **WALKING A VALUE TREE ALONG ITS TYPES.**

  A walk hands every node of a tree to a visitor, parents before children, keys
  ascending and list items by position.  The visitor keeps the node, replaces it or
  drops it; then the walk goes on inside what it left, guided by the declared type:

      a list type     — a list; null; strictly nothing else, otherwise anything else
                        stands for a list with that one item
      a map type      — a map; null; strictly nothing else
      an object type  — a map with the declared fields; null; strictly nothing else
      a scalar        — strictly no map and no list
      undeclared      — anything, all the way down

  References and templates fit every type and are not entered.  A map whose entries
  were all dropped is dropped itself; a list stays, even empty.

  The visitor may replace a node by a larger one, so a walk need not end on its own:
  it is given a depth it may go down to.  `Walk.depthBound` is enough for a visitor
  that never makes a node larger.
-/
import AccountSync.Element.Basic
import AccountSync.Failure

namespace AccountSync

/-- Where a visitor stands: the identifier of the node, and the field it belongs to. -/
structure VisitedNode where
  path : ElementId
  field : Option Field

/-- Looks at a node and keeps, replaces or drops it; it may carry a state along. -/
abbrev Visitor (σ : Type) := VisitedNode → Value → σ → Option Value × σ

/-- A computation of a walk: the state of the visitor survives a failure. -/
abbrev WalkM (σ : Type) := ExceptT Failure (StateM σ)

/-- Where the keys of a map get their types from. -/
inductive KeyTypes where
  | fields (o : ObjectType)
  | annotations (o : ObjectType)
  | uniform (type : Option FieldType) (field : Option Field)

/-- The type of a key, and the field that it and what is inside belong to. -/
def KeyTypes.lookup : KeyTypes → String → Option FieldType × Option Field
  | .fields o, key =>
    match o.field? key with
    | some f => (some f.type, some f)
    | none => (none, none)
  | .annotations o, key => (Dict.get? o.annotationTypes key, none)
  | .uniform type field, _ => (type, field)

/-- What a walk does with a node that the visitor kept. -/
inductive Descent where
  /-- The node is not entered. -/
  | stop (v : Value)
  /-- Every item is visited. -/
  | items (vs : List Value) (type : Option FieldType) (field : Option Field)
  /-- Every entry is visited. -/
  | entries (vs : Fields) (keys : KeyTypes)

namespace Walk

variable {σ : Type}

/-- How a node without a declared type is entered. -/
def untyped : Value → Descent
  | .map vs => .entries vs (.uniform none none)
  | .list vs => .items vs none none
  | v => .stop v

/-- A node that does not have the shape of its type: strictly a failure, otherwise it goes
on as `lenient`. -/
def mismatch (strict : Bool) (path : ElementId) (expected : String) (v : Value)
    (lenient : Descent) : Except Failure Descent :=
  if strict then .error (.schemaMismatch path expected v.shape) else .ok lenient

/-- How a node is entered, given its type. -/
def descent (registry : Registry) (strict : Bool) (type : Option FieldType)
    (field : Option Field) (path : ElementId) (v : Value) : Except Failure Descent :=
  match v with
  | .reference _ => .ok (.stop v)
  | .template _ => .ok (.stop v)
  | v =>
    match type with
    | none => .ok (untyped v)
    | some (.primitive .unknown) => .ok (untyped v)
    | some (.primitive kind) =>
      match v with
      | .map _ => mismatch strict path kind.name v (untyped v)
      | .list _ => mismatch strict path kind.name v (untyped v)
      | v => .ok (.stop v)
    | some (.list item) =>
      match v with
      | .list vs => .ok (.items vs (some item) field)
      | .null => .ok (.stop .null)
      | v => mismatch strict path "list" v (.items [v] (some item) field)
    | some (.map value) =>
      match v with
      | .map vs => .ok (.entries vs (.uniform (some value) field))
      | .null => .ok (.stop .null)
      | v => mismatch strict path "map" v (.stop v)
    | some (.object name) =>
      match v with
      | .map vs =>
        match registry.find? name with
        | some o => .ok (.entries vs (.fields o))
        | none => .ok (untyped (.map vs))
      | .null => .ok (.stop .null)
      | v => mismatch strict path name v (.stop v)

/-- Visits the entries of a map in order and keeps those that were not dropped. -/
def entries (step : String → Value → WalkM σ (Option Value)) : Fields → WalkM σ Fields
  | [] => pure []
  | (key, v) :: rest => do
    let kept ← step key v
    let others ← entries step rest
    pure (match kept with
      | some v => (key, v) :: others
      | none => others)

/-- Visits the items of a list in order, from a position on, and keeps those that were not
dropped. -/
def items (step : Nat → Value → WalkM σ (Option Value)) : Nat → List Value → WalkM σ (List Value)
  | _, [] => pure []
  | n, v :: rest => do
    let kept ← step n v
    let others ← items step (n + 1) rest
    pure (match kept with
      | some v => v :: others
      | none => others)

/-- The entries that are left, or nothing if there were some and all are gone. -/
def unlessEmptied (before after : Fields) : Option Fields :=
  if after.isEmpty && !before.isEmpty then none else some after

/-- What a walk does with one node: type, field, place and value. -/
abbrev NodeStep (σ : Type) :=
  Option FieldType → Option Field → ElementId → Value → WalkM σ (Option Value)

/-- Visits the entries of a map at a place. -/
def fieldsWith (node : NodeStep σ) (keys : KeyTypes) (path : ElementId) (vs : Fields) :
    WalkM σ (Option Fields) := do
  let kept ← entries
    (fun key v => node (keys.lookup key).1 (keys.lookup key).2 (path.nest [key]) v) vs
  pure (unlessEmptied vs kept)

/-- Visits the items of a list at a place. -/
def itemsWith (node : NodeStep σ) (type : Option FieldType) (field : Option Field)
    (path : ElementId) (vs : List Value) : WalkM σ (List Value) :=
  items (fun n v => node type field (path.nest [(Number.int n).text]) v) 0 vs

/-- Asks the visitor about a node. -/
def visit (visitor : Visitor σ) (place : VisitedNode) (v : Value) : WalkM σ (Option Value) :=
  ExceptT.lift (visitor place v)

/-- Visits a node and everything inside, at most `depth` levels down. -/
def node (registry : Registry) (strict : Bool) (visitor : Visitor σ) : Nat → NodeStep σ
  | 0, _, _, _, _ => throw .tooDeep
  | depth + 1, type, field, path, v => do
    match ← visit visitor ⟨path, field⟩ v with
    | none => pure none
    | some v =>
      match descent registry strict type field path v with
      | .error e => throw e
      | .ok (.stop v) => pure (some v)
      | .ok (.items vs type field) =>
        let kept ← itemsWith (node registry strict visitor depth) type field path vs
        pure (some (.list kept))
      | .ok (.entries vs keys) =>
        let kept ← fieldsWith (node registry strict visitor depth) keys path vs
        pure (kept.map .map)

/-! ## Walks over elements -/

/-- How deep list types stand inside each other, at most, among an object type and the types
that are registered. -/
def listNesting (registry : Registry) (o : ObjectType) : Nat :=
  let types := (o :: registry.map (·.2)).flatMap
    (fun o => o.fields.map (fun f => f.2.type) ++ o.annotationTypes.map (·.2))
  types.foldl (fun n t => max n t.listNesting) 0

/-- A depth that is enough for a visitor that never makes a node larger. -/
def depthBound (registry : Registry) (o : ObjectType) (vs : Fields) : Nat :=
  (Value.map vs).nodeCount * (1 + listNesting registry o)

/-- Walks over fields of an object type.  There is no result if there were fields and all of
them were dropped. -/
def fields (registry : Registry) (strict : Bool) (visitor : Visitor σ) (depth : Nat)
    (o : ObjectType) (path : ElementId) (vs : Fields) : WalkM σ (Option Fields) :=
  fieldsWith (node registry strict visitor depth) (.fields o) path vs

/-- Walks over the annotations of an object type. -/
def annotations (registry : Registry) (strict : Bool) (visitor : Visitor σ) (depth : Nat)
    (o : ObjectType) : WalkM σ (Option Fields) :=
  fieldsWith (node registry strict visitor depth) (.annotations o) o.id o.annotations

/-- Walks over the fields of an instance, whose type has to be registered. -/
def ofInstance (registry : Registry) (strict : Bool) (visitor : Visitor σ) (depth : Nat)
    (i : Instance) : WalkM σ Fields :=
  match registry.find? i.type.fullName with
  | none => throw (.unknownType i.type.fullName)
  | some o => do
    let kept ← fields registry strict visitor depth o i.id i.value
    pure (kept.getD [])

/-- The visitor that keeps every node. -/
def keepAll : Visitor Unit :=
  fun _ v s => (some v, s)

end Walk

end AccountSync
