/-
  AccountSync.Proofs.Schema.Conformance
  ─────────────────────────────────────
  **A STRICT WALK DECIDES WHETHER A TREE CONFORMS TO ITS TYPES.**

  A tree conforms to a type if every node has the shape that the type declared for it asks
  for.  Types refer to each other by name, so what is declared below a node depends on the
  registry; below a node without a type nothing is declared.  A strict walk that keeps every
  node gives a conforming tree back, and otherwise fails at the first node in its way.

      Conforms                     — the trees that conform to a type
      nodesOf                      — the nodes of a tree in the order of a walk, with their types
      TypedNode.fault?             — what is wrong with a node by itself
      conforms_iff                 — a tree conforms if nothing is wrong with any node
      Walk.node_keepAll            — a strict walk stops at the first node with a fault
      Walk.strict_decides          — a strict walk over fields decides whether they conform
-/
import AccountSync.Proofs.Value.Paths
import AccountSync.Schema.Walk

namespace AccountSync

open Value (positionText)

/-! ## §1. Conformance. -/

/-- The type that an object type declares for a field. -/
def ObjectType.typeOf? (o : ObjectType) (key : String) : Option FieldType :=
  (o.field? key).map Field.type

/-- The type of a field is the one that the object type declares. -/
theorem KeyTypes.lookup_fields (o : ObjectType) (key : String) :
    (KeyTypes.lookup (.fields o) key).1 = o.typeOf? key := by
  simp only [KeyTypes.lookup, ObjectType.typeOf?]
  cases o.field? key <;> rfl

/-- The values that conform to a type.  Anything does where no type is declared or the kind is
unknown, and references and templates conform to every type. -/
inductive Conforms (registry : Registry) : Option FieldType → Value → Prop where
  | undeclared (v : Value) : Conforms registry none v
  | unknown (v : Value) : Conforms registry (some (.primitive .unknown)) v
  | reference (type : Option FieldType) (r : Reference) : Conforms registry type (.reference r)
  | template (type : Option FieldType) (parts : List Part) :
      Conforms registry type (.template parts)
  | scalar (kind : Primitive) {v : Value} : v.map? = none → v.list? = none →
      Conforms registry (some (.primitive kind)) v
  | noList (item : FieldType) : Conforms registry (some (.list item)) .null
  | list {item : FieldType} {vs : List Value} : (∀ v ∈ vs, Conforms registry (some item) v) →
      Conforms registry (some (.list item)) (.list vs)
  | noMap (value : FieldType) : Conforms registry (some (.map value)) .null
  | map {value : FieldType} {vs : Fields} : (∀ e ∈ vs, Conforms registry (some value) e.2) →
      Conforms registry (some (.map value)) (.map vs)
  | noObject (name : String) : Conforms registry (some (.object name)) .null
  | object {name : String} {o : ObjectType} {vs : Fields} : registry.find? name = some o →
      (∀ e ∈ vs, Conforms registry (o.typeOf? e.1) e.2) →
      Conforms registry (some (.object name)) (.map vs)
  | unregistered {name : String} (vs : Fields) : registry.find? name = none →
      Conforms registry (some (.object name)) (.map vs)

/-- Fields conform to an object type if each one that it declares does. -/
def ObjectType.Admits (registry : Registry) (o : ObjectType) (vs : Fields) : Prop :=
  ∀ e ∈ vs, Conforms registry (o.typeOf? e.1) e.2

/-! ## §2. The nodes of a tree. -/

/-- The type of what is under a key of a map that has a type itself. -/
def entryType (registry : Registry) : Option FieldType → String → Option FieldType
  | some (.map value), _ => some value
  | some (.object name), key => (registry.find? name).bind (fun o => o.typeOf? key)
  | _, _ => none

/-- The type of the items of a list that has a type itself. -/
def itemType : Option FieldType → Option FieldType
  | some (.list item) => some item
  | _ => none

/-- A node of a tree: its place, the type that is declared there, and what is there. -/
structure TypedNode where
  place : ElementId
  type : Option FieldType
  value : Value

mutual

/-- The nodes of a tree with their types, parents before children, entries in order and items by
position. -/
def nodesOf (registry : Registry) (type : Option FieldType) (place : ElementId) :
    Value → List TypedNode
  | .map vs => ⟨place, type, .map vs⟩ :: entryNodes registry (entryType registry type) place vs
  | .list vs => ⟨place, type, .list vs⟩ :: itemNodes registry (itemType type) place 0 vs
  | v => [⟨place, type, v⟩]

/-- The nodes of the entries of a map. -/
def entryNodes (registry : Registry) (typeOf : String → Option FieldType) (place : ElementId) :
    List (String × Value) → List TypedNode
  | [] => []
  | (key, v) :: rest =>
    nodesOf registry (typeOf key) (place.nest [key]) v ++ entryNodes registry typeOf place rest

/-- The nodes of the items of a list from a position on. -/
def itemNodes (registry : Registry) (type : Option FieldType) (place : ElementId) :
    Nat → List Value → List TypedNode
  | _, [] => []
  | n, v :: rest =>
    nodesOf registry type (place.nest [positionText n]) v
      ++ itemNodes registry type place (n + 1) rest

end

namespace FieldType

/-- Whether a value has the shape that the type asks for, whatever is inside of it. -/
def fits : FieldType → Value → Bool
  | _, .reference _ => true
  | _, .template _ => true
  | .primitive .unknown, _ => true
  | .primitive _, .map _ => false
  | .primitive _, .list _ => false
  | .primitive _, _ => true
  | .list _, .list _ => true
  | .map _, .map _ => true
  | .object _, .map _ => true
  | _, .null => true
  | _, _ => false

theorem fits_null (type : FieldType) : type.fits .null = true := by
  match type with
  | .primitive kind => cases kind <;> rfl
  | .list _ | .map _ | .object _ => rfl

/-- The shape that the type asks for, as it is called in messages. -/
def expectation : FieldType → String
  | .primitive kind => kind.name
  | .list _ => "list"
  | .map _ => "map"
  | .object name => name

end FieldType

namespace TypedNode

/-- What is wrong with a node by itself: it does not have the shape that its type asks for. -/
def fault? (n : TypedNode) : Option Failure :=
  match n.type with
  | none => none
  | some type =>
    if type.fits n.value then none
    else some (.schemaMismatch n.place type.expectation n.value.shape)

/-- A fault names the node. -/
theorem fault?_eq_some {n : TypedNode} {e : Failure} (h : n.fault? = some e) :
    ∃ type, n.type = some type ∧ type.fits n.value = false
      ∧ e = .schemaMismatch n.place type.expectation n.value.shape := by
  unfold fault? at h
  split at h
  · exact absurd h nofun
  next type htype =>
    split at h
    · exact absurd h nofun
    next hfits =>
      exact ⟨type, htype, Bool.eq_false_iff.mpr hfits, (Option.some.inj h).symm⟩

end TypedNode

/-! ## §3. A tree conforms if nothing is wrong with any node. -/

variable {registry : Registry} {type : Option FieldType}

/-- A map conforms if it fits by itself and its entries conform. -/
theorem conforms_map_iff (place : ElementId) (vs : Fields) :
    Conforms registry type (.map vs)
      ↔ TypedNode.fault? ⟨place, type, .map vs⟩ = none
        ∧ ∀ e ∈ vs, Conforms registry (entryType registry type e.1) e.2 := by
  match type with
  | none => exact ⟨fun _ => ⟨rfl, fun e _ => .undeclared e.2⟩, fun _ => .undeclared _⟩
  | some (.primitive .unknown) =>
    exact ⟨fun _ => ⟨rfl, fun e _ => .undeclared e.2⟩, fun _ => .unknown _⟩
  | some (.primitive .string) | some (.primitive .number) | some (.primitive .boolean) =>
    refine ⟨?_, fun h => absurd h.1 nofun⟩
    intro h
    cases h with
    | scalar _ hmap _ => exact absurd hmap nofun
  | some (.list _) => exact ⟨nofun, fun h => absurd h.1 nofun⟩
  | some (.map value) =>
    constructor
    · intro h
      cases h with
      | map h => exact ⟨rfl, h⟩
    · exact fun h => .map h.2
  | some (.object name) =>
    cases hfind : registry.find? name with
    | none =>
      refine ⟨fun _ => ⟨rfl, fun e _ => ?_⟩, fun _ => .unregistered vs hfind⟩
      simp only [entryType, hfind, Option.bind_none]
      exact .undeclared e.2
    | some o =>
      simp only [entryType, hfind, Option.bind_some]
      constructor
      · intro h
        cases h with
        | object hfind' h =>
          obtain rfl := Option.some.inj (hfind'.symm.trans hfind)
          exact ⟨rfl, h⟩
        | unregistered _ hfind' => exact absurd (hfind'.symm.trans hfind) nofun
      · exact fun h => .object hfind h.2

/-- A list conforms if it fits by itself and its items conform. -/
theorem conforms_list_iff (place : ElementId) (vs : List Value) :
    Conforms registry type (.list vs)
      ↔ TypedNode.fault? ⟨place, type, .list vs⟩ = none
        ∧ ∀ v ∈ vs, Conforms registry (itemType type) v := by
  match type with
  | none => exact ⟨fun _ => ⟨rfl, fun v _ => .undeclared v⟩, fun _ => .undeclared _⟩
  | some (.primitive .unknown) =>
    exact ⟨fun _ => ⟨rfl, fun v _ => .undeclared v⟩, fun _ => .unknown _⟩
  | some (.primitive .string) | some (.primitive .number) | some (.primitive .boolean) =>
    refine ⟨?_, fun h => absurd h.1 nofun⟩
    intro h
    cases h with
    | scalar _ _ hlist => exact absurd hlist nofun
  | some (.map _) | some (.object _) => exact ⟨nofun, fun h => absurd h.1 nofun⟩
  | some (.list item) =>
    constructor
    · intro h
      cases h with
      | list h => exact ⟨rfl, h⟩
    · exact fun h => .list h.2

/-- Every type accepts that nothing is there. -/
theorem Conforms.null (type : Option FieldType) : Conforms registry type .null :=
  match type with
  | none => .undeclared .null
  | some (.primitive kind) => .scalar kind rfl rfl
  | some (.list item) => .noList item
  | some (.map value) => .noMap value
  | some (.object name) => .noObject name

/-- What is not entered whatever its type has no fault. -/
theorem fault?_of_fits {place : ElementId} {v : Value} (h : ∀ t : FieldType, t.fits v = true) :
    TypedNode.fault? ⟨place, type, v⟩ = none := by
  cases type with
  | none => rfl
  | some t => exact if_pos (h t)

/-- A node without children conforms if it fits. -/
theorem conforms_leaf_iff (place : ElementId) {v : Value} (hmap : v.map? = none)
    (hlist : v.list? = none) :
    Conforms registry type v ↔ TypedNode.fault? ⟨place, type, v⟩ = none := by
  cases v with
  | map | list => contradiction
  | null => exact iff_of_true (.null type) (fault?_of_fits FieldType.fits_null)
  | reference r => exact iff_of_true (.reference type r) (fault?_of_fits fun _ => rfl)
  | template parts => exact iff_of_true (.template type parts) (fault?_of_fits fun _ => rfl)
  | bool | number | string =>
    match type with
    | none => exact iff_of_true (.undeclared _) rfl
    | some (.primitive kind) =>
      refine iff_of_true (.scalar kind hmap hlist) (if_pos ?_)
      cases kind <;> rfl
    | some (.list _) | some (.map _) | some (.object _) => exact iff_of_false nofun nofun

/-- A node without children is the only node of its tree. -/
theorem nodesOf_leaf {place : ElementId} {v : Value} (hmap : v.map? = none)
    (hlist : v.list? = none) : nodesOf registry type place v = [⟨place, type, v⟩] := by
  cases v with
  | map | list => contradiction
  | _ => rfl

theorem forall_entryNodes_iff {P : TypedNode → Prop} (typeOf : String → Option FieldType)
    (place : ElementId) {vs : Fields}
    (h : ∀ e ∈ vs, ∀ type place, Conforms registry type e.2
      ↔ ∀ n ∈ nodesOf registry type place e.2, P n) :
    (∀ e ∈ vs, Conforms registry (typeOf e.1) e.2)
      ↔ ∀ n ∈ entryNodes registry typeOf place vs, P n := by
  induction vs with
  | nil => exact iff_of_true nofun nofun
  | cons e rest ih =>
    rw [List.forall_mem_cons] at h
    rw [List.forall_mem_cons, h.1 (typeOf e.1) (place.nest [e.1]), ih h.2,
      ← List.forall_mem_append]
    rfl

theorem forall_itemNodes_iff {P : TypedNode → Prop} (place : ElementId) (n : Nat) {vs : List Value}
    (h : ∀ v ∈ vs, ∀ type place, Conforms registry type v
      ↔ ∀ n ∈ nodesOf registry type place v, P n) :
    (∀ v ∈ vs, Conforms registry type v) ↔ ∀ m ∈ itemNodes registry type place n vs, P m := by
  induction vs generalizing n with
  | nil => exact iff_of_true nofun nofun
  | cons v rest ih =>
    rw [List.forall_mem_cons] at h
    rw [List.forall_mem_cons, h.1 type (place.nest [positionText n]), ih (n + 1) h.2,
      ← List.forall_mem_append]
    rfl

/-- **A tree conforms exactly if nothing is wrong with any of its nodes.** -/
theorem conforms_iff (type : Option FieldType) (place : ElementId) (v : Value) :
    Conforms registry type v ↔ ∀ n ∈ nodesOf registry type place v, n.fault? = none := by
  induction v using Value.member_induction generalizing type place with
  | map vs ih =>
    rw [conforms_map_iff place, forall_entryNodes_iff _ place ih]
    unfold nodesOf
    rw [List.forall_mem_cons]
  | list vs ih =>
    rw [conforms_list_iff place, forall_itemNodes_iff place 0 ih]
    unfold nodesOf
    rw [List.forall_mem_cons]
  | leaf v hmap hlist =>
    rw [conforms_leaf_iff place hmap hlist, nodesOf_leaf hmap hlist, List.forall_mem_singleton]

/-! ## §4. Strict walks. -/

/-- Goes on with a result unless one of the nodes has a fault; the first one decides. -/
def verdict {α : Type} (nodes : List TypedNode) (result : α) : WalkM Unit α :=
  match nodes.findSome? TypedNode.fault? with
  | none => pure result
  | some e => throw e

theorem verdict_cons {α : Type} {n : TypedNode} (h : n.fault? = none) (nodes : List TypedNode)
    (result : α) : verdict (n :: nodes) result = verdict nodes result := by
  unfold verdict
  rw [List.findSome?_cons, h]

theorem verdict_of_fault {α : Type} {n : TypedNode} {e : Failure} (h : n.fault? = some e)
    (nodes : List TypedNode) (result : α) : verdict (n :: nodes) result = throw e := by
  unfold verdict
  rw [List.findSome?_cons, h]

/-- Nodes in a row are judged in a row. -/
theorem verdict_bind {α β : Type} (nodes : List TypedNode) {later : List TypedNode} {a : α} {b : β}
    {f : α → WalkM Unit β} (h : f a = verdict later b) :
    (verdict nodes a >>= f) = verdict (nodes ++ later) b := by
  unfold verdict at h ⊢
  rw [List.findSome?_append]
  cases nodes.findSome? TypedNode.fault? with
  | none => exact h
  | some e => rfl

theorem verdict_map {α β : Type} (f : α → β) (nodes : List TypedNode) (a : α) :
    (verdict nodes a >>= fun a => pure (f a)) = verdict nodes (f a) := by
  have h : (verdict nodes a >>= fun a => pure (f a)) = verdict (nodes ++ []) (f a) :=
    verdict_bind nodes rfl
  rwa [List.append_nil] at h

namespace Walk

/-- A node with a fault is where a strict walk fails. -/
theorem descent_of_fault {path : ElementId} {v : Value} {e : Failure} (field : Option Field)
    (h : TypedNode.fault? ⟨path, type, v⟩ = some e) :
    descent registry true type field path v = .error e := by
  obtain ⟨t, rfl, hfits, rfl⟩ := TypedNode.fault?_eq_some h
  match t with
  | .primitive kind => cases kind <;> cases v <;> first | rfl | exact absurd hfits nofun
  | .list _ | .map _ | .object _ => cases v <;> first | rfl | exact absurd hfits nofun

/-- A map without a fault is entered, and its entries have the types that it gives them. -/
theorem descent_map (registry : Registry) {path : ElementId} {vs : Fields} (field : Option Field)
    (h : TypedNode.fault? ⟨path, type, .map vs⟩ = none) :
    ∃ keys : KeyTypes, descent registry true type field path (.map vs) = .ok (.entries vs keys)
      ∧ ∀ key, (keys.lookup key).1 = entryType registry type key := by
  match type with
  | none | some (.primitive .unknown) => exact ⟨.uniform none none, rfl, fun _ => rfl⟩
  | some (.primitive .string) | some (.primitive .number) | some (.primitive .boolean)
  | some (.list _) => exact absurd h nofun
  | some (.map value) => exact ⟨.uniform (some value) field, rfl, fun _ => rfl⟩
  | some (.object name) =>
    cases hfind : registry.find? name with
    | none =>
      refine ⟨.uniform none none, ?_, fun key => ?_⟩
      · simp only [descent, hfind, untyped]
      · simp only [entryType, hfind, Option.bind_none, KeyTypes.lookup]
    | some o =>
      refine ⟨.fields o, ?_, fun key => ?_⟩
      · simp only [descent, hfind]
      · simp only [entryType, hfind, Option.bind_some, KeyTypes.lookup, ObjectType.typeOf?]
        cases o.field? key <;> rfl

/-- A list without a fault is entered, and its items have the type that it gives them. -/
theorem descent_list (registry : Registry) {path : ElementId} {vs : List Value}
    (field : Option Field)
    (h : TypedNode.fault? ⟨path, type, .list vs⟩ = none) :
    ∃ itemField, descent registry true type field path (.list vs)
      = .ok (.items vs (itemType type) itemField) := by
  match type with
  | none | some (.primitive .unknown) => exact ⟨none, rfl⟩
  | some (.primitive .string) | some (.primitive .number) | some (.primitive .boolean)
  | some (.map _) | some (.object _) => exact absurd h nofun
  | some (.list item) => exact ⟨field, rfl⟩

/-- A node without children and without a fault is left as it is. -/
theorem descent_leaf {path : ElementId} {v : Value} (field : Option Field)
    (hmap : v.map? = none) (hlist : v.list? = none)
    (h : TypedNode.fault? ⟨path, type, v⟩ = none) :
    descent registry true type field path v = .ok (.stop v) := by
  cases v with
  | map | list => contradiction
  | reference | template => rfl
  | null | bool | number | string =>
    match type with
    | none => rfl
    | some (.primitive kind) => cases kind <;> rfl
    | some (.list _) | some (.map _) | some (.object _) => first | rfl | exact absurd h nofun

/-- The entries of a map are judged in order. -/
theorem entries_verdict {step : String → Value → WalkM Unit (Option Value)}
    {typeOf : String → Option FieldType} {path : ElementId} {vs : Fields}
    (h : ∀ e ∈ vs, step e.1 e.2
      = verdict (nodesOf registry (typeOf e.1) (path.nest [e.1]) e.2) (some e.2)) :
    entries step vs = verdict (entryNodes registry typeOf path vs) vs := by
  induction vs with
  | nil => rfl
  | cons e rest ih =>
    obtain ⟨key, v⟩ := e
    rw [List.forall_mem_cons] at h
    unfold entries
    rw [h.1, ih h.2]
    exact verdict_bind _ (verdict_map (fun others => (key, v) :: others) _ rest)

/-- The items of a list are judged in order. -/
theorem items_verdict {step : Nat → Value → WalkM Unit (Option Value)} {path : ElementId}
    {vs : List Value} (n : Nat)
    (h : ∀ n, ∀ v ∈ vs, step n v
      = verdict (nodesOf registry type (path.nest [positionText n]) v) (some v)) :
    items step n vs = verdict (itemNodes registry type path n vs) vs := by
  induction vs generalizing n with
  | nil => rfl
  | cons v rest ih =>
    unfold items
    rw [h n v List.mem_cons_self, ih (n + 1) fun n v hv => h n v (List.mem_cons_of_mem _ hv)]
    exact verdict_bind _ (verdict_map (fun others => v :: others) _ rest)

/-- No map gets empty by a walk that keeps all entries. -/
theorem unlessEmptied_self (vs : Fields) : unlessEmptied vs vs = some vs := by
  cases vs <;> rfl

theorem fieldsWith_verdict {node : NodeStep Unit} {keys : KeyTypes}
    {typeOf : String → Option FieldType} (hkeys : ∀ key, (keys.lookup key).1 = typeOf key)
    {path : ElementId} {vs : Fields}
    (h : ∀ e ∈ vs, ∀ field place, node (typeOf e.1) field place e.2
      = verdict (nodesOf registry (typeOf e.1) place e.2) (some e.2)) :
    fieldsWith node keys path vs = verdict (entryNodes registry typeOf path vs) (some vs) := by
  have hkept : entries
      (fun key v => node (keys.lookup key).1 (keys.lookup key).2 (path.nest [key]) v) vs
        = verdict (entryNodes registry typeOf path vs) vs := by
    refine entries_verdict fun e he => ?_
    rw [hkeys]
    exact h e he _ _
  unfold fieldsWith
  rw [hkept, verdict_map, unlessEmptied_self]

theorem itemsWith_verdict {node : NodeStep Unit} {field : Option Field} {path : ElementId}
    {vs : List Value}
    (h : ∀ v ∈ vs, ∀ place, node type field place v
      = verdict (nodesOf registry type place v) (some v)) :
    itemsWith node type field path vs = verdict (itemNodes registry type path 0 vs) vs :=
  items_verdict 0 fun n v hv => h v hv (path.nest [positionText n])

/-- What a walk that keeps every node makes of one node. -/
theorem node_succ (strict : Bool) (depth : Nat) (field : Option Field) (path : ElementId)
    (v : Value) :
    node registry strict keepAll (depth + 1) type field path v
      = (match descent registry strict type field path v with
        | .error e => throw e
        | .ok (.stop v) => pure (some v)
        | .ok (.items vs type field) =>
          itemsWith (node registry strict keepAll depth) type field path vs
            >>= fun kept => pure (some (.list kept))
        | .ok (.entries vs keys) =>
          fieldsWith (node registry strict keepAll depth) keys path vs
            >>= fun kept => pure (kept.map .map)) :=
  rfl

/-- **A strict walk that keeps every node is judged by the nodes of the tree**, as long as it may
go down far enough. -/
theorem node_keepAll {depth : Nat} {v : Value} (hdepth : v.nodeCount ≤ depth)
    (type : Option FieldType) (field : Option Field) (path : ElementId) :
    node registry true keepAll depth type field path v
      = verdict (nodesOf registry type path v) (some v) := by
  induction v using Value.member_induction generalizing depth type field path with
  | map vs ih =>
    have hentries : 1 + Value.entryCount vs ≤ depth := hdepth
    obtain ⟨depth, rfl⟩ : ∃ d, depth = d + 1 := ⟨depth - 1, by omega⟩
    rw [node_succ]
    unfold nodesOf
    cases hfault : TypedNode.fault? ⟨path, type, .map vs⟩ with
    | some e => rw [descent_of_fault field hfault, verdict_of_fault hfault]
    | none =>
      obtain ⟨keys, hdescent, hkeys⟩ := descent_map registry field hfault
      have hkept : fieldsWith (node registry true keepAll depth) keys path vs
          = verdict (entryNodes registry (entryType registry type) path vs) (some vs) := by
        refine fieldsWith_verdict hkeys fun e he field place => ?_
        have := Value.nodeCount_le_entryCount he
        exact ih e he (by omega) _ field place
      simp only [hdescent, hkept]
      rw [verdict_map, verdict_cons hfault]
      rfl
  | list vs ih =>
    have hitems : 1 + Value.itemCount vs ≤ depth := hdepth
    obtain ⟨depth, rfl⟩ : ∃ d, depth = d + 1 := ⟨depth - 1, by omega⟩
    rw [node_succ]
    unfold nodesOf
    cases hfault : TypedNode.fault? ⟨path, type, .list vs⟩ with
    | some e => rw [descent_of_fault field hfault, verdict_of_fault hfault]
    | none =>
      obtain ⟨itemField, hdescent⟩ := descent_list registry field hfault
      have hkept : itemsWith (node registry true keepAll depth) (itemType type) itemField path vs
          = verdict (itemNodes registry (itemType type) path 0 vs) vs := by
        refine itemsWith_verdict fun v hv place => ?_
        have := Value.nodeCount_le_itemCount hv
        exact ih v hv (by omega) (itemType type) itemField place
      simp only [hdescent, hkept]
      rw [verdict_map, verdict_cons hfault]
  | leaf v hmap hlist =>
    have hpos : 0 < v.nodeCount := v.nodeCount_pos
    obtain ⟨depth, rfl⟩ : ∃ d, depth = d + 1 := ⟨depth - 1, by omega⟩
    rw [node_succ, nodesOf_leaf hmap hlist]
    cases hfault : TypedNode.fault? ⟨path, type, v⟩ with
    | some e => rw [descent_of_fault field hfault, verdict_of_fault hfault]
    | none =>
      rw [descent_leaf field hmap hlist hfault, verdict_cons hfault]
      rfl

end Walk

/-! ## §5. Walks over the fields of an element. -/

/-- The nodes of the fields of an element, in the order of a walk. -/
def ObjectType.nodes (registry : Registry) (o : ObjectType) (path : ElementId) (vs : Fields) :
    List TypedNode :=
  entryNodes registry o.typeOf? path vs

/-- Fields conform exactly if nothing is wrong with any of their nodes. -/
theorem ObjectType.admits_iff (o : ObjectType) (path : ElementId) (vs : Fields) :
    o.Admits registry vs ↔ ∀ n ∈ o.nodes registry path vs, n.fault? = none :=
  forall_entryNodes_iff o.typeOf? path fun e _ type place => conforms_iff type place e.2

/-- A strict walk over the fields of an element is judged by their nodes. -/
theorem Walk.fields_keepAll {depth : Nat} {vs : Fields} (hdepth : Value.entryCount vs ≤ depth)
    (o : ObjectType) (path : ElementId) :
    fields registry true keepAll depth o path vs
      = verdict (o.nodes registry path vs) (some vs) := by
  show fieldsWith _ _ path vs = verdict (entryNodes registry o.typeOf? path vs) (some vs)
  refine fieldsWith_verdict (KeyTypes.lookup_fields o) fun e he field place => ?_
  exact node_keepAll (Nat.le_trans (Value.nodeCount_le_entryCount he) hdepth) _ field place

/-- The depth that walks are given is enough for every value. -/
theorem Walk.entryCount_le_depthBound (registry : Registry) (o : ObjectType) (vs : Fields) :
    Value.entryCount vs ≤ depthBound registry o vs := by
  have h : (Value.map vs).nodeCount ≤ depthBound registry o vs :=
    Nat.le_mul_of_pos_right _ (Nat.lt_of_lt_of_le Nat.zero_lt_one (Nat.le_add_right 1 _))
  have hcount : (Value.map vs).nodeCount = 1 + Value.entryCount vs := rfl
  omega

/-- **A strict walk that keeps every node decides conformance.**  Fields that conform come back as
they are.  Other fields fail at the first node, in the order of the walk, that does not have the
shape its type asks for, and the failure names the place, that shape and the one found. -/
theorem Walk.strict_decides (registry : Registry) (o : ObjectType) (path : ElementId)
    (vs : Fields) (extra : Nat) :
    (o.Admits registry vs →
      fields registry true keepAll (depthBound registry o vs + extra) o path vs
        = pure (some vs))
    ∧ (¬o.Admits registry vs →
      ∃ earlier n later type,
        o.nodes registry path vs = earlier ++ n :: later
        ∧ (∀ m ∈ earlier, m.fault? = none)
        ∧ n.type = some type ∧ type.fits n.value = false
        ∧ fields registry true keepAll (depthBound registry o vs + extra) o path vs
          = throw (.schemaMismatch n.place type.expectation n.value.shape)) := by
  have hdepth : Value.entryCount vs ≤ depthBound registry o vs + extra :=
    Nat.le_trans (entryCount_le_depthBound registry o vs) (Nat.le_add_right _ _)
  rw [o.admits_iff path, fields_keepAll hdepth o path]
  unfold verdict
  cases hfirst : (o.nodes registry path vs).findSome? TypedNode.fault? with
  | none =>
    have hnone := List.findSome?_eq_none_iff.mp hfirst
    exact ⟨fun _ => rfl, fun h => absurd hnone h⟩
  | some e =>
    obtain ⟨earlier, n, later, hsplit, hfault, hearlier⟩ := List.findSome?_eq_some_iff.mp hfirst
    obtain ⟨type, htype, hfits, rfl⟩ := TypedNode.fault?_eq_some hfault
    refine ⟨fun h => ?_, fun _ => ⟨earlier, n, later, type, hsplit, hearlier, htype, hfits, rfl⟩⟩
    have hn : n ∈ o.nodes registry path vs := hsplit ▸ List.mem_append_right _ List.mem_cons_self
    exact absurd (h n hn) (hfault ▸ nofun)

/-- A type whose fields are of that type again.  The walk enters the list and the section inside of
it before it fails. -/
theorem Walk.strict_decides_for_sections :
    let sections : ObjectType :=
      (ObjectType.mk (.ofType "z" "section") [] [] []).withField "children"
        (.list (.object "z.section"))
    let registry : Registry := .ofTypes [sections]
    let path : ElementId := .ofInstance "z" "section" "s"
    let conforming : Fields := [("children", .list [.map [("children", .null)]])]
    let other : Fields := [("children", .list [.map [("children", .string "x")]])]
    fields registry true keepAll (depthBound registry sections conforming + 0) sections path
        conforming = pure (some conforming)
      ∧ fields registry true keepAll (depthBound registry sections other + 0) sections path other
        = throw (.schemaMismatch (path.nest ["children", "0", "children"]) "list" "string") := by
  intro sections registry path conforming other
  have hconforming : sections.Admits registry conforming := by
    rw [sections.admits_iff path]
    have hnone : ∀ n ∈ sections.nodes registry path conforming, n.fault?.isNone := by
      decide +kernel
    exact fun n hn => Option.isNone_iff_eq_none.mp (hnone n hn)
  have hfirst : ((sections.nodes registry path other).find? fun n => n.fault?.isSome).map
      (fun n => (n.place, n.type.map FieldType.expectation, n.value.shape))
        = some (path.nest ["children", "0", "children"], some "list", "string") := by
    decide +kernel
  have hother : ¬sections.Admits registry other := by
    intro h
    rw [sections.admits_iff path] at h
    rw [List.find?_eq_none.mpr fun n hn => by simp only [h n hn, Option.isSome_none]; nofun]
      at hfirst
    exact absurd hfirst nofun
  refine ⟨(strict_decides registry sections path conforming 0).1 hconforming, ?_⟩
  obtain ⟨earlier, n, later, type, hsplit, hearlier, htype, hfits, hwalk⟩ :=
    (strict_decides registry sections path other 0).2 hother
  have hfault : n.fault?.isSome := by
    simp only [TypedNode.fault?, htype, hfits, Bool.false_eq_true, if_false, Option.isSome_some]
  have hfind : (sections.nodes registry path other).find? (fun n => n.fault?.isSome) = some n :=
    List.find?_eq_some_iff_append.mpr
      ⟨hfault, earlier, later, hsplit, fun m hm => by rw [hearlier m hm]; rfl⟩
  rw [hfind] at hfirst
  simp only [Option.map_some, htype, Option.some.injEq, Prod.mk.injEq] at hfirst
  obtain ⟨hplace, hexpected, hshape⟩ := hfirst
  rw [hwalk, hplace, hexpected, hshape]

end AccountSync
