/-
  AccountSync.Proofs.Schema.Wrapped
  ─────────────────────────────────
  **BARE ITEMS ARE PUT INTO LISTS IN ONE WAY, AND ONCE.**

  What becomes of a tree when bare values are put into lists depends on the declared types alone:
  there is one result, it is its own result, and permuted items come to permuted items.  Where
  all elements have different identifiers each type gets its own annotations back, so the same
  goes for all elements at once, and it never fails.

      Wraps.unique, Wraps.settled  — one result, which is its own
      WrapsItems.perm              — permuted items
      Element.Wrapped              — an element with its bare values in lists
      Coercion.wrapped_spec        — all elements
      Coercion.wrapped_again       — a second time
-/
import AccountSync.Proofs.Lookup.Tables
import AccountSync.Proofs.Schema.Coercion
import Mathlib.Data.List.Perm.Basic

namespace AccountSync

open List (Forall₂)

variable {registry registry' : Registry} {type : Option FieldType}

/-! ## §1. Trees. -/

section Trees

variable {typeOf : String → Option FieldType}

mutual

/-- There is one way to put bare values into lists. -/
theorem Wraps.unique {type : Option FieldType} {v w w' : Value} (h : Wraps registry type v w)
    (h' : Wraps registry type v w') : w = w' := by
  match h, h' with
  | .bare _ hw, .bare _ hw' => rw [hw.unique hw']
  | .bare hbare _, .leaf _ _ hleaf => exact absurd ⟨⟨_, rfl⟩, hbare⟩ hleaf
  | .bare hbare _, .list _ => exact absurd hbare nofun
  | .bare _ _, .map hlists _ => exact absurd ⟨_, rfl⟩ hlists
  | .leaf _ _ hleaf, .bare hbare _ => exact absurd ⟨⟨_, rfl⟩, hbare⟩ hleaf
  | .leaf _ _ _, .leaf _ _ _ => rfl
  | .leaf _ hlist _, .list _ => exact absurd hlist nofun
  | .leaf hmap _ _, .map _ _ => exact absurd hmap nofun
  | .list _, .bare hbare _ => exact absurd hbare nofun
  | .list _, .leaf _ hlist _ => exact absurd hlist nofun
  | .list hws, .list hws' => rw [hws.unique hws']
  | .map hlists _, .bare _ _ => exact absurd ⟨_, rfl⟩ hlists
  | .map _ _, .leaf hmap _ _ => exact absurd hmap nofun
  | .map _ hws, .map _ hws' => rw [hws.unique hws']

theorem WrapsItems.unique {type : Option FieldType} {vs ws ws' : List Value}
    (h : WrapsItems registry type vs ws) (h' : WrapsItems registry type vs ws') : ws = ws' := by
  match h, h' with
  | .nil, .nil => rfl
  | .cons hw hws, .cons hw' hws' => rw [hw.unique hw', hws.unique hws']

theorem WrapsEntries.unique {typeOf : String → Option FieldType} {vs ws ws' : Fields}
    (h : WrapsEntries registry typeOf vs ws) (h' : WrapsEntries registry typeOf vs ws') :
    ws = ws' := by
  match h, h' with
  | .nil, .nil => rfl
  | .cons hw hws, .cons hw' hws' => rw [hw.unique hw', hws.unique hws']

end

mutual

/-- What was put into lists stays as it is. -/
theorem Wraps.settled {type : Option FieldType} {v w : Value} (h : Wraps registry type v w) :
    Wraps registry type w w := by
  match h with
  | .bare _ hw => exact .list (.cons hw.settled .nil)
  | .leaf hmap hlist hleaf => exact .leaf hmap hlist hleaf
  | .list hws => exact .list hws.settled
  | .map hlists hws => exact .map hlists hws.settled

theorem WrapsItems.settled {type : Option FieldType} {vs ws : List Value}
    (h : WrapsItems registry type vs ws) : WrapsItems registry type ws ws := by
  match h with
  | .nil => exact .nil
  | .cons hw hws => exact .cons hw.settled hws.settled

theorem WrapsEntries.settled {typeOf : String → Option FieldType} {vs ws : Fields}
    (h : WrapsEntries registry typeOf vs ws) : WrapsEntries registry typeOf ws ws := by
  match h with
  | .nil => exact .nil
  | .cons hw hws => exact .cons hw.settled hws.settled

end

mutual

/-- What is put into lists depends on the types of entries alone. -/
theorem Wraps.transport (hsame : entryType registry = entryType registry')
    {type : Option FieldType} {v w : Value} (h : Wraps registry type v w) :
    Wraps registry' type v w := by
  match h with
  | .bare hbare hw => exact .bare hbare (hw.transport hsame)
  | .leaf hmap hlist hleaf => exact .leaf hmap hlist hleaf
  | .list hws => exact .list (hws.transport hsame)
  | .map hlists hws => exact .map hlists (hsame ▸ hws.transport hsame)

theorem WrapsItems.transport (hsame : entryType registry = entryType registry')
    {type : Option FieldType} {vs ws : List Value} (h : WrapsItems registry type vs ws) :
    WrapsItems registry' type vs ws := by
  match h with
  | .nil => exact .nil
  | .cons hw hws => exact .cons (hw.transport hsame) (hws.transport hsame)

theorem WrapsEntries.transport (hsame : entryType registry = entryType registry')
    {typeOf : String → Option FieldType} {vs ws : Fields}
    (h : WrapsEntries registry typeOf vs ws) : WrapsEntries registry' typeOf vs ws := by
  match h with
  | .nil => exact .nil
  | .cons hw hws => exact .cons (hw.transport hsame) (hws.transport hsame)

end

theorem wrapsItems_iff {vs ws : List Value} :
    WrapsItems registry type vs ws ↔ Forall₂ (Wraps registry type) vs ws := by
  constructor
  · intro h
    induction vs generalizing ws with
    | nil =>
      cases h
      exact .nil
    | cons v rest ih =>
      cases h with
      | cons hw hws => exact .cons hw (ih hws)
  · intro h
    induction h with
    | nil => exact .nil
    | cons hw _ ih => exact .cons hw ih

/-- Permuted items come to permuted items. -/
theorem WrapsItems.perm {vs vs' ws ws' : List Value} (h : WrapsItems registry type vs ws)
    (h' : WrapsItems registry type vs' ws') (hperm : vs'.Perm vs) : ws'.Perm ws := by
  obtain ⟨us, hus, hsame⟩ := List.perm_comp_forall₂ hperm (wrapsItems_iff.mp h)
  rw [h'.unique (wrapsItems_iff.mpr hus)]
  exact hsame

/-- A list becomes the list of what its items become. -/
theorem Wraps.of_list {vs : List Value} {w : Value} (h : Wraps registry type (.list vs) w) :
    ∃ ws, w = .list ws ∧ WrapsItems registry (itemType type) vs ws := by
  cases h with
  | bare hbare _ => exact absurd hbare nofun
  | leaf _ hlist _ => exact absurd hlist nofun
  | list hws => exact ⟨_, rfl, hws⟩

theorem WrapsEntries.keys {vs ws : Fields} (h : WrapsEntries registry typeOf vs ws) :
    Dict.keys ws = Dict.keys vs := by
  match h with
  | .nil => rfl
  | .cons _ hws => exact congrArg (_ :: ·) hws.keys

end Trees

/-! ## §2. Declared types. -/

/-- The type that is declared for a field of the type with a name. -/
def Registry.declared (registry : Registry) (name field : String) : Option FieldType :=
  (registry.find? name).bind (fun o => o.typeOf? field)

theorem entryType_of_declared (h : registry.declared = registry'.declared) :
    entryType registry = entryType registry' := by
  funext type key
  match type with
  | some (.object name) => exact congrFun (congrFun h name) key
  | none | some (.primitive _) | some (.list _) | some (.map _) => rfl

/-- Of the types with one name the last one is registered. -/
theorem Registry.find?_ofTypes_eq (types : List ObjectType) (name : String) :
    (ofTypes types).find? name = types.reverse.find? (fun o => o.id.fullName = name) := by
  have h := Dict.get?_foldl_insert (fun o : ObjectType => some o.id.fullName) (fun o => o) types
    name
  simp only [Option.some.injEq, Option.map_id'] at h
  exact h

/-- What an element declares: the name of a type and its fields. -/
def Element.declaration? (e : Element) : Option (String × Dict Field) :=
  e.object?.map (fun o => (o.id.fullName, o.fields))

/-- Different elements declare different types. -/
theorem Element.objects_ids (elements : List Element) :
    ((elements.filterMap object?).map ObjectType.id).Sublist (elements.map Element.id) := by
  induction elements with
  | nil => exact .slnil
  | cons e rest ih =>
    cases e with
    | object o => exact .cons_cons _ ih
    | inst i => exact .cons _ ih

namespace Coercion

variable {elements others : List Element}

/-- Elements that declare the same fields lead to the same declared types. -/
theorem registryOf_declared
    (h : elements.map Element.declaration? = others.map Element.declaration?) :
    (registryOf elements).declared = (registryOf others).declared := by
  have hfields (elements : List Element) (name field : String) :
      (registryOf elements).declared name field
        = (((elements.map Element.declaration?).filterMap id).reverse.find?
          (fun d => d.1 = name)).bind (fun d => (Dict.get? d.2 field).map Field.type) := by
    unfold registryOf Registry.declared
    rw [Registry.find?_ofTypes_eq, List.filterMap_map]
    show _ = (((elements.filterMap fun e => e.object?.map
      fun o => (o.id.fullName, o.fields)).reverse.find? _).bind _)
    rw [← List.map_filterMap, ← List.map_reverse, List.find?_map, Option.bind_map]
    rfl
  funext name field
  rw [hfields, hfields, h]

/-- Each type is registered if no two elements have one identifier. -/
theorem find?_registryOf (hdistinct : (elements.map Element.id).Nodup) {o : ObjectType}
    (ho : .object o ∈ elements) : (registryOf elements).find? o.id.fullName = some o := by
  have hnames : ((elements.filterMap Element.object?).map fun o => o.id.fullName).Nodup := by
    have hids := hdistinct.sublist (Element.objects_ids elements)
    refine List.pairwise_map.mpr ((List.pairwise_map.mp hids).imp fun hne hname => ?_)
    exact hne (ElementId.fullName_injective hname)
  unfold registryOf
  rw [Registry.find?_ofTypes_eq]
  exact find?_reverse_of_nodup hnames (List.mem_filterMap.mpr ⟨.object o, ho, rfl⟩)

end Coercion

/-! ## §3. Elements. -/

/-- The second element is the first one with bare values put into lists: in the annotations of an
object type, as it declares them itself, and in the fields of an instance, as its type does. -/
inductive Element.Wrapped (registry : Registry) : Element → Element → Prop
  | object {o : ObjectType} {annotations : Fields}
      (h : WrapsEntries registry (Dict.get? o.annotationTypes) o.annotations annotations) :
      Wrapped registry (.object o) (.object { o with annotations })
  | inst {i : Instance} {value : Fields}
      (h : WrapsEntries registry (registry.declared i.type.fullName) i.value value) :
      Wrapped registry (.inst i) (.inst { i with value })

namespace Element.Wrapped

theorem unique {e f f' : Element} (h : Wrapped registry e f) (h' : Wrapped registry e f') :
    f = f' := by
  cases h with
  | object h =>
    cases h' with
    | object h' => rw [h.unique h']
  | inst h =>
    cases h' with
    | inst h' => rw [h.unique h']

theorem transport (hsame : registry.declared = registry'.declared) {e f : Element}
    (h : Wrapped registry e f) : Wrapped registry' e f := by
  have hentry := entryType_of_declared hsame
  cases h with
  | object h => exact .object (h.transport hentry)
  | inst h => exact .inst (hsame ▸ h.transport hentry)

theorem declaration? {e f : Element} (h : Wrapped registry e f) :
    f.declaration? = e.declaration? := by
  cases h <;> rfl

theorem id {e f : Element} (h : Wrapped registry e f) : f.id = e.id := by
  cases h <;> rfl

theorem of_inst {i : Instance} {f : Element} (h : Wrapped registry (.inst i) f) :
    ∃ value, f = .inst { i with value }
      ∧ WrapsEntries registry (registry.declared i.type.fullName) i.value value := by
  cases h with
  | inst h => exact ⟨_, rfl, h⟩

end Element.Wrapped

theorem Element.wrapped_unique {elements coerced coerced' : List Element}
    (h : Forall₂ (Wrapped registry) elements coerced)
    (h' : Forall₂ (Wrapped registry) elements coerced') : coerced = coerced' := by
  induction h generalizing coerced' with
  | nil =>
    cases h'
    rfl
  | cons hfirst _ ih =>
    cases h' with
    | cons hfirst' hrest' => rw [hfirst.unique hfirst', ih hrest']

namespace Coercion

variable {elements : List Element}

/-- A walk over annotations comes to an end and has a result. -/
theorem annotationsOf_spec (registry : Registry) (o : ObjectType) :
    ∃ ws, annotationsOf registry o = .ok ws
      ∧ WrapsEntries registry (Dict.get? o.annotationTypes) o.annotations ws := by
  have hwalk : Walk.Ends (fun _ => True)
      (fun r => ∃ ws, r = some ws
        ∧ WrapsEntries registry (Dict.get? o.annotationTypes) o.annotations ws)
      (Walk.fieldsWith (Walk.node registry false Walk.keepAll
        (Walk.depthBound registry o o.annotations + 0)) (.annotations o) o.id o.annotations) :=
    Walk.fieldsWith_wraps (fun _ => rfl) (Walk.node_wraps registry _) o.id o.annotations
  have hnesting : ∀ key, nestingOf ((KeyTypes.annotations o).lookup key).1
      ≤ Walk.listNesting registry o := listNesting_annotations registry o
  obtain ⟨r, hr, ws, rfl, hws⟩ := Walk.fieldsWith_result hnesting 0 hwalk
  refine ⟨ws, ?_, hws⟩
  unfold annotationsOf Walk.annotations
  exact congrArg (Except.map fun found => found.getD []) hr

/-- The annotations of all registered types are found under their names. -/
theorem allAnnotations_spec (registry : Registry) (types : List (String × ObjectType)) :
    ∃ found, allAnnotations registry types = .ok found
      ∧ ∀ name o, Dict.get? types name = some o → ∃ ws, Dict.get? found name = some ws
        ∧ WrapsEntries registry (Dict.get? o.annotationTypes) o.annotations ws := by
  induction types with
  | nil => exact ⟨[], rfl, nofun⟩
  | cons first rest ih =>
    obtain ⟨name, o⟩ := first
    obtain ⟨ws, hws, hwraps⟩ := annotationsOf_spec registry o
    obtain ⟨found, hfound, hrest⟩ := ih
    refine ⟨(name, ws) :: found, ?_, fun other o' hother => ?_⟩
    · unfold allAnnotations
      rw [hws, hfound]
      rfl
    · by_cases hname : name = other
      · subst hname
        rw [Dict.get?_cons_self] at hother
        obtain rfl := Option.some.inj hother
        exact ⟨ws, Dict.get?_cons_self name ws found, hwraps⟩
      · rw [Dict.get?_cons_of_ne hname] at hother ⊢
        exact hrest other o' hother

/-- A walk over an instance has a result unless its type is not declared, and then nothing is put
into lists. -/
theorem wrapInstance_spec (registry : Registry) (i : Instance) :
    ∃ value, wrapInstance registry i = { i with value }
      ∧ WrapsEntries registry (registry.declared i.type.fullName) i.value value := by
  unfold wrapInstance Walk.ofInstance Registry.declared
  cases hfind : registry.find? i.type.fullName with
  | none =>
    exact ⟨i.value, rfl, wrapsEntries_self fun e _ => .undeclared registry e.2⟩
  | some o =>
    have hdepth : instanceDepth registry i = Walk.depthBound registry o i.value := by
      unfold instanceDepth
      rw [hfind]
    obtain ⟨r, hr, ws, rfl, hws⟩ := Walk.fields_result 0 (Walk.fieldsWith_wraps
      (KeyTypes.lookup_fields o) (Walk.node_wraps registry _) i.id i.value)
    refine ⟨ws, ?_, hws⟩
    rw [Nat.add_zero] at hr
    dsimp only
    rw [hdepth, run_bind, hr]
    rfl

/-- Each type gets its own annotations back, as no other element has its name. -/
theorem wrapElements_spec (hdistinct : (elements.map Element.id).Nodup) {found : Dict Fields}
    (hfound : ∀ o, .object o ∈ elements → ∃ ws, Dict.get? found o.id.fullName = some ws
      ∧ WrapsEntries registry (Dict.get? o.annotationTypes) o.annotations ws) :
    Forall₂ (Element.Wrapped registry) elements (wrapElements registry found elements) := by
  induction elements generalizing found with
  | nil => exact .nil
  | cons e rest ih =>
    obtain ⟨hother, hrest⟩ := List.nodup_cons.mp hdistinct
    cases e with
    | inst i =>
      obtain ⟨value, hvalue, hwraps⟩ := wrapInstance_spec registry i
      unfold wrapElements
      rw [hvalue]
      exact .cons (.inst hwraps) (ih hrest fun o ho => hfound o (List.mem_cons_of_mem _ ho))
    | object o =>
      obtain ⟨ws, hws, hwraps⟩ := hfound o List.mem_cons_self
      unfold wrapElements
      rw [hws]
      refine .cons (.object hwraps) (ih hrest fun o' ho' => ?_)
      -- the annotations that were taken are those of another type
      have hname : o.id.fullName ≠ o'.id.fullName := by
        intro hname
        have hid : Element.id (.object o) = Element.id (.object o') :=
          ElementId.fullName_injective hname
        exact hother (hid ▸ List.mem_map_of_mem ho')
      rw [Dict.get?_insert_of_ne found hname]
      exact hfound o' (List.mem_cons_of_mem _ ho')

/-- **Putting bare values into lists never fails**, and it does so in all elements. -/
theorem wrapped_spec (hdistinct : (elements.map Element.id).Nodup) :
    ∃ coerced, wrapped elements = .ok coerced
      ∧ Forall₂ (Element.Wrapped (registryOf elements)) elements coerced := by
  obtain ⟨found, hfound, hwraps⟩ :=
    allAnnotations_spec (registryOf elements) (registryOf elements)
  refine ⟨wrapElements (registryOf elements) found elements, ?_, ?_⟩
  · unfold wrapped
    dsimp only
    rw [hfound]
    rfl
  · exact wrapElements_spec hdistinct fun o ho =>
      hwraps o.id.fullName o (find?_registryOf hdistinct ho)

/-- Where nothing is to be put into lists any more, nothing changes. -/
theorem wrapped_again (hdistinct : (elements.map Element.id).Nodup)
    (hdeclared : registry.declared = (registryOf elements).declared)
    (h : Forall₂ (Element.Wrapped registry) elements elements) :
    wrapped elements = .ok elements := by
  obtain ⟨coerced, hcoerced, hwraps⟩ := wrapped_spec hdistinct
  have hself := h.imp fun e f hwrapped => hwrapped.transport hdeclared
  rw [hcoerced, Element.wrapped_unique hwraps hself]

end Coercion

end AccountSync
