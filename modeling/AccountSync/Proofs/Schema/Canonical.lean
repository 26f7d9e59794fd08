/-
  AccountSync.Proofs.Schema.Canonical
  ───────────────────────────────────
  **LISTS HAVE ONE CANONICAL FORM.**

  Bare items are put into lists first, and then lists without an order are sorted by texts in
  their items.  Neither undoes the other: items that are in lists stay so in any order, and
  sorting one list rule after rule is sorting it once, by all of these rules, the last one
  first.  So a second time changes nothing.  If no two items of a list have one text, then their
  order in the answer makes no difference.

      Coercion.sortedFields    — what the rules make of an instance, field by field
      Coercion.sortedItems_eq  — rule after rule, or all at once
      Coercion.Reordered       — lists whose items come in another order
      Coercion.lists_canonical — what the filter of lists does
-/
import AccountSync.Filter.Standard
import AccountSync.Proofs.Schema.Wrapped
import AccountSync.Proofs.Sorting

namespace AccountSync

open List (Forall₂)
open Std (TransCmp)

namespace Coercion

variable {rules : List UnorderedListRule} {registry : Registry}

/-! ## §1. Sorted by several rules. -/

/-- What rules make of a list, one after the other. -/
def sortedItems (rules : List UnorderedListRule) (items : List Value) : List Value :=
  rules.foldl (fun items rule => Sorting.sortedBy (order rule.sortBy) items) items

/-- What rules make of a value: only lists are sorted. -/
def sortedValue (rules : List UnorderedListRule) (v : Value) : Value :=
  rules.foldl (fun v rule => sortValue rule.sortBy v) v

instance (sortBy : Option String) : TransCmp (order sortBy) :=
  Sorting.transCmp_comap (Sorting.lastIfAbsent compare) (sortKey? sortBy)

/-- Items compare equal if they have the same text. -/
theorem order_eq_iff {sortBy : Option String} {a b : Value} :
    order sortBy a b = .eq ↔ sortKey? sortBy a = sortKey? sortBy b := by
  unfold order
  exact Std.LawfulEqCmp.compare_eq_iff_eq

theorem sortedValue_list (rules : List UnorderedListRule) (items : List Value) :
    sortedValue rules (.list items) = .list (sortedItems rules items) := by
  induction rules generalizing items with
  | nil => rfl
  | cons rule rest ih => exact ih (Sorting.sortedBy (order rule.sortBy) items)

theorem sortedValue_of_not_list (rules : List UnorderedListRule) {v : Value}
    (h : v.list? = none) : sortedValue rules v = v := by
  induction rules with
  | nil => rfl
  | cons rule rest ih =>
    have hfirst : sortValue rule.sortBy v = v := by
      cases v with
      | list items => exact absurd h (Option.some_ne_none items)
      | _ => rfl
    show sortedValue rest (sortValue rule.sortBy v) = v
    rw [hfirst, ih]

/-- The comparison that tells nothing apart. -/
def indifferent (_ _ : Value) : Ordering := .eq

instance : TransCmp indifferent where
  eq_swap := rfl
  isLE_trans _ _ := rfl

/-- **Sorting rule after rule is sorting once.** -/
theorem sortedItems_eq (rules : List UnorderedListRule) :
    ∃ cmp, TransCmp cmp ∧ ∀ items, sortedItems rules items = Sorting.sortedBy cmp items := by
  induction rules with
  | nil =>
    refine ⟨indifferent, inferInstance, fun items => ?_⟩
    have hordered : items.Pairwise (fun a b => indifferent a b ≠ .gt) :=
      List.pairwise_of_forall fun a b => nofun
    exact (Sorting.sortedBy_of_pairwise indifferent hordered).symm
  | cons rule rest ih =>
    obtain ⟨cmp, hcmp, hrest⟩ := ih
    refine ⟨compareLex cmp (order rule.sortBy), inferInstance, fun items => ?_⟩
    show sortedItems rest (Sorting.sortedBy (order rule.sortBy) items) = _
    rw [hrest, Sorting.sortedBy_sortedBy]

theorem sortedItems_perm (rules : List UnorderedListRule) (items : List Value) :
    (sortedItems rules items).Perm items := by
  obtain ⟨cmp, -, hsorted⟩ := sortedItems_eq rules
  rw [hsorted]
  exact Sorting.sortedBy_perm cmp items

/-- Sorting by the same rules again changes nothing. -/
theorem sortedItems_again (rules : List UnorderedListRule) (items : List Value) :
    sortedItems rules (sortedItems rules items) = sortedItems rules items := by
  obtain ⟨cmp, hcmp, hsorted⟩ := sortedItems_eq rules
  rw [hsorted, hsorted]
  exact Sorting.sortedBy_of_pairwise cmp (Sorting.sortedBy_pairwise cmp items)

/-- In the end the items are in the order of the last rule. -/
theorem sortedItems_inOrder {rule : UnorderedListRule} (h : rules.getLast? = some rule)
    (items : List Value) :
    (sortedItems rules items).Pairwise (fun a b => order rule.sortBy a b ≠ .gt) := by
  obtain ⟨earlier, rfl⟩ := List.getLast?_eq_some_iff.mp h
  unfold sortedItems
  rw [List.foldl_append]
  exact Sorting.sortedBy_pairwise _ _

theorem sortedValue_again (rules : List UnorderedListRule) (v : Value) :
    sortedValue rules (sortedValue rules v) = sortedValue rules v := by
  cases hlist : v.list? with
  | none =>
    rw [sortedValue_of_not_list rules hlist, sortedValue_of_not_list rules hlist]
  | some items =>
    cases v with
    | list vs => rw [sortedValue_list, sortedValue_list, sortedItems_again]
    | _ => exact absurd hlist nofun

/-! ## §2. All fields. -/

/-- Whether the rule is about a field of instances of a type. -/
def names (typeName field : String) (rule : UnorderedListRule) : Bool :=
  rule.typeName = typeName ∧ rule.field = field

/-- What the rules make of the fields of an instance of a type. -/
def sortedFields (rules : List UnorderedListRule) (typeName : String) (vs : Fields) : Fields :=
  vs.map (fun e => (e.1, sortedValue (rules.filter (names typeName e.1)) e.2))

/-- What the rules make of an instance. -/
def sortedInstance (rules : List UnorderedListRule) (i : Instance) : Instance :=
  { i with value := sortedFields rules i.typeName i.value }

theorem sortedFields_keys (rules : List UnorderedListRule) (typeName : String) (vs : Fields) :
    Dict.keys (sortedFields rules typeName vs) = Dict.keys vs := by
  simp [Dict.keys, sortedFields]

/-- One rule, and then the others. -/
theorem sortedFields_cons (rule : UnorderedListRule) (rest : List UnorderedListRule)
    (typeName : String) (vs : Fields) :
    sortedFields (rule :: rest) typeName vs
      = sortedFields rest typeName (sortedFields [rule] typeName vs) := by
  unfold sortedFields
  rw [List.map_map]
  refine List.map_congr_left fun e _ => ?_
  by_cases hnames : names typeName e.1 rule = true
  · simp [hnames, sortedValue]
  · simp [hnames, sortedValue]

/-- A rule is about one field of the instances of its type. -/
theorem sortedFields_singleton {i : Instance} (h : Dict.Sorted i.value)
    (rule : UnorderedListRule) :
    (if i.typeName = rule.typeName then
        { i with value := Dict.modify i.value rule.field (sortValue rule.sortBy) }
      else i) = sortedInstance [rule] i := by
  unfold sortedInstance sortedFields
  by_cases htype : i.typeName = rule.typeName
  · rw [if_pos htype, h.modify_eq_map]
    congr 1
    refine List.map_congr_left fun e _ => ?_
    by_cases hfield : e.1 = rule.field
    · simp [names, htype, hfield, sortedValue]
    · simp [names, Ne.symm hfield, hfield, sortedValue]
  · rw [if_neg htype]
    simp [names, Ne.symm htype, sortedValue]

theorem sortedInstance_sorted {i : Instance} (h : Dict.Sorted i.value) :
    Dict.Sorted (sortedInstance rules i).value := by
  unfold Dict.Sorted
  rw [show Dict.keys (sortedInstance rules i).value = Dict.keys i.value from
    sortedFields_keys rules i.typeName i.value]
  exact h

/-- What was sorted by the rules stays as it is. -/
theorem sortedInstance_again (rules : List UnorderedListRule) (i : Instance) :
    sortedInstance rules (sortedInstance rules i) = sortedInstance rules i := by
  have hfields : sortedFields rules i.typeName (sortedFields rules i.typeName i.value)
      = sortedFields rules i.typeName i.value := by
    unfold sortedFields
    rw [List.map_map]
    refine List.map_congr_left fun e _ => ?_
    exact congrArg (Prod.mk e.1) (sortedValue_again _ e.2)
  unfold sortedInstance
  exact congrArg (fun value => { i with value }) hfields

/-- The rules replace instances one by one. -/
theorem sorted_eq (rules : List UnorderedListRule) {elements : List Element}
    (hsorted : ∀ i ∈ Element.instances elements, Dict.Sorted i.value) :
    sorted rules elements = Element.mapInstances (sortedInstance rules) elements := by
  induction rules generalizing elements with
  | nil =>
    have hnothing : sortedInstance [] = fun i => i := by
      funext i
      simp [sortedInstance, sortedFields, sortedValue]
    rw [hnothing, Element.mapInstances_self]
    rfl
  | cons rule rest ih =>
    have hfirst : sortedBy elements rule
        = Element.mapInstances (sortedInstance [rule]) elements :=
      Element.mapInstances_congr fun i hi => sortedFields_singleton (hsorted i hi) rule
    have hstill : ∀ i ∈ Element.instances (Element.mapInstances (sortedInstance [rule]) elements),
        Dict.Sorted i.value := by
      rw [Element.instances_mapInstances]
      exact List.forall_mem_map.mpr fun i hi => sortedInstance_sorted (hsorted i hi)
    calc sorted (rule :: rest) elements
      _ = sorted rest (sortedBy elements rule) := rfl
      _ = Element.mapInstances (sortedInstance rest)
          (Element.mapInstances (sortedInstance [rule]) elements) := by rw [hfirst, ih hstill]
      _ = Element.mapInstances (sortedInstance (rule :: rest)) elements := by
        rw [Element.mapInstances_mapInstances]
        refine Element.mapInstances_congr fun i _ => ?_
        exact congrArg (fun value => { i with value })
          (sortedFields_cons rule rest i.typeName i.value).symm

/-! ## §3. What is kept. -/

/-- The second entry has the value that is left of the first one when lists are sorted as the rules
say: the list is permuted, and in the order of the last rule about the field.  Anything else is
as it was. -/
structure ArrangedEntry (rules : List UnorderedListRule) (typeName : String)
    (e e' : String × Value) : Prop where
  key : e'.1 = e.1
  list : ∀ items, e.2 = .list items → ∃ items', e'.2 = .list items' ∧ items'.Perm items
    ∧ ∀ rule, (rules.filter (names typeName e.1)).getLast? = some rule →
      items'.Pairwise (fun a b => order rule.sortBy a b ≠ .gt)
  other : e.2.list? = none ∨ rules.filter (names typeName e.1) = [] → e'.2 = e.2

/-- The second instance is the first one with its lists arranged. -/
structure Arranged (rules : List UnorderedListRule) (i j : Instance) : Prop where
  same : ∃ value, j = { i with value }
  fields : Forall₂ (ArrangedEntry rules i.typeName) i.value j.value

theorem sortedInstance_arranged (rules : List UnorderedListRule) (i : Instance) :
    Arranged rules i (sortedInstance rules i) where
  same := ⟨_, rfl⟩
  fields := by
    show Forall₂ (ArrangedEntry rules i.typeName) i.value
      (i.value.map fun e => (e.1, sortedValue (rules.filter (names i.typeName e.1)) e.2))
    rw [List.forall₂_map_right_iff]
    refine List.forall₂_same.mpr fun e _ => ⟨rfl, fun items hitems => ?_, fun hother => ?_⟩
    · refine ⟨_, ?_, sortedItems_perm _ items, fun rule hrule => sortedItems_inOrder hrule items⟩
      rw [hitems]
      exact sortedValue_list _ items
    · rcases hother with hlist | hnone
      · exact sortedValue_of_not_list _ hlist
      · show sortedValue (rules.filter (names i.typeName e.1)) e.2 = e.2
        rw [hnone]
        rfl

/-- What is in lists is so in any order. -/
theorem sortedFields_settled {typeOf : String → Option FieldType} {vs ws : Fields}
    (h : WrapsEntries registry typeOf vs ws) (typeName : String) :
    WrapsEntries registry typeOf (sortedFields rules typeName ws)
      (sortedFields rules typeName ws) := by
  refine wrapsEntries_self fun e he => ?_
  obtain ⟨e, hmem, rfl⟩ := List.mem_map.mp he
  obtain ⟨v, hv⟩ := h.wrapped_of_mem hmem
  obtain ⟨key, w⟩ := e
  show Wraps registry (typeOf key) (sortedValue (rules.filter (names typeName key)) w)
    (sortedValue (rules.filter (names typeName key)) w)
  cases w with
  | list items =>
    rw [sortedValue_list]
    refine .list (wrapsItems_self fun item hitem => ?_)
    obtain ⟨u, hu⟩ := hv.items ((sortedItems_perm _ items).mem_iff.mp hitem)
    exact hu.settled
  | _ =>
    rw [sortedValue_of_not_list _ rfl]
    exact hv.settled

end Coercion

/-- The second element is the first one with other values in its fields or annotations, but with
all of these and no others. -/
inductive Element.Kept : Element → Element → Prop
  | object {o : ObjectType} {annotations : Fields}
      (h : Dict.keys annotations = Dict.keys o.annotations) :
      Kept (.object o) (.object { o with annotations })
  | inst {i : Instance} {value : Fields} (h : Dict.keys value = Dict.keys i.value) :
      Kept (.inst i) (.inst { i with value })

namespace Element

variable {elements others : List Element}

theorem Wrapped.kept {registry : Registry} {e f : Element} (h : Wrapped registry e f) :
    Kept e f := by
  cases h with
  | object h => exact .object h.keys
  | inst h => exact .inst h.keys

theorem kept_ids (h : Forall₂ Kept elements others) :
    elements.map Element.id = others.map Element.id := by
  refine map_eq_of_forall₂ (h.imp fun e f hkept => ?_)
  cases hkept <;> rfl

theorem kept_declarations (h : Forall₂ Kept elements others) :
    elements.map Element.declaration? = others.map Element.declaration? := by
  refine map_eq_of_forall₂ (h.imp fun e f hkept => ?_)
  cases hkept <;> rfl

theorem kept_sorted (h : Forall₂ Kept elements others)
    (hsorted : ∀ i ∈ instances elements, Dict.Sorted i.value) :
    ∀ i ∈ instances others, Dict.Sorted i.value := by
  induction h with
  | nil => exact hsorted
  | cons hfirst _ ih =>
    cases hfirst with
    | object _ => exact ih hsorted
    | @inst i value hkeys =>
      obtain ⟨hi, hrest⟩ := List.forall_mem_cons.mp hsorted
      refine List.forall_mem_cons.mpr ⟨?_, ih hrest⟩
      show (Dict.keys value).Pairwise (· < ·)
      rw [hkeys]
      exact hi

end Element

namespace Coercion

variable {rules : List UnorderedListRule} {registry : Registry} {elements coerced : List Element}

/-- Sorting elements whose bare values are in lists keeps all that they have. -/
theorem sorted_kept (rules : List UnorderedListRule)
    (h : Forall₂ (Element.Wrapped registry) elements coerced) :
    Forall₂ Element.Kept elements (Element.mapInstances (sortedInstance rules) coerced) := by
  induction h with
  | nil => exact .nil
  | cons hfirst _ ih =>
    cases hfirst with
    | object h => exact .cons (.object h.keys) ih
    | inst h => exact .cons (.inst ((sortedFields_keys rules _ _).trans h.keys)) ih

/-- Sorting elements whose bare values are in lists leaves nothing to be put into lists. -/
theorem sorted_wrapped (rules : List UnorderedListRule)
    (h : Forall₂ (Element.Wrapped registry) elements coerced) :
    Forall₂ (Element.Wrapped registry) (Element.mapInstances (sortedInstance rules) coerced)
      (Element.mapInstances (sortedInstance rules) coerced) := by
  induction h with
  | nil => exact .nil
  | cons hfirst _ ih =>
    cases hfirst with
    | object h => exact .cons (.object h.settled) ih
    | @inst i value h => exact .cons (.inst (sortedFields_settled h i.typeName)) ih

/-- Sorting arranges lists in instances. -/
theorem sorted_arranged (rules : List UnorderedListRule) (elements : List Element) :
    Forall₂ (Element.Related (Arranged rules)) elements
      (Element.mapInstances (sortedInstance rules) elements) := by
  refine List.forall₂_map_right_iff.mpr (List.forall₂_same.mpr fun e _ => ?_)
  cases e with
  | object o => exact .object o
  | inst i => exact .inst (sortedInstance_arranged rules i)

/-! ## §4. Lists in another order. -/

/-- The second entry is the first one, or both are lists that a rule is about, with the same items
in some order, and no two of the items have one text once bare values are in lists. -/
inductive ReorderedEntry (registry : Registry) (rules : List UnorderedListRule) (i : Instance) :
    String × Value → String × Value → Prop
  | same (e : String × Value) : ReorderedEntry registry rules i e e
  | list {rule : UnorderedListRule} {items items' wrapped : List Value} (hrule : rule ∈ rules)
      (htype : rule.typeName = i.typeName) (hperm : items'.Perm items)
      (hwrapped : WrapsItems registry (itemType (registry.declared i.type.fullName rule.field))
        items wrapped)
      (hdistinct : (wrapped.map (sortKey? rule.sortBy)).Nodup) :
      ReorderedEntry registry rules i (rule.field, .list items) (rule.field, .list items')

/-- The second instance is the first one with items of some lists in another order. -/
structure Reordered (registry : Registry) (rules : List UnorderedListRule) (i j : Instance) :
    Prop where
  same : ∃ value, j = { i with value }
  fields : Forall₂ (ReorderedEntry registry rules i) i.value j.value

/-- No two rules are about one field. -/
def OneEach (rules : List UnorderedListRule) : Prop :=
  (rules.map fun rule => (rule.typeName, rule.field)).Nodup

theorem OneEach.filter_names (h : OneEach rules) {rule : UnorderedListRule} (hrule : rule ∈ rules) :
    rules.filter (names rule.typeName rule.field) = [rule] := by
  induction rules with
  | nil => exact absurd hrule List.not_mem_nil
  | cons first rest ih =>
    obtain ⟨hfirst, hrest⟩ := List.nodup_cons.mp h
    rcases List.mem_cons.mp hrule with rfl | hrule
    · have hnone : rest.filter (names rule.typeName rule.field) = [] := by
        refine List.filter_eq_nil_iff.mpr fun other hother hnames => ?_
        obtain ⟨htype, hfield⟩ := of_decide_eq_true hnames
        exact hfirst (List.mem_map.mpr ⟨other, hother, Prod.ext htype hfield⟩)
      rw [List.filter_cons_of_pos (by simp [names]), hnone]
    · have hother : ¬names rule.typeName rule.field first = true := by
        intro hnames
        obtain ⟨htype, hfield⟩ := of_decide_eq_true hnames
        exact hfirst (List.mem_map.mpr ⟨rule, hrule, Prod.ext htype.symm hfield.symm⟩)
      rw [List.filter_cons_of_neg hother, ih hrest hrule]

/-- A list that a rule is about is sorted the same, in whatever order its items came. -/
theorem sortedValue_of_perm (hrules : OneEach rules) {rule : UnorderedListRule}
    (hrule : rule ∈ rules) {ws ws' : List Value} (hperm : ws'.Perm ws)
    (hdistinct : (ws.map (sortKey? rule.sortBy)).Nodup) :
    sortedValue (rules.filter (names rule.typeName rule.field)) (.list ws)
      = sortedValue (rules.filter (names rule.typeName rule.field)) (.list ws') := by
  have hapart : ws.Pairwise (fun a b => order rule.sortBy a b ≠ .eq) :=
    (List.pairwise_map.mp hdistinct).imp fun hne heq => hne (order_eq_iff.mp heq)
  rw [sortedValue_list, sortedValue_list, hrules.filter_names hrule]
  exact congrArg Value.list (Sorting.sortedBy_of_perm (order rule.sortBy) hperm.symm hapart)

/-- Fields in which lists came in another order are sorted the same. -/
theorem sortedFields_reordered (hrules : OneEach rules) {i : Instance} {vs vs' ws ws' : Fields}
    (hreordered : Forall₂ (ReorderedEntry registry rules i) vs vs')
    (h : WrapsEntries registry (registry.declared i.type.fullName) vs ws)
    (h' : WrapsEntries registry (registry.declared i.type.fullName) vs' ws') :
    sortedFields rules i.typeName ws = sortedFields rules i.typeName ws' := by
  induction hreordered generalizing ws ws' with
  | nil =>
    cases h
    cases h'
    rfl
  | cons hfirst _ ih =>
    cases hfirst with
    | same e =>
      cases h with
      | cons hw hws =>
        cases h' with
        | cons hw' hws' =>
          obtain rfl := hw.unique hw'
          exact congrArg (_ :: ·) (ih hws hws')
    | @list rule items items' wrapped hrule htype hperm hwrapped hdistinct =>
      cases h with
      | cons hw hws =>
        cases h' with
        | cons hw' hws' =>
          -- the items came to permuted items, and those are sorted the same
          obtain ⟨us, rfl, hus⟩ := hw.of_list
          obtain ⟨us', rfl, hus'⟩ := hw'.of_list
          obtain rfl := hus.unique hwrapped
          have hvalue := sortedValue_of_perm hrules hrule (hus.perm hus' hperm) hdistinct
          rw [htype] at hvalue
          unfold sortedFields at ih ⊢
          rw [List.map_cons, List.map_cons, hvalue, ih hws hws']

/-- Elements in which lists came in another order are sorted the same. -/
theorem sorted_reordered (hrules : OneEach rules) {elements' coerced' : List Element}
    (hreordered : Forall₂ (Element.Related (Reordered registry rules)) elements elements')
    (h : Forall₂ (Element.Wrapped registry) elements coerced)
    (h' : Forall₂ (Element.Wrapped registry) elements' coerced') :
    Element.mapInstances (sortedInstance rules) coerced
      = Element.mapInstances (sortedInstance rules) coerced' := by
  induction hreordered generalizing coerced coerced' with
  | nil =>
    cases h
    cases h'
    rfl
  | cons hfirst _ ih =>
    cases h with
    | cons hw hws =>
      cases h' with
      | cons hw' hws' =>
        have hrest := ih hws hws'
        cases hfirst with
        | object o =>
          obtain rfl := hw.unique hw'
          exact congrArg (_ :: ·) hrest
        | @inst i j hi =>
          obtain ⟨⟨vs', rfl⟩, hfields⟩ := hi
          obtain ⟨ws, rfl, hws⟩ := hw.of_inst
          obtain ⟨ws', rfl, hws'⟩ := hw'.of_inst
          have hvalue := sortedFields_reordered hrules hfields hws hws'
          have hinst : sortedInstance rules { i with value := ws }
              = sortedInstance rules { i with value := ws' } :=
            congrArg (fun value => { i with value }) hvalue
          exact congrArg₂ (fun i rest => Element.inst i :: rest) hinst hrest

theorem reordered_kept {elements' : List Element}
    (h : Forall₂ (Element.Related (Reordered registry rules)) elements elements') :
    Forall₂ Element.Kept elements elements' := by
  refine h.imp fun e f hrelated => ?_
  cases hrelated with
  | object o => exact .object rfl
  | @inst i j hi =>
    obtain ⟨⟨value, rfl⟩, hfields⟩ := hi
    refine .inst (map_eq_of_forall₂ (hfields.imp fun e f hentry => ?_)).symm
    cases hentry <;> rfl

/-! ## §5. The filter. -/

/-- Elements with different identifiers have a canonical form. -/
theorem canonical_eq (rules : List UnorderedListRule)
    (hdistinct : (elements.map Element.id).Nodup)
    (hsorted : ∀ i ∈ Element.instances elements, Dict.Sorted i.value) :
    ∃ coerced, wrapped elements = .ok coerced
      ∧ Forall₂ (Element.Wrapped (registryOf elements)) elements coerced
      ∧ canonical rules elements
        = .ok (Element.mapInstances (sortedInstance rules) coerced) := by
  obtain ⟨coerced, hcoerced, hwraps⟩ := wrapped_spec hdistinct
  have hkept : Forall₂ Element.Kept elements coerced := hwraps.imp fun e f h => h.kept
  refine ⟨coerced, hcoerced, hwraps, ?_⟩
  unfold canonical
  rw [hcoerced, ← sorted_eq rules (Element.kept_sorted hkept hsorted)]
  rfl

/-- The canonical form is its own. -/
theorem canonical_again (rules : List UnorderedListRule)
    (hdistinct : (elements.map Element.id).Nodup)
    (hsorted : ∀ i ∈ Element.instances elements, Dict.Sorted i.value)
    (hwraps : Forall₂ (Element.Wrapped (registryOf elements)) elements coerced) :
    canonical rules (Element.mapInstances (sortedInstance rules) coerced)
      = .ok (Element.mapInstances (sortedInstance rules) coerced) := by
  have hkept := sorted_kept rules hwraps
  have hstill := sorted_wrapped rules hwraps
  have hdeclared := registryOf_declared (Element.kept_declarations hkept)
  have hagain := wrapped_again (Element.kept_ids hkept ▸ hdistinct) hdeclared hstill
  unfold canonical
  rw [hagain]
  refine congrArg Except.ok ?_
  show sorted rules _ = _
  rw [sorted_eq rules (Element.kept_sorted hkept hsorted), Element.mapInstances_mapInstances]
  refine Element.mapInstances_congr fun i _ => ?_
  exact sortedInstance_again rules i

end Coercion

/-- Elements with a canonical form are brought into it, and that is no failure. -/
theorem Filter.listCoercion_ok {ω : Type} (s : Session ω) {elements once : List Element}
    (h : Coercion.canonical s.settings.filters.unorderedLists elements = .ok once)
    (memory : Memory) (w : ω) :
    (listCoercion s).onFetch elements memory w = ({ state := once, memory }, w) := by
  unfold listCoercion
  dsimp only
  rw [h]
  rfl

/-- **The filter of lists brings all elements with different identifiers into a canonical form.**
Fields are in key order, as they always are.  The filter never fails, and a second time it
changes nothing.  It puts bare items into lists and then permutes lists that a rule is about,
into the order of the last rule about them, and it keeps every element with all of its fields or
annotations.  If no two rules are about one field, then elements in which such lists came in
another order have the same canonical form, as long as no two of their items have one text. -/
theorem Coercion.lists_canonical {ω : Type} (s : Session ω) (memory : Memory)
    {elements : List Element} (hdistinct : (elements.map Element.id).Nodup)
    (hsorted : ∀ i ∈ Element.instances elements, Dict.Sorted i.value) :
    let rules := s.settings.filters.unorderedLists
    let registry := registryOf elements
    let fetch := (Filter.listCoercion s).onFetch
    ∃ coerced once,
      (∀ w, fetch elements memory w = ({ state := once, memory }, w))
        ∧ (∀ w, fetch once memory w = ({ state := once, memory }, w))
        ∧ Forall₂ (Element.Wrapped registry) elements coerced
        ∧ Forall₂ (Element.Related (Arranged rules)) coerced once
        ∧ Forall₂ Element.Kept elements once
        ∧ (OneEach rules → ∀ elements',
          Forall₂ (Element.Related (Reordered registry rules)) elements elements' →
            ∀ w, fetch elements' memory w = ({ state := once, memory }, w)) := by
  intro rules registry fetch
  obtain ⟨coerced, -, hwraps, hcanonical⟩ := canonical_eq rules hdistinct hsorted
  refine ⟨coerced, _, Filter.listCoercion_ok s hcanonical memory,
    Filter.listCoercion_ok s (canonical_again rules hdistinct hsorted hwraps) memory, hwraps,
    sorted_arranged rules coerced, sorted_kept rules hwraps, ?_⟩
  intro hrules elements' hreordered
  have hkept := reordered_kept hreordered
  obtain ⟨coerced', -, hwraps', hcanonical'⟩ :=
    canonical_eq rules (Element.kept_ids hkept ▸ hdistinct) (Element.kept_sorted hkept hsorted)
  -- the types are the same, so the same is put into lists
  have hdeclared := registryOf_declared (Element.kept_declarations hkept)
  have hsame := sorted_reordered hrules hreordered hwraps
    (hwraps'.imp fun e f h => h.transport hdeclared.symm)
  rw [hsame]
  exact Filter.listCoercion_ok s hcanonical' memory

/-- An account that lists the actions of a macro in no particular order. -/
def Session.ofActions : Session Unit where
  settings := {
    adapter := "z"
    client := { baseUrl := "https://a" }
    filters := { unorderedLists := [⟨"macro", "actions", some "field"⟩] } }
  client := ⟨fun _ => pure (.error { status := none, message := "" })⟩
  next := .eager

/-- An action that sets a field to texts. -/
def Value.ofAction (field : String) (texts : Value) : Value :=
  .map [("field", .string field), ("value", texts)]

/-- The types of macros and of their actions, and a macro with actions. -/
def Element.ofActions (actions : List Value) : List Element :=
  let action : ObjectType := { id := .ofType "z" "action" }
  let macros : ObjectType := { id := .ofType "z" "macro" }
  [.object (macros.withField "actions" (.list (.object action.id.fullName))),
    .object ((action.withField "field" (.primitive .string)).withField "value"
      (.list (.primitive .string))),
    .inst (.named "close" macros.id [("actions", .list actions)])]

/-- A bare text among the texts of an action is put into a list, and nothing else. -/
theorem Wraps.ofAction {action : FieldType}
    (hfield : entryType registry (some action) "field" = some (.primitive .string))
    (hvalue : entryType registry (some action) "value" = some (.list (.primitive .string)))
    (haction : action.isList = false) (field text : String) :
    Wraps registry (some action) (.ofAction field (.string text))
      (.ofAction field (.list [.string text])) := by
  have hleaf (text : String) : Wraps registry (some (.primitive .string)) (.string text)
      (.string text) := by
    refine .leaf rfl rfl ?_
    rintro ⟨⟨item, hitem⟩, -⟩
    exact absurd hitem nofun
  refine .map ?_ (.cons (hfield ▸ hleaf field) (.cons (hvalue ▸ .bare rfl (hleaf text)) .nil))
  rintro ⟨item, hitem⟩
  obtain rfl := Option.some.inj hitem
  exact absurd haction nofun

/-- Two actions of a macro have one canonical form in either order. -/
theorem Coercion.lists_canonical_for_actions :
    let status := Value.ofAction "status" (.string "solved")
    let priority := Value.ofAction "priority" (.string "low")
    let elements := Element.ofActions [status, priority]
    let rules := Session.ofActions.settings.filters.unorderedLists
    let fetch := fun elements => (Filter.listCoercion .ofActions).onFetch elements {} ()
    (elements.map Element.id).Nodup
      ∧ (∀ i ∈ Element.instances elements, Dict.Sorted i.value)
      ∧ OneEach rules
      ∧ Forall₂ (Element.Related (Reordered (registryOf elements) rules)) elements
        (Element.ofActions [priority, status])
      ∧ ∃ once, fetch elements = ({ state := once, memory := {} }, ())
        ∧ fetch once = ({ state := once, memory := {} }, ())
        ∧ fetch (Element.ofActions [priority, status])
          = ({ state := once, memory := {} }, ()) := by
  intro status priority elements rules fetch
  have hdistinct : (elements.map Element.id).Nodup := by decide +kernel
  have hsorted : ∀ i ∈ Element.instances elements, Dict.Sorted i.value := by
    intro i hi
    obtain rfl := List.mem_singleton.mp hi
    exact List.pairwise_singleton _ _
  have hrules : OneEach rules := List.nodup_singleton _
  have hwrapped : WrapsItems (registryOf elements)
      (itemType ((registryOf elements).declared (ElementId.ofType "z" "macro").fullName "actions"))
      [status, priority]
      [.ofAction "status" (.list [.string "solved"]),
        .ofAction "priority" (.list [.string "low"])] := by
    let action : FieldType := .object (ElementId.ofType "z" "action").fullName
    have hactions : (registryOf elements).declared (ElementId.ofType "z" "macro").fullName
        "actions" = some (.list action) := by decide +kernel
    have hfield : entryType (registryOf elements) (some action) "field"
        = some (.primitive .string) := by decide +kernel
    have hvalue : entryType (registryOf elements) (some action) "value"
        = some (.list (.primitive .string)) := by decide +kernel
    rw [hactions]
    exact .cons (.ofAction hfield hvalue rfl "status" "solved")
      (.cons (.ofAction hfield hvalue rfl "priority" "low") .nil)
  have hreordered : Forall₂ (Element.Related (Reordered (registryOf elements) rules)) elements
      (Element.ofActions [priority, status]) := by
    refine .cons (.object _) (.cons (.object _) (.cons (.inst ⟨⟨_, rfl⟩, ?_⟩) .nil))
    refine .cons (.list (List.mem_singleton_self _) rfl (.swap _ _ _) hwrapped ?_) .nil
    decide +kernel
  obtain ⟨coerced, once, hfetch, hagain, -, -, -, hsame⟩ :=
    lists_canonical .ofActions {} hdistinct hsorted
  exact ⟨hdistinct, hsorted, hrules, hreordered, once, hfetch (), hagain (),
    hsame hrules _ hreordered ()⟩

end AccountSync
