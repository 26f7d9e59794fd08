/-
  AccountSync.Proofs.Children.OrderInstances
  ──────────────────────────────────────────
  **WHEN FETCHED ELEMENTS HAVE DIFFERENT IDENTIFIERS.**

  A fetch keeps the elements that it was given, in order, and adds a type for each rule about
  orders and an instance for each parent.  The names of both are made of the names of types
  and of parents, so they are different exactly if these are.  Two rules with the same type of
  children add the same type twice.

      OrderInstances.added_nodup_iff   — when what rules add has different identifiers
      fetched_ids_different_iff        — when all fetched elements have
-/
import AccountSync.Adapter
import AccountSync.Proofs.Filter.Fetched
import Mathlib.Data.List.Nodup

namespace AccountSync

open List (Forall₂)

variable {ω : Type}

/-! ## §1. What one rule adds. -/

namespace OrderInstances

/-- The identifier of the instance that holds the order below a parent. -/
def orderId (adapter : String) (rule : OrderInstanceRule) (name : String) : ElementId :=
  .ofInstance adapter rule.orderType (name ++ "_order")

/-- What orders are named after can be read off their names. -/
theorem append_order_injective : Function.Injective fun name : String => name ++ "_order" := by
  intro name name' h
  have htext : name.toList ++ "_order".toList = name'.toList ++ "_order".toList := by
    have hlist : (name ++ "_order").toList = (name' ++ "_order").toList := congrArg _ h
    rwa [String.toList_append, String.toList_append] at hlist
  exact String.toList_injective (List.append_cancel_right htext)

theorem orderId_injective (adapter : String) (rule : OrderInstanceRule) :
    Function.Injective (orderId adapter rule) := by
  intro name name' h
  have hpath : [name ++ "_order"] = [name' ++ "_order"] := congrArg ElementId.path h
  exact append_order_injective (List.head_eq_of_cons_eq hpath)

/-- The names of the parents that a rule is about. -/
def parentNames (rule : OrderInstanceRule) (elements : List Element) : List String :=
  (Element.instancesOf elements rule.parentType).map (fun parent => parent.id.name)

/-- Filters that replace values do not rename parents. -/
theorem parentNames_of_aligned {kept : String → String → Prop} {elements fetched : List Element}
    (h : Forall₂ (Element.Aligned (Instance.Preserved kept)) elements fetched)
    (rule : OrderInstanceRule) : parentNames rule fetched = parentNames rule elements := by
  unfold parentNames
  refine (map_eq_of_forall₂ ((Element.aligned_instancesOf h rule.parentType).imp ?_)).symm
  intro i j hij
  rw [hij.2.id]

theorem addedBy_ids (adapter : String) (elements : List Element) (rule : OrderInstanceRule) :
    (addedBy adapter elements rule).map Element.id
      = typeId adapter rule :: (parentNames rule elements).map (orderId adapter rule) := by
  unfold addedBy parentNames
  rw [List.map_cons, List.map_map, List.map_map]
  rfl

/-- Whatever a rule adds is named after the type of its orders. -/
theorem typeName_of_mem {adapter : String} {elements : List Element} {rule : OrderInstanceRule}
    {id : ElementId} (h : id ∈ (addedBy adapter elements rule).map Element.id) :
    id.typeName = rule.orderType := by
  rw [addedBy_ids] at h
  rcases List.mem_cons.mp h with rfl | h
  · rfl
  · obtain ⟨name, -, rfl⟩ := List.mem_map.mp h
    rfl

/-- What a rule adds has different identifiers if the parents have different names. -/
theorem addedBy_nodup_iff (adapter : String) (elements : List Element) (rule : OrderInstanceRule) :
    ((addedBy adapter elements rule).map Element.id).Nodup ↔ (parentNames rule elements).Nodup := by
  have hfresh : typeId adapter rule ∉ (parentNames rule elements).map (orderId adapter rule) := by
    intro hmem
    obtain ⟨name, -, heq⟩ := List.mem_map.mp hmem
    exact absurd (congrArg ElementId.place heq) nofun
  rw [addedBy_ids, List.nodup_cons, List.nodup_map_iff (orderId_injective adapter rule)]
  exact and_iff_right hfresh

/-! ## §2. What all rules add. -/

/-- What rules add has different identifiers exactly if the types of orders have different names,
and so have the parents of each rule. -/
theorem added_nodup_iff (adapter : String) (rules : List OrderInstanceRule)
    (elements : List Element) :
    ((added adapter rules elements).map Element.id).Nodup
      ↔ (rules.map OrderInstanceRule.orderType).Nodup
        ∧ ∀ rule ∈ rules, (parentNames rule elements).Nodup := by
  unfold added
  rw [List.map_flatMap, List.nodup_flatMap, and_comm]
  refine and_congr ?_ (forall₂_congr fun rule _ => addedBy_nodup_iff adapter elements rule)
  unfold List.Nodup
  rw [List.pairwise_map]
  -- of two rules the types tell whether they add something in common
  refine List.Pairwise.iff fun rule rule' => ?_
  constructor
  · rintro hdisjoint heq
    have hsame : typeId adapter rule = typeId adapter rule' :=
      congrArg (ElementId.ofType adapter) heq
    have hmem (rule : OrderInstanceRule) :
        typeId adapter rule ∈ (addedBy adapter elements rule).map Element.id :=
      addedBy_ids adapter elements rule ▸ List.mem_cons_self
    exact hdisjoint (hmem rule) (hsame ▸ hmem rule')
  · intro hne id hid hid'
    exact hne ((typeName_of_mem hid).symm.trans (typeName_of_mem hid'))

theorem exists_rule_of_mem {adapter : String} {rules : List OrderInstanceRule}
    {elements : List Element} {id : ElementId}
    (h : id ∈ (added adapter rules elements).map Element.id) :
    ∃ rule ∈ rules, id.typeName = rule.orderType := by
  unfold added at h
  rw [List.map_flatMap] at h
  obtain ⟨rule, hrule, hmem⟩ := List.mem_flatMap.mp h
  exact ⟨rule, hrule, typeName_of_mem hmem⟩

/-- Elements that are not named after orders are none of those that are added. -/
theorem disjoint_added {adapter : String} {rules : List OrderInstanceRule}
    {given elements : List Element}
    (hfresh : ∀ e ∈ given, ∀ rule ∈ rules, e.id.typeName ≠ rule.orderType) :
    List.Disjoint (given.map Element.id) ((added adapter rules elements).map Element.id) := by
  intro id hid hadded
  obtain ⟨e, he, rfl⟩ := List.mem_map.mp hid
  obtain ⟨rule, hrule, htype⟩ := exists_rule_of_mem hadded
  exact hfresh e he rule hrule htype

end OrderInstances

/-! ## §3. All fetched elements. -/

/-- A fetch keeps the elements that are included, in order and with other values, and adds the
types and instances of orders.  If the elements have different identifiers, and none of them that
of an order, then everything that is fetched has different identifiers exactly if no two rules are
about the same type of children and no rule is about two parents of one name. -/
theorem fetched_ids_different_iff (s : Session ω) (source : ElementSource) {elements : List Element}
    (hdistinct : (elements.map Element.id).Nodup)
    (hfresh : ∀ e ∈ elements, ∀ rule ∈ s.settings.filters.orderInstances,
      e.id.typeName ≠ rule.orderType) (w : ω) :
    let a := Adapter.standard s source
    let included := elements.filter a.includes
    let rules := s.settings.filters.orderInstances
    let fetched := (a.fetch elements w).1.elements
    (∃ front, Forall₂ (Element.Aligned fun i j => ∃ value, j = { i with value }) included front
        ∧ fetched = front ++ OrderInstances.added s.settings.adapter rules front)
      ∧ ((fetched.map Element.id).Nodup
        ↔ (rules.map OrderInstanceRule.orderType).Nodup
          ∧ ∀ rule ∈ rules, (OrderInstances.parentNames rule included).Nodup) := by
  intro a included rules fetched
  obtain ⟨coerced, users, hcoerced, hfetched⟩ := Pipeline.fetch_standard s included w
  let front := Filter.withLists s (Filter.readied s users coerced)
  -- no scalar has to be kept, only the identifiers count
  have hfront : Forall₂ (Element.Aligned (Instance.Preserved fun _ _ => False)) included front :=
    Element.aligned_trans (Filter.readied_aligned (fun _ _ => False.elim) hcoerced users)
      (Filter.withLists_aligned (fun _ _ => id) _)
  have hfetched' : fetched = front ++ OrderInstances.added s.settings.adapter rules front :=
    hfetched
  refine ⟨⟨front, ?_, hfetched'⟩, ?_⟩
  · refine hfront.imp fun e e' he => ?_
    cases he with
    | object hid => exact .object hid
    | inst hi => exact .inst hi.same
  · have hids : front.map Element.id = included.map Element.id := Element.aligned_ids hfront
    have hnames (rule : OrderInstanceRule) : OrderInstances.parentNames rule front
        = OrderInstances.parentNames rule included :=
      OrderInstances.parentNames_of_aligned hfront rule
    have hincluded : (included.map Element.id).Nodup :=
      hdistinct.sublist (List.filter_sublist.map Element.id)
    have hapart : List.Disjoint (included.map Element.id)
        ((OrderInstances.added s.settings.adapter rules front).map Element.id) :=
      OrderInstances.disjoint_added fun e he => hfresh e (List.mem_of_mem_filter he)
    rw [hfetched', List.map_append, hids, List.nodup_append', OrderInstances.added_nodup_iff]
    simp only [hnames, hincluded, hapart, true_and, and_true]

/-- An account with orders of children. -/
def Session.ofOrders (rules : List OrderInstanceRule) : Session Unit where
  settings := {
    adapter := "z"
    client := { baseUrl := "https://a" }
    filters := { orderInstances := rules } }
  client := ⟨fun _ => pure (.error { status := none, message := "" })⟩
  next := .eager

/-- A brand and a category. -/
def Element.ofOrders : List Element :=
  [.inst (.named "b" (.ofType "z" "brand") []), .inst (.named "c" (.ofType "z" "category") [])]

/-- If brands and categories both order sections, then the type of orders of sections is added by
both rules. -/
theorem order_type_added_twice :
    let rules : List OrderInstanceRule :=
      [{ parentType := "brand", childType := "section", url := "/brands/" ++ Text.braced "key" },
        { parentType := "category", childType := "section"
          url := "/categories/" ++ Text.braced "key" }]
    let elements := Element.ofOrders
    let fetched := ((Adapter.standard (.ofOrders rules) fun _ => none).fetch elements ()).1.elements
    (elements.map Element.id).Nodup
      ∧ (∀ e ∈ elements, ∀ rule ∈ rules, e.id.typeName ≠ rule.orderType)
      ∧ fetched.map Element.id = [.ofInstance "z" "brand" "b", .ofInstance "z" "category" "c",
        .ofType "z" "section_order", .ofInstance "z" "section_order" "b_order",
        .ofType "z" "section_order", .ofInstance "z" "section_order" "c_order"]
      ∧ ¬(fetched.map Element.id).Nodup := by
  intro rules elements fetched
  have hids : fetched.map Element.id
      = [.ofInstance "z" "brand" "b", .ofInstance "z" "category" "c",
        .ofType "z" "section_order", .ofInstance "z" "section_order" "b_order",
        .ofType "z" "section_order", .ofInstance "z" "section_order" "c_order"] := by
    decide +kernel
  refine ⟨by decide +kernel, by decide +kernel, hids, ?_⟩
  rw [hids]
  decide

/-- If brands order categories and categories order sections, then all identifiers are different. -/
theorem fetched_ids_different_iff_for_categories :
    let rules : List OrderInstanceRule :=
      [{ parentType := "brand", childType := "category", url := "/brands/" ++ Text.braced "key" },
        { parentType := "category", childType := "section"
          url := "/categories/" ++ Text.braced "key" }]
    let elements := Element.ofOrders
    let fetched := ((Adapter.standard (.ofOrders rules) fun _ => none).fetch elements ()).1.elements
    (elements.map Element.id).Nodup
      ∧ (∀ e ∈ elements, ∀ rule ∈ rules, e.id.typeName ≠ rule.orderType)
      ∧ fetched.length = 6 ∧ (fetched.map Element.id).Nodup := by
  intro rules elements fetched
  have hdistinct : (elements.map Element.id).Nodup := by decide +kernel
  have hfresh : ∀ e ∈ elements, ∀ rule ∈ rules, e.id.typeName ≠ rule.orderType := by
    decide +kernel
  have hiff := (fetched_ids_different_iff (.ofOrders rules) (fun _ => none) hdistinct hfresh ()).2
  exact ⟨hdistinct, hfresh, by decide +kernel, hiff.mpr (by decide +kernel)⟩

end AccountSync
