/-
  AccountSync.Proofs.Children.Lists
  ─────────────────────────────────
  **PARENTS LIST ALL OF THEIR CHILDREN.**

  A parent and its children are matched after other filters were there.  If none of these is
  about the identifier of the parent, or about the fields of the children that name it and
  hold their positions, then every child that was fetched with the identifier is listed, once
  and in the order of positions.  A child whose field became a reference is not found.

      Children.Lists            — what a list of references has to be
      Children.listFor?_lists   — the list of a parent, by what was fetched
      child_lists_complete      — all parents after a fetch
-/
import AccountSync.Adapter
import AccountSync.Proofs.Filter.Fetched
import AccountSync.Proofs.Sorting
import Mathlib.Data.List.Nodup
import Mathlib.Data.List.Perm.Basic

namespace AccountSync

open List (Forall₂)

variable {ω : Type} {kept : String → String → Prop}

/-! ## §1. What depends on a scalar. -/

/-- An instance is looked up by the scalar in a field. -/
theorem LookupTable.fieldKey?_eq (field : String) (i : Instance) :
    fieldKey? field i = (i.scalar? field).bind Value.keyText? := by
  unfold fieldKey? Instance.scalar?
  cases i.get? field with
  | none => rfl
  | some v => cases v <;> rfl

namespace Children

/-- The position of a child is a scalar. -/
theorem position?_eq (field : String) (child : Instance) :
    position? field child = (child.scalar? field).bind Value.signed? := by
  unfold position? Instance.scalar?
  cases child.get? field with
  | none => rfl
  | some v => cases v <;> rfl

variable {rule : ChildOrderRule} {elements arrived : List Element}

/-- The children of a parent are the same ones, if the field that names it is kept. -/
theorem ofParent_preserved
    (h : Forall₂ (Element.Aligned (Instance.Preserved kept)) elements arrived)
    (hparent : kept rule.childType rule.parentIdField) (key : String) :
    Forall₂ (fun i j => i.typeName = rule.childType ∧ Instance.Preserved kept i j)
      (ofParent rule elements key) (ofParent rule arrived key) := by
  unfold ofParent
  refine List.rel_filter (fun i j hij => ?_) (Element.aligned_instancesOf h rule.childType)
  obtain ⟨htype, hi⟩ := hij
  have hkey : LookupTable.fieldKey? rule.parentIdField i
      = LookupTable.fieldKey? rule.parentIdField j := by
    rw [LookupTable.fieldKey?_eq, LookupTable.fieldKey?_eq, hi.scalars _ (htype ▸ hparent)]
  dsimp only
  rw [hkey]

/-- The references are those to the children of the parent with the identifier, each once and in
the order of their positions. -/
structure Lists (rule : ChildOrderRule) (elements : List Element) (key : String)
    (refs : List Reference) : Prop where
  once : (refs.map Reference.id).Nodup
  children : ∃ children : List Instance, children.Perm (ofParent rule elements key)
    ∧ refs.map Reference.id = children.map Instance.id
    ∧ children.Pairwise fun a b => Sorting.lastIfAbsent compare (position? rule.positionField a)
        (position? rule.positionField b) ≠ .gt

/-- Different children are different elements. -/
theorem ofParent_ids_nodup (hdistinct : ((Element.instances elements).map Instance.id).Nodup)
    (key : String) : ((ofParent rule elements key).map Instance.id).Nodup := by
  have hsublist : (ofParent rule elements key).Sublist (Element.instances elements) :=
    List.filter_sublist.trans List.filter_sublist
  exact hdistinct.sublist (hsublist.map Instance.id)

/-- A parent with an identifier lists the children that were fetched with it. -/
theorem listFor?_lists (h : Forall₂ (Element.Aligned (Instance.Preserved kept)) elements arrived)
    (hdistinct : ((Element.instances elements).map Instance.id).Nodup)
    (hparent : kept rule.childType rule.parentIdField)
    (hposition : kept rule.childType rule.positionField) {parent : Instance} {key : String}
    (hkey : LookupTable.fieldKey? "id" parent = some key) :
    ∃ refs, listFor? rule arrived parent = some (.list (refs.map Value.reference))
      ∧ Lists rule elements key refs := by
  let listed := sorted rule.positionField rule.createdAtField (ofParent rule arrived key)
  have hlist : listFor? rule arrived parent
      = some (.list ((listed.map Instance.reference).map Value.reference)) := by
    unfold listFor?
    rw [hkey, List.map_map]
    rfl
  refine ⟨listed.map Instance.reference, hlist, ?_⟩
  -- whatever order the children were put in, that is an order of those that were fetched
  have hperm : listed.Perm (ofParent rule arrived key) := Sorting.sortedBy_perm _ _
  obtain ⟨children, hchildren, hfetched⟩ :=
    List.perm_comp_forall₂ hperm (ofParent_preserved h hparent key).flip
  have hids : (listed.map Instance.reference).map Reference.id = children.map Instance.id := by
    rw [List.map_map]
    exact map_eq_of_forall₂ (hchildren.imp fun j i hij => hij.2.id)
  -- the list was sorted by what is at the positions now, which is what was fetched there
  have hpositions : listed.map (position? rule.positionField)
      = children.map (position? rule.positionField) := by
    refine map_eq_of_forall₂ (hchildren.imp fun j i hij => ?_)
    rw [position?_eq, position?_eq, hij.2.scalars _ (hij.1 ▸ hposition)]
  have hsorted : children.Pairwise fun a b => Sorting.lastIfAbsent compare
      (position? rule.positionField a) (position? rule.positionField b) ≠ .gt := by
    have hlisted : (listed.map (position? rule.positionField)).Pairwise
        fun a b => Sorting.lastIfAbsent compare a b ≠ .gt :=
      List.pairwise_map.mpr (sorted_positions rule.positionField rule.createdAtField _)
    rw [hpositions] at hlisted
    exact List.pairwise_map.mp hlisted
  refine ⟨?_, children, hfetched, hids, hsorted⟩
  rw [hids]
  exact (hfetched.map Instance.id).nodup_iff.mpr (ofParent_ids_nodup hdistinct key)

/-! ## §2. Fields that no filter is about. -/

/-- No filter is about a scalar in the field before parents list their children as the rule after
the given ones says. -/
structure Undisturbed (s : Session ω) (elements : List Element) (before : List ChildOrderRule)
    (typeName field : String) : Prop where
  filters : Filter.Untouched s elements typeName field
  lists : ∀ other ∈ before, ¬(other.parentType = typeName ∧ other.orderField = field)

/-- What a parent comes to, with its children in a list. -/
structure WithChildren (rule : ChildOrderRule) (elements : List Element) (i j : Instance) :
    Prop where
  same : ∃ value, j = { i with value }
  lists : i.typeName = rule.parentType → ∀ key, LookupTable.fieldKey? "id" i = some key →
    ∃ refs, j.get? rule.orderField = some (.list (refs.map Value.reference))
      ∧ Lists rule elements key refs

/-- One rule lists children, and rules about other lists leave the list as it is. -/
theorem withLists_children
    (h : Forall₂ (Element.Aligned (Instance.Preserved kept)) elements arrived)
    (hdistinct : ((Element.instances elements).map Instance.id).Nodup)
    (hparent : kept rule.childType rule.parentIdField)
    (hposition : kept rule.childType rule.positionField) {after : List ChildOrderRule}
    (hafter : ∀ other ∈ after,
      ¬(other.parentType = rule.parentType ∧ other.orderField = rule.orderField)) :
    Forall₂ (Element.Related (WithChildren rule elements)) arrived
      (withLists after (listedBy arrived rule)) := by
  refine Element.related_of_mapInstances (fun i _ k hlisted => ?_) (withLists_listed after _)
  by_cases htype : i.typeName = rule.parentType
  -- the rule gives a parent its list, and the rules after it spare the field
  · rw [if_pos htype] at hlisted
    obtain ⟨value, hvalue⟩ := withList_same rule arrived i
    have hsame := hlisted.same
    rw [hvalue] at hsame
    refine ⟨hsame, fun _ key hkey => ?_⟩
    obtain ⟨refs, hlist, hrefs⟩ := listFor?_lists h hdistinct hparent hposition hkey
    refine ⟨refs, ?_, hrefs⟩
    have hspared := hlisted.fields rule.orderField fun other hother hnames => by
      have htypeName : (withList rule arrived i).typeName = rule.parentType := hvalue ▸ htype
      exact hafter other hother ⟨hnames.1.trans htypeName, hnames.2⟩
    rw [hspared]
    unfold withList
    rw [hlist]
    exact i.get?_set_self rule.orderField _
  · rw [if_neg htype] at hlisted
    exact ⟨hlisted.same, fun htype' => absurd htype' htype⟩

end Children

/-! ## §3. All parents after a fetch. -/

/-- After a fetch every parent with an identifier lists exactly the children that were fetched with
that identifier, each once and in the order of positions, if no filter before is about the fields
that say so and no rule after is about the same list. -/
theorem child_lists_complete (s : Session ω) (source : ElementSource) {elements : List Element}
    (hdistinct : ((Element.instances elements).map Instance.id).Nodup)
    (hguide : s.settings.fetch.guideEnabled = true)
    {before after : List ChildOrderRule} {rule : ChildOrderRule}
    (hrules : s.settings.filters.childOrder = before ++ rule :: after)
    (hafter : ∀ other ∈ after,
      ¬(other.parentType = rule.parentType ∧ other.orderField = rule.orderField))
    (hid : Children.Undisturbed s elements before rule.parentType "id")
    (hparent : Children.Undisturbed s elements before rule.childType rule.parentIdField)
    (hposition : Children.Undisturbed s elements before rule.childType rule.positionField) (w : ω) :
    let a := Adapter.standard s source
    let included := elements.filter a.includes
    let fetched := (a.fetch elements w).1.elements
    ∃ front, fetched
        = front ++ OrderInstances.added s.settings.adapter s.settings.filters.orderInstances front
      ∧ Forall₂ (Element.Aligned (Children.WithChildren rule included)) included front := by
  intro a included fetched
  obtain ⟨coerced, users, hcoerced, hfetched⟩ := Pipeline.fetch_standard s included w
  let readied := Filter.readied s users coerced
  let arrived := Children.withLists before readied
  have hfront : Filter.withLists s readied
      = Children.withLists after (Children.listedBy arrived rule) := by
    unfold Filter.withLists Children.withLists
    rw [if_pos hguide, hrules, List.foldl_append, List.foldl_cons]
    rfl
  refine ⟨Filter.withLists s readied, hfetched, ?_⟩
  -- nothing that happens before parents list their children disturbs the three fields
  let kept := Children.Undisturbed s elements before
  have harrived : Forall₂ (Element.Aligned (Instance.Preserved kept)) included arrived := by
    refine Element.aligned_trans (Filter.readied_aligned (fun _ _ hkept => ?_) hcoerced users)
      (Element.aligned_of_related (Children.withLists_preserved ?_ readied))
    · exact hkept.filters.mono fun _ => List.mem_of_mem_filter
    · exact fun other hother hkept => hkept.lists other hother ⟨rfl, rfl⟩
  have hincluded : (Element.instances included).Sublist (Element.instances elements) :=
    List.filter_sublist.filterMap _
  have hlists := Children.withLists_children harrived
    (hdistinct.sublist (hincluded.map Instance.id)) hparent hposition hafter
  rw [hfront]
  refine Element.aligned_comp harrived (Element.aligned_of_related hlists) fun i j k hij hjk => ?_
  obtain ⟨value, rfl⟩ := hij.same
  refine ⟨hjk.same, fun htype key hkey => hjk.lists htype key ?_⟩
  -- the identifier of the parent is the one that was fetched
  rw [LookupTable.fieldKey?_eq] at hkey ⊢
  rw [hij.scalars "id" (htype ▸ hid), hkey]

/-- Categories list their sections. -/
def ChildOrderRule.ofSections : ChildOrderRule where
  parentType := "category"
  childType := "section"
  orderField := "sections"
  parentIdField := "category_id"

/-- An account with a rule about identifiers, where categories list their sections. -/
def Session.ofCategories (rule : IdReferenceRule) : Session Unit where
  settings := {
    adapter := "z"
    client := { baseUrl := "https://a" }
    filters := { idReferences := [rule], childOrder := [.ofSections] } }
  client := ⟨fun _ => pure (.error { status := none, message := "" })⟩
  next := .eager

/-- A category, and two sections of it, the last one first. -/
def Element.ofCategories : List Element :=
  let ofSection (name : String) (position : Int) : Element :=
    .inst (.named name (.ofType "z" "section")
      [("brand_id", .number (.int 3)), ("category_id", .number (.int 1)),
        ("position", .number (.int position))])
  [.inst (.named "c" (.ofType "z" "category") [("id", .number (.int 1))]),
    ofSection "s" 1, ofSection "t" 0]

/-- The identifiers in the lists of sections. -/
def Element.listedSections (elements : List Element) : List (Option (List ElementId)) :=
  (instances elements).map fun i =>
    (i.get? "sections").bind fun v => v.list?.map fun items =>
      (items.filterMap Value.reference?).map Reference.id

/-- If identifiers of categories become references, then no section is listed. -/
theorem sections_left_out :
    let s := Session.ofCategories ⟨"section", "category_id", "category", false⟩
    let elements := Element.ofCategories
    let fetched := ((Adapter.standard s fun _ => none).fetch elements ()).1.elements
    (elements.map Element.id).Nodup
      ∧ (Element.instances elements).map (LookupTable.fieldKey? "id") = [some "1", none, none]
      ∧ (Children.ofParent .ofSections elements "1").map Instance.id
        = [.ofInstance "z" "section" "s", .ofInstance "z" "section" "t"]
      ∧ Element.listedSections fetched = [some [], none, none]
      ∧ ¬∃ refs : List Reference, Children.Lists .ofSections elements "1" refs
        ∧ (Element.listedSections fetched)[0]? = some (some (refs.map Reference.id)) := by
  intro s elements fetched
  have hchildren : (Children.ofParent .ofSections elements "1").map Instance.id
      = [.ofInstance "z" "section" "s", .ofInstance "z" "section" "t"] := by decide +kernel
  have hlisted : Element.listedSections fetched = [some [], none, none] := by decide +kernel
  refine ⟨by decide +kernel, by decide +kernel, hchildren, hlisted, fun ⟨refs, hrefs, hlist⟩ => ?_⟩
  obtain ⟨children, hperm, hids, -⟩ := hrefs.children
  rw [hlisted] at hlist
  have hnone : refs.map Reference.id = [] := (Option.some.inj (Option.some.inj hlist)).symm
  have hsame := hperm.map Instance.id
  rw [← hids, hnone, hchildren] at hsame
  exact absurd hsame.length_eq (by decide)

/-- If identifiers of brands do, then the category lists both sections. -/
theorem child_lists_complete_for_categories :
    let s := Session.ofCategories ⟨"section", "brand_id", "brand", false⟩
    let elements := Element.ofCategories
    let fetched := ((Adapter.standard s fun _ => none).fetch elements ()).1.elements
    ((Element.instances elements).map Instance.id).Nodup
      ∧ (Element.instances elements).map (LookupTable.fieldKey? "id") = [some "1", none, none]
      ∧ (Children.ofParent .ofSections elements "1").map Instance.id
        = [.ofInstance "z" "section" "s", .ofInstance "z" "section" "t"]
      ∧ ∃ front, fetched = front ++ OrderInstances.added "z" [] front
        ∧ Forall₂ (Element.Aligned (Children.WithChildren .ofSections elements)) elements
          front := by
  intro s elements fetched
  have hdistinct : ((Element.instances elements).map Instance.id).Nodup := by decide +kernel
  have hrules : s.settings.filters.childOrder = [] ++ .ofSections :: [] := rfl
  have hundisturbed (typeName field : String)
      (hfield : typeName = "section" → ["brand_id"] ≠ [field]) :
      Children.Undisturbed s elements [] typeName field := by
    refine ⟨⟨?_, ?_, ?_, ?_⟩, ?_⟩
    · exact fun o ho => absurd ho (by simp [elements, Element.ofCategories])
    · intro rule hrule htype
      obtain rfl := List.mem_singleton.mp hrule
      exact hfield htype.symm
    · exact fun _ h => absurd h List.not_mem_nil
    · exact fun _ h => absurd h List.not_mem_nil
    · exact fun _ h => absurd h List.not_mem_nil
  refine ⟨hdistinct, by decide +kernel, by decide +kernel, ?_⟩
  exact child_lists_complete s (fun _ => none) hdistinct rfl hrules
    (fun _ h => absurd h List.not_mem_nil) (hundisturbed "category" "id" (by decide))
    (hundisturbed "section" "category_id" (by decide))
    (hundisturbed "section" "position" (by decide)) ()

end AccountSync
