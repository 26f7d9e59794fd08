/-
  AccountSync.Proofs.Change.Fields
  ────────────────────────────────
  **IN WHICH FIELDS TWO SNAPSHOTS DIFFER.**

  The differences of two snapshots lie in the fields in which these differ, and there is one
  in each of them.  Only the fields themselves have to be in order for that; what is inside
  of them may be any trees.

      Instance.DiffersIn          — two snapshots have different values of a field
      Difference.ofFields_inside  — every difference lies in such a field
      Difference.ofFields_touches — there is one in every such field
-/
import AccountSync.Proofs.Change.Difference

namespace AccountSync

open Value (sameOption)

/-- The snapshots have different values of the field, or only one of them has any. -/
def Instance.DiffersIn (before after : Instance) (field : String) : Prop :=
  sameOption (before.get? field) (after.get? field) = false

/-! ## §1. Rows without order. -/

/-- What a row has of the first map is one of its entries. -/
theorem mem_of_entryRows {before after : List (String × Value)} {r : Row}
    (hr : r ∈ entryRows before after) {v : Value} (hv : r.before = some v) :
    (r.part, v) ∈ before := by
  fun_induction entryRows before after with
  | case1 after =>
    obtain ⟨e, -, rfl⟩ := List.mem_map.mp hr
    cases hv
  | case2 k u before =>
    rw [← List.map_cons] at hr
    obtain ⟨e, he, rfl⟩ := List.mem_map.mp hr
    obtain rfl := Option.some.inj hv
    exact he
  | case3 k u before k' w after hlt ih =>
    rcases List.mem_cons.mp hr with rfl | hr
    · obtain rfl := Option.some.inj hv
      exact List.mem_cons_self
    · exact List.mem_cons_of_mem _ (ih hr)
  | case4 k u before k' w after hle hlt ih =>
    rcases List.mem_cons.mp hr with rfl | hr
    · cases hv
    · exact ih hr
  | case5 k u before k' w after hle hge ih =>
    rcases List.mem_cons.mp hr with rfl | hr
    · obtain rfl := Option.some.inj hv
      exact List.mem_cons_self
    · exact List.mem_cons_of_mem _ (ih hr)

/-- What a row has of the first list is one of its items. -/
theorem mem_of_itemRows {n : Nat} {before after : List Value} {r : Row}
    (hr : r ∈ itemRows n before after) {v : Value} (hv : r.before = some v) : v ∈ before := by
  obtain ⟨i, -, hbefore, -⟩ := itemRows_faithful hr
  exact List.mem_of_getElem? (hbefore.trans hv)

/-! ## §2. Differences lie below the root. -/

/-- A comparison finds something unless the trees are equal, and nothing outside of them. -/
structure Tight (v w : Value) : Prop where
  below : ∀ id : ElementId, id.isType = false →
    ∀ d ∈ Difference.between id v w, ∃ path, d.id = id.nest path
  nonempty : v.same w = false → ∀ id, Difference.between id v w ≠ []

namespace Row

/-- The children of the row are compared tightly. -/
def Tight (r : Row) : Prop :=
  ∀ v w, r.before = some v → r.after = some w → AccountSync.Tight v w

theorem mem_differences {r : Row} (h : r.Tight) {id : ElementId} {d : Difference}
    (hd : d ∈ r.differences id) : ¬r.Same ∧ ∃ path, d.id = id.nest (r.part :: path) := by
  obtain ⟨part, before, after⟩ := r
  cases before with
  | none =>
    cases after with
    | none => exact absurd hd List.not_mem_nil
    | some w =>
      obtain rfl := List.mem_singleton.mp hd
      exact ⟨nofun, [], rfl⟩
  | some v =>
    cases after with
    | none =>
      obtain rfl := List.mem_singleton.mp hd
      exact ⟨nofun, [], rfl⟩
    | some w =>
      constructor
      · intro hsame
        have hnone : differences id ⟨part, some v, some w⟩ = [] :=
          Difference.between_of_same (id.nest [part]) hsame
        rw [hnone] at hd
        exact absurd hd List.not_mem_nil
      · obtain ⟨path, hpath⟩ :=
          (h v w rfl rfl).below (id.nest [part]) (ElementId.nest_isType id [part]) d hd
        exact ⟨path, hpath.trans (ElementId.nest_nest id [part] path)⟩

theorem differences_ne_nil {r : Row} (h : r.Tight) (hne : ¬r.Same) (id : ElementId) :
    r.differences id ≠ [] := by
  obtain ⟨part, before, after⟩ := r
  cases before with
  | none =>
    cases after with
    | none => exact absurd rfl hne
    | some w => exact List.cons_ne_nil _ _
  | some v =>
    cases after with
    | none => exact List.cons_ne_nil _ _
    | some w => exact (h v w rfl rfl).nonempty (Bool.eq_false_iff.mpr hne) (id.nest [part])

end Row

namespace Tight

theorem of_same {v w : Value} (h : v.same w = true) : Tight v w where
  below := by
    intro id _ d hd
    rw [Difference.between_of_same id h] at hd
    exact absurd hd List.not_mem_nil
  nonempty := fun hne => absurd (h.symm.trans hne) nofun

/-- Trees that are compared as a whole. -/
theorem of_whole {v w : Value}
    (h : ∀ id, Difference.between id v w = [⟨id, .modification v w⟩]) : Tight v w where
  below := by
    intro id hid d hd
    rw [h id] at hd
    obtain rfl := List.mem_singleton.mp hd
    exact ⟨[], (ElementId.nest_nil hid).symm⟩
  nonempty := by
    intro _ id
    rw [h id]
    exact List.cons_ne_nil _ _

/-- Trees that are compared row by row. -/
theorem of_rows {v w : Value} {rows : List Row}
    (h : ∀ id, Difference.between id v w = rows.flatMap (Row.differences id))
    (hsame : v.same w = true ↔ ∀ r ∈ rows, r.Same) (hrows : ∀ r ∈ rows, r.Tight) :
    Tight v w where
  below := by
    intro id _ d hd
    rw [h id] at hd
    obtain ⟨r, hr, hd⟩ := List.mem_flatMap.mp hd
    obtain ⟨-, path, hpath⟩ := Row.mem_differences (hrows r hr) hd
    exact ⟨r.part :: path, hpath⟩
  nonempty := by
    intro hne id
    obtain ⟨r, hr, hrow⟩ : ∃ r ∈ rows, ¬r.Same := by
      simpa [hne] using hsame
    rw [h id]
    intro hnil
    exact Row.differences_ne_nil (hrows r hr) hrow id (List.flatMap_eq_nil_iff.mp hnil r hr)

end Tight

/-- All trees are compared tightly. -/
theorem Difference.between_tight (v w : Value) : Tight v w := by
  induction v using Value.member_induction generalizing w with
  | map before ih =>
    cases h : (Value.map before).same w with
    | true => exact .of_same h
    | false =>
      cases w with
      | map after =>
        refine .of_rows (between_maps · h) (sameEntries_iff_rows before after) ?_
        exact fun r hr c c' hc _ => ih _ (mem_of_entryRows hr hc) c'
      | _ => exact .of_whole fun id => between_whole id (.inr rfl) (.inl rfl) h
  | list before ih =>
    cases h : (Value.list before).same w with
    | true => exact .of_same h
    | false =>
      cases w with
      | list after =>
        refine .of_rows (between_lists · h) (sameItems_iff_rows 0 before after) ?_
        exact fun r hr c c' hc _ => ih _ (mem_of_itemRows hr hc) c'
      | _ => exact .of_whole fun id => between_whole id (.inl rfl) (.inr rfl) h
  | leaf v hmap hlist =>
    cases h : v.same w with
    | true => exact .of_same h
    | false => exact .of_whole fun id => between_whole id (.inl hmap) (.inl hlist) h

/-! ## §3. Differences of fields. -/

theorem ElementId.topLevel_nest {id : ElementId} (h : id.isTopLevel = true) (parts : List String) :
    (id.nest parts).topLevel.2 = parts := by
  obtain ⟨adapter, typeName, place⟩ := id
  match place, h with
  | .type, _ => rfl
  | .within .inst [_], _ => rfl

namespace Difference

variable {root : ElementId} {before after : Fields}

/-- A difference of fields lies in one in which they differ. -/
theorem ofFields_inside (hroot : root.isTopLevel = true) (hbefore : Dict.Sorted before)
    (hafter : Dict.Sorted after) {d : Difference} (hd : d ∈ ofFields root before after) :
    ∃ field, d.path.head? = some field
      ∧ sameOption (Dict.get? before field) (Dict.get? after field) = false := by
  unfold ofFields at hd
  rw [betweenEntries_rows] at hd
  obtain ⟨r, hr, hd⟩ := List.mem_flatMap.mp hd
  obtain ⟨hne, path, hpath⟩ := Row.mem_differences (fun v w _ _ => between_tight v w) hd
  obtain ⟨hleft, hright⟩ := entryRows_faithful hbefore hafter hr
  refine ⟨r.part, ?_, ?_⟩
  · unfold Difference.path
    rw [hpath, ElementId.topLevel_nest hroot]
    rfl
  · rw [hleft, hright]
    exact Bool.eq_false_iff.mpr hne

/-- In each field in which they differ there is a difference. -/
theorem ofFields_touches (hroot : root.isTopLevel = true) (hbefore : Dict.Sorted before)
    (hafter : Dict.Sorted after) {field : String}
    (hne : sameOption (Dict.get? before field) (Dict.get? after field) = false) :
    ∃ d ∈ ofFields root before after, d.path.head? = some field := by
  have hkey : field ∈ Dict.keys before ∨ field ∈ Dict.keys after := by
    refine Decidable.byContradiction fun hnone => ?_
    obtain ⟨hleft, hright⟩ := not_or.mp hnone
    rw [Dict.get?_eq_none_iff.mpr hleft, Dict.get?_eq_none_iff.mpr hright] at hne
    exact absurd hne nofun
  obtain ⟨r, hr, rfl⟩ := entryRows_covering hkey
  obtain ⟨hleft, hright⟩ := entryRows_faithful hbefore hafter hr
  rw [hleft, hright] at hne
  have htight : r.Tight := fun v w _ _ => between_tight v w
  obtain ⟨d, hd⟩ := List.exists_mem_of_ne_nil _
    (Row.differences_ne_nil htight (Bool.eq_false_iff.mp hne) root)
  obtain ⟨-, path, hpath⟩ := Row.mem_differences htight hd
  refine ⟨d, ?_, ?_⟩
  · unfold ofFields
    rw [betweenEntries_rows]
    exact List.mem_flatMap_of_mem hr hd
  · unfold Difference.path
    rw [hpath, ElementId.topLevel_nest hroot]
    rfl

end Difference

end AccountSync
