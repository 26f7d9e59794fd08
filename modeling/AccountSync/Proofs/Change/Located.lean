/-
  AccountSync.Proofs.Change.Located
  ─────────────────────────────────
  **WHERE A COMPARISON SHOWS THAT ONE LEAF CHANGED.**

  If two trees hold different leaves at one position, then a comparison of the trees has a
  difference at the position or above it, from a value that holds the one leaf to a value that
  holds the other.  If they hold equal values there and agree otherwise, there is no difference
  at all.

      ElementId.placeOf          — the identifier of a position below a root
      Difference.Shows           — a difference at a position or above it
      Difference.between_shows   — there is one between two trees
      Difference.ofFields_shows  — and between two sets of fields
      Value.same_setPath         — trees with equal values at one path are equal
      Difference.ofFields_of_same — and are not different anywhere
-/
import AccountSync.Proofs.Change.Difference
import AccountSync.Proofs.Value.Leaves

namespace AccountSync

open Value (Position Selector select? positionText WellFormed)

/-! ## §1. Positions as paths. -/

namespace Value

variable {v w a b c : Value}

/-- The path component selects the same child. -/
theorem child?_text (hv : v.WellFormed) {s : Selector} (h : select? v s = some c) :
    v.child? s.text = some c := by
  cases v with
  | map entries =>
    cases s with
    | key name => exact h
    | item n => cases (show none = some c from h)
  | list items =>
    cases s with
    | key name => cases (show none = some c from h)
    | item n =>
      unfold WellFormed at hv
      exact (child?_positionText hv.1 n).trans h
  | _ => cases (show none = some c from h)

/-- Equal trees hold equal values at a position. -/
theorem same_of_valueAt? (hv : v.WellFormed) (hw : w.WellFormed) (h : v.same w = true)
    {p : Position} (ha : v.valueAt? p = some a) (hb : w.valueAt? p = some b) :
    a.same b = true := by
  induction p generalizing v w with
  | nil =>
    obtain rfl := Option.some.inj ha
    obtain rfl := Option.some.inj hb
    exact h
  | cons s p ih =>
    obtain ⟨c, hc, ha⟩ := Option.bind_eq_some_iff.mp ha
    obtain ⟨c', hc', hb⟩ := Option.bind_eq_some_iff.mp hb
    have hchild := child?_text hv hc
    have hchild' := child?_text hw hc'
    have hsame := same_child? h s.text
    rw [hchild, hchild'] at hsame
    exact ih (hv.child hchild) (hw.child hchild') hsame ha hb

end Value

/-- The identifier of what is at a position below a root. -/
def ElementId.placeOf (root : ElementId) (p : Position) : ElementId :=
  root.nest (p.map Selector.text)

theorem ElementId.placeOf_append (root : ElementId) (p q : Position) :
    root.placeOf (p ++ q) = (root.placeOf p).nest (q.map Selector.text) := by
  unfold placeOf
  rw [nest_nest, List.map_append]

/-- Below a type, the place of no position is not the type. -/
theorem ElementId.placeOf_nil {root : ElementId} (h : root.isType = false) :
    root.placeOf [] = root :=
  nest_nil h

/-! ## §2. Different leaves. -/

namespace Difference

variable {root : ElementId} {v w a b : Value} {p : Position}

/-- The difference is at the position or above it, and it is from a value that holds the first
value at the position to one that holds the second. -/
def Shows (root : ElementId) (p : Position) (a b : Value) (d : Difference) : Prop :=
  ∃ above below before after, above ++ below = p
    ∧ d = ⟨root.placeOf above, .modification before after⟩
    ∧ before.valueAt? below = some a ∧ after.valueAt? below = some b

/-- What is shown below a child is shown below the tree. -/
theorem Shows.under {s : Selector} {d : Difference} (h : Shows (root.nest [s.text]) p a b d) :
    Shows root (s :: p) a b d := by
  obtain ⟨above, below, before, after, rfl, rfl, hbefore, hafter⟩ := h
  refine ⟨s :: above, below, before, after, rfl, ?_, hbefore, hafter⟩
  unfold ElementId.placeOf
  rw [ElementId.nest_nest]
  rfl

/-- The differences of children that one selector selects are among those of the trees. -/
theorem mem_rows {rows : List Row} (hal : Aligned v w rows) (hv : v.WellFormed)
    (hw : w.WellFormed) {s : Selector} {c c' : Value} (hc : select? v s = some c)
    (hc' : select? w s = some c') {d : Difference} (hd : d ∈ between (root.nest [s.text]) c c') :
    d ∈ rows.flatMap (Row.differences root) := by
  have hchild := Value.child?_text hv hc
  have hchild' := Value.child?_text hw hc'
  have hposition : (v.list?.isSome ∧ w.list?.isSome) → ∃ n, s.text = positionText n := by
    rintro ⟨hlist, -⟩
    -- only a position selects something in a list
    cases v with
    | list items =>
      cases s with
      | key name => exact absurd hc nofun
      | item n => exact ⟨n, rfl⟩
    | _ => exact absurd hlist nofun
  obtain ⟨r, hr, hpart⟩ := hal.covering s.text hposition (.inl (by simp [hchild]))
  obtain ⟨hbefore, hafter⟩ := hal.faithful r hr
  rw [hpart, hchild] at hbefore
  rw [hpart, hchild'] at hafter
  refine List.mem_flatMap.mpr ⟨r, hr, ?_⟩
  obtain ⟨part, before, after⟩ := r
  obtain rfl : part = s.text := hpart
  obtain rfl : some c = before := hbefore
  obtain rfl : some c' = after := hafter
  exact hd

/-- If two trees hold different leaves at a position, a difference shows it. -/
theorem between_shows (hv : v.WellFormed) (hw : w.WellFormed) (hroot : root.isType = false)
    (hmap : a.map? = none) (hlist : a.list? = none) (hne : a.same b = false)
    (ha : v.valueAt? p = some a) (hb : w.valueAt? p = some b) :
    ∃ d ∈ between root v w, d.Shows root p a b := by
  -- down the position, until the trees are compared as a whole
  induction p generalizing v w root with
  | nil =>
    obtain rfl := Option.some.inj ha
    obtain rfl := Option.some.inj hb
    refine ⟨⟨root, .modification v w⟩, ?_, [], [], v, w, rfl, ?_, rfl, rfl⟩
    · rw [between_whole root (.inl hmap) (.inl hlist) hne]
      exact List.mem_singleton_self _
    · rw [ElementId.placeOf_nil hroot]
  | cons s p ih =>
    have hdiffer : v.same w = false := by
      refine Bool.eq_false_iff.mpr fun hsame => ?_
      rw [Value.same_of_valueAt? hv hw hsame ha hb] at hne
      exact absurd hne nofun
    obtain ⟨c, hc, hca⟩ := Option.bind_eq_some_iff.mp ha
    obtain ⟨c', hc', hcb⟩ := Option.bind_eq_some_iff.mp hb
    rcases between_cases hv hw hdiffer with ⟨rows, hal, hrows, -⟩ | hwhole
    · have hwf := hv.child (Value.child?_text hv hc)
      have hwf' := hw.child (Value.child?_text hw hc')
      obtain ⟨d, hd, hshows⟩ := ih hwf hwf' (ElementId.nest_isType root [s.text]) hca hcb
      rw [hrows root]
      exact ⟨d, mem_rows hal hv hw hc hc' hd, hshows.under⟩
    · refine ⟨⟨root, .modification v w⟩, ?_, [], s :: p, v, w, rfl, ?_, ha, hb⟩
      · rw [(hwhole root).1]
        exact List.mem_singleton_self _
      · rw [ElementId.placeOf_nil hroot]

/-- The same of two sets of fields, also below a type. -/
theorem ofFields_shows (root : ElementId) {before after : Fields}
    (hbefore : (Value.map before).WellFormed) (hafter : (Value.map after).WellFormed)
    (hmap : a.map? = none) (hlist : a.list? = none) (hne : a.same b = false)
    (ha : (Value.map before).valueAt? p = some a) (hb : (Value.map after).valueAt? p = some b) :
    ∃ d ∈ ofFields root before after, d.Shows root p a b := by
  cases p with
  | nil =>
    obtain rfl := Option.some.inj ha
    exact absurd hmap nofun
  | cons s p =>
    obtain ⟨c, hc, hca⟩ := Option.bind_eq_some_iff.mp ha
    obtain ⟨c', hc', hcb⟩ := Option.bind_eq_some_iff.mp hb
    obtain ⟨d, hd, hshows⟩ := between_shows (hbefore.child (Value.child?_text hbefore hc))
      (hafter.child (Value.child?_text hafter hc')) (ElementId.nest_isType root [s.text]) hmap
      hlist hne hca hcb
    have hsorted := hbefore
    have hsorted' := hafter
    unfold WellFormed at hsorted hsorted'
    refine ⟨d, ?_, hshows.under⟩
    unfold ofFields
    rw [betweenEntries_rows]
    exact mem_rows (entryRows_aligned hsorted.1 hsorted'.1) hbefore hafter hc hc' hd

end Difference

/-! ## §3. Equal values at one path. -/

namespace Value

variable {a b : Value}

theorem sameEntries_modify (h : a.same b = true) (entries : Fields) (key : String) :
    sameEntries (Dict.modify entries key fun _ => a) (Dict.modify entries key fun _ => b)
      = true := by
  induction entries with
  | nil => rfl
  | cons e rest ih =>
    obtain ⟨k, v⟩ := e
    by_cases hk : k = key
    · simp [Dict.modify, hk, sameEntries, h, sameEntries_refl]
    · simp [Dict.modify, hk, sameEntries, same_refl, ih]

theorem sameItems_set (h : a.same b = true) (items : List Value) (n : Nat) :
    sameItems (items.set n a) (items.set n b) = true := by
  induction items generalizing n with
  | nil => rfl
  | cons v rest ih =>
    cases n with
    | zero => simp [sameItems, h, sameItems_refl]
    | succ n => simp [sameItems, same_refl, ih]

theorem same_setChild (h : a.same b = true) (v : Value) (part : String) :
    (v.setChild part a).same (v.setChild part b) = true := by
  unfold setChild
  cases v with
  | map entries => exact sameEntries_modify h entries part
  | list items =>
    dsimp only
    cases position? part with
    | none => exact same_refl (.list items)
    | some n => exact sameItems_set h items n
  | _ => exact same_refl _

/-- Trees that hold equal values at one path, and are the same otherwise, are equal. -/
theorem same_setPath (h : a.same b = true) (v : Value) (path : List String) :
    (v.setPath path a).same (v.setPath path b) = true := by
  induction path generalizing v with
  | nil => exact h
  | cons part path ih =>
    unfold setPath
    cases v.child? part with
    | none => exact same_refl v
    | some c => exact same_setChild (ih c) v part

end Value

/-- Equal fields have no differences, whatever order their keys are in. -/
theorem Difference.ofFields_of_same (root : ElementId) {before after : Fields}
    (h : (Value.map before).same (.map after) = true) : ofFields root before after = [] := by
  have hrows := (sameEntries_iff_rows before after).mp h
  unfold ofFields
  rw [betweenEntries_rows, List.flatMap_eq_nil_iff]
  intro r hr
  have hsame := hrows r hr
  obtain ⟨part, v?, w?⟩ := r
  cases v? with
  | none =>
    cases w? with
    | none => rfl
    | some w => exact absurd hsame nofun
  | some v =>
    cases w? with
    | none => exact absurd hsame nofun
    | some w => exact between_of_same _ hsame

end AccountSync
