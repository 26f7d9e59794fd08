/-
  AccountSync.Proofs.Change.Difference
  ────────────────────────────────────
  **A COMPARISON FINDS EXACTLY WHAT DIFFERS.**

  Every difference is one of the values at its place, every place where the trees differ is
  on the way to a difference or below one, and no difference lies below another.  All of
  this carries over from rows to trees, and so along all trees.

      Difference.pathFrom   — the path of a difference below the root of a comparison
      Exact                 — what a comparison promises
      Exact.of_rows         — it is kept if it is kept in every row
      between_exact         — it is kept for all trees
-/
import AccountSync.Proofs.Change.Rows

namespace AccountSync

open Value (sameOption positionText at? WellFormed)

/-! ## §1. Identifiers below a root. -/

namespace ElementId

theorem nest_path (id : ElementId) (parts : List String) :
    (id.nest parts).path = id.path ++ parts := by
  obtain ⟨adapter, typeName, place⟩ := id
  cases place <;> rfl

theorem nest_nest (id : ElementId) (p q : List String) :
    (id.nest p).nest q = id.nest (p ++ q) := by
  obtain ⟨adapter, typeName, place⟩ := id
  cases place with
  | type => rfl
  | within kind path =>
    show ElementId.mk adapter typeName (.within kind (path ++ p ++ q)) = _
    rw [List.append_assoc]
    rfl

/-- Below a type, going nowhere is not staying there. -/
theorem nest_nil {id : ElementId} (h : id.isType = false) : id.nest [] = id := by
  obtain ⟨adapter, typeName, place⟩ := id
  cases place with
  | type => exact absurd h nofun
  | within kind path =>
    show ElementId.mk adapter typeName (.within kind (path ++ [])) = _
    rw [List.append_nil]

theorem nest_isType (id : ElementId) (parts : List String) : (id.nest parts).isType = false := by
  obtain ⟨adapter, typeName, place⟩ := id
  cases place <;> rfl

end ElementId

/-- The change that undoes a change. -/
def Change.inverse {α : Type} : Change α → Change α
  | .addition after => .removal after
  | .removal before => .addition before
  | .modification before after => .modification after before

namespace Difference

/-- The parts that the identifier adds to the root. -/
def pathFrom (root : ElementId) (d : Difference) : List String :=
  d.id.path.drop root.path.length

theorem pathFrom_of_nest {root : ElementId} {d : Difference} {path : List String}
    (h : d.id = root.nest path) : d.pathFrom root = path := by
  unfold pathFrom
  rw [h, ElementId.nest_path, List.drop_left]

/-- The difference the other way round. -/
def inverse (d : Difference) : Difference :=
  ⟨d.id, d.change.inverse⟩

end Difference

/-! ## §2. What a comparison promises. -/

/-- Neither path leads to the other. -/
def Apart (p q : List String) : Prop :=
  ¬p <+: q ∧ ¬q <+: p

theorem apart_cons {part : String} {p q : List String} (h : Apart p q) :
    Apart (part :: p) (part :: q) := by
  unfold Apart
  rw [List.prefix_cons_inj, List.prefix_cons_inj]
  exact h

theorem apart_of_ne {part part' : String} (h : part ≠ part') (p q : List String) :
    Apart (part :: p) (part' :: q) := by
  constructor
  · intro hpre
    exact h (List.cons_prefix_cons.mp hpre).1
  · intro hpre
    exact h (List.cons_prefix_cons.mp hpre).1.symm

/-- Where both trees have a list, the path goes on with a position as it is written. -/
def Positions (v w : Option Value) (path : List String) : Prop :=
  ∀ above part, above ++ [part] <+: path →
    ((at? v above).bind Value.list?).isSome → ((at? w above).bind Value.list?).isSome →
      ∃ n, part = positionText n

/-- The differences of two trees, either of which may be missing: each is at a place below
the root and is what the trees have there; none is at or below the place of another; and
where the trees have different values, there is one on the way or below. -/
structure Exact (root : ElementId) (v w : Option Value) (ds : List Difference) : Prop where
  located : ∀ d ∈ ds, ∃ path, d.id = root.nest path ∧ at? v path = d.change.before?
    ∧ at? w path = d.change.after? ∧ sameOption d.change.before? d.change.after? = false
  apart : (ds.map (Difference.pathFrom root)).Pairwise Apart
  complete : ∀ path, Positions v w path → sameOption (at? v path) (at? w path) = false →
    ∃ d ∈ ds, d.pathFrom root <+: path ∨ path <+: d.pathFrom root

namespace Exact

theorem of_same {root : ElementId} {v w : Option Value} (h : sameOption v w = true) :
    Exact root v w [] where
  located := nofun
  apart := .nil
  complete := by
    intro path _ hne
    rw [Value.same_at? h path] at hne
    exact absurd hne nofun

/-- Trees that are compared as a whole. -/
theorem of_change {root : ElementId} (hroot : root.isType = false) (c : Change Value)
    (h : sameOption c.before? c.after? = false) : Exact root c.before? c.after? [⟨root, c⟩] where
  located := by
    intro d hd
    obtain rfl := List.mem_singleton.mp hd
    exact ⟨[], (ElementId.nest_nil hroot).symm, Value.at?_nil _, Value.at?_nil _, h⟩
  apart := List.pairwise_singleton _ _
  complete := by
    intro path _ _
    refine ⟨_, List.mem_singleton_self _, .inl ?_⟩
    rw [Difference.pathFrom_of_nest (ElementId.nest_nil hroot).symm]
    exact List.nil_prefix

/-- Without differences the trees are equal. -/
theorem eq_nil_iff {root : ElementId} {v w : Option Value} {ds : List Difference}
    (h : Exact root v w ds) : ds = [] ↔ sameOption v w = true := by
  constructor
  · rintro rfl
    cases hsame : sameOption v w with
    | true => rfl
    | false =>
      have hroot : sameOption (at? v []) (at? w []) = false := by
        rw [Value.at?_nil, Value.at?_nil]
        exact hsame
      have hpositions : Positions v w [] := by
        intro above part hpre
        have := hpre.length_le
        simp at this
      -- the trees differ at the empty path, so there is a difference
      obtain ⟨d, hd, -⟩ := h.complete [] hpositions hroot
      exact absurd hd List.not_mem_nil
  · intro hsame
    refine List.eq_nil_iff_forall_not_mem.mpr fun d hd => ?_
    obtain ⟨path, -, hv, hw, hne⟩ := h.located d hd
    rw [← hv, ← hw, Value.same_at? hsame path] at hne
    exact absurd hne nofun

/-! ## §3. From rows to trees. -/

variable {root : ElementId} {v w : Value} {rows : List Row}

/-- A difference in a row is one of the trees, below the part of the row. -/
theorem located_row (hal : Aligned v w rows) {r : Row} (hr : r ∈ rows)
    (h : Exact (root.nest [r.part]) r.before r.after (r.differences root)) {d : Difference}
    (hd : d ∈ r.differences root) :
    ∃ path, d.pathFrom (root.nest [r.part]) = path ∧ d.id = root.nest (r.part :: path)
      ∧ at? (some v) (r.part :: path) = d.change.before?
      ∧ at? (some w) (r.part :: path) = d.change.after?
      ∧ sameOption d.change.before? d.change.after? = false := by
  obtain ⟨path, hid, hv, hw, hne⟩ := h.located d hd
  obtain ⟨hchild, hchild'⟩ := hal.faithful r hr
  refine ⟨path, Difference.pathFrom_of_nest hid, ?_, ?_, ?_, hne⟩
  · rw [hid, ElementId.nest_nest]
    rfl
  · rw [Value.at?_cons, hchild]
    exact hv
  · rw [Value.at?_cons, hchild']
    exact hw

theorem pathFrom_row (hal : Aligned v w rows) {r : Row} (hr : r ∈ rows)
    (h : Exact (root.nest [r.part]) r.before r.after (r.differences root)) {d : Difference}
    (hd : d ∈ r.differences root) :
    d.pathFrom root = r.part :: d.pathFrom (root.nest [r.part]) := by
  obtain ⟨path, hpath, hid, -⟩ := located_row hal hr h hd
  rw [Difference.pathFrom_of_nest hid, hpath]

/-- Below a part, the positions of a path are those of its rest. -/
theorem positions_cons (hal : Aligned v w rows) {r : Row} (hr : r ∈ rows) {path : List String}
    (h : Positions (some v) (some w) (r.part :: path)) : Positions r.before r.after path := by
  obtain ⟨hchild, hchild'⟩ := hal.faithful r hr
  intro above part hpre hv hw
  refine h (r.part :: above) part ((List.prefix_cons_inj _).mpr hpre) ?_ ?_
  · rw [Value.at?_cons, hchild]
    exact hv
  · rw [Value.at?_cons, hchild']
    exact hw

/-- What is kept in every row is kept for the trees. -/
theorem of_rows (hal : Aligned v w rows)
    (hrows : ∀ r ∈ rows, Exact (root.nest [r.part]) r.before r.after (r.differences root)) :
    Exact root (some v) (some w) (rows.flatMap (Row.differences root)) where
  located := by
    intro d hd
    obtain ⟨r, hr, hd⟩ := List.mem_flatMap.mp hd
    obtain ⟨path, -, hlocated⟩ := located_row hal hr (hrows r hr) hd
    exact ⟨r.part :: path, hlocated⟩
  apart := by
    rw [List.pairwise_map, List.pairwise_flatMap]
    constructor
    · -- within a row all paths begin with its part
      intro r hr
      have hrow := List.pairwise_map.mp (hrows r hr).apart
      refine hrow.imp_of_mem ?_
      intro d d' hd hd' hapart
      rw [pathFrom_row hal hr (hrows r hr) hd, pathFrom_row hal hr (hrows r hr) hd']
      exact apart_cons hapart
    · -- the paths of two rows part ways at once
      have hparts := List.pairwise_map.mp hal.distinct
      refine hparts.imp_of_mem ?_
      intro r r' hr hr' hne d hd d' hd'
      rw [pathFrom_row hal hr (hrows r hr) hd, pathFrom_row hal hr' (hrows r' hr') hd']
      exact apart_of_ne hne _ _
  complete := by
    intro path hpositions hne
    cases path with
    | nil =>
      -- the trees differ, so one of the rows does
      have hdiffer : ¬∀ r ∈ rows, r.Same := by
        intro hall
        have hsame : sameOption (some v) (some w) = true := hal.same_iff.mpr hall
        rw [Value.at?_nil, Value.at?_nil, hsame] at hne
        exact absurd hne nofun
      obtain ⟨r, hr, hrow⟩ : ∃ r ∈ rows, ¬r.Same := by
        simpa using hdiffer
      have hsome := mt (hrows r hr).eq_nil_iff.mp hrow
      obtain ⟨d, hd⟩ := List.exists_mem_of_ne_nil _ hsome
      exact ⟨d, List.mem_flatMap_of_mem hr hd, .inr List.nil_prefix⟩
    | cons part path =>
      -- one of the trees goes on here, so there is a row, and the rest is up to its children
      have hsome : v.child? part ≠ none ∨ w.child? part ≠ none := by
        cases hv : v.child? part with
        | some c => exact .inl nofun
        | none =>
          refine .inr fun hw => ?_
          rw [Value.at?_cons, Value.at?_cons, hv, hw] at hne
          exact absurd hne nofun
      have hlists : (v.list?.isSome ∧ w.list?.isSome) → ∃ n, part = positionText n :=
        fun h => hpositions [] part ((List.prefix_cons_inj part).mpr List.nil_prefix) h.1 h.2
      obtain ⟨r, hr, rfl⟩ := hal.covering part hlists hsome
      obtain ⟨hchild, hchild'⟩ := hal.faithful r hr
      rw [Value.at?_cons, Value.at?_cons, hchild, hchild'] at hne
      obtain ⟨d, hd, hprefix⟩ := (hrows r hr).complete path (positions_cons hal hr hpositions) hne
      refine ⟨d, List.mem_flatMap_of_mem hr hd, ?_⟩
      rw [pathFrom_row hal hr (hrows r hr) hd]
      exact hprefix.imp (List.prefix_cons_inj _).mpr (List.prefix_cons_inj _).mpr

end Exact

/-! ## §4. All trees. -/

/-- The comparison of a row is exact if those of the children in it are. -/
theorem Row.exact {root : ElementId} {r : Row}
    (h : ∀ v w, r.before = some v → r.after = some w →
      Exact (root.nest [r.part]) (some v) (some w) (Difference.between (root.nest [r.part]) v w)) :
    Exact (root.nest [r.part]) r.before r.after (r.differences root) := by
  have hroot := ElementId.nest_isType root [r.part]
  obtain ⟨part, before, after⟩ := r
  cases before with
  | none =>
    cases after with
    | none => exact .of_same rfl
    | some w => exact .of_change hroot (.addition w) rfl
  | some v =>
    cases after with
    | none => exact .of_change hroot (.removal v) rfl
    | some w => exact h v w rfl rfl

namespace Difference

theorem between_of_same (id : ElementId) {v w : Value} (h : v.same w = true) :
    between id v w = [] := by
  unfold between
  split
  · exact if_pos h
  · exact if_pos h
  · exact if_pos h

/-- Trees that are not both maps, and not both lists, are compared as a whole. -/
theorem between_whole (id : ElementId) {v w : Value} (hmaps : v.map? = none ∨ w.map? = none)
    (hlists : v.list? = none ∨ w.list? = none) (h : v.same w = false) :
    between id v w = [⟨id, .modification v w⟩] := by
  have hne : ¬v.same w = true := by
    rw [h]
    exact nofun
  unfold between
  split
  · simp [Value.map?] at hmaps
  · simp [Value.list?] at hlists
  · exact if_neg hne

theorem between_maps (id : ElementId) {before after : List (String × Value)}
    (h : Value.same (.map before) (.map after) = false) :
    between id (.map before) (.map after)
      = (entryRows before after).flatMap (Row.differences id) := by
  have hne : ¬Value.sameEntries before after = true := by
    rw [show Value.sameEntries before after = false from h]
    exact nofun
  rw [← betweenEntries_rows]
  exact if_neg hne

theorem between_lists (id : ElementId) {before after : List Value}
    (h : Value.same (.list before) (.list after) = false) :
    between id (.list before) (.list after)
      = (itemRows 0 before after).flatMap (Row.differences id) := by
  have hne : ¬Value.sameItems before after = true := by
    rw [show Value.sameItems before after = false from h]
    exact nofun
  rw [← betweenItems_rows]
  exact if_neg hne

/-- Different trees are compared row by row or as a whole, whichever comes first. -/
theorem between_cases {v w : Value} (hv : v.WellFormed) (hw : w.WellFormed)
    (h : v.same w = false) :
    (∃ rows, Aligned v w rows
      ∧ (∀ id, between id v w = rows.flatMap (Row.differences id))
      ∧ ∀ id, between id w v = (rows.map Row.swap).flatMap (Row.differences id))
    ∨ ∀ id, between id v w = [⟨id, .modification v w⟩]
      ∧ between id w v = [⟨id, .modification w v⟩] := by
  have hswap : w.same v = false := (Value.same_comm w v).trans h
  have hwhole (hmaps : v.map? = none ∨ w.map? = none) (hlists : v.list? = none ∨ w.list? = none)
      (id : ElementId) : between id v w = [⟨id, .modification v w⟩]
        ∧ between id w v = [⟨id, .modification w v⟩] :=
    ⟨between_whole id hmaps hlists h, between_whole id hmaps.symm hlists.symm hswap⟩
  cases v with
  | map before =>
    cases w with
    | map after =>
      unfold WellFormed at hv hw
      refine .inl ⟨_, entryRows_aligned hv.1 hw.1, fun id => between_maps id h, fun id => ?_⟩
      rw [between_maps id hswap, entryRows_swap]
    | _ => exact .inr (hwhole (.inr rfl) (.inl rfl))
  | list before =>
    cases w with
    | list after =>
      unfold WellFormed at hv hw
      refine .inl ⟨_, itemRows_aligned hv.1 hw.1, fun id => between_lists id h, fun id => ?_⟩
      rw [between_lists id hswap, itemRows_swap]
    | _ => exact .inr (hwhole (.inl rfl) (.inr rfl))
  | _ => exact .inr (hwhole (.inl rfl) (.inl rfl))

/-- Children that stand in one row are smaller than the trees, and well-formed as these are. -/
theorem child_of_row {v w : Value} {rows : List Row} (hal : Aligned v w rows)
    (hv : v.WellFormed) (hw : w.WellFormed) {r : Row} (hr : r ∈ rows) {c c' : Value}
    (hc : r.before = some c) (hc' : r.after = some c') :
    v.child? r.part = some c ∧ c.WellFormed ∧ c'.WellFormed := by
  obtain ⟨hchild, hchild'⟩ := hal.faithful r hr
  rw [hc] at hchild
  rw [hc'] at hchild'
  exact ⟨hchild, hv.child hchild, hw.child hchild'⟩

/-- The comparison of any two trees is exact. -/
theorem between_exact (v w : Value) (hv : v.WellFormed) (hw : w.WellFormed) {id : ElementId}
    (hid : id.isType = false) : Exact id (some v) (some w) (between id v w) := by
  -- along the children of the first tree; those of the second come with the rows
  induction v using Value.child_induction generalizing w id with
  | _ v ih =>
    cases h : v.same w with
    | true =>
      rw [between_of_same id h]
      exact .of_same h
    | false =>
      rcases between_cases hv hw h with ⟨rows, hal, hrows, -⟩ | hwhole
      · rw [hrows id]
        refine .of_rows hal fun r hr => Row.exact fun c c' hc hc' => ?_
        obtain ⟨hchild, hwf, hwf'⟩ := child_of_row hal hv hw hr hc hc'
        exact ih r.part c hchild c' hwf hwf' (ElementId.nest_isType id [r.part])
      · rw [(hwhole id).1]
        exact .of_change hid (.modification v w) h

/-- Exchanging the sides of rows inverts the differences if it does so in each of them. -/
theorem rows_swap {id : ElementId} {rows : List Row}
    (h : ∀ r ∈ rows, ∀ v w, r.before = some v → r.after = some w →
      between (id.nest [r.part]) w v = (between (id.nest [r.part]) v w).map inverse) :
    (rows.map Row.swap).flatMap (Row.differences id)
      = (rows.flatMap (Row.differences id)).map inverse := by
  induction rows with
  | nil => rfl
  | cons r rows ih =>
    have hrow : r.swap.differences id = (r.differences id).map inverse := by
      have hr := h r List.mem_cons_self
      obtain ⟨part, before, after⟩ := r
      cases before with
      | none => cases after <;> rfl
      | some v =>
        cases after with
        | none => rfl
        | some w => exact hr v w rfl rfl
    rw [List.map_cons, List.flatMap_cons, List.flatMap_cons, List.map_append, hrow,
      ih fun r' hr' => h r' (List.mem_cons_of_mem r hr')]

/-- Exchanging the trees inverts each difference in its place. -/
theorem between_swap (v w : Value) (hv : v.WellFormed) (hw : w.WellFormed) (id : ElementId) :
    between id w v = (between id v w).map inverse := by
  induction v using Value.child_induction generalizing w id with
  | _ v ih =>
    cases h : v.same w with
    | true =>
      rw [between_of_same id h, between_of_same id ((Value.same_comm w v).trans h)]
      rfl
    | false =>
      rcases between_cases hv hw h with ⟨rows, hal, hrows, hswap⟩ | hwhole
      · rw [hrows id, hswap id]
        refine rows_swap fun r hr c c' hc hc' => ?_
        obtain ⟨hchild, hwf, hwf'⟩ := child_of_row hal hv hw hr hc hc'
        exact ih r.part c hchild c' hwf hwf' _
      · rw [(hwhole id).1, (hwhole id).2]
        rfl

end Difference

/-- **The comparison of two sets of fields is exact**, whatever the root: each difference is
what the fields have at its path; none is at or below the place of another; where the fields
differ at a path, a difference is on the way there or below; there are none if and only if the
fields are equal; and exchanging the fields inverts each difference in its place. -/
theorem ofFields_exact (root : ElementId) (before after : Fields)
    (hbefore : (Value.map before).WellFormed) (hafter : (Value.map after).WellFormed) :
    (∀ d ∈ Difference.ofFields root before after,
        d.id = root.nest (d.pathFrom root)
        ∧ (Value.map before).getPath? (d.pathFrom root) = d.change.before?
        ∧ (Value.map after).getPath? (d.pathFrom root) = d.change.after?
        ∧ sameOption d.change.before? d.change.after? = false)
    ∧ ((Difference.ofFields root before after).map (Difference.pathFrom root)).Pairwise
        (fun p q => ¬p <+: q ∧ ¬q <+: p)
    ∧ (∀ path, Positions (some (.map before)) (some (.map after)) path →
        sameOption ((Value.map before).getPath? path) ((Value.map after).getPath? path) = false →
          ∃ d ∈ Difference.ofFields root before after,
            d.pathFrom root <+: path ∨ path <+: d.pathFrom root)
    ∧ (Difference.ofFields root before after = []
        ↔ (Value.map before).same (.map after) = true)
    ∧ Difference.ofFields root after before
        = (Difference.ofFields root before after).map Difference.inverse := by
  -- the root may be a type, below which nothing is compared as a whole: so the comparison of
  -- fields is one of rows from the start
  have hsorted := hbefore
  have hsorted' := hafter
  unfold WellFormed at hsorted hsorted'
  have hal := entryRows_aligned hsorted.1 hsorted'.1
  have hexact : Exact root (some (.map before)) (some (.map after))
      (Difference.ofFields root before after) := by
    unfold Difference.ofFields
    rw [betweenEntries_rows]
    refine .of_rows hal fun r hr => Row.exact fun v w hv hw => ?_
    obtain ⟨-, hwfv, hwfw⟩ := Difference.child_of_row hal hbefore hafter hr hv hw
    exact Difference.between_exact v w hwfv hwfw (ElementId.nest_isType root [r.part])
  refine ⟨?_, hexact.apart, hexact.complete, hexact.eq_nil_iff, ?_⟩
  · intro d hd
    obtain ⟨path, hid, hlocated⟩ := hexact.located d hd
    rw [Difference.pathFrom_of_nest hid]
    exact ⟨hid, hlocated⟩
  · unfold Difference.ofFields
    rw [betweenEntries_rows, betweenEntries_rows, entryRows_swap]
    refine Difference.rows_swap fun r hr v w hv hw => ?_
    obtain ⟨-, hwfv, hwfw⟩ := Difference.child_of_row hal hbefore hafter hr hv hw
    exact Difference.between_swap v w hwfv hwfw _

/-- Two lists of different length and a field that is replaced by another one: four differences,
and the same four when the fields are exchanged. -/
theorem ofFields_exact_for_lists :
    let before : Fields := [("a", .list [.number (.int 1), .null, .string "x"]), ("b", .null)]
    let after : Fields := [("a", .list [.number (.int 2), .null]), ("c", .bool true)]
    let root : ElementId := .ofInstance "z" "t" "i"
    (Value.map before).WellFormed ∧ (Value.map after).WellFormed
      ∧ (Difference.ofFields root before after).map (Difference.pathFrom root)
        = [["a", "0"], ["a", "2"], ["b"], ["c"]]
      ∧ Difference.ofFields root after before
        = (Difference.ofFields root before after).map Difference.inverse := by
  intro before after root
  have hbefore : (Value.map before).WellFormed := by
    simp only [before, WellFormed, Value.EntriesWellFormed, Value.ItemsWellFormed, and_true]
    decide
  have hafter : (Value.map after).WellFormed := by
    simp only [after, WellFormed, Value.EntriesWellFormed, Value.ItemsWellFormed, and_true]
    decide
  obtain ⟨-, -, -, -, hswap⟩ := ofFields_exact root before after hbefore hafter
  exact ⟨hbefore, hafter, by decide +kernel, hswap⟩

end AccountSync
