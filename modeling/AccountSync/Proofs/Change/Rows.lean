/-
  AccountSync.Proofs.Change.Rows
  ──────────────────────────────
  **TWO TREES SIDE BY SIDE.**

  Two maps are compared by their keys in order, two lists by their positions.  Either way
  the children are laid out in rows, each with what one tree and the other have under the
  same path component.  A comparison goes row by row; how the rows came about plays no part
  any more.

      Row                    — a path component, and the children that it selects
      Row.differences        — how the children differ
      Aligned                — the rows are all children of two trees, each once
      entryRows, itemRows    — the rows of maps, and of lists
-/
import AccountSync.Change.Difference
import AccountSync.Proofs.Value.Paths

namespace AccountSync

open Value (sameOption positionText)

/-- What two trees have under a path component. -/
structure Row where
  part : String
  before : Option Value
  after : Option Value

namespace Row

/-- How what is there differs. -/
def differences (id : ElementId) : Row → List Difference
  | ⟨part, some v, some w⟩ => Difference.between (id.nest [part]) v w
  | ⟨part, some v, none⟩ => [⟨id.nest [part], .removal v⟩]
  | ⟨part, none, some w⟩ => [⟨id.nest [part], .addition w⟩]
  | ⟨_, none, none⟩ => []

/-- Whether the same is there, or nothing on both sides. -/
def Same (r : Row) : Prop :=
  sameOption r.before r.after = true

/-- The other tree first. -/
def swap (r : Row) : Row :=
  ⟨r.part, r.after, r.before⟩

/-- A child that only the first tree has. -/
def removed (e : String × Value) : Row :=
  ⟨e.1, some e.2, none⟩

/-- A child that only the second tree has. -/
def added (e : String × Value) : Row :=
  ⟨e.1, none, some e.2⟩

end Row

/-- The rows are all children of two trees, each once.  Between lists only positions count
that are written as such. -/
structure Aligned (v w : Value) (rows : List Row) : Prop where
  distinct : (rows.map Row.part).Nodup
  faithful : ∀ r ∈ rows, v.child? r.part = r.before ∧ w.child? r.part = r.after
  covering : ∀ part, ((v.list?.isSome ∧ w.list?.isSome) → ∃ n, part = positionText n) →
    (v.child? part ≠ none ∨ w.child? part ≠ none) → ∃ r ∈ rows, r.part = part
  same_iff : v.same w = true ↔ ∀ r ∈ rows, r.Same

/-! ## §1. The rows of maps. -/

/-- The children of two maps in key order. -/
def entryRows : List (String × Value) → List (String × Value) → List Row
  | [], after => after.map Row.added
  | (k, v) :: before, [] => .removed (k, v) :: before.map Row.removed
  | (k, v) :: before, (k', w) :: after =>
    if k < k' then .removed (k, v) :: entryRows before ((k', w) :: after)
    else if k' < k then .added (k', w) :: entryRows ((k, v) :: before) after
    else ⟨k, some v, some w⟩ :: entryRows before after
termination_by before after => before.length + after.length

/-- Keys of which neither comes first are the same. -/
theorem eq_of_not_lt {k k' : String} (hle : ¬k < k') (hge : ¬k' < k) : k = k' :=
  String.le_antisymm (String.not_lt.mp hge) (String.not_lt.mp hle)

theorem added_eq_flatMap (id : ElementId) (after : List (String × Value)) :
    Difference.added id after = (after.map Row.added).flatMap (Row.differences id) := by
  induction after with
  | nil => rfl
  | cons e after ih =>
    rw [List.map_cons, List.flatMap_cons, ← ih]
    rfl

theorem betweenEntries_nil_right (id : ElementId) (before : List (String × Value)) :
    Difference.betweenEntries id before []
      = (before.map Row.removed).flatMap (Row.differences id) := by
  induction before with
  | nil => rfl
  | cons e before ih =>
    rw [List.map_cons, List.flatMap_cons, ← ih]
    rfl

/-- Maps are compared row by row. -/
theorem betweenEntries_rows (id : ElementId) (before after : List (String × Value)) :
    Difference.betweenEntries id before after
      = (entryRows before after).flatMap (Row.differences id) := by
  fun_induction entryRows before after with
  | case1 after => exact added_eq_flatMap id after
  | case2 k v before => exact betweenEntries_nil_right id ((k, v) :: before)
  | case3 k v before k' w after hlt ih =>
    -- the first key is not among the others, and the second map is passed on as it is
    have hskip : ¬k' < k := String.lt_asymm hlt
    have hne : k ≠ k' := fun heq => String.lt_irrefl k (heq ▸ hlt)
    rw [List.flatMap_cons, ← ih]
    simp only [Difference.betweenEntries, Difference.added, List.takeWhile_cons,
      List.dropWhile_cons, hskip, hne, decide_false, if_false, Bool.false_eq_true, List.map_nil]
    rfl
  | case4 k v before k' w after hle hlt ih =>
    -- the first key of the second map is one of those that come before, and the others of them
    -- are those that come before in its rest
    rw [List.flatMap_cons, ← ih]
    simp only [Difference.betweenEntries, Difference.added, List.takeWhile_cons,
      List.dropWhile_cons, hlt, decide_true, if_true, List.map_cons]
    rfl
  | case5 k v before k' w after hle hge ih =>
    -- no key comes before, and the comparison goes on behind the common one
    obtain rfl := eq_of_not_lt hle hge
    rw [List.flatMap_cons, ← ih]
    simp only [Difference.betweenEntries, Difference.added, List.takeWhile_cons,
      List.dropWhile_cons, hge, decide_false, if_true, if_false, Bool.false_eq_true, List.map_nil]
    rfl

/-- The keys of the rows are those of both maps. -/
theorem mem_entryRows_part {before after : List (String × Value)} {r : Row}
    (h : r ∈ entryRows before after) : r.part ∈ Dict.keys before ∨ r.part ∈ Dict.keys after := by
  fun_induction entryRows before after with
  | case1 after =>
    obtain ⟨e, he, rfl⟩ := List.mem_map.mp h
    exact .inr (List.mem_map_of_mem he)
  | case2 k v before =>
    rw [← List.map_cons] at h
    obtain ⟨e, he, rfl⟩ := List.mem_map.mp h
    exact .inl (List.mem_map_of_mem he)
  | case3 k v before k' w after hlt ih =>
    rcases List.mem_cons.mp h with rfl | h
    · exact .inl List.mem_cons_self
    · exact (ih h).imp_left (List.mem_cons_of_mem _)
  | case4 k v before k' w after hle hlt ih =>
    rcases List.mem_cons.mp h with rfl | h
    · exact .inr List.mem_cons_self
    · exact (ih h).imp_right (List.mem_cons_of_mem _)
  | case5 k v before k' w after hle hge ih =>
    rcases List.mem_cons.mp h with rfl | h
    · exact .inl List.mem_cons_self
    · exact (ih h).imp (List.mem_cons_of_mem _) (List.mem_cons_of_mem _)

/-- No key of either map is passed over. -/
theorem entryRows_covering {before after : List (String × Value)} {part : String}
    (h : part ∈ Dict.keys before ∨ part ∈ Dict.keys after) :
    ∃ r ∈ entryRows before after, r.part = part := by
  fun_induction entryRows before after with
  | case1 after =>
    rcases h with h | h
    · exact absurd h List.not_mem_nil
    · obtain ⟨e, he, rfl⟩ := List.mem_map.mp h
      exact ⟨.added e, List.mem_map_of_mem he, rfl⟩
  | case2 k v before =>
    rcases h with h | h
    · obtain ⟨e, he, rfl⟩ := List.mem_map.mp h
      rw [← List.map_cons]
      exact ⟨.removed e, List.mem_map_of_mem he, rfl⟩
    · exact absurd h List.not_mem_nil
  | case3 k v before k' w after hlt ih =>
    -- the part is the key of the first row, or one that the others cover
    by_cases hk : part = k
    · exact ⟨.removed (k, v), List.mem_cons_self, hk.symm⟩
    · have hrest : part ∈ Dict.keys before ∨ part ∈ Dict.keys ((k', w) :: after) :=
        h.imp_left fun h => (List.mem_cons.mp h).resolve_left hk
      obtain ⟨r, hr, hpart⟩ := ih hrest
      exact ⟨r, List.mem_cons_of_mem _ hr, hpart⟩
  | case4 k v before k' w after hle hlt ih =>
    by_cases hk : part = k'
    · exact ⟨.added (k', w), List.mem_cons_self, hk.symm⟩
    · have hrest : part ∈ Dict.keys ((k, v) :: before) ∨ part ∈ Dict.keys after :=
        h.imp_right fun h => (List.mem_cons.mp h).resolve_left hk
      obtain ⟨r, hr, hpart⟩ := ih hrest
      exact ⟨r, List.mem_cons_of_mem _ hr, hpart⟩
  | case5 k v before k' w after hle hge ih =>
    obtain rfl := eq_of_not_lt hle hge
    by_cases hk : part = k
    · exact ⟨⟨k, some v, some w⟩, List.mem_cons_self, hk.symm⟩
    · have hrest : part ∈ Dict.keys before ∨ part ∈ Dict.keys after :=
        h.imp (fun h => (List.mem_cons.mp h).resolve_left hk)
          fun h => (List.mem_cons.mp h).resolve_left hk
      obtain ⟨r, hr, hpart⟩ := ih hrest
      exact ⟨r, List.mem_cons_of_mem _ hr, hpart⟩

theorem lt_of_mem_entryRows {key : String} {before after : List (String × Value)}
    (hbefore : ∀ k ∈ Dict.keys before, key < k) (hafter : ∀ k ∈ Dict.keys after, key < k) :
    ∀ r ∈ entryRows before after, key < r.part :=
  fun _ hr => (mem_entryRows_part hr).elim (hbefore _) (hafter _)

/-- The first key of one map is below all of the other if it is below the first. -/
theorem lt_of_sorted {key k : String} {v : Value} {rest : List (String × Value)}
    (hlt : key < k) (h : Dict.Sorted ((k, v) :: rest)) :
    ∀ k' ∈ Dict.keys ((k, v) :: rest), key < k' := by
  intro k' hk'
  rcases List.mem_cons.mp hk' with rfl | hk'
  · exact hlt
  · exact String.lt_trans hlt (h.lt_of_mem hk')

/-- The rows are in key order. -/
theorem entryRows_sorted {before after : List (String × Value)} (hbefore : Dict.Sorted before)
    (hafter : Dict.Sorted after) :
    (entryRows before after).Pairwise (fun r r' => r.part < r'.part) := by
  fun_induction entryRows before after with
  | case1 after => exact List.pairwise_map.mpr (List.pairwise_map.mp hafter)
  | case2 k v before =>
    rw [← List.map_cons]
    exact List.pairwise_map.mpr (List.pairwise_map.mp hbefore)
  | case3 k v before k' w after hlt ih =>
    have hbelow := lt_of_mem_entryRows (fun _ => hbefore.lt_of_mem) (lt_of_sorted hlt hafter)
    exact List.pairwise_cons.mpr ⟨hbelow, ih hbefore.tail hafter⟩
  | case4 k v before k' w after hle hlt ih =>
    have hbelow := lt_of_mem_entryRows (lt_of_sorted hlt hbefore) (fun _ => hafter.lt_of_mem)
    exact List.pairwise_cons.mpr ⟨hbelow, ih hbefore hafter.tail⟩
  | case5 k v before k' w after hle hge ih =>
    obtain rfl := eq_of_not_lt hle hge
    have hbelow :=
      lt_of_mem_entryRows (fun _ => hbefore.lt_of_mem) (fun _ => hafter.lt_of_mem)
    exact List.pairwise_cons.mpr ⟨hbelow, ih hbefore.tail hafter.tail⟩

/-- What a row says is what the maps hold. -/
theorem entryRows_faithful {before after : List (String × Value)} (hbefore : Dict.Sorted before)
    (hafter : Dict.Sorted after) {r : Row} (hr : r ∈ entryRows before after) :
    Dict.get? before r.part = r.before ∧ Dict.get? after r.part = r.after := by
  fun_induction entryRows before after with
  | case1 after =>
    obtain ⟨e, he, rfl⟩ := List.mem_map.mp hr
    exact ⟨rfl, Dict.get?_of_mem hafter he⟩
  | case2 k v before =>
    rw [← List.map_cons] at hr
    obtain ⟨e, he, rfl⟩ := List.mem_map.mp hr
    exact ⟨Dict.get?_of_mem hbefore he, rfl⟩
  | case3 k v before k' w after hlt ih =>
    -- the second map has nothing under the first key, as all of its keys are above
    have habove := lt_of_sorted hlt hafter
    rcases List.mem_cons.mp hr with rfl | hr
    · exact ⟨Dict.get?_cons_self k v before, Dict.get?_of_forall_lt habove⟩
    · have hne := lt_of_mem_entryRows (fun _ => hbefore.lt_of_mem) habove r hr
      rw [Dict.get?_cons_of_ne (String.ne_of_lt hne)]
      exact ih hbefore.tail hafter hr
  | case4 k v before k' w after hle hlt ih =>
    have habove := lt_of_sorted hlt hbefore
    rcases List.mem_cons.mp hr with rfl | hr
    · exact ⟨Dict.get?_of_forall_lt habove, Dict.get?_cons_self k' w after⟩
    · have hne := lt_of_mem_entryRows habove (fun _ => hafter.lt_of_mem) r hr
      rw [Dict.get?_cons_of_ne (String.ne_of_lt hne) w after]
      exact ih hbefore hafter.tail hr
  | case5 k v before k' w after hle hge ih =>
    obtain rfl := eq_of_not_lt hle hge
    rcases List.mem_cons.mp hr with rfl | hr
    · exact ⟨Dict.get?_cons_self k v before, Dict.get?_cons_self k w after⟩
    · have hne :=
        lt_of_mem_entryRows (fun _ => hbefore.lt_of_mem) (fun _ => hafter.lt_of_mem) r hr
      rw [Dict.get?_cons_of_ne (String.ne_of_lt hne), Dict.get?_cons_of_ne (String.ne_of_lt hne)]
      exact ih hbefore.tail hafter.tail hr

/-- Maps are equal if all their rows are. -/
theorem sameEntries_iff_rows (before after : List (String × Value)) :
    Value.sameEntries before after = true ↔ ∀ r ∈ entryRows before after, r.Same := by
  fun_induction entryRows before after with
  | case1 after =>
    cases after with
    | nil => exact ⟨fun _ => nofun, fun _ => rfl⟩
    | cons e after => exact ⟨nofun, fun h => h (.added e) List.mem_cons_self⟩
  | case2 k v before =>
    exact ⟨nofun, fun h => h (.removed (k, v)) List.mem_cons_self⟩
  | case3 k v before k' w after hlt ih =>
    -- the maps differ in their first keys, and so do the sides of the first row
    refine ⟨fun h => ?_, fun h => absurd (h (.removed (k, v)) List.mem_cons_self) nofun⟩
    simp only [Value.sameEntries, Bool.and_eq_true, beq_iff_eq] at h
    exact absurd h.1.1 (String.ne_of_lt hlt)
  | case4 k v before k' w after hle hlt ih =>
    refine ⟨fun h => ?_, fun h => absurd (h (.added (k', w)) List.mem_cons_self) nofun⟩
    simp only [Value.sameEntries, Bool.and_eq_true, beq_iff_eq] at h
    exact absurd h.1.1.symm (String.ne_of_lt hlt)
  | case5 k v before k' w after hle hge ih =>
    obtain rfl := eq_of_not_lt hle hge
    simp only [Value.sameEntries, Bool.and_eq_true, beq_self_eq_true, true_and,
      List.forall_mem_cons, ih]
    rfl

/-- Exchanging two maps exchanges the sides of their rows. -/
theorem entryRows_swap (before after : List (String × Value)) :
    entryRows after before = (entryRows before after).map Row.swap := by
  fun_induction entryRows before after with
  | case1 after =>
    rw [List.map_map]
    cases after with
    | nil => rw [entryRows]; rfl
    | cons e after => rw [entryRows]; rfl
  | case2 k v before =>
    rw [entryRows, ← List.map_cons (f := Row.removed), List.map_map]
    rfl
  | case3 k v before k' w after hlt ih =>
    rw [entryRows, if_neg (String.lt_asymm hlt), if_pos hlt, ih]
    rfl
  | case4 k v before k' w after hle hlt ih =>
    rw [entryRows, if_pos hlt, ih]
    rfl
  | case5 k v before k' w after hle hge ih =>
    obtain rfl := eq_of_not_lt hle hge
    rw [entryRows, if_neg hge, if_neg hge, ih]
    rfl

theorem entryRows_aligned {before after : List (String × Value)} (hbefore : Dict.Sorted before)
    (hafter : Dict.Sorted after) :
    Aligned (.map before) (.map after) (entryRows before after) where
  distinct := by
    refine List.pairwise_map.mpr ((entryRows_sorted hbefore hafter).imp ?_)
    exact fun hlt => String.ne_of_lt hlt
  faithful := fun r hr => entryRows_faithful hbefore hafter hr
  covering := by
    intro part _ hpart
    refine entryRows_covering (hpart.imp ?_ ?_)
    all_goals exact fun hne => Decidable.not_not.mp fun hmem => hne (Dict.get?_eq_none_iff.mpr hmem)
  same_iff := sameEntries_iff_rows before after

/-! ## §2. The rows of lists. -/

/-- The children of two lists from a position on. -/
def itemRows : Nat → List Value → List Value → List Row
  | _, [], [] => []
  | n, v :: before, [] => ⟨positionText n, some v, none⟩ :: itemRows (n + 1) before []
  | n, [], w :: after => ⟨positionText n, none, some w⟩ :: itemRows (n + 1) [] after
  | n, v :: before, w :: after =>
    ⟨positionText n, some v, some w⟩ :: itemRows (n + 1) before after

/-- Lists are compared row by row. -/
theorem betweenItems_rows (id : ElementId) (n : Nat) (before after : List Value) :
    Difference.betweenItems id n before after
      = (itemRows n before after).flatMap (Row.differences id) := by
  fun_induction itemRows n before after with
  | case1 => rfl
  | case2 n v before ih | case3 n w after ih | case4 n v before w after ih =>
    rw [List.flatMap_cons, ← ih]
    rfl

/-- What the rows say is what the lists hold at their positions. -/
theorem itemRows_faithful {n : Nat} {before after : List Value} {r : Row}
    (hr : r ∈ itemRows n before after) :
    ∃ i, r.part = positionText (n + i) ∧ before[i]? = r.before ∧ after[i]? = r.after := by
  fun_induction itemRows n before after with
  | case1 => exact absurd hr List.not_mem_nil
  | case2 n v before ih | case3 n w after ih | case4 n v before w after ih =>
    rcases List.mem_cons.mp hr with rfl | hr
    · exact ⟨0, rfl, rfl, rfl⟩
    · obtain ⟨i, hpart, hbefore, hafter⟩ := ih hr
      refine ⟨i + 1, ?_, hbefore, hafter⟩
      rw [hpart, Nat.add_right_comm, Nat.add_assoc]

/-- No position of either list is passed over. -/
theorem itemRows_covering {n : Nat} {before after : List Value} {i : Nat}
    (h : i < before.length ∨ i < after.length) :
    ∃ r ∈ itemRows n before after, r.part = positionText (n + i) := by
  fun_induction itemRows n before after generalizing i with
  | case1 => simp at h
  | case2 n v before ih | case3 n w after ih | case4 n v before w after ih =>
    cases i with
    | zero => exact ⟨_, List.mem_cons_self, rfl⟩
    | succ i =>
      obtain ⟨r, hr, hpart⟩ := ih (by simpa using h)
      refine ⟨r, List.mem_cons_of_mem _ hr, ?_⟩
      rw [hpart, Nat.add_right_comm, Nat.add_assoc]

theorem itemRows_distinct (n : Nat) (before after : List Value) :
    ((itemRows n before after).map Row.part).Nodup := by
  fun_induction itemRows n before after with
  | case1 => exact .nil
  | case2 n v before ih | case3 n w after ih | case4 n v before w after ih =>
    -- the rows behind the first one are at later positions, which are written differently
    refine List.nodup_cons.mpr ⟨?_, ih⟩
    intro hmem
    obtain ⟨r, hr, hpart⟩ := List.mem_map.mp hmem
    obtain ⟨i, hi, -⟩ := itemRows_faithful hr
    have := Value.positionText_injective (hi.symm.trans hpart)
    omega

/-- Lists are equal if all their rows are. -/
theorem sameItems_iff_rows (n : Nat) (before after : List Value) :
    Value.sameItems before after = true ↔ ∀ r ∈ itemRows n before after, r.Same := by
  fun_induction itemRows n before after with
  | case1 => exact ⟨fun _ => nofun, fun _ => rfl⟩
  | case2 n v before ih => exact ⟨nofun, fun h => h _ List.mem_cons_self⟩
  | case3 n w after ih => exact ⟨nofun, fun h => h _ List.mem_cons_self⟩
  | case4 n v before w after ih =>
    simp only [Value.sameItems, Bool.and_eq_true, List.forall_mem_cons, ih]
    rfl

/-- Exchanging two lists exchanges the sides of their rows. -/
theorem itemRows_swap (n : Nat) (before after : List Value) :
    itemRows n after before = (itemRows n before after).map Row.swap := by
  fun_induction itemRows n before after with
  | case1 => rw [itemRows, List.map_nil]
  | case2 n v before ih | case3 n w after ih | case4 n v before w after ih =>
    rw [itemRows, ih]
    rfl

theorem itemRows_aligned {before after : List Value} (hbefore : before.length ≤ twoTo 64)
    (hafter : after.length ≤ twoTo 64) :
    Aligned (.list before) (.list after) (itemRows 0 before after) where
  distinct := itemRows_distinct 0 before after
  faithful := by
    -- this is where it counts that the lists are no longer than there are positions
    intro r hr
    obtain ⟨i, hpart, hb, ha⟩ := itemRows_faithful hr
    rw [hpart, Nat.zero_add, Value.child?_positionText hbefore, Value.child?_positionText hafter]
    exact ⟨hb, ha⟩
  covering := by
    intro part hposition hpart
    obtain ⟨n, rfl⟩ := hposition ⟨rfl, rfl⟩
    rw [Value.child?_positionText hbefore, Value.child?_positionText hafter] at hpart
    have hlt : n < before.length ∨ n < after.length := by
      simp only [ne_eq, List.getElem?_eq_none_iff] at hpart
      omega
    obtain ⟨r, hr, h⟩ := itemRows_covering (n := 0) hlt
    exact ⟨r, hr, by rw [h, Nat.zero_add]⟩
  same_iff := sameItems_iff_rows 0 before after

end AccountSync
