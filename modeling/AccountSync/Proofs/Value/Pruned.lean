/-
  AccountSync.Proofs.Value.Pruned
  ───────────────────────────────
  **A TREE WITHOUT SOME OF ITS NODES.**

  Of each node it is decided whether it is kept, parents before children.  What is below a node
  that is not kept is not asked about.  A list stays however little is left of it, and a map
  goes when nothing is left of its entries.

      Value.pruned            — the tree without the nodes that are not kept
      Value.visited           — the nodes that are asked about, in order
      Value.children          — what is directly below a node, in order
      Value.visited_sorted    — each position comes up once, and in order
      Value.mem_visited_iff   — a node comes up if all nodes above it are kept
-/
import AccountSync.Proofs.Value.Leaves

namespace AccountSync.Value

/-! ## §1. What is kept, and what is asked about. -/

/-- Says of nodes whether they are kept, by their position and by what is there. -/
abbrev Choice := Position → Value → Bool

/-- What is said of the nodes of a child. -/
def Choice.under (keeps : Choice) (s : Selector) : Choice :=
  fun p v => keeps (s :: p) v

mutual

/-- The tree without the nodes that are not kept.  A map that is left without entries goes too,
unless it had none before. -/
def pruned (keeps : Choice) : Value → Option Value
  | .map vs =>
    let left := prunedEntries keeps vs
    if keeps [] (.map vs) && (vs.isEmpty || !left.isEmpty) then some (.map left) else none
  | .list vs => if keeps [] (.list vs) then some (.list (prunedItems keeps 0 vs)) else none
  | v => if keeps [] v then some v else none

/-- The entries that are left of a map. -/
def prunedEntries (keeps : Choice) : List (String × Value) → List (String × Value)
  | [] => []
  | (key, v) :: rest =>
    match pruned (keeps.under (.key key)) v with
    | some v => (key, v) :: prunedEntries keeps rest
    | none => prunedEntries keeps rest

/-- The items that are left of a list from a position on. -/
def prunedItems (keeps : Choice) : Nat → List Value → List Value
  | _, [] => []
  | n, v :: rest =>
    match pruned (keeps.under (.item n)) v with
    | some v => v :: prunedItems keeps (n + 1) rest
    | none => prunedItems keeps (n + 1) rest

end

/-- What is left of the entries of a map, or nothing if there were some and none is left. -/
def prunedFields (keeps : Choice) (vs : Fields) : Option Fields :=
  let left := prunedEntries keeps vs
  if vs.isEmpty || !left.isEmpty then some left else none

theorem pruned_of_dropped {keeps : Choice} {v : Value} (h : keeps [] v = false) :
    pruned keeps v = none := by
  unfold pruned
  cases v <;> simp only [h, Bool.false_and, Bool.false_eq_true, if_false]

theorem pruned_map {keeps : Choice} {vs : Fields} (h : keeps [] (.map vs) = true) :
    pruned keeps (.map vs) = (prunedFields keeps vs).map .map := by
  unfold pruned prunedFields
  dsimp only
  rw [h, Bool.true_and]
  split <;> rfl

theorem pruned_list {keeps : Choice} {vs : List Value} (h : keeps [] (.list vs) = true) :
    pruned keeps (.list vs) = some (.list (prunedItems keeps 0 vs)) := by
  unfold pruned
  rw [if_pos h]

theorem pruned_leaf {keeps : Choice} {v : Value} (h : keeps [] v = true) (hmap : v.map? = none)
    (hlist : v.list? = none) : pruned keeps v = some v := by
  cases v with
  | map | list => contradiction
  | _ => exact if_pos h

/-- A node of a child as a node of the tree. -/
def Selector.over (s : Selector) (n : Position × Value) : Position × Value :=
  (s :: n.1, n.2)

mutual

/-- The nodes that are asked about, parents before children. -/
def visited (keeps : Choice) : Value → List (Position × Value)
  | .map vs => ([], .map vs) :: if keeps [] (.map vs) then visitedEntries keeps vs else []
  | .list vs => ([], .list vs) :: if keeps [] (.list vs) then visitedItems keeps 0 vs else []
  | v => [([], v)]

/-- The nodes that are asked about in the entries of a map. -/
def visitedEntries (keeps : Choice) : List (String × Value) → List (Position × Value)
  | [] => []
  | (key, v) :: rest =>
    (visited (keeps.under (.key key)) v).map (Selector.over (.key key)) ++ visitedEntries keeps rest

/-- The nodes that are asked about in the items of a list from a position on. -/
def visitedItems (keeps : Choice) : Nat → List Value → List (Position × Value)
  | _, [] => []
  | n, v :: rest =>
    (visited (keeps.under (.item n)) v).map (Selector.over (.item n)) ++ visitedItems keeps (n + 1) rest

end

theorem visited_map {keeps : Choice} {vs : Fields} (h : keeps [] (.map vs) = true) :
    visited keeps (.map vs) = ([], .map vs) :: visitedEntries keeps vs := by
  unfold visited
  rw [if_pos h]

theorem visited_list {keeps : Choice} {vs : List Value} (h : keeps [] (.list vs) = true) :
    visited keeps (.list vs) = ([], .list vs) :: visitedItems keeps 0 vs := by
  unfold visited
  rw [if_pos h]

theorem visited_leaf {keeps : Choice} {v : Value} (hmap : v.map? = none) (hlist : v.list? = none) :
    visited keeps v = [([], v)] := by
  cases v with
  | map | list => contradiction
  | _ => rfl

theorem visited_of_dropped {keeps : Choice} {v : Value} (h : keeps [] v = false) :
    visited keeps v = [([], v)] := by
  unfold visited
  cases v <;> simp only [h, Bool.false_eq_true, if_false]

/-! ## §2. Children. -/

/-- What is directly below a node, in order. -/
def children : Value → List (Selector × Value)
  | .map vs => vs.map fun e => (.key e.1, e.2)
  | .list vs => vs.zipIdx.map fun e => (.item e.2, e.1)
  | _ => []

/-- Keys come in their order, and items by position. -/
def Selector.Before : Selector → Selector → Prop
  | .key a, .key b => a < b
  | .item m, .item n => m < n
  | _, _ => False

variable {v c : Value} {keeps : Choice}

/-- The nodes that are asked about in a child. -/
def visitedIn (keeps : Choice) (c : Selector × Value) : List (Position × Value) :=
  (visited (keeps.under c.1) c.2).map c.1.over

theorem visitedEntries_eq (keeps : Choice) (vs : Fields) :
    visitedEntries keeps vs = (children (.map vs)).flatMap (visitedIn keeps) := by
  induction vs with
  | nil => rfl
  | cons e rest ih =>
    unfold visitedEntries
    rw [ih]
    rfl

theorem visitedItems_eq (keeps : Choice) (vs : List Value) :
    visitedItems keeps 0 vs = (children (.list vs)).flatMap (visitedIn keeps) := by
  have hfrom (n : Nat) : visitedItems keeps n vs
      = ((vs.zipIdx n).map fun e => (Selector.item e.2, e.1)).flatMap (visitedIn keeps) := by
    induction vs generalizing n with
    | nil => rfl
    | cons v rest ih =>
      unfold visitedItems
      rw [ih]
      rfl
  exact hfrom 0

/-- First the node is asked about, and then its children in order if it is kept. -/
theorem visited_eq (keeps : Choice) (v : Value) :
    visited keeps v
      = ([], v) :: if keeps [] v then (children v).flatMap (visitedIn keeps) else [] := by
  cases v with
  | map vs =>
    unfold visited
    rw [visitedEntries_eq]
  | list vs =>
    unfold visited
    rw [visitedItems_eq]
  | _ => exact congrArg _ (ite_self []).symm

theorem mem_children_map {vs : Fields} {s : Selector} :
    (s, c) ∈ children (.map vs) ↔ ∃ key, s = .key key ∧ (key, c) ∈ vs := by
  show (s, c) ∈ vs.map _ ↔ _
  rw [List.mem_map]
  constructor
  · rintro ⟨⟨key, v⟩, he, heq⟩
    obtain ⟨rfl, rfl⟩ := Prod.mk.inj heq
    exact ⟨key, rfl, he⟩
  · rintro ⟨key, rfl, he⟩
    exact ⟨(key, c), he, rfl⟩

theorem mem_children_list {vs : List Value} {s : Selector} :
    (s, c) ∈ children (.list vs) ↔ ∃ n, s = .item n ∧ vs[n]? = some c := by
  show (s, c) ∈ vs.zipIdx.map _ ↔ _
  rw [List.mem_map]
  constructor
  · rintro ⟨⟨v, n⟩, he, heq⟩
    obtain ⟨rfl, rfl⟩ := Prod.mk.inj heq
    exact ⟨n, rfl, List.mem_zipIdx_iff_getElem?.mp he⟩
  · rintro ⟨n, rfl, hn⟩
    exact ⟨(c, n), List.mem_zipIdx_iff_getElem?.mpr hn, rfl⟩

theorem select?_leaf (hmap : v.map? = none) (hlist : v.list? = none) (s : Selector) :
    select? v s = none := by
  cases v with
  | map | list => contradiction
  | _ => rfl

/-- The children are what selectors select. -/
theorem mem_children_iff (hv : v.WellFormed) {s : Selector} :
    (s, c) ∈ children v ↔ select? v s = some c := by
  cases v with
  | map vs =>
    unfold WellFormed at hv
    rw [mem_children_map]
    constructor
    · rintro ⟨key, rfl, he⟩
      exact Dict.get?_of_mem hv.1 he
    · intro h
      cases s with
      | key name => exact ⟨name, rfl, Dict.mem_of_get? h⟩
      | item n => cases h
  | list vs =>
    rw [mem_children_list]
    constructor
    · rintro ⟨n, rfl, hn⟩
      exact hn
    · intro h
      cases s with
      | key name => cases h
      | item n => exact ⟨n, rfl, h⟩
  | _ =>
    rw [select?_leaf rfl rfl]
    exact iff_of_false List.not_mem_nil (Option.some_ne_none c).symm

/-- Children come in order. -/
theorem children_sorted (hv : v.WellFormed) :
    (children v).Pairwise fun a b => Selector.Before a.1 b.1 := by
  cases v with
  | map vs =>
    unfold WellFormed at hv
    have hkeys : vs.Pairwise fun a b => a.1 < b.1 := List.pairwise_map.mp hv.1
    exact List.pairwise_map.mpr hkeys
  | list vs =>
    have hpositions : vs.zipIdx.Pairwise fun a b => a.2 < b.2 := by
      rw [← List.pairwise_map, List.zipIdx_map_snd]
      exact List.pairwise_lt_range'
    exact List.pairwise_map.mpr hpositions
  | _ => exact .nil

theorem WellFormed.of_mem_children (hv : v.WellFormed) {s : Selector} (h : (s, c) ∈ children v) :
    c.WellFormed := by
  cases v with
  | map vs =>
    unfold WellFormed at hv
    obtain ⟨key, -, he⟩ := mem_children_map.mp h
    exact hv.2.of_mem he
  | list vs =>
    unfold WellFormed at hv
    obtain ⟨n, -, hn⟩ := mem_children_list.mp h
    exact hv.2.of_mem (List.mem_of_getElem? hn)
  | _ => exact absurd h List.not_mem_nil

/-- What holds of a tree if it holds of its children holds of all trees. -/
theorem children_induction {P : Value → Prop}
    (h : ∀ v, (∀ s c, (s, c) ∈ children v → P c) → P v) (v : Value) : P v := by
  induction v using member_induction with
  | map vs ih =>
    refine h _ fun s c hc => ?_
    obtain ⟨key, -, he⟩ := mem_children_map.mp hc
    exact ih (key, c) he
  | list vs ih =>
    refine h _ fun s c hc => ?_
    obtain ⟨n, -, hn⟩ := mem_children_list.mp hc
    exact ih c (List.mem_of_getElem? hn)
  | leaf v hmap hlist =>
    refine h v fun s c hc => ?_
    cases v with
    | map | list => contradiction
    | _ => exact absurd hc List.not_mem_nil

/-! ## §3. Which nodes are asked about, and in which order. -/

/-- Nodes come in the order of their positions: parents before children, children in order. -/
def Earlier (m n : Position × Value) : Prop :=
  List.Lex Selector.Before m.1 n.1

/-- **Each node is asked about once**, parents before children, and children in order. -/
theorem visited_sorted (hv : v.WellFormed) (keeps : Choice) :
    (visited keeps v).Pairwise Earlier := by
  induction v using children_induction generalizing keeps with
  | h v ih =>
    rw [visited_eq, List.pairwise_cons]
    split
    · constructor
      · -- the node itself is before all that is inside
        intro n hn
        obtain ⟨c, -, hc⟩ := List.mem_flatMap.mp hn
        obtain ⟨n', -, rfl⟩ := List.mem_map.mp hc
        exact .nil
      · rw [List.pairwise_flatMap]
        constructor
        · -- within a child
          intro c hc
          refine List.pairwise_map.mpr ((ih c.1 c.2 hc (hv.of_mem_children hc) _).imp ?_)
          exact fun h => .cons h
        · -- from child to child
          refine (children_sorted hv).imp fun {a b} hbefore m hm n hn => ?_
          obtain ⟨m', -, rfl⟩ := List.mem_map.mp hm
          obtain ⟨n', -, rfl⟩ := List.mem_map.mp hn
          exact .rel hbefore
    · exact ⟨nofun, .nil⟩

theorem mem_visited_nil_iff {w : Value} : ([], w) ∈ visited keeps v ↔ w = v := by
  rw [visited_eq, List.mem_cons]
  constructor
  · rintro (heq | hbelow)
    · exact (Prod.mk.inj heq).2
    · split at hbelow
      · obtain ⟨c, -, hc⟩ := List.mem_flatMap.mp hbelow
        obtain ⟨n, -, heq⟩ := List.mem_map.mp hc
        exact absurd (Prod.mk.inj heq).1 (List.cons_ne_nil _ _)
      · exact absurd hbelow List.not_mem_nil
  · rintro rfl
    exact .inl rfl

theorem mem_visited_cons_iff (hv : v.WellFormed) {s : Selector} {p : Position} {w : Value} :
    (s :: p, w) ∈ visited keeps v
      ↔ keeps [] v = true ∧ ∃ c, select? v s = some c ∧ (p, w) ∈ visited (keeps.under s) c := by
  rw [visited_eq, List.mem_cons]
  constructor
  · rintro (heq | hbelow)
    · exact absurd (Prod.mk.inj heq).1 (List.cons_ne_nil _ _)
    · split at hbelow
      next hkeep =>
        obtain ⟨⟨s', c⟩, hmem, hc⟩ := List.mem_flatMap.mp hbelow
        obtain ⟨n, hn, heq⟩ := List.mem_map.mp hc
        obtain ⟨hposition, rfl⟩ := Prod.mk.inj heq
        obtain ⟨rfl, rfl⟩ := List.cons.inj hposition
        exact ⟨hkeep, c, (mem_children_iff hv).mp hmem, hn⟩
      · exact absurd hbelow List.not_mem_nil
  · rintro ⟨hkeep, c, hselect, hmem⟩
    rw [if_pos hkeep]
    refine .inr (List.mem_flatMap.mpr ⟨(s, c), (mem_children_iff hv).mpr hselect, ?_⟩)
    exact List.mem_map.mpr ⟨(p, w), hmem, rfl⟩

/-- All nodes above a position are kept. -/
def KeptAbove (keeps : Choice) (v : Value) (p : Position) : Prop :=
  ∀ above u, above <+: p → above ≠ p → valueAt? v above = some u → keeps above u = true

theorem keptAbove_cons_iff {s : Selector} {p : Position} (h : select? v s = some c) :
    KeptAbove keeps v (s :: p) ↔ keeps [] v = true ∧ KeptAbove (keeps.under s) c p := by
  have hbelow (above : Position) : valueAt? v (s :: above) = valueAt? c above := by
    show (select? v s).bind _ = _
    rw [h]
    rfl
  constructor
  · intro hkept
    refine ⟨hkept [] v List.nil_prefix (List.cons_ne_nil _ _).symm rfl, ?_⟩
    intro above u hprefix hne hvalue
    refine hkept (s :: above) u ((List.prefix_cons_inj s).mpr hprefix) ?_ ?_
    · exact fun heq => hne (List.cons.inj heq).2
    · rw [hbelow, hvalue]
  · rintro ⟨hroot, hkept⟩ above u hprefix hne hvalue
    cases above with
    | nil => exact Option.some.inj hvalue ▸ hroot
    | cons s' above =>
      obtain ⟨rfl, habove⟩ := List.cons_prefix_cons.mp hprefix
      rw [hbelow] at hvalue
      exact hkept above u habove (fun heq => hne (heq ▸ rfl)) hvalue

/-- **A node is asked about exactly if it is in the tree and all nodes above it are kept.** -/
theorem mem_visited_iff (hv : v.WellFormed) {p : Position} {w : Value} :
    (p, w) ∈ visited keeps v ↔ valueAt? v p = some w ∧ KeptAbove keeps v p := by
  -- down the position: with each selector the node goes to its child and the choice goes along
  induction p generalizing v keeps with
  | nil =>
    rw [mem_visited_nil_iff]
    constructor
    · rintro rfl
      exact ⟨rfl, fun above u hprefix hne => absurd (List.prefix_nil.mp hprefix) hne⟩
    · exact fun h => (Option.some.inj h.1).symm
  | cons s p ih =>
    rw [mem_visited_cons_iff hv]
    show _ ↔ (select? v s).bind (fun c => valueAt? c p) = some w ∧ _
    cases hselect : select? v s with
    | none =>
      refine iff_of_false ?_ fun h => absurd h.1 nofun
      rintro ⟨-, c, hc, -⟩
      exact absurd hc nofun
    | some c =>
      have hc : c.WellFormed := hv.of_mem_children ((mem_children_iff hv).mpr hselect)
      rw [keptAbove_cons_iff hselect]
      constructor
      · rintro ⟨hkeep, c', hc', hmem⟩
        obtain rfl := Option.some.inj hc'
        obtain ⟨hvalue, habove⟩ := (ih hc).mp hmem
        exact ⟨hvalue, hkeep, habove⟩
      · rintro ⟨hvalue, hkeep, habove⟩
        exact ⟨hkeep, c, rfl, (ih hc).mpr ⟨hvalue, habove⟩⟩

/-! ## §4. What is below the root. -/

/-- The choice by which the root is kept. -/
def Choice.orRoot (keeps : Choice) : Choice :=
  fun p v => p.isEmpty || keeps p v

/-- What is asked about below the root does not depend on what is said of the root. -/
theorem visited_orRoot (keeps : Choice) (vs : Fields) :
    visited keeps.orRoot (.map vs) = ([], .map vs) :: visitedEntries keeps vs := by
  rw [visited_map rfl, visitedEntries_eq, visitedEntries_eq]
  rfl

/-- Nodes below the root come in order. -/
theorem visitedEntries_sorted {vs : Fields} (hvs : (Value.map vs).WellFormed) (keeps : Choice) :
    (visitedEntries keeps vs).Pairwise Earlier := by
  have hsorted := visited_sorted hvs keeps.orRoot
  rw [visited_orRoot] at hsorted
  exact hsorted.tail

/-- Below the root those nodes come up that are not inside of a node that is not kept. -/
theorem mem_visitedEntries_iff {vs : Fields} (hvs : (Value.map vs).WellFormed) (keeps : Choice)
    {p : Position} :
    (p, v) ∈ visitedEntries keeps vs ↔ p ≠ [] ∧ (Value.map vs).valueAt? p = some v
      ∧ ∀ above u, above ≠ [] → above <+: p → above ≠ p → (Value.map vs).valueAt? above = some u →
        keeps above u = true := by
  have hroot : (p, v) ∈ visitedEntries keeps vs
      ↔ p ≠ [] ∧ (p, v) ∈ visited keeps.orRoot (.map vs) := by
    have hsorted := visited_sorted hvs keeps.orRoot
    rw [visited_orRoot, List.pairwise_cons] at hsorted
    rw [visited_orRoot, List.mem_cons]
    constructor
    · intro h
      refine ⟨?_, .inr h⟩
      rintro rfl
      exact absurd (hsorted.1 _ h) nofun
    · rintro ⟨hne, heq | h⟩
      · exact absurd (Prod.mk.inj heq).1 hne
      · exact h
  rw [hroot, mem_visited_iff hvs]
  refine and_congr_right fun _ => and_congr_right fun _ => ?_
  constructor
  · intro hkept above u hne hprefix hproper hvalue
    have hkeeps : (above.isEmpty || keeps above u) = true := hkept above u hprefix hproper hvalue
    rwa [List.isEmpty_eq_false_iff.mpr hne, Bool.false_or] at hkeeps
  · intro hkept above u hprefix hproper hvalue
    show (above.isEmpty || keeps above u) = true
    by_cases hne : above = []
    · rw [hne]
      rfl
    · rw [hkept above u hne hprefix hproper hvalue, Bool.or_true]

end AccountSync.Value
