/-
  AccountSync.Proofs.Value.Paths
  ──────────────────────────────
  **PLACES IN VALUE TREES.**

  A tree is taken apart by its children: those of a map by their keys, those of a list
  by their positions, written in decimal.  Every child is smaller than the tree, so that
  what carries over from children to trees holds of all trees.

      Value.WellFormed        — maps are in key order, lists have no more items than positions
      Value.child_induction   — induction along children
      Value.member_induction  — induction along items and entries
      Value.position?_text    — a position reads back as it is written
      Value.same_getPath?     — equal trees have equal values at all paths
-/
import AccountSync.Proofs.Dict
import AccountSync.Proofs.Value.Same

namespace AccountSync.Value

/-! ## §1. Trees as they can be built. -/

mutual

/-- The entries of every map are in key order, and no list has more items than there are
positions.  Every tree is so that consists of sorted maps and of lists that fit an address
space. -/
def WellFormed : Value → Prop
  | .list items => items.length ≤ twoTo 64 ∧ ItemsWellFormed items
  | .map entries => Dict.Sorted entries ∧ EntriesWellFormed entries
  | _ => True

/-- The items are well-formed. -/
def ItemsWellFormed : List Value → Prop
  | [] => True
  | v :: rest => v.WellFormed ∧ ItemsWellFormed rest

/-- The values of the entries are well-formed. -/
def EntriesWellFormed : List (String × Value) → Prop
  | [] => True
  | (_, v) :: rest => v.WellFormed ∧ EntriesWellFormed rest

end

theorem ItemsWellFormed.of_mem {items : List Value} (h : ItemsWellFormed items) {v : Value}
    (hv : v ∈ items) : v.WellFormed := by
  induction items with
  | nil => exact absurd hv List.not_mem_nil
  | cons u rest ih =>
    rcases List.mem_cons.mp hv with rfl | hv
    · exact h.1
    · exact ih h.2 hv

theorem EntriesWellFormed.of_mem {entries : List (String × Value)} (h : EntriesWellFormed entries)
    {key : String} {v : Value} (hv : (key, v) ∈ entries) : v.WellFormed := by
  induction entries with
  | nil => exact absurd hv List.not_mem_nil
  | cons e rest ih =>
    rcases List.mem_cons.mp hv with rfl | hv
    · exact h.1
    · exact ih h.2 hv

/-! ## §2. Children. -/

/-- What selects a child: the key of an entry, or the position of an item. -/
theorem child?_eq_some {v c : Value} {part : String} (h : v.child? part = some c) :
    (∃ entries, v = .map entries ∧ (part, c) ∈ entries) ∨ ∃ items, v = .list items ∧ c ∈ items := by
  cases v with
  | map entries => exact .inl ⟨entries, rfl, Dict.mem_of_get? h⟩
  | list items =>
    obtain ⟨i, _, hi⟩ := Option.bind_eq_some_iff.mp h
    exact .inr ⟨items, rfl, List.mem_of_getElem? hi⟩
  | _ => exact absurd h nofun

theorem WellFormed.child {v c : Value} (h : v.WellFormed) {part : String}
    (hc : v.child? part = some c) : c.WellFormed := by
  rcases child?_eq_some hc with ⟨entries, rfl, hmem⟩ | ⟨items, rfl, hmem⟩
  · unfold WellFormed at h
    exact h.2.of_mem hmem
  · unfold WellFormed at h
    exact h.2.of_mem hmem

theorem nodeCount_pos (v : Value) : 0 < v.nodeCount := by
  cases v <;> simp only [nodeCount] <;> omega

theorem nodeCount_le_itemCount {items : List Value} {v : Value} (h : v ∈ items) :
    v.nodeCount ≤ itemCount items := by
  induction items with
  | nil => exact absurd h List.not_mem_nil
  | cons u rest ih =>
    unfold itemCount
    rcases List.mem_cons.mp h with rfl | h
    · omega
    · have := ih h
      omega

theorem nodeCount_le_entryCount {entries : List (String × Value)} {key : String} {v : Value}
    (h : (key, v) ∈ entries) : v.nodeCount ≤ entryCount entries := by
  induction entries with
  | nil => exact absurd h List.not_mem_nil
  | cons e rest ih =>
    obtain ⟨k, u⟩ := e
    unfold entryCount
    rcases List.mem_cons.mp h with heq | h
    · obtain ⟨rfl, rfl⟩ := Prod.mk.inj heq
      omega
    · have := ih h
      omega

/-- A child has fewer nodes than the tree. -/
theorem nodeCount_child_lt {v c : Value} {part : String} (h : v.child? part = some c) :
    c.nodeCount < v.nodeCount := by
  rcases child?_eq_some h with ⟨entries, rfl, hmem⟩ | ⟨items, rfl, hmem⟩
  · have := nodeCount_le_entryCount hmem
    show c.nodeCount < 1 + entryCount entries
    omega
  · have := nodeCount_le_itemCount hmem
    show c.nodeCount < 1 + itemCount items
    omega

/-- What holds of a tree if it holds of its children holds of all trees. -/
theorem child_induction {P : Value → Prop}
    (h : ∀ v, (∀ part c, v.child? part = some c → P c) → P v) (v : Value) : P v := by
  -- on the number of nodes, as items and entries are lists of trees and not trees
  generalize hn : v.nodeCount = n
  induction n using Nat.strongRecOn generalizing v with
  | _ n ih =>
    subst hn
    exact h v fun part c hc => ih c.nodeCount (nodeCount_child_lt hc) c rfl

/-- What holds of a tree if it holds of its items and of the values of its entries holds of all
trees. -/
theorem member_induction {P : Value → Prop}
    (map : ∀ vs : Fields, (∀ e ∈ vs, P e.2) → P (.map vs))
    (list : ∀ vs : List Value, (∀ v ∈ vs, P v) → P (.list vs))
    (leaf : ∀ v : Value, v.map? = none → v.list? = none → P v) (v : Value) : P v := by
  -- on the number of nodes, as the members of a tree are in a list
  generalize hn : v.nodeCount = n
  induction n using Nat.strongRecOn generalizing v with
  | _ n ih =>
    subst hn
    cases v with
    | map vs =>
      refine map vs fun e he => ih _ ?_ e.2 rfl
      have := nodeCount_le_entryCount he
      show e.2.nodeCount < 1 + entryCount vs
      omega
    | list vs =>
      refine list vs fun v hv => ih _ ?_ v rfl
      have := nodeCount_le_itemCount hv
      show v.nodeCount < 1 + itemCount vs
      omega
    | _ => exact leaf _ rfl rfl

/-! ## §3. Positions. -/

/-- A position as a path component. -/
def positionText (n : Nat) : String :=
  (Number.int n).text

theorem positionText_toList (n : Nat) : (positionText n).toList = Nat.toDigits 10 n := by
  have hnonneg : ¬((n : Int) < 0) := by omega
  show (Number.text (.int n)).toList = Nat.toDigits 10 n
  simp only [Number.text, if_neg hnonneg, String.toList_ofList, Int.natAbs_natCast]

theorem isDigit_of_mem_toDigits {n : Nat} {c : Char} (h : c ∈ Nat.toDigits 10 n) :
    c.isDigit = true :=
  Nat.isDigit_of_mem_toDigits (by decide) (by decide) h

theorem positionText_injective {m n : Nat} (h : positionText m = positionText n) : m = n := by
  have hdigits := congrArg String.toList h
  rw [positionText_toList, positionText_toList] at hdigits
  rw [← Nat.ofDigitChars_ten_toDigits (n := m), hdigits, Nat.ofDigitChars_ten_toDigits]

/-- Plain digits are read as a position, if there is such a position at all. -/
theorem position?_of_digits {part : String} (hne : part.toList ≠ [])
    (hdigits : ∀ c ∈ part.toList, c.isDigit = true) :
    position? part = if Number.digitsValue part.toList < twoTo 64
      then some (Number.digitsValue part.toList) else none := by
  have hall : part.toList.all Char.isDigit = true := List.all_eq_true.mpr hdigits
  unfold position?
  generalize part.toList = cs at hne hdigits hall ⊢
  dsimp only
  split
  next digits rest =>
    -- a sign is not a digit
    have hplus : Char.isDigit '+' = true := hdigits '+' List.mem_cons_self
    exact absurd hplus (by decide)
  · rw [if_pos (And.intro hne hall)]

/-- A position reads back as it is written, if it exists at all. -/
theorem position?_text (n : Nat) :
    position? (positionText n) = if n < twoTo 64 then some n else none := by
  have hdigits : ∀ c ∈ (positionText n).toList, c.isDigit = true := by
    rw [positionText_toList]
    exact fun c hc => isDigit_of_mem_toDigits hc
  have hne : (positionText n).toList ≠ [] := by
    rw [positionText_toList]
    exact Nat.toDigits_ne_nil
  have hvalue : Number.digitsValue (positionText n).toList = n := by
    have hread := Nat.ofDigitChars_ten_toDigits (n := n)
    rw [Nat.ofDigitChars_eq_foldl] at hread
    rw [positionText_toList]
    exact hread
  rw [position?_of_digits hne hdigits, hvalue]

/-- The child at a position. -/
theorem child?_positionText {items : List Value} (h : items.length ≤ twoTo 64) (n : Nat) :
    child? (.list items) (positionText n) = items[n]? := by
  show (position? (positionText n)).bind (fun i => items[i]?) = items[n]?
  rw [position?_text]
  by_cases hn : n < twoTo 64
  · rw [if_pos hn]
    rfl
  · -- the list ends before such a position
    rw [if_neg hn, List.getElem?_eq_none (by omega)]
    rfl

/-! ## §4. Equal trees. -/

/-- Equal lists have equal items everywhere. -/
theorem sameItems_getElem? {as bs : List Value} (h : sameItems as bs = true) (i : Nat) :
    sameOption as[i]? bs[i]? = true := by
  induction as generalizing bs i with
  | nil =>
    cases bs with
    | nil => rfl
    | cons b bs => exact absurd h nofun
  | cons a as ih =>
    cases bs with
    | nil => exact absurd h nofun
    | cons b bs =>
      unfold sameItems at h
      rw [Bool.and_eq_true] at h
      cases i with
      | zero => exact h.1
      | succ i => exact ih h.2 i

/-- Equal maps have equal values everywhere. -/
theorem sameEntries_get? {as bs : List (String × Value)} (h : sameEntries as bs = true)
    (key : String) : sameOption (Dict.get? as key) (Dict.get? bs key) = true := by
  induction as generalizing bs with
  | nil =>
    cases bs with
    | nil => rfl
    | cons b bs => exact absurd h nofun
  | cons e as ih =>
    cases bs with
    | nil => exact absurd h nofun
    | cons e' bs =>
      obtain ⟨j, a⟩ := e
      obtain ⟨k, b⟩ := e'
      unfold sameEntries at h
      rw [Bool.and_eq_true, Bool.and_eq_true, beq_iff_eq] at h
      obtain ⟨⟨rfl, hab⟩, hrest⟩ := h
      by_cases hj : j = key
      · subst hj
        rw [Dict.get?_cons_self, Dict.get?_cons_self]
        exact hab
      · rw [Dict.get?_cons_of_ne hj, Dict.get?_cons_of_ne hj]
        exact ih hrest

/-- Equal trees have equal children. -/
theorem same_child? {v w : Value} (h : v.same w = true) (part : String) :
    sameOption (v.child? part) (w.child? part) = true := by
  cases v with
  | map entries =>
    cases w with
    | map entries' => exact sameEntries_get? h part
    | _ => exact absurd h nofun
  | list items =>
    cases w with
    | list items' =>
      -- whatever position the part is, it is the same one in both lists
      show sameOption ((position? part).bind fun i => items[i]?)
        ((position? part).bind fun i => items'[i]?) = true
      cases position? part with
      | none => rfl
      | some i => exact sameItems_getElem? h i
    | _ => exact absurd h nofun
  | reference r =>
    cases w with
    | reference r' => rfl
    | _ => obtain ⟨id, target⟩ := r; exact absurd h nofun
  | _ =>
    cases w with
    | map _ => exact absurd h nofun
    | list _ => exact absurd h nofun
    | _ => rfl

/-- The value at a path, if there is a tree at all. -/
def at? (v : Option Value) (path : List String) : Option Value :=
  v.bind (fun v => v.getPath? path)

@[simp] theorem at?_nil (v : Option Value) : at? v [] = v := by
  cases v <;> rfl

theorem at?_cons (v : Value) (part : String) (path : List String) :
    at? (some v) (part :: path) = at? (v.child? part) path := rfl

/-- Equal trees have equal values at all paths. -/
theorem same_at? {v w : Option Value} (h : sameOption v w = true) (path : List String) :
    sameOption (at? v path) (at? w path) = true := by
  induction path generalizing v w with
  | nil =>
    rw [at?_nil, at?_nil]
    exact h
  | cons part path ih =>
    cases v with
    | none =>
      cases w with
      | none => rfl
      | some w => exact absurd h nofun
    | some v =>
      cases w with
      | none => exact absurd h nofun
      | some w => exact ih (same_child? h part)

end AccountSync.Value
