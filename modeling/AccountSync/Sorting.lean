/-
  AccountSync.Sorting
  ───────────────────
  **SORTING BY KEYS THAT MAY BE ABSENT.**

      lastIfAbsent    — compare keys; what has none comes last
      sortedBy        — sort, items that compare equal stay in order
-/

namespace AccountSync.Sorting

variable {α κ : Type}

/-- Compares keys that may be absent: an absent key comes after every other, and two absent
keys are equal. -/
def lastIfAbsent (cmp : κ → κ → Ordering) : Option κ → Option κ → Ordering
  | some a, some b => cmp a b
  | some _, none => .lt
  | none, some _ => .gt
  | none, none => .eq

/-- The greater key first. -/
def descending (cmp : κ → κ → Ordering) (a b : κ) : Ordering :=
  cmp b a

/-- Sorts items; those that compare equal stay in order. -/
def sortedBy (cmp : α → α → Ordering) (items : List α) : List α :=
  items.mergeSort (fun a b => cmp a b != .gt)

end AccountSync.Sorting
