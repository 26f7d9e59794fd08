/-
  AccountSync.Value.Leaves
  ────────────────────────
  **THE VALUES THAT A PATH OF KEYS LEADS TO.**

  A path of keys goes down through maps.  A list, wherever it is met, stands for all
  of its items, so that a path may lead to many values.

      Value.leavesAt      — the values at a path, in order
      Value.mapLeavesAt   — the tree with all of them replaced
-/
import AccountSync.Value.Basic

namespace AccountSync.Value

mutual

/-- The values that a path leads to. -/
def leavesAt : List String → Value → List Value
  | path, .list items => itemLeaves path items
  | key :: path, .map entries => entryLeaves key path entries
  | [], v => [v]
  | _ :: _, _ => []

/-- The values that a path leads to inside the items of a list. -/
def itemLeaves (path : List String) : List Value → List Value
  | [] => []
  | v :: rest => leavesAt path v ++ itemLeaves path rest

/-- The values that a path leads to below a key of a map. -/
def entryLeaves (key : String) (path : List String) : List (String × Value) → List Value
  | [] => []
  | (k, v) :: rest => if k = key then leavesAt path v else entryLeaves key path rest

end

mutual

/-- The tree with every value that a path leads to replaced. -/
def mapLeavesAt (f : Value → Value) : List String → Value → Value
  | path, .list items => .list (mapItemLeaves f path items)
  | key :: path, .map entries => .map (mapEntryLeaves f key path entries)
  | [], v => f v
  | _ :: _, v => v

/-- The items of a list with every value that a path leads to replaced. -/
def mapItemLeaves (f : Value → Value) (path : List String) : List Value → List Value
  | [] => []
  | v :: rest => mapLeavesAt f path v :: mapItemLeaves f path rest

/-- The entries of a map with every value that a path leads to below a key replaced. -/
def mapEntryLeaves (f : Value → Value) (key : String) (path : List String) :
    List (String × Value) → List (String × Value)
  | [] => []
  | (k, v) :: rest =>
    if k = key then (k, mapLeavesAt f path v) :: rest
    else (k, v) :: mapEntryLeaves f key path rest

end

end AccountSync.Value
