/-
  AccountSync.Value.Cell
  ──────────────────────
  **NODES THAT CAN BE OVERWRITTEN.**

  A cell is a node of a tree together with the tree around it.  It is reached from the root,
  map by map and list by list; what was put into it shows when the tree around it is closed
  again.

      Value.cell?   — the cell at a path of keys and list positions
-/
import AccountSync.Value.Basic

namespace AccountSync.Value

/-- A node of a tree, and the tree with something else in place of the node. -/
structure Cell where
  node : Value
  put : Value → Value

/-- The cell at a path. -/
def cell? : Value → List String → Option Cell
  | v, [] => some { node := v, put := fun new => new }
  | .map entries, part :: rest => do
    let child ← Dict.get? entries part
    let inner ← cell? child rest
    pure { inner with put := fun new => .map (Dict.modify entries part fun _ => inner.put new) }
  | .list items, part :: rest => do
    let i ← position? part
    let child ← items[i]?
    let inner ← cell? child rest
    pure { inner with put := fun new => .list (items.set i (inner.put new)) }
  | _, _ :: _ => none

end AccountSync.Value
