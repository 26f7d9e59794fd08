/-
  AccountSync.Change.Difference
  ─────────────────────────────
  **WHERE TWO VALUE TREES DIFFER.**

  Maps are compared key by key, lists position by position, and anything else as a
  whole.  Each difference names its place and holds what was there before and after.

      Difference.between     — of two values
      Difference.ofFields    — of two sets of fields, places in key order
-/
import AccountSync.Change.Basic

namespace AccountSync

/-- A place in a value tree, and how the value there changes. -/
structure Difference where
  id : ElementId
  change : Change Value

namespace Difference

/-- The path of the place inside its top-level element. -/
def path (d : Difference) : List String :=
  d.id.topLevel.2

/-- Everything under the given keys is new. -/
def added (id : ElementId) (entries : List (String × Value)) : List Difference :=
  entries.map (fun e => ⟨id.nest [e.1], .addition e.2⟩)

/-- Everything from a position on is new. -/
def addedItems (id : ElementId) : Nat → List Value → List Difference
  | _, [] => []
  | n, v :: rest => ⟨id.nest [(Number.int n).text], .addition v⟩ :: addedItems id (n + 1) rest

mutual

/-- The differences of two values at a place. -/
def between (id : ElementId) : Value → Value → List Difference
  | .map before, .map after =>
    if Value.sameEntries before after then [] else betweenEntries id before after
  | .list before, .list after =>
    if Value.sameItems before after then [] else betweenItems id 0 before after
  | before, after => if before.same after then [] else [⟨id, .modification before after⟩]

/-- The differences of two maps at a place, in key order. -/
def betweenEntries (id : ElementId) :
    List (String × Value) → List (String × Value) → List Difference
  | [], after => added id after
  | (key, v) :: before, after =>
    added id (after.takeWhile (fun e => e.1 < key)) ++
      match after.dropWhile (fun e => e.1 < key) with
      | (key', w) :: after =>
        if key = key' then between (id.nest [key]) v w ++ betweenEntries id before after
        else ⟨id.nest [key], .removal v⟩ :: betweenEntries id before ((key', w) :: after)
      | [] => ⟨id.nest [key], .removal v⟩ :: betweenEntries id before []

/-- The differences of two lists at a place, from a position on. -/
def betweenItems (id : ElementId) : Nat → List Value → List Value → List Difference
  | n, [], after => addedItems id n after
  | n, v :: before, [] =>
    ⟨id.nest [(Number.int n).text], .removal v⟩ :: betweenItems id (n + 1) before []
  | n, v :: before, w :: after =>
    between (id.nest [(Number.int n).text]) v w ++ betweenItems id (n + 1) before after

end

/-- The differences of two sets of fields. -/
def ofFields (id : ElementId) (before after : Fields) : List Difference :=
  betweenEntries id before after

/-- The differences of two snapshots of an instance. -/
def ofInstances (before after : Instance) : List Difference :=
  ofFields after.id before.value after.value

end Difference

end AccountSync
