/-
  AccountSync.Validation.Basic
  ────────────────────────────
  **CHECKS BEFORE A DEPLOYMENT.**

  A validator looks at the changes of a batch, and at the stored elements, and says
  what is wrong with them.  A change with an error is not deployed.
-/
import AccountSync.Change.Basic
import AccountSync.Diagnostic

namespace AccountSync

/-- Finds the stored element of an identifier. -/
abbrev ElementSource := ElementId → Option Element

/-- A check of the changes of a batch. -/
structure Validator where
  name : String
  check : ElementSource → List InstanceChange → List Diagnostic

/-- The instances that are removed by changes. -/
def removedInstances (changes : List InstanceChange) : List Instance :=
  (changes.filter Change.isRemoval).map Change.data

end AccountSync
