/-
  AccountSync.Children.Lists
  ──────────────────────────
  **PARENTS LIST THEIR CHILDREN.**

  A child names its parent by identifier.  Fetched parents get a list of references
  to their children, in order; changed lists are deployed child by child.

      Children.listedBy      — all elements, with the lists of a rule
      Children.deployLists   — deploys the lists of a batch, rule after rule
-/
import AccountSync.Children.Positions
import AccountSync.Children.Sorted
import AccountSync.Lookup.Basic

namespace AccountSync.Children

/-- The children of the parent with an identifier. -/
def ofParent (rule : ChildOrderRule) (elements : List Element) (id : String) : List Instance :=
  (Element.instancesOf elements rule.childType).filter
    (fun child => LookupTable.fieldKey? rule.parentIdField child = some id)

/-- The list of children of a parent, if the parent has an identifier. -/
def listFor? (rule : ChildOrderRule) (elements : List Element) (parent : Instance) :
    Option Value :=
  (LookupTable.fieldKey? "id" parent).map (fun id =>
    list (sorted rule.positionField rule.createdAtField (ofParent rule elements id)))

/-- The parent with its list of children. -/
def withList (rule : ChildOrderRule) (elements : List Element) (parent : Instance) : Instance :=
  match listFor? rule elements parent with
  | some children => parent.set rule.orderField children
  | none => parent

/-- All elements with the lists that a rule asks for. -/
def listedBy (elements : List Element) (rule : ChildOrderRule) : List Element :=
  Element.mapInstances
    (fun i => if i.typeName = rule.parentType then withList rule elements i else i)
    elements

/-- All elements with the lists that the rules ask for, rule after rule. -/
def withLists (rules : List ChildOrderRule) (elements : List Element) : List Element :=
  rules.foldl listedBy elements

/-- Deploys the lists of a batch rule after rule; what a rule leaves over goes to the next
one. -/
def deployLists {ω : Type} (pool : Pool ω) (handler : ChangeHandler ω) :
    List ChildOrderRule → List InstanceChange → StateM ω StageResult
  | [], changes => pure { leftover := changes }
  | rule :: rest, changes => do
    let first ← deployOrder pool handler rule changes
    let others ← deployLists pool handler rest first.leftover
    pure { result := first.result ++ others.result, leftover := others.leftover }

end AccountSync.Children
