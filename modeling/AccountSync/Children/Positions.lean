/-
  AccountSync.Children.Positions
  ──────────────────────────────
  **DEPLOYING THE ORDER OF CHILDREN.**

  A parent lists its children in order, but the account only knows a position for
  each child.  A changed list is deployed as one change per child that sets its
  position to its place in the list.

      Children.orderChange      — how a change of a parent touches its list
      Children.positionChanges  — the changes of the children
      Children.deployOrder      — deploys the lists of a batch

  A parent whose list is all that changed is done once its children are; one with
  other changes is left over for later stages.
-/
import AccountSync.Change.Difference
import AccountSync.Deployment.Batch
import AccountSync.Settings.Basic

namespace AccountSync.Children

/-- How a change of a parent touches the list of its children. -/
inductive OrderChange where
  /-- Only the list changed. -/
  | orderOnly
  /-- The list and something else changed. -/
  | mixed
  /-- The list did not change. -/
  | noOrder
deriving DecidableEq, Repr

/-- The name of how a change touches the list. -/
def OrderChange.name : OrderChange → String
  | .orderOnly => "order_only"
  | .mixed => "mixed"
  | .noOrder => "no_order"

/-- Whether a difference lies in a field. -/
def liesIn (field : String) (d : Difference) : Bool :=
  d.path.head? = some field

/-- How the differences of a parent touch a field. -/
def classify (field : String) (differences : List Difference) : OrderChange :=
  let inside := (differences.filter (liesIn field)).length
  if inside = 0 then .noOrder
  else if inside = differences.length then .orderOnly
  else .mixed

/-- How a change of a parent touches the list of its children. -/
def orderChange (field : String) : InstanceChange → OrderChange
  | .modification before after => classify field (Difference.ofInstances before after)
  | _ => .noOrder

/-- How a change touches the list that a rule is about; changes of other types do not. -/
def orderChangeFor (rule : ChildOrderRule) (c : InstanceChange) : OrderChange :=
  if c.typeName = rule.parentType then orderChange rule.orderField c else .noOrder

/-- Why the changes of the children cannot be built. -/
def notReferences (rule : ChildOrderRule) (parent : Instance) : String :=
  "Error updating " ++ rule.orderField ++ " positions of '" ++ parent.id.name
    ++ "' - some values in the list are not a reference"

/-- The position that a reference remembers of its target. -/
def storedPosition? (rule : ChildOrderRule) (r : Reference) : Option Value :=
  (r.target.bind (fun target => target.get? rule.positionField)).filter (fun v => !v.isNull)

/-- A child with nothing but its identifier and its position. -/
def child (rule : ChildOrderRule) (parent : Instance) (r : Reference) (id : Value)
    (position : Option Value) : Instance :=
  let bare : Instance := {
    id := r.id
    type := .ofType parent.id.adapter rule.childType
    value := [("id", id)] }
  match position with
  | some v => bare.set rule.positionField v
  | none => bare

/-- The change that sets the position of a listed child. -/
def positionChange? (rule : ChildOrderRule) (parent : Instance) (index : Nat) (item : Value) :
    Option InstanceChange := do
  let r ← item.reference?
  let id ← r.targetId?
  pure (.modification (child rule parent r id (storedPosition? rule r))
    (child rule parent r id (some (.number (.int index)))))

/-- The changes of the children listed from a place on. -/
def positionChangesFrom (rule : ChildOrderRule) (parent : Instance) :
    Nat → List Value → Option (List InstanceChange)
  | _, [] => some []
  | index, item :: rest => do
    let first ← positionChange? rule parent index item
    let others ← positionChangesFrom rule parent (index + 1) rest
    pure (first :: others)

/-- The children that a parent lists. -/
def listed (rule : ChildOrderRule) (parent : Instance) : List Value :=
  ((parent.get? rule.orderField).bind Value.list?).getD []

/-- The changes that give each listed child its place as its position.  There are none at
all if something in the list is not a reference to an element with an identifier. -/
def positionChanges (rule : ChildOrderRule) (c : InstanceChange) :
    Except String (List InstanceChange) :=
  match positionChangesFrom rule c.data 0 (listed rule c.data) with
  | some changes => .ok changes
  | none => .error (notReferences rule c.data)

/-- What becomes of a parent whose children were handled with the given errors. -/
def settled (kind : OrderChange) (c : InstanceChange) (errors : List Diagnostic) : StageResult :=
  match kind with
  | .mixed => { result := { errors }, leftover := [c] }
  | _ => { result := { applied := if errors.isEmpty then [c] else [], errors } }

/-- Deploys the list of one parent. -/
def deployParent {ω : Type} (pool : Pool ω) (handler : ChangeHandler ω) (rule : ChildOrderRule)
    (c : InstanceChange) : StateM ω StageResult :=
  match orderChangeFor rule c with
  | .noOrder => pure { leftover := [c] }
  | kind =>
    match positionChanges rule c with
    | .error message => pure { result := { errors := [.error c.id message] } }
    | .ok changes => do
      let done ← pool.deploy handler changes
      pure (settled kind c done.errors)

/-- Deploys the lists of all parents of a batch that a rule is about, one parent after the
other. -/
def deployOrder {ω : Type} (pool : Pool ω) (handler : ChangeHandler ω) (rule : ChildOrderRule) :
    List InstanceChange → StateM ω StageResult
  | [] => pure {}
  | c :: rest => do
    let first ← deployParent pool handler rule c
    let others ← deployOrder pool handler rule rest
    pure { result := first.result ++ others.result, leftover := first.leftover ++ others.leftover }

end AccountSync.Children
