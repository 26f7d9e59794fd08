/-
  AccountSync.Children.OrderInstances
  ───────────────────────────────────
  **THE ORDER OF CHILDREN AS AN INSTANCE OF ITS OWN.**

  Some children are put in order by one request for all of them.  Fetching adds an
  instance per parent that lists the children in order; deploying it sends that
  request.  The instance names its parent, whose values fill in the url.

      OrderInstances.added      — the types and instances that fetching adds
      OrderInstances.request    — the request that deploys such an instance
      OrderInstances.deployer   — sends it
-/
import AccountSync.Children.Sorted
import AccountSync.Deployment.Batch
import AccountSync.Deployment.Placeholder
import AccountSync.Json.Writer
import AccountSync.Settings.Basic
import AccountSync.Value.Flatten

namespace AccountSync.OrderInstances

/-- The field that lists the children. -/
def listField : String := "ids"

/-- The field that says when a child was created. -/
def createdAtField : String := "created_at"

/-! ## Fetching -/

/-- The identifier of the type of a rule's instances. -/
def typeId (adapter : String) (rule : OrderInstanceRule) : ElementId :=
  .ofType adapter rule.orderType

/-- The type of a rule's instances. -/
def orderObject (adapter : String) (rule : OrderInstanceRule) : ObjectType :=
  ObjectType.withField { id := typeId adapter rule } listField
    (.list (.object (ElementId.ofType adapter rule.childType).fullName))

/-- The children that belong to a parent. -/
def childrenOf (rule : OrderInstanceRule) (elements : List Element) (parent : Instance) :
    List Instance :=
  (Element.instancesOf elements rule.childType).filter
    (fun child => child.parents.any (fun r => r.id = parent.id))

/-- The instance that lists the children of a parent. -/
def ofParent (adapter : String) (rule : OrderInstanceRule) (elements : List Element)
    (parent : Instance) : Instance :=
  (Instance.named (parent.id.name ++ "_order") (typeId adapter rule)
    [(listField, Children.list
      (Children.sorted rule.positionField createdAtField (childrenOf rule elements parent)))]
  ).withParent parent.reference

/-- What a rule adds: its type, and an instance per parent. -/
def addedBy (adapter : String) (elements : List Element) (rule : OrderInstanceRule) :
    List Element :=
  .object (orderObject adapter rule)
    :: (Element.instancesOf elements rule.parentType).map
      (fun parent => .inst (ofParent adapter rule elements parent))

/-- What the rules add. -/
def added (adapter : String) (rules : List OrderInstanceRule) (elements : List Element) :
    List Element :=
  rules.flatMap (addedBy adapter elements)

/-! ## Deploying -/

/-- The rule that a type of instances belongs to; the first one counts. -/
def ruleFor? (rules : List OrderInstanceRule) (typeName : String) : Option OrderInstanceRule :=
  rules.find? (fun rule => rule.orderType = typeName)

/-- The values of the parent that an instance names, written out. -/
def parentValues (order : Instance) : Except Failure (Option Json) :=
  match order.parents.head?.bind Reference.target with
  | some parent => parent.flatten.map some
  | none => .ok none

/-- The values of the parent, which must have something under the key of the rule. -/
def keyedParent (rule : OrderInstanceRule) (order : Instance) : Except Failure Json := do
  match ← parentValues order with
  | some parent =>
    if ((parent.get? rule.parentKeyField).filter (fun key => !key.isNull)).isSome then pure parent
    else .error (.deployChange order.id "parent key is undefined")
  | none => .error (.deployChange order.id "parent key is undefined")

/-- The url of the request. -/
def urlFor (rule : OrderInstanceRule) (order : Instance) (parent : Json) :
    Except Failure String :=
  match UrlTemplate.fill rule.url parent with
  | .ok url => .ok url
  | .error fault => .error (.deployChange order.id fault.message)

/-- The identifiers of the listed children. -/
def listedIds (order : Instance) : Except Failure Json :=
  match order.get? listField with
  | some children => children.flatten
  | none => .ok (.array [])

/-- The request that puts the listed children in order. -/
def request (rules : List OrderInstanceRule) (order : Instance) : Except Failure Request :=
  match ruleFor? rules order.typeName with
  | none => .error (.deployChange order.id "no reorder rule for type")
  | some rule => do
    let parent ← keyedParent rule order
    let url ← urlFor rule order parent
    let ids ← listedIds order
    pure { method := .put, url, body := some (.object [("ids", ids)]) }

/-- What an answer to the request means. -/
def accepted (order : Instance) (answer : Response) : Except Failure Unit :=
  if answer.status = 200 then .ok ()
  else .error (.deployChange order.id ("reorder request failed, " ++ answer.data.compact))

/-- Deploys a change of such an instance.  A removal needs no request: the order goes with
the parent. -/
def deployOne {ω : Type} (rules : List OrderInstanceRule) (client : Client ω)
    (c : InstanceChange) : StateM ω Outcome :=
  if c.isRemoval then pure ⟨c, .ok ()⟩
  else
    match request rules c.data with
    | .error e => pure ⟨c, .error e⟩
    | .ok r => do
      match ← client.send r with
      | .error e => pure ⟨c, .error (.http e)⟩
      | .ok answer => pure ⟨c, accepted c.data answer⟩

/-- Deploys changes of such instances. -/
def deployer {ω : Type} (rules : List OrderInstanceRule) (client : Client ω) : ChangeHandler ω :=
  .ofFinish (deployOne rules client)

/-- Whether a change is one of such an instance. -/
def claims (rules : List OrderInstanceRule) (c : InstanceChange) : Bool :=
  (ruleFor? rules c.typeName).isSome

end AccountSync.OrderInstances
