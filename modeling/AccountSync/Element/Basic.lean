/-
  AccountSync.Element.Basic
  ─────────────────────────
  **ELEMENTS.**

  An element is an object type or an instance of one.  Instances carry values and
  annotations; one annotation lists the instances that an instance belongs to.

      Instance.withParent    — one more parent, after those already listed
      Instance.parents       — the parents in order
      Instance.reference     — a reference to the instance that carries its values
      Instance.placeholder   — stands for an identifier that matched nothing
-/
import AccountSync.Schema.Basic

namespace AccountSync

/-- An instance of an object type. -/
structure Instance where
  id : ElementId
  type : ElementId
  value : Fields := []
  annotations : Fields := []

/-- An object type or an instance. -/
inductive Element where
  | object (o : ObjectType)
  | inst (i : Instance)

namespace Instance

/-- The annotation that lists the parents of an instance. -/
def parentKey : String := "_parent"

/-- The instance of the given name and type. -/
def named (name : String) (type : ElementId) (value : Fields) : Instance :=
  { id := .ofInstance type.adapter type.typeName name, type, value }

/-- The name of the instance's type. -/
def typeName (i : Instance) : String :=
  i.type.typeName

/-- The value of a field. -/
def get? (i : Instance) (field : String) : Option Value :=
  Dict.get? i.value field

/-- The instance with another value of a field. -/
def set (i : Instance) (field : String) (v : Value) : Instance :=
  { i with value := Dict.insert i.value field v }

/-- The instance with an annotation. -/
def annotate (i : Instance) (name : String) (v : Value) : Instance :=
  { i with annotations := Dict.insert i.annotations name v }

/-- The references among values, in order. -/
def referencesIn (items : List Value) : List Reference :=
  items.filterMap Value.reference?

/-- The parents that an annotation value lists: the references of a list, or the one
reference that it is. -/
def parentsOf : Option Value → List Reference
  | some (.list items) => referencesIn items
  | some (.reference r) => [r]
  | _ => []

/-- The parents of an instance in order. -/
def parents (i : Instance) : List Reference :=
  parentsOf (Dict.get? i.annotations parentKey)

/-- The instance with one more parent.  An annotation that is no list is replaced. -/
def withParent (i : Instance) (parent : Reference) : Instance :=
  let listed := match Dict.get? i.annotations parentKey with
    | some (.list items) => items
    | _ => []
  i.annotate parentKey (.list (listed ++ [.reference parent]))

/-- A reference to the instance that carries its values. -/
def reference (i : Instance) : Reference :=
  .to i.id (some (.map i.value))

/-- A character that may stand in the name of an instance. -/
def nameChar (c : Char) : Char :=
  if c.isAlphanum || c = '_' || c = '-' then c else '_'

/-- A text made usable as the name of an instance: letters and digits of ASCII, underscores
and hyphens stay. -/
def sanitize (raw : String) : String :=
  String.ofList (raw.toList.map nameChar)

/-- The instance that stands for an identifier that matched nothing. -/
def placeholder (adapter typeName raw : String) : Instance :=
  named (Reference.placeholderStem ++ sanitize raw) (.ofType adapter typeName)
    [("id", .string raw)]

end Instance

namespace Element

/-- The identifier of an element. -/
def id : Element → ElementId
  | .object o => o.id
  | .inst i => i.id

/-- The instance, if the element is one. -/
def instance? : Element → Option Instance
  | .inst i => some i
  | .object _ => none

/-- The object type, if the element is one. -/
def object? : Element → Option ObjectType
  | .object o => some o
  | .inst _ => none

/-- Whether the element is an instance. -/
def isInstance (e : Element) : Bool :=
  e.instance?.isSome

/-- The instances among elements, in order. -/
def instances (elements : List Element) : List Instance :=
  elements.filterMap instance?

/-- The instances of a type among elements, in order. -/
def instancesOf (elements : List Element) (typeName : String) : List Instance :=
  (instances elements).filter (fun i => i.typeName = typeName)

/-- The elements with every instance replaced. -/
def mapInstances (f : Instance → Instance) (elements : List Element) : List Element :=
  elements.map fun
    | .inst i => .inst (f i)
    | e => e

end Element

end AccountSync
