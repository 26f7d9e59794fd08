/-
  AccountSync.Element.Wire
  ────────────────────────
  **THE SERIALIZED FORM OF ELEMENTS AND CHANGES.**

  The entry `kind` of an element says whether it is an object type or an instance.  A
  change is its action and, under `data`, its snapshots.

      Instance.encode, decode         — instances
      Element.encode, decode          — elements
      InstanceChange.encode, decode   — changes of instances
-/
import AccountSync.Change.Basic
import AccountSync.Schema.Wire

namespace AccountSync

namespace Instance

/-- The entries of a serialized instance. -/
def encodeEntries (i : Instance) : List (String × Json) :=
  [("elem_id", .string i.id.fullName), ("ref_type", .string i.type.fullName),
    ("value", Fields.encode i.value)]
    ++ Dict.encodeUnlessEmpty "annotations" i.annotations Fields.encode

/-- A serialized instance. -/
def encode (i : Instance) : Json :=
  Json.ofEntries i.encodeEntries

/-- The instance that is serialized so. -/
def decode (j : Json) : Option Instance := do
  let fields ← j.recordFields? ["elem_id", "ref_type", "value", "annotations"]
  let id ← (Dict.get? fields "elem_id").bind ElementId.decode
  let type ← (Dict.get? fields "ref_type").bind ElementId.decode
  let value ← Dict.decodeOr fields "value" [] Fields.decode?
  let annotations ← Dict.decodeOr fields "annotations" [] Fields.decode?
  pure { id, type, value, annotations }

/-- Equality of instances. -/
def same (a b : Instance) : Bool :=
  a.id = b.id && a.type = b.type && Value.sameEntries a.value b.value
    && Value.sameEntries a.annotations b.annotations

end Instance

/-- Equality of fields. -/
def Field.same (a b : Field) : Bool :=
  a.name = b.name && a.parent = b.parent && a.type = b.type
    && Value.sameEntries a.annotations b.annotations

/-- Equality of object types. -/
def ObjectType.same (a b : ObjectType) : Bool :=
  a.id = b.id && a.annotationTypes = b.annotationTypes
    && a.fields.length = b.fields.length
    && (a.fields.zip b.fields).all (fun (f, g) => f.1 = g.1 && f.2.same g.2)
    && Value.sameEntries a.annotations b.annotations

namespace Element

/-- A serialized element. -/
def encode : Element → Json
  | .object o => Json.ofEntries (("kind", .string "object") :: o.encodeEntries)
  | .inst i => Json.ofEntries (("kind", .string "instance") :: i.encodeEntries)

/-- The element of a kind that is serialized so. -/
def decodeAs (kind : String) (content : Json) : Option Element :=
  if kind = "object" then (ObjectType.decode content).map .object
  else if kind = "instance" then (Instance.decode content).map .inst
  else none

/-- The element that is serialized so; written positionally, the kind comes first. -/
def decode : Json → Option Element
  | .object entries =>
    match Dict.get? entries "kind" with
    | some (.string kind) => decodeAs kind (.object (Dict.erase entries "kind"))
    | _ => none
  | .array (.string kind :: items) => decodeAs kind (.array items)
  | _ => none

/-- Equality of elements. -/
def same : Element → Element → Bool
  | .object a, .object b => a.same b
  | .inst a, .inst b => a.same b
  | _, _ => false

end Element

namespace Change

variable {α : Type}

/-- A serialized change, where `f` serializes a snapshot. -/
def encodeWith (f : α → Json) (c : Change α) : Json :=
  let snapshot (key : String) : Option α → List (String × Json)
    | some a => [(key, f a)]
    | none => []
  Json.ofEntries
    [("action", .string c.action.name),
      ("data", Json.ofEntries (snapshot "before" c.before? ++ snapshot "after" c.after?))]

/-- The change with the given action whose snapshots, each under its key, are serialized so. -/
def decodeAs (f : Json → Option α) (action : String) (data : Json) : Option (Change α) := do
  let snapshot (key : String) : Option α := data.object?.bind (fun d => (Dict.get? d key).bind f)
  if action = "add" then (snapshot "after").map .addition
  else if action = "remove" then (snapshot "before").map .removal
  else if action = "modify" then pure (.modification (← snapshot "before") (← snapshot "after"))
  else none

/-- The change that is serialized so, where `f` reads a snapshot; written positionally, the
action comes first. -/
def decodeWith (f : Json → Option α) : Json → Option (Change α)
  | .object entries => do
    let action ← (Dict.get? entries "action").bind Json.variant?
    decodeAs f action (← Dict.get? entries "data")
  | .array [.string action, data] => decodeAs f action data
  | _ => none

end Change

/-- A serialized change of an instance. -/
def InstanceChange.encode (c : InstanceChange) : Json :=
  Change.encodeWith Instance.encode c

/-- The change of an instance that is serialized so. -/
def InstanceChange.decode (j : Json) : Option InstanceChange :=
  Change.decodeWith Instance.decode j

end AccountSync
