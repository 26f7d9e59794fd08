/-
  AccountSync.Element.Dump
  ────────────────────────
  **A FORM OF ELEMENTS AND CHANGES THAT LEAVES NOTHING OUT.**

  Elements and changes are written with dumped values.  An object type has its
  identifier under `object`, an instance under `id`; a change has its snapshots under
  `add`, `remove` or `modify`.

      Element.dump, load          — elements
      InstanceChange.dump, load   — changes of instances
-/
import AccountSync.Change.Basic
import AccountSync.Schema.Wire
import AccountSync.Value.Dump

namespace AccountSync

namespace Json

/-- The text under a key. -/
def textAt (j : Json) (key : String) : Except Failure String :=
  match j.get? key with
  | some (.string text) => .ok text
  | _ => .error .malformedJson

/-- The identifier whose full name is under a key. -/
def idAt (j : Json) (key : String) : Except Failure ElementId :=
  j.textAt key >>= ElementId.load

/-- The dumped fields under a key that may be absent. -/
def fieldsAt (j : Json) (key : String) : Except Failure Fields :=
  match j.get? key with
  | some fields => Fields.load fields
  | none => .ok []

/-- The types under a key that may be absent. -/
def typesAt (j : Json) (key : String) : Except Failure (Dict FieldType) :=
  match j.get? key with
  | none => .ok []
  | some (.object entries) =>
    entries.mapM (fun e =>
      match FieldType.decode e.2 with
      | some type => .ok (e.1, type)
      | none => .error .malformedJson)
  | some _ => .error .malformedJson

end Json

namespace Instance

/-- A dumped instance. -/
def dump (i : Instance) : Json :=
  Json.ofEntries
    ([("id", .string i.id.fullName), ("type", .string i.type.fullName), ("value", i.value.dump)]
      ++ if i.annotations.isEmpty then [] else [("annotations", i.annotations.dump)])

/-- The instance that is dumped so.  Without a type it is of the type that its identifier
names. -/
def load (j : Json) : Except Failure Instance := do
  let id ← j.idAt "id"
  let type ← if (j.get? "type").isSome then j.idAt "type"
    else pure (ElementId.ofType id.adapter id.typeName)
  let value ← j.fieldsAt "value"
  let annotations ← j.fieldsAt "annotations"
  pure { id, type, value, annotations }

end Instance

namespace ObjectType

/-- A dumped object type. -/
def dump (o : ObjectType) : Json :=
  Json.ofEntries [("object", .string o.id.fullName),
    ("fields", .object (o.fields.map (fun f => (f.1, f.2.type.encode)))),
    ("annotation_types", .object (o.annotationTypes.map (fun t => (t.1, t.2.encode)))),
    ("annotations", o.annotations.dump)]

/-- The object type that is dumped so. -/
def load (j : Json) : Except Failure ObjectType := do
  let id ← j.idAt "object"
  let fields ← j.typesAt "fields"
  let annotationTypes ← j.typesAt "annotation_types"
  let annotations ← j.fieldsAt "annotations"
  let bare : ObjectType := { id, annotationTypes, annotations }
  pure (fields.foldl (fun o f => o.withField f.1 f.2) bare)

end ObjectType

namespace Element

/-- A dumped element. -/
def dump : Element → Json
  | .object o => o.dump
  | .inst i => i.dump

/-- The element that is dumped so. -/
def load (j : Json) : Except Failure Element :=
  if (j.get? "object").isSome then (ObjectType.load j).map .object
  else (Instance.load j).map .inst

end Element

namespace InstanceChange

/-- A dumped change. -/
def dump : InstanceChange → Json
  | .addition after => .object [("add", after.dump)]
  | .removal before => .object [("remove", before.dump)]
  | .modification before after => .object [("modify", .array [before.dump, after.dump])]

/-- The change that is dumped so. -/
def load : Json → Except Failure InstanceChange
  | .object [("add", after)] => (Instance.load after).map .addition
  | .object [("remove", before)] => (Instance.load before).map .removal
  | .object [("modify", .array [before, after])] => do
    let before ← Instance.load before
    let after ← Instance.load after
    pure (.modification before after)
  | _ => .error .malformedJson

end InstanceChange

end AccountSync
