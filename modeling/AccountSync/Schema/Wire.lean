/-
  AccountSync.Schema.Wire
  ───────────────────────
  **THE SERIALIZED FORM OF TYPES.**

  A type is an object with one key that says what kind of type it is.  Annotations and
  their types are left out where there are none.

      FieldType.encode, decode    — types
      Field.encode, decode        — fields
      ObjectType.encode, decode   — object types
-/
import AccountSync.Schema.Basic
import AccountSync.Value.Wire

namespace AccountSync

/-- The kind of scalars of a name. -/
def Primitive.ofName? : String → Option Primitive
  | "string" => some .string
  | "number" => some .number
  | "boolean" => some .boolean
  | "unknown" => some .unknown
  | _ => none

namespace FieldType

/-- A serialized type. -/
def encode : FieldType → Json
  | .primitive kind => .object [("primitive", .string kind.name)]
  | .list item => .object [("list", item.encode)]
  | .map value => .object [("map", value.encode)]
  | .object name => .object [("object", .string name)]

/-- The type that is serialized so, where `isNothing` says what counts as no content. -/
def decodeWith (isNothing : Json → Bool) : Json → Option FieldType
  | .object [(key, content)] =>
    if key = "primitive" then
      (content.caseName? isNothing).bind (fun s => (Primitive.ofName? s).map .primitive)
    else if key = "list" then (decodeWith isNothing content).map .list
    else if key = "map" then (decodeWith isNothing content).map .map
    else if key = "object" then content.string?.map .object
    else none
  | _ => none

/-- The type that is serialized so, on its own. -/
def decode (j : Json) : Option FieldType :=
  decodeWith Json.isNull j

/-- The type that is serialized so, inside of an element. -/
def decodeInside (j : Json) : Option FieldType :=
  decodeWith Json.isVoid j

end FieldType

/-- The identifier that a serialized full name stands for. -/
def ElementId.decode (j : Json) : Option ElementId :=
  j.string?.bind ElementId.parse?

/-- The fields of an element that are serialized so, if they are well formed. -/
def Fields.decode? (j : Json) : Option Fields :=
  (Fields.decode j).toOption

/-- Entries that are read one by one with `f`. -/
def Dict.decodeWith {α : Type} (f : Json → Option α) (j : Json) : Option (Dict α) :=
  j.object?.bind (fun entries => entries.mapM (fun e => (f e.2).map (fun v => (e.1, v))))

/-- What is serialized under a key, or a default when the key is absent. -/
def Dict.decodeOr {α : Type} (fields : Dict Json) (key : String) (default : α)
    (f : Json → Option α) : Option α :=
  match Dict.get? fields key with
  | some j => f j
  | none => some default

/-- A serialized entry, left out when there is nothing in it. -/
def Dict.encodeUnlessEmpty {α : Type} (key : String) (entries : Dict α) (f : Dict α → Json) :
    List (String × Json) :=
  if entries.isEmpty then [] else [(key, f entries)]

namespace Field

/-- A serialized field. -/
def encode (f : Field) : Json :=
  Json.ofEntries
    ([("name", .string f.name), ("parent", .string f.parent.fullName), ("type_ref", f.type.encode)]
      ++ Dict.encodeUnlessEmpty "annotations" f.annotations Fields.encode)

/-- The field that is serialized so. -/
def decode (j : Json) : Option Field := do
  let fields ← j.recordFields? ["name", "parent", "type_ref", "annotations"]
  let name ← (Dict.get? fields "name").bind Json.string?
  let parent ← (Dict.get? fields "parent").bind ElementId.decode
  let type ← (Dict.get? fields "type_ref").bind FieldType.decodeInside
  let annotations ← Dict.decodeOr fields "annotations" [] Fields.decode?
  pure { name, parent, type, annotations }

end Field

namespace ObjectType

/-- The entries of a serialized object type. -/
def encodeEntries (o : ObjectType) : List (String × Json) :=
  [("elem_id", .string o.id.fullName), ("fields", .object (Dict.mapValues Field.encode o.fields))]
    ++ Dict.encodeUnlessEmpty "annotation_ref_types" o.annotationTypes
      (fun types => .object (Dict.mapValues FieldType.encode types))
    ++ Dict.encodeUnlessEmpty "annotations" o.annotations Fields.encode

/-- A serialized object type. -/
def encode (o : ObjectType) : Json :=
  Json.ofEntries o.encodeEntries

/-- The object type that is serialized so. -/
def decode (j : Json) : Option ObjectType := do
  let fields ← j.recordFields? ["elem_id", "fields", "annotation_ref_types", "annotations"]
  let id ← (Dict.get? fields "elem_id").bind ElementId.decode
  let declared ← Dict.decodeOr fields "fields" [] (Dict.decodeWith Field.decode)
  let annotationTypes ←
    Dict.decodeOr fields "annotation_ref_types" [] (Dict.decodeWith FieldType.decodeInside)
  let annotations ← Dict.decodeOr fields "annotations" [] Fields.decode?
  pure { id, fields := declared, annotationTypes, annotations }

end ObjectType

end AccountSync
