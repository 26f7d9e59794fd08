/-
  AccountSync.Schema.Basic
  ────────────────────────
  **DECLARED TYPES.**

  An object type declares the types of its fields and of its own annotations.  Types
  refer to each other by full name, so they may be recursive; the registry says what
  a name stands for.

      FieldType.describe   — how a type is named in messages
      Registry.register    — declare a type, replacing an earlier one of that name
      Registry.find?       — the object type of a name
-/
import AccountSync.ElementId.FullName
import AccountSync.Value.Basic

namespace AccountSync

/-- Kinds of scalars.  Anything may stand where the kind is unknown. -/
inductive Primitive where
  | string
  | number
  | boolean
  | unknown
deriving DecidableEq, Repr

/-- The declared type of a field or of an annotation. -/
inductive FieldType where
  | primitive (kind : Primitive)
  | list (item : FieldType)
  | map (value : FieldType)
  | object (name : String)
deriving DecidableEq, Repr

/-- The name of a kind of scalars. -/
def Primitive.name : Primitive → String
  | .string => "string"
  | .number => "number"
  | .boolean => "boolean"
  | .unknown => "unknown"

namespace FieldType

/-- How the type is named in messages. -/
def describe : FieldType → String
  | .primitive kind => kind.name
  | .list item => "list<" ++ item.describe ++ ">"
  | .map value => "map<" ++ value.describe ++ ">"
  | .object name => name

/-- Whether the type is a list type. -/
def isList : FieldType → Bool
  | .list _ => true
  | _ => false

/-- How many list types stand inside each other, also with map types between them. -/
def listNesting : FieldType → Nat
  | .list item => item.listNesting + 1
  | .map value => value.listNesting
  | _ => 0

end FieldType

/-- A field of an object type. -/
structure Field where
  name : String
  parent : ElementId
  type : FieldType
  annotations : Fields := []

/-- The identifier of a field. -/
def Field.id (f : Field) : ElementId :=
  .ofField f.parent.adapter f.parent.typeName f.name

/-- An object type. -/
structure ObjectType where
  id : ElementId
  fields : Dict Field := []
  annotationTypes : Dict FieldType := []
  annotations : Fields := []

namespace ObjectType

/-- The type with one more field. -/
def withField (o : ObjectType) (name : String) (type : FieldType) : ObjectType :=
  { o with fields := Dict.insert o.fields name ⟨name, o.id, type, []⟩ }

/-- The type with one more annotation. -/
def annotate (o : ObjectType) (name : String) (value : Value) : ObjectType :=
  { o with annotations := Dict.insert o.annotations name value }

/-- The field of the given name. -/
def field? (o : ObjectType) (name : String) : Option Field :=
  Dict.get? o.fields name

end ObjectType

/-- Object types by full name. -/
abbrev Registry := Dict ObjectType

namespace Registry

/-- Declares a type; an earlier one of that name is replaced. -/
def register (r : Registry) (o : ObjectType) : Registry :=
  Dict.insert r o.id.fullName o

/-- The registry of the given types, declared in order. -/
def ofTypes (types : List ObjectType) : Registry :=
  types.foldl register []

/-- The object type of a name. -/
def find? (r : Registry) (name : String) : Option ObjectType :=
  Dict.get? r name

/-- The object type that a type names, if it is the type of an object. -/
def resolve? (r : Registry) : FieldType → Option ObjectType
  | .object name => r.find? name
  | _ => none

end Registry

end AccountSync
