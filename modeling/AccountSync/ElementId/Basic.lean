/-
  AccountSync.ElementId.Basic
  ───────────────────────────
  **IDENTIFIERS OF ELEMENTS AND OF VALUES INSIDE THEM.**

  An identifier names an object type of an adapter, or a place within the type's
  namespace: an instance or a value inside an instance, a field, an annotation.
  A place is a kind and a path.  The identifier of a type has no path at all, which
  is built into `Place`.

      ElementId.nest         — go further down; below a type this is an annotation
      ElementId.isTopLevel   — types, and instances with one name
      ElementId.topLevel     — the enclosing top-level element and the way down
      ElementId.isAncestorOf — one chain of segments strictly extends the other
-/

namespace AccountSync

/-- What a place within a type's namespace is. -/
inductive PlaceKind where
  | inst
  | field
  | attr
deriving DecidableEq, Repr

/-- A type itself, or a place within its namespace. -/
inductive Place where
  | type
  | within (kind : PlaceKind) (path : List String)
deriving DecidableEq, Repr

/-- The identifier of an element or of a value inside one. -/
structure ElementId where
  adapter : String
  typeName : String
  place : Place
deriving DecidableEq, Repr

/-- The word that marks the kind of a place inside a full name. -/
def PlaceKind.marker : PlaceKind → String
  | .inst => "instance"
  | .field => "field"
  | .attr => "attr"

/-- The kind that a marker stands for. -/
def PlaceKind.ofMarker? : String → Option PlaceKind
  | "instance" => some .inst
  | "field" => some .field
  | "attr" => some .attr
  | _ => none

/-- The path of a place; a type has none. -/
def Place.path : Place → List String
  | .type => []
  | .within _ path => path

/-- The name of what a place is. -/
def Place.name : Place → String
  | .type => "type"
  | .within kind _ => kind.marker

/-- The order of kinds: types, instances, fields, annotations. -/
def Place.rank : Place → Nat
  | .type => 0
  | .within .inst _ => 1
  | .within .field _ => 2
  | .within .attr _ => 3

namespace ElementId

/-- The name under which a type keeps its one settings instance. -/
def settingsName : String := "_config"

/-! ## Building identifiers -/

/-- The identifier of an object type. -/
def ofType (adapter typeName : String) : ElementId :=
  ⟨adapter, typeName, .type⟩

/-- The identifier of a named instance. -/
def ofInstance (adapter typeName name : String) : ElementId :=
  ⟨adapter, typeName, .within .inst [name]⟩

/-- The identifier of a field. -/
def ofField (adapter typeName name : String) : ElementId :=
  ⟨adapter, typeName, .within .field [name]⟩

/-- The identifier of the settings instance of a type. -/
def ofSettings (adapter typeName : String) : ElementId :=
  ofInstance adapter typeName settingsName

/-- The identifier of something further down; below a type this is an annotation. -/
def nest (id : ElementId) (parts : List String) : ElementId :=
  { id with
    place := match id.place with
      | .type => .within .attr parts
      | .within kind path => .within kind (path ++ parts) }

/-! ## Reading identifiers -/

/-- The path of the identifier within its type's namespace. -/
def path (id : ElementId) : List String :=
  id.place.path

/-- The last component of the path, or the type's name. -/
def name (id : ElementId) : String :=
  id.path.getLast?.getD id.typeName

/-- Whether the identifier is that of a type. -/
def isType (id : ElementId) : Bool :=
  id.place = .type

/-- Whether the identifier points at an element rather than inside one. -/
def isTopLevel (id : ElementId) : Bool :=
  match id.place with
  | .type => true
  | .within .inst [_] => true
  | .within _ _ => false

/-- Whether the identifier points at a settings instance or into one. -/
def isSettings (id : ElementId) : Bool :=
  match id.place with
  | .within .inst (first :: _) => first = settingsName
  | _ => false

/-- The enclosing top-level element, and the path from there. -/
def topLevel (id : ElementId) : ElementId × List String :=
  match id.place with
  | .within .inst (first :: rest) => (ofInstance id.adapter id.typeName first, rest)
  | .within .inst [] => (ofInstance id.adapter id.typeName "", [])
  | .within _ path => (ofType id.adapter id.typeName, path)
  | .type => (ofType id.adapter id.typeName, [])

/-- The components of the full name. -/
def segments (id : ElementId) : List String :=
  match id.place with
  | .type => [id.adapter, id.typeName]
  | .within kind path => id.adapter :: id.typeName :: kind.marker :: path

/-- Whether `other` lies strictly below the identifier. -/
def isAncestorOf (id other : ElementId) : Bool :=
  id.segments.isPrefixOf other.segments && decide (id.segments.length < other.segments.length)

/-- The order of identifiers: adapter, type, kind, path. -/
def order (a b : ElementId) : Ordering :=
  (compare a.adapter b.adapter).then <|
    (compare a.typeName b.typeName).then <|
      (compare a.place.rank b.place.rank).then <|
        compare a.path b.path

end ElementId

end AccountSync
