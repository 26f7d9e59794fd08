/-
  AccountSync.Lookup.Basic
  ────────────────────────
  **FROM RAW IDENTIFIERS TO REFERENCES.**

  Fetched data names other objects by raw identifiers.  Lookup tables say what they
  stand for; the first table that knows an identifier decides.  An identifier that no
  table knows stays as it is, or becomes a reference to a placeholder instance.

      LookupTable.ofInstances   — instances under a key each, the last one wins
      Resolver.resolve          — what an identifier stands for
      Resolution.value          — the value to store for it
-/
import AccountSync.Element.Basic

namespace AccountSync

/-- What an identifier in a table stands for: an element, or some other value. -/
inductive LookupTarget where
  | element (r : Reference)
  | literal (v : Value)

/-- What a value in a table stands for: a reference for its element, others for themselves. -/
def LookupTarget.ofValue : Value → LookupTarget
  | .reference r => .element r
  | v => .literal v

/-- Identifiers and what they stand for. -/
structure LookupTable where
  name : String
  entries : Dict LookupTarget := []

namespace LookupTable

/-- The table with one more identifier; an earlier entry for it is replaced. -/
def insert (t : LookupTable) (key : String) (target : LookupTarget) : LookupTable :=
  { t with entries := Dict.insert t.entries key target }

/-- The table of instances under their keys.  Instances without a key are left out, and of
two with one key the last stays. -/
def ofInstances (name : String) (key? : Instance → Option String) (instances : List Instance) :
    LookupTable :=
  instances.foldl
    (fun t i => match key? i with
      | some key => t.insert key (.element i.reference)
      | none => t)
    { name }

/-- The text under which an instance is looked up by one of its fields. -/
def fieldKey? (field : String) (i : Instance) : Option String :=
  (i.get? field).bind Value.keyText?

/-- The text under which an instance is looked up by several of its fields together. -/
def fieldsKey? (fields : List String) (i : Instance) : Option String :=
  (fields.mapM (fun field => fieldKey? field i)).map (Text.intersperse "/")

/-- The entry of an identifier. -/
def find? (t : LookupTable) (raw : String) : Option LookupTarget :=
  Dict.get? t.entries raw

end LookupTable

/-- What came out of looking an identifier up. -/
inductive Resolution where
  /-- It stands for an element. -/
  | reference (r : Reference)
  /-- It stands for some other value. -/
  | literal (v : Value)
  /-- No table knows it; a placeholder stands for it. -/
  | missing (r : Reference)
  /-- No table knows it. -/
  | unresolved (raw : String)

namespace Resolution

/-- The value to store in place of the identifier. -/
def value : Resolution → Value
  | .reference r => .reference r
  | .literal v => v
  | .missing r => .reference r
  | .unresolved raw => .string raw

/-- The part of a template that stands for the identifier. -/
def part : Resolution → Part
  | .reference r => .reference r
  | .literal v => .literal (v.keyText?.getD "")
  | .missing r => .reference r
  | .unresolved raw => .literal raw

/-- The name of what came out. -/
def name : Resolution → String
  | .reference _ => "reference"
  | .literal _ => "literal"
  | .missing _ => "missing"
  | .unresolved _ => "unresolved"

/-- Whether a table knew the identifier. -/
def isMatch : Resolution → Bool
  | .reference _ => true
  | .literal _ => true
  | .missing _ => false
  | .unresolved _ => false

end Resolution

/-- Lookup tables in order of precedence.  With `placeholders`, unknown identifiers become
references to placeholder instances of the adapter. -/
structure Resolver where
  adapter : String
  placeholders : Bool
  tables : List LookupTable := []

namespace Resolver

/-- What an identifier stands for; `targetType` is the type of a placeholder. -/
def resolve (r : Resolver) (raw targetType : String) : Resolution :=
  match (r.tables.findSome? (fun t => t.find? raw) : Option LookupTarget) with
  | some (.element target) => .reference target
  | some (.literal v) => .literal v
  | none =>
    if r.placeholders then .missing (Instance.placeholder r.adapter targetType raw).reference
    else .unresolved raw

/-- What a scalar stands for; other values stand for nothing. -/
def resolveValue? (r : Resolver) (raw : Value) (targetType : String) : Option Resolution :=
  raw.keyText?.map (fun key => r.resolve key targetType)

end Resolver

end AccountSync
