/-
  AccountSync.Lookup.Identifiers
  ──────────────────────────────
  **RAW IDENTIFIERS BECOME REFERENCES.**

  A rule names a field that holds raw identifiers of instances of a type, and says
  whether they may also be those of users.  An identifier of an instance becomes a
  reference to it, one of a user becomes the user's address; an unknown one stays, or
  becomes a reference to a placeholder.

      Identifiers.userTable   — what identifiers of users stand for
      Identifiers.resolved    — all elements, rule after rule
-/
import AccountSync.Lookup.Basic
import AccountSync.Settings.Basic
import AccountSync.Users.Basic
import AccountSync.Value.Leaves

namespace AccountSync.Identifiers

/-- The addresses of users by identifier. -/
def userTable (users : List User) : LookupTable :=
  users.foldl
    (fun t user => match user.id.keyText? with
      | some key => t.insert key (.literal (.string user.email))
      | none => t)
    { name := "users_by_id" }

/-- The instances of a type by identifier. -/
def instanceTable (typeName : String) (elements : List Element) : LookupTable :=
  LookupTable.ofInstances (typeName ++ "_by_id") (LookupTable.fieldKey? "id")
    (Element.instancesOf elements typeName)

/-- What decides about the identifiers that a rule names: instances first, then users. -/
def resolver (settings : Settings) (users : LookupTable) (rule : IdReferenceRule)
    (elements : List Element) : Resolver :=
  { adapter := settings.adapter
    placeholders := settings.fetch.placeholders
    tables := instanceTable rule.targetType elements :: if rule.users then [users] else [] }

/-- The value to store in place of an identifier.  References stay as they are, and so does
everything of which the resolver knows nothing. -/
def resolvedValue (r : Resolver) (targetType : String) (raw : Value) : Value :=
  match raw with
  | .reference _ => raw
  | _ =>
    match r.resolveValue? raw targetType with
    | none => raw
    | some (.unresolved _) => raw
    | some found => found.value

/-- The instance with every value that a path leads to replaced. -/
def mapAt (f : Value → Value) (path : List String) (i : Instance) : Instance :=
  match path with
  | [] => i
  | first :: rest => { i with value := Dict.modify i.value first (Value.mapLeavesAt f rest) }

/-- All elements with the identifiers that a rule names resolved. -/
def resolvedBy (settings : Settings) (users : LookupTable) (elements : List Element)
    (rule : IdReferenceRule) : List Element :=
  let r := resolver settings users rule elements
  Element.mapInstances
    (fun i =>
      if i.typeName = rule.typeName then mapAt (resolvedValue r rule.targetType) rule.path i
      else i)
    elements

/-- All elements with the identifiers that the rules name resolved, rule after rule. -/
def resolved (settings : Settings) (users : LookupTable) (elements : List Element) :
    List Element :=
  settings.filters.idReferences.foldl (resolvedBy settings users) elements

/-- The users that identifiers may stand for.  If the account does not list them,
identifiers of users stay as they are. -/
def usersOf {ω : Type} (settings : Settings) (client : Client ω) : StateM ω LookupTable :=
  if settings.filters.idReferences.any (fun rule => rule.users) then do
    match ← client.users settings.filters.usersUrl with
    | .ok users => pure (userTable users)
    | .error _ => pure (userTable [])
  else pure (userTable [])

end AccountSync.Identifiers
