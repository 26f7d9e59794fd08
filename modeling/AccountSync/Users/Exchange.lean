/-
  AccountSync.Users.Exchange
  ──────────────────────────
  **ADDRESSES ARE EXCHANGED FOR IDENTIFIERS WHILE CHANGES ARE DEPLOYED.**

  Changes name users by address.  Before they are deployed, the addresses are
  replaced by the identifiers that the users have in the account; afterwards the
  fields that were touched get their earlier values back.

      Exchange.apply     — addresses become identifiers; what was there is kept
      Exchange.restore   — what was there comes back

  Removals stay as they are, and so does the snapshot from before of a modification.
-/
import AccountSync.Change.Basic
import AccountSync.Settings.Basic
import AccountSync.Users.Basic
import AccountSync.Value.Leaves

namespace AccountSync

/-- The identifiers of users by address, and the one that stands in for unknown users. -/
structure UserIds where
  known : Dict Value
  fallback : Option Value := none

namespace UserIds

/-- The identifier for an address. -/
def find? (ids : UserIds) (email : String) : Option Value :=
  match Dict.get? ids.known email with
  | some id => some id
  | none => ids.fallback

/-- Whether a value is an address that has an identifier. -/
def covers (ids : UserIds) : Value → Bool
  | .string email => (ids.find? email).isSome
  | _ => false

/-- An address becomes its identifier; everything else stays. -/
def replace (ids : UserIds) : Value → Value
  | .string email => (ids.find? email).getD (.string email)
  | v => v

/-- The identifiers of users by address; of two users with one address the later counts. -/
def ofUsers (users : List User) : Dict Value :=
  Dict.ofList (users.map (fun user => (user.email, user.id)))

end UserIds

/-- Fields as they were before addresses in them were replaced, in the order in which that
happened. -/
abbrev SavedFields := List (String × Value)

namespace Exchange

/-- The rules about fields of a type that may hold addresses. -/
def rulesFor (rules : List IdReferenceRule) (typeName : String) : List IdReferenceRule :=
  rules.filter (fun rule => rule.users && rule.typeName = typeName)

/-- Whether a change may hold addresses that have to be replaced. -/
def concerns (rules : List IdReferenceRule) (c : InstanceChange) : Bool :=
  !c.isRemoval && !(rulesFor rules c.typeName).isEmpty

/-- Replaces the addresses that a path leads to.  A field without any stays as it is. -/
def applyAt (ids : UserIds) (path : List String) (i : Instance) : Instance × SavedFields :=
  match path with
  | [] => (i, [])
  | first :: rest =>
    match i.get? first with
    | none => (i, [])
    | some field =>
      if (field.leavesAt rest).any ids.covers then
        (i.set first (field.mapLeavesAt ids.replace rest), [(first, field)])
      else (i, [])

/-- Replaces the addresses that the paths of rules lead to, rule after rule. -/
def applyRules (ids : UserIds) : List IdReferenceRule → Instance → Instance × SavedFields
  | [], i => (i, [])
  | rule :: rest, i =>
    let (i, first) := applyAt ids rule.path i
    let (i, others) := applyRules ids rest i
    (i, first ++ others)

/-- Keeps the saved fields of an element, after those that were kept before. -/
def keep (kept : Dict SavedFields) (id : ElementId) (saved : SavedFields) : Dict SavedFields :=
  if saved.isEmpty then kept
  else Dict.insert kept id.fullName ((Dict.get? kept id.fullName).getD [] ++ saved)

/-- Replaces the addresses in changes and keeps the fields as they were. -/
def apply (rules : List IdReferenceRule) (ids : UserIds) :
    List InstanceChange → Dict SavedFields → List InstanceChange × Dict SavedFields
  | [], kept => ([], kept)
  | c :: rest, kept =>
    if c.isRemoval then
      let (rest, kept) := apply rules ids rest kept
      (c :: rest, kept)
    else
      let (i, saved) := applyRules ids (rulesFor rules c.typeName) c.data
      let (rest, kept) := apply rules ids rest (keep kept i.id saved)
      (c.setData i :: rest, kept)

/-- The instance with saved fields put back, the last one replaced first. -/
def putBack (saved : SavedFields) (i : Instance) : Instance :=
  saved.reverse.foldl (fun i field => i.set field.1 field.2) i

/-- Puts the saved fields of changes back; they are forgotten then. -/
def restore : List InstanceChange → Dict SavedFields → List InstanceChange × Dict SavedFields
  | [], kept => ([], kept)
  | c :: rest, kept =>
    match if c.isRemoval then none else Dict.get? kept c.id.fullName with
    | none =>
      let (rest, kept) := restore rest kept
      (c :: rest, kept)
    | some saved =>
      let (rest, kept) := restore rest (Dict.erase kept c.id.fullName)
      (c.setData (putBack saved c.data) :: rest, kept)

end Exchange

end AccountSync
