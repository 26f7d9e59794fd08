/-
  AccountSync.Validation.ExternalSource
  ─────────────────────────────────────
  **INSTANCES THAT BELONG TO AN EXTERNAL APP.**

  An app installs and removes its instances itself, and some of their fields are
  locked.  Other modifications are allowed, with a warning.
-/
import AccountSync.Change.Difference
import AccountSync.Validation.Basic

namespace AccountSync

namespace ExternalSource

/-- The field that says where an instance comes from. -/
def sourceField : String := "external_source"

/-- The field with the secret that the app signs with. -/
def secretField : String := "signing_secret"

/-- Whether an instance belongs to an app. -/
def isExternal (i : Instance) : Bool :=
  ((i.get? sourceField).filter (fun v => !v.isNull)).isSome

/-- The name of the app as it stands in messages, if the instance refers to it. -/
def appName (i : Instance) : String :=
  match ((i.get? sourceField).bind
      (fun source => source.getPath? ["data", "installation_id"])).bind Value.reference? with
  | some r => " '" ++ r.id.name ++ "'"
  | none => ""

/-- The error about an addition. -/
def additionFault (i : Instance) : Diagnostic :=
  (Diagnostic.error i.id
    "Installation of an instance that was installed by an external app").withDetail
    ("This " ++ i.typeName ++ " was installed by the external app" ++ appName i
      ++ ". In order to add it, please install that app.")

/-- The error about a removal. -/
def removalFault (i : Instance) : Diagnostic :=
  (Diagnostic.error i.id
    "Removal of an instance that was installed by an external app").withDetail
    ("This " ++ i.typeName ++ " was installed by the external app" ++ appName i
      ++ ". In order to remove it, please uninstall that app.")

/-- The error about a modification of a locked field. -/
def lockedFault (i : Instance) : Diagnostic :=
  (Diagnostic.error i.id "Illegal modification").withDetail
    ("Cannot modify '" ++ sourceField ++ "' or '" ++ secretField ++ "' fields of a " ++ i.typeName)

/-- The warning about a deactivation. -/
def deactivationWarning (i : Instance) : Diagnostic :=
  (Diagnostic.warning i.id
    "Deactivation of an instance that was installed by an external app").withDetail
    ("If you deactivate this instance, the app that created it might not work as intended. "
      ++ "You'll need to reactivate it to use it again.")

/-- The warning about any other modification. -/
def modificationWarning (i : Instance) : Diagnostic :=
  (Diagnostic.warning i.id
    "Change of an instance that was installed by an external app").withDetail
    "If you edit this instance, the app that created it might not work as intended."

/-- Whether a difference lies in a locked field. -/
def isLocked (d : Difference) : Bool :=
  d.path.any (fun part => part = sourceField || part = secretField)

/-- Whether a difference is that of an instance that is deactivated. -/
def isDeactivation (d : Difference) : Bool :=
  d.id.name = "status" &&
    match d.change with
    | .modification before after =>
      before.string? = some "active" && after.string? = some "inactive"
    | _ => false

/-- What is said about the differences of a modified instance. -/
def checkDifferences (i : Instance) (differences : List Difference) : List Diagnostic :=
  if differences.any isLocked then [lockedFault i]
  else
    let deactivated := differences.any isDeactivation
    (if deactivated then [deactivationWarning i] else [])
      ++ (if !deactivated || 1 < differences.length then [modificationWarning i] else [])

/-- What is said about a change of an instance that belongs to an app. -/
def checkChange : InstanceChange → List Diagnostic
  | .addition after => [additionFault after]
  | .removal before => [removalFault before]
  | .modification before after =>
    checkDifferences after (Difference.ofInstances before after)

/-- What is said about changes of the given types. -/
def check (types : List String) (changes : List InstanceChange) : List Diagnostic :=
  (changes.filter (fun c => types.contains c.typeName && isExternal c.data)).flatMap checkChange

end ExternalSource

/-- Keeps instances of external apps as they are. -/
def Validator.externalSource (types : List String) : Validator where
  name := "external_source"
  check _ changes := ExternalSource.check types changes

end AccountSync
