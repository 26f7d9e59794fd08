/-
  AccountSync.Validation.Removal
  ──────────────────────────────
  **INSTANCES THAT CANNOT BE REMOVED.**

      Validator.defaultRemoval   — the default instance of a type stays
      Validator.statusRemoval    — instances of a type can be removed only while they
                                   have a certain status
-/
import AccountSync.Settings.Basic
import AccountSync.Validation.Basic

namespace AccountSync

namespace DefaultRemoval

/-- Whether an instance is the default one of its type. -/
def isDefault (i : Instance) : Bool :=
  (i.get? "default").bind Value.bool? = some true

/-- How an instance is called in messages. -/
def label (i : Instance) : String :=
  ((i.get? "name").bind Value.string?).getD i.id.name

/-- The error about the removal of a default instance. -/
def fault (i : Instance) : Diagnostic :=
  (Diagnostic.error i.id ("Default " ++ i.typeName ++ " cannot be deleted")).withDetail
    (i.typeName ++ " " ++ label i ++ " is marked as default and therefore cannot be deleted")

/-- The errors about the removal of default instances of the given types. -/
def check (types : List String) (changes : List InstanceChange) : List Diagnostic :=
  ((removedInstances changes).filter
    (fun i => types.contains i.typeName && isDefault i)).map fault

end DefaultRemoval

namespace StatusRemoval

/-- The rule about a type; the first one counts. -/
def ruleFor? (rules : List StatusRemovalRule) (typeName : String) : Option StatusRemovalRule :=
  rules.find? (fun rule => rule.typeName = typeName)

/-- The status of an instance. -/
def status? (rule : StatusRemovalRule) (i : Instance) : Option String :=
  (i.get? rule.statusField).bind Value.string?

/-- The error about the removal of an instance in another status. -/
def fault (rule : StatusRemovalRule) (i : Instance) : Diagnostic :=
  (Diagnostic.error i.id
    ("Cannot delete " ++ rule.typeName ++ " that is not in '" ++ rule.removableStatus
      ++ "' status")).withDetail
    ("Cannot delete " ++ rule.typeName ++ " that is not in '" ++ rule.removableStatus
      ++ "' state. Name: " ++ i.id.fullName ++ ", status: " ++ (status? rule i).getD "unknown")

/-- The error about the removal of an instance, if its status forbids it. -/
def fault? (rules : List StatusRemovalRule) (i : Instance) : Option Diagnostic :=
  match ruleFor? rules i.typeName with
  | none => none
  | some rule =>
    if status? rule i = some rule.removableStatus then none else some (fault rule i)

/-- The errors about removals that the status of an instance forbids. -/
def check (rules : List StatusRemovalRule) (changes : List InstanceChange) : List Diagnostic :=
  (removedInstances changes).filterMap (fault? rules)

end StatusRemoval

namespace Validator

/-- Keeps default instances from being removed. -/
def defaultRemoval (types : List String) : Validator where
  name := "default_removal"
  check _ changes := DefaultRemoval.check types changes

/-- Keeps instances from being removed in the wrong status. -/
def statusRemoval (rules : List StatusRemovalRule) : Validator where
  name := "status_removal"
  check _ changes := StatusRemoval.check rules changes

end Validator

end AccountSync
