/-
  AccountSync.Validation.FeatureGate
  ──────────────────────────────────
  **TYPES THAT NEED A FEATURE OF THE ACCOUNT.**

  Instances of some types, or those that list a certain action, can only be deployed
  while a setting of the account is on.  If the setting cannot be read, everything
  passes.
-/
import AccountSync.Settings.Basic
import AccountSync.Validation.Basic

namespace AccountSync

namespace FeatureGate

/-- Whether an item is a certain action. -/
def isAction (action : ActionMatch) (item : Value) : Bool :=
  (item.get? "field").bind Value.string? = some action.value

/-- Whether an instance lists a certain action. -/
def hasAction (action : ActionMatch) (i : Instance) : Bool :=
  (((i.get? action.listField).bind Value.list?).getD []).any (isAction action)

/-- Whether a change needs the feature.  With an action, removals do not. -/
def needs (rule : FeatureGateRule) (c : InstanceChange) : Bool :=
  c.typeName = rule.typeName &&
    match rule.action with
    | some action => !c.isRemoval && hasAction action c.data
    | none => true

/-- The value at a path of keys with points between them. -/
def settingAt? (path : String) (i : Instance) : Option Value :=
  match Text.pieces '.' path with
  | [] => none
  | first :: rest => (i.get? first).bind (fun v => v.getPath? rest)

/-- The setting, if it can be read. -/
def setting? (adapter : String) (rule : FeatureGateRule) (source : ElementSource) :
    Option Bool := do
  let element ← source (.ofSettings adapter rule.settingsType)
  let settings ← element.instance?
  let v ← settingAt? rule.settingPath settings
  v.bool?

/-- The error about an instance that needs a feature that is off. -/
def fault (rule : FeatureGateRule) (i : Instance) : Diagnostic :=
  match rule.action with
  | some action =>
    (Diagnostic.error i.id
      "Cannot change this element since one of its action types is not supported").withDetail
      ("Action field '" ++ action.value ++ "' is not supported, please turn on "
        ++ rule.settingPath ++ " in your account settings")
  | none =>
    (Diagnostic.error i.id (rule.typeName ++ " is not enabled.")).withDetail
      ("Cannot deploy " ++ rule.typeName ++ " when it is not enabled in the account.")

/-- The errors about changes that need a feature that is off. -/
def check (adapter : String) (rule : FeatureGateRule) (source : ElementSource)
    (changes : List InstanceChange) : List Diagnostic :=
  if (setting? adapter rule source).getD true then []
  else (changes.filter (needs rule)).map (fun c => fault rule c.data)

end FeatureGate

/-- Keeps changes from being deployed that need a feature that is off. -/
def Validator.featureGate (adapter : String) (rule : FeatureGateRule) : Validator where
  name := "feature_gate"
  check source changes := FeatureGate.check adapter rule source changes

end AccountSync
