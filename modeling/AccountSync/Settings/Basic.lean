/-
  AccountSync.Settings.Basic
  ──────────────────────────
  **WHAT CAN BE CONFIGURED.**

  Settings say which account is spoken to and how, what is fetched, which requests
  deploy which types, and the rules of the filters and of the checks before a
  deployment.
-/
import AccountSync.Dict
import AccountSync.Http.Basic
import AccountSync.Text.Split

namespace AccountSync

/-! ## The account -/

/-- How requests are authenticated. -/
inductive Credentials where
  | anonymous
  | basic (username : String) (password : Option String)
  | bearer (token : String)
deriving DecidableEq, Repr

/-- Which account is spoken to, and how. -/
structure ClientSettings where
  baseUrl : String
  credentials : Credentials := .anonymous
  timeoutSeconds : Nat := 30
  maxConcurrent : Nat := 10

/-- What is fetched. -/
structure FetchSettings where
  /-- Unknown identifiers become references to placeholders. -/
  placeholders : Bool := false
  guideEnabled : Bool := true
  /-- The types that are fetched; all, if none is named. -/
  includedTypes : List String := []
  excludedTypes : List String := []

/-- Whether a type is fetched; naming it as excluded decides. -/
def FetchSettings.includes (s : FetchSettings) (typeName : String) : Bool :=
  !s.excludedTypes.contains typeName &&
    (s.includedTypes.isEmpty || s.includedTypes.contains typeName)

/-- How users are treated that the account does not have. -/
structure DeploySettings where
  missingUserFallback : Option String := none

/-- The fallback that stands for the user who deploys. -/
def DeploySettings.deployer : String := "##DEPLOYER##"

/-! ## Requests per type -/

/-- A request that deploys a change; fields of the instance are filled into its url. -/
structure Endpoint where
  url : String
  method : HttpMethod
deriving DecidableEq, Repr

/-- How instances of a type are deployed. -/
structure TypeEndpoints where
  add : Option Endpoint := none
  modify : Option Endpoint := none
  remove : Option Endpoint := none
  /-- The field that holds the identifier in the account. -/
  idField : String := "id"
  /-- The body is sent as the one entry under this key. -/
  wrapper : Option String := none
  /-- Fields that are never sent. -/
  ignoredFields : List String := []

/-- The usual requests under the url of a collection: new items are posted to it, and each
item has a url of its own. -/
def TypeEndpoints.ofCollection (url : String) : TypeEndpoints :=
  let item := Text.trimEnd '/' url ++ "/" ++ Text.braced "id"
  { add := some ⟨url, .post⟩, modify := some ⟨item, .put⟩, remove := some ⟨item, .delete⟩ }

/-! ## Rules of filters -/

/-- A list whose order means nothing.  It is sorted by a key of its items, or by the items
themselves. -/
structure UnorderedListRule where
  typeName : String
  field : String
  sortBy : Option String := none

/-- A type whose instances list their children in order. -/
structure ChildOrderRule where
  parentType : String
  childType : String
  orderField : String
  parentIdField : String
  positionField : String := "position"
  createdAtField : String := "created_at"

/-- How links to a type start; the identifier of the target follows. -/
structure LinkRule where
  stem : String
  targetType : String

/-- A text whose links become references. -/
structure BodyTemplateRule where
  typeName : String
  field : String
  baseUrlType : Option String := none
  baseUrlField : String := "brand_url"
  links : List LinkRule := []

/-- A field with raw identifiers of instances, or also of users. -/
structure IdReferenceRule where
  typeName : String
  field : String
  targetType : String
  users : Bool := false

/-- The keys that lead to the identifiers. -/
def IdReferenceRule.path (r : IdReferenceRule) : List String :=
  Text.pieces '.' r.field

/-- A type whose instances are ordered below their parent by a request of its own. -/
structure OrderInstanceRule where
  parentType : String
  childType : String
  parentKeyField : String := "key"
  url : String
  positionField : String := "position"

/-- The name of the type of the instances that hold the order. -/
def OrderInstanceRule.orderType (r : OrderInstanceRule) : String :=
  r.childType ++ "_order"

/-- Locale fields that refer to language settings of the same brand. -/
structure LocaleRule where
  settingsType : String
  brandField : String := "brand"
  localeTypes : List String
  sourceLocaleTypes : List String := []

/-- The rules of the filters. -/
structure FilterSettings where
  unorderedLists : List UnorderedListRule := []
  removalLastTypes : List String := []
  childOrder : List ChildOrderRule := []
  bodyTemplates : List BodyTemplateRule := []
  idReferences : List IdReferenceRule := []
  usersUrl : String := "/api/v2/users"
  orderInstances : List OrderInstanceRule := []
  locales : List LocaleRule := []

/-! ## Rules of checks -/

/-- An action that an instance may list. -/
structure ActionMatch where
  listField : String := "actions"
  value : String

/-- A type that can only be deployed while a setting is on; with an action, only instances
that list it are concerned. -/
structure FeatureGateRule where
  typeName : String
  settingsType : String
  settingPath : String
  action : Option ActionMatch := none

/-- A type whose instances can only be removed while they have a certain status. -/
structure StatusRemovalRule where
  typeName : String
  statusField : String := "status"
  removableStatus : String

/-- The rules of the checks before a deployment. -/
structure ValidatorSettings where
  defaultProtectedTypes : List String := []
  externalSourceTypes : List String := []
  featureGates : List FeatureGateRule := []
  statusRemovals : List StatusRemovalRule := []

/-- All settings of an adapter. -/
structure Settings where
  adapter : String
  client : ClientSettings
  fetch : FetchSettings := {}
  deploy : DeploySettings := {}
  endpoints : Dict TypeEndpoints := []
  filters : FilterSettings := {}
  validators : ValidatorSettings := {}

/-- The settings of an account with defaults for everything else. -/
def Settings.ofAccount (adapter baseUrl : String) : Settings :=
  { adapter, client := { baseUrl } }

end AccountSync
