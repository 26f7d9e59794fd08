/-
  AccountSync.Settings.Decode
  ───────────────────────────
  **READING SETTINGS.**

  Settings are read from a document.  What has no default has to be there, and
  unknown fields are passed over.

      Settings.decode     — from a document
      Settings.ofJson?    — from data
      Settings.ofYaml?    — from a text, checked
-/
import AccountSync.Document.Content
import AccountSync.Settings.Check
import AccountSync.Yaml.Reader

namespace AccountSync

/-- A list of texts. -/
def Document.texts? : Document → Reading (List String) :=
  Document.items? Document.text?

namespace Credentials

/-- The credentials of the given kind; a case without fields takes anything that has none to
give. -/
def ofContent? (kind : String) (c : Content) : Option Credentials :=
  if kind = "none" then if c.isFieldless then some .anonymous else none
  else if kind = "basic" then do
    let r ← c.record? ["username", "password"]
    let username ← (← r.lookup "username").text?
    match r.lookup "password" with
    | some password => pure (.basic username (← password.optionalText?))
    | none => pure (.basic username none)
  else if kind = "bearer" then do
    let r ← c.record? ["token"]
    pure (.bearer (← (← r.lookup "token").text?))
  else none

/-- How deep what is inside of credentials may be nested: they are the third level of the
settings. -/
def maxDepth : Nat := Document.maxDepth - 3

/-- An entry of credentials: the kind, or a field as what it is on its own account. -/
def decodeEntry (entry : Document × Document) : Reading (String ⊕ (Content × Content)) := do
  match ← entry.1.content maxDepth with
  | .text "type" => return .inl (← entry.2.text?)
  | key => return .inr (key, ← entry.2.content maxDepth)

/-- Credentials whose kind is the first of these items. -/
def decodeItems : List Document → Reading Credentials
  | [] => failure
  | kind :: items => do
    let kind ← kind.text?
    let fields ← items.mapM (Document.content maxDepth)
    Reading.ofOption (ofContent? kind (.list fields))

/-- Credentials; the entry `type` says of which kind.  Which fields there are depends on it, so
that all fields are read on their own account first. -/
def decode (d : Document) : Reading Credentials := do
  match ← d.resolve with
  | .table tag entries =>
    if (Tag.localName? tag).isSome then failure
    else
      let parts ← entries.mapM decodeEntry
      match parts.filterMap Sum.getLeft? with
      | [kind] => Reading.ofOption (ofContent? kind (.table (parts.filterMap Sum.getRight?)))
      | _ => failure
  | .array items => decodeItems items
  | .list tag items => if (Tag.localName? tag).isSome then failure else decodeItems items
  | _ => failure

end Credentials

/-- The settings of a client. -/
def ClientSettings.decode (d : Document) : Reading ClientSettings := do
  let r ← d.record? ["base_url", "auth", "timeout_secs", "max_concurrent_requests"]
  pure {
    baseUrl := ← r.need "base_url" Document.text?
    credentials := ← r.orElse "auth" .anonymous Credentials.decode
    timeoutSeconds := ← r.orElse "timeout_secs" 30 Document.natural?
    maxConcurrent := ← r.orElse "max_concurrent_requests" 10 Document.natural? }

/-- The settings of a fetch. -/
def FetchSettings.decode (d : Document) : Reading FetchSettings := do
  let r ← d.record? ["enable_missing_references", "guide_enabled", "include_types", "exclude_types"]
  pure {
    placeholders := ← r.orElse "enable_missing_references" false Document.bool?
    guideEnabled := ← r.orElse "guide_enabled" true Document.bool?
    includedTypes := ← r.orElse "include_types" [] Document.texts?
    excludedTypes := ← r.orElse "exclude_types" [] Document.texts? }

/-- The settings of a deployment. -/
def DeploySettings.decode (d : Document) : Reading DeploySettings := do
  let r ← d.record? ["default_missing_user_fallback"]
  pure { missingUserFallback := ← r.optional "default_missing_user_fallback" Document.text? }

/-- A request. -/
def Endpoint.decode (d : Document) : Reading Endpoint := do
  let r ← d.record? ["url", "method"]
  let url ← r.need "url" Document.text?
  let method ← r.need "method" (fun d => do Reading.ofOption (HttpMethod.ofName? (← d.variant?)))
  pure ⟨url, method⟩

/-- The requests of a type. -/
def TypeEndpoints.decode (d : Document) : Reading TypeEndpoints := do
  let r ← d.record?
    ["add", "modify", "remove", "id_field", "deploy_as_field", "fields_to_ignore"]
  pure {
    add := ← r.optional "add" Endpoint.decode
    modify := ← r.optional "modify" Endpoint.decode
    remove := ← r.optional "remove" Endpoint.decode
    idField := ← r.orElse "id_field" "id" Document.text?
    wrapper := ← r.optional "deploy_as_field" Document.text?
    ignoredFields := ← r.orElse "fields_to_ignore" [] Document.texts? }

/-- The requests of all types. -/
def decodeEndpoints (d : Document) : Reading (Dict TypeEndpoints) := do
  let r ← d.record? ["types"]
  r.orElse "types" [] (Document.dict? TypeEndpoints.decode)

/-- A rule. -/
def UnorderedListRule.decode (d : Document) : Reading UnorderedListRule := do
  let r ← d.record? ["type_name", "field", "sort_by"]
  pure {
    typeName := ← r.need "type_name" Document.text?
    field := ← r.need "field" Document.text?
    sortBy := ← r.optional "sort_by" Document.text? }

/-- A rule. -/
def ChildOrderRule.decode (d : Document) : Reading ChildOrderRule := do
  let r ← d.record? ["parent_type", "child_type", "order_field", "parent_id_field",
    "position_field", "created_at_field"]
  pure {
    parentType := ← r.need "parent_type" Document.text?
    childType := ← r.need "child_type" Document.text?
    orderField := ← r.need "order_field" Document.text?
    parentIdField := ← r.need "parent_id_field" Document.text?
    positionField := ← r.orElse "position_field" "position" Document.text?
    createdAtField := ← r.orElse "created_at_field" "created_at" Document.text? }

/-- A rule. -/
def LinkRule.decode (d : Document) : Reading LinkRule := do
  let r ← d.record? ["prefix", "target_type"]
  pure {
    stem := ← r.need "prefix" Document.text?
    targetType := ← r.need "target_type" Document.text? }

/-- A rule. -/
def BodyTemplateRule.decode (d : Document) : Reading BodyTemplateRule := do
  let r ← d.record? ["type_name", "field", "base_url_type", "base_url_field", "links"]
  pure {
    typeName := ← r.need "type_name" Document.text?
    field := ← r.need "field" Document.text?
    baseUrlType := ← r.optional "base_url_type" Document.text?
    baseUrlField := ← r.orElse "base_url_field" "brand_url" Document.text?
    links := ← r.orElse "links" [] (Document.items? LinkRule.decode) }

/-- A rule. -/
def IdReferenceRule.decode (d : Document) : Reading IdReferenceRule := do
  let r ← d.record? ["type_name", "field", "target_type", "users"]
  pure {
    typeName := ← r.need "type_name" Document.text?
    field := ← r.need "field" Document.text?
    targetType := ← r.need "target_type" Document.text?
    users := ← r.orElse "users" false Document.bool? }

/-- A rule. -/
def OrderInstanceRule.decode (d : Document) : Reading OrderInstanceRule := do
  let r ← d.record? ["parent_type", "child_type", "parent_key_field", "url", "position_field"]
  pure {
    parentType := ← r.need "parent_type" Document.text?
    childType := ← r.need "child_type" Document.text?
    parentKeyField := ← r.orElse "parent_key_field" "key" Document.text?
    url := ← r.need "url" Document.text?
    positionField := ← r.orElse "position_field" "position" Document.text? }

/-- A rule. -/
def LocaleRule.decode (d : Document) : Reading LocaleRule := do
  let r ← d.record? ["settings_type", "brand_field", "locale_types", "source_locale_types"]
  pure {
    settingsType := ← r.need "settings_type" Document.text?
    brandField := ← r.orElse "brand_field" "brand" Document.text?
    localeTypes := ← r.need "locale_types" Document.texts?
    sourceLocaleTypes := ← r.orElse "source_locale_types" [] Document.texts? }

/-- The rules of the filters. -/
def FilterSettings.decode (d : Document) : Reading FilterSettings := do
  let r ← d.record? ["unordered_lists", "removal_last_types", "child_order", "body_templates",
    "id_references", "users_url", "order_instances", "locales"]
  pure {
    unorderedLists := ← r.orElse "unordered_lists" [] (Document.items? UnorderedListRule.decode)
    removalLastTypes := ← r.orElse "removal_last_types" [] Document.texts?
    childOrder := ← r.orElse "child_order" [] (Document.items? ChildOrderRule.decode)
    bodyTemplates := ← r.orElse "body_templates" [] (Document.items? BodyTemplateRule.decode)
    idReferences := ← r.orElse "id_references" [] (Document.items? IdReferenceRule.decode)
    usersUrl := ← r.orElse "users_url" "/api/v2/users" Document.text?
    orderInstances := ← r.orElse "order_instances" [] (Document.items? OrderInstanceRule.decode)
    locales := ← r.orElse "locales" [] (Document.items? LocaleRule.decode) }

/-- An action. -/
def ActionMatch.decode (d : Document) : Reading ActionMatch := do
  let r ← d.record? ["list_field", "value"]
  pure {
    listField := ← r.orElse "list_field" "actions" Document.text?
    value := ← r.need "value" Document.text? }

/-- A rule. -/
def FeatureGateRule.decode (d : Document) : Reading FeatureGateRule := do
  let r ← d.record? ["type_name", "settings_type", "setting_path", "action"]
  pure {
    typeName := ← r.need "type_name" Document.text?
    settingsType := ← r.need "settings_type" Document.text?
    settingPath := ← r.need "setting_path" Document.text?
    action := ← r.optional "action" ActionMatch.decode }

/-- A rule. -/
def StatusRemovalRule.decode (d : Document) : Reading StatusRemovalRule := do
  let r ← d.record? ["type_name", "status_field", "removable_status"]
  pure {
    typeName := ← r.need "type_name" Document.text?
    statusField := ← r.orElse "status_field" "status" Document.text?
    removableStatus := ← r.need "removable_status" Document.text? }

/-- The rules of the checks. -/
def ValidatorSettings.decode (d : Document) : Reading ValidatorSettings := do
  let r ← d.record?
    ["default_protected_types", "external_source_types", "feature_gates", "status_removals"]
  pure {
    defaultProtectedTypes := ← r.orElse "default_protected_types" [] Document.texts?
    externalSourceTypes := ← r.orElse "external_source_types" [] Document.texts?
    featureGates := ← r.orElse "feature_gates" [] (Document.items? FeatureGateRule.decode)
    statusRemovals := ← r.orElse "status_removals" [] (Document.items? StatusRemovalRule.decode) }

namespace Settings

/-- Settings from a document. -/
def decode (d : Document) : Reading Settings := do
  let r ← d.record?
    ["adapter", "client", "fetch", "deploy", "api_definitions", "filters", "validators"]
  pure {
    adapter := ← r.need "adapter" Document.text?
    client := ← r.need "client" ClientSettings.decode
    fetch := ← r.orElse "fetch" {} FetchSettings.decode
    deploy := ← r.orElse "deploy" {} DeploySettings.decode
    endpoints := ← r.orElse "api_definitions" [] decodeEndpoints
    filters := ← r.orElse "filters" {} FilterSettings.decode
    validators := ← r.orElse "validators" {} ValidatorSettings.decode }

/-- Settings from data, not checked. -/
def ofJson? (j : Json) : Option Settings :=
  j.readWith? decode

/-- Settings from a text, checked. -/
def ofYaml? (text : String) : Except Failure Settings :=
  match Yaml.read? decode text with
  | none => .error .malformedYaml
  | some s => s.check.map (fun _ => s)

/-- The failure when the file with the settings cannot be read, for the given reason. -/
def unreadable (path reason : String) : Failure :=
  .configuration ("Failed to read config file " ++ path ++ ": " ++ reason)

end Settings

end AccountSync
