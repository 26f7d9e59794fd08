/-
  AccountSync.Settings.Encode
  ───────────────────────────
  **WRITING SETTINGS.**

  Settings as data.  Empty lists of rules and absent options are left out; defaults
  are written.

      Settings.encode
-/
import AccountSync.Settings.Basic

namespace AccountSync

/-- Texts as data. -/
def encodeTexts (items : List String) : Json :=
  .array (items.map .string)

/-- An entry that is left out when it is absent. -/
def encodeOption {α : Type} (key : String) (value : Option α) (f : α → Json) :
    List (String × Json) :=
  match value with
  | some a => [(key, f a)]
  | none => []

/-- An entry that is left out when it is an empty list. -/
def encodeSome {α : Type} (key : String) (items : List α) (f : α → Json) :
    List (String × Json) :=
  if items.isEmpty then [] else [(key, .array (items.map f))]

/-- Credentials as data. -/
def Credentials.encode : Credentials → Json
  | .anonymous => Json.ofEntries [("type", .string "none")]
  | .basic username password =>
    Json.ofEntries ([("type", .string "basic"), ("username", .string username)]
      ++ encodeOption "password" password .string)
  | .bearer token => Json.ofEntries [("type", .string "bearer"), ("token", .string token)]

/-- The settings of a client as data. -/
def ClientSettings.encode (c : ClientSettings) : Json :=
  Json.ofEntries
    [("base_url", .string c.baseUrl), ("auth", c.credentials.encode),
      ("timeout_secs", .number (.int c.timeoutSeconds)),
      ("max_concurrent_requests", .number (.int c.maxConcurrent))]

/-- The settings of a fetch as data. -/
def FetchSettings.encode (s : FetchSettings) : Json :=
  Json.ofEntries
    ([("enable_missing_references", .bool s.placeholders), ("guide_enabled", .bool s.guideEnabled)]
      ++ encodeSome "include_types" s.includedTypes .string
      ++ encodeSome "exclude_types" s.excludedTypes .string)

/-- The settings of a deployment as data. -/
def DeploySettings.encode (s : DeploySettings) : Json :=
  Json.ofEntries (encodeOption "default_missing_user_fallback" s.missingUserFallback .string)

/-- A request as data. -/
def Endpoint.encode (e : Endpoint) : Json :=
  Json.ofEntries [("url", .string e.url), ("method", .string e.method.name)]

/-- The requests of a type as data. -/
def TypeEndpoints.encode (t : TypeEndpoints) : Json :=
  Json.ofEntries
    (encodeOption "add" t.add Endpoint.encode ++ encodeOption "modify" t.modify Endpoint.encode
      ++ encodeOption "remove" t.remove Endpoint.encode ++ [("id_field", .string t.idField)]
      ++ encodeOption "deploy_as_field" t.wrapper .string
      ++ encodeSome "fields_to_ignore" t.ignoredFields .string)

/-- A rule as data. -/
def UnorderedListRule.encode (r : UnorderedListRule) : Json :=
  Json.ofEntries ([("type_name", .string r.typeName), ("field", .string r.field)]
    ++ encodeOption "sort_by" r.sortBy .string)

/-- A rule as data. -/
def ChildOrderRule.encode (r : ChildOrderRule) : Json :=
  Json.ofEntries
    [("parent_type", .string r.parentType), ("child_type", .string r.childType),
      ("order_field", .string r.orderField), ("parent_id_field", .string r.parentIdField),
      ("position_field", .string r.positionField), ("created_at_field", .string r.createdAtField)]

/-- A rule as data. -/
def LinkRule.encode (r : LinkRule) : Json :=
  Json.ofEntries [("prefix", .string r.stem), ("target_type", .string r.targetType)]

/-- A rule as data. -/
def BodyTemplateRule.encode (r : BodyTemplateRule) : Json :=
  Json.ofEntries
    ([("type_name", .string r.typeName), ("field", .string r.field),
      ("base_url_field", .string r.baseUrlField), ("links", .array (r.links.map LinkRule.encode))]
      ++ encodeOption "base_url_type" r.baseUrlType .string)

/-- A rule as data. -/
def IdReferenceRule.encode (r : IdReferenceRule) : Json :=
  Json.ofEntries
    [("type_name", .string r.typeName), ("field", .string r.field),
      ("target_type", .string r.targetType), ("users", .bool r.users)]

/-- A rule as data. -/
def OrderInstanceRule.encode (r : OrderInstanceRule) : Json :=
  Json.ofEntries
    [("parent_type", .string r.parentType), ("child_type", .string r.childType),
      ("parent_key_field", .string r.parentKeyField), ("url", .string r.url),
      ("position_field", .string r.positionField)]

/-- A rule as data. -/
def LocaleRule.encode (r : LocaleRule) : Json :=
  Json.ofEntries
    ([("settings_type", .string r.settingsType), ("brand_field", .string r.brandField),
      ("locale_types", encodeTexts r.localeTypes)]
      ++ encodeSome "source_locale_types" r.sourceLocaleTypes .string)

/-- The rules of the filters as data. -/
def FilterSettings.encode (s : FilterSettings) : Json :=
  Json.ofEntries
    (encodeSome "unordered_lists" s.unorderedLists UnorderedListRule.encode
      ++ encodeSome "removal_last_types" s.removalLastTypes .string
      ++ encodeSome "child_order" s.childOrder ChildOrderRule.encode
      ++ encodeSome "body_templates" s.bodyTemplates BodyTemplateRule.encode
      ++ encodeSome "id_references" s.idReferences IdReferenceRule.encode
      ++ [("users_url", .string s.usersUrl)]
      ++ encodeSome "order_instances" s.orderInstances OrderInstanceRule.encode
      ++ encodeSome "locales" s.locales LocaleRule.encode)

/-- An action as data. -/
def ActionMatch.encode (a : ActionMatch) : Json :=
  Json.ofEntries [("list_field", .string a.listField), ("value", .string a.value)]

/-- A rule as data. -/
def FeatureGateRule.encode (r : FeatureGateRule) : Json :=
  Json.ofEntries
    ([("type_name", .string r.typeName), ("settings_type", .string r.settingsType),
      ("setting_path", .string r.settingPath)]
      ++ encodeOption "action" r.action ActionMatch.encode)

/-- A rule as data. -/
def StatusRemovalRule.encode (r : StatusRemovalRule) : Json :=
  Json.ofEntries
    [("type_name", .string r.typeName), ("status_field", .string r.statusField),
      ("removable_status", .string r.removableStatus)]

/-- The rules of the checks as data. -/
def ValidatorSettings.encode (s : ValidatorSettings) : Json :=
  Json.ofEntries
    (encodeSome "default_protected_types" s.defaultProtectedTypes .string
      ++ encodeSome "external_source_types" s.externalSourceTypes .string
      ++ encodeSome "feature_gates" s.featureGates FeatureGateRule.encode
      ++ encodeSome "status_removals" s.statusRemovals StatusRemovalRule.encode)

/-- Settings as data. -/
def Settings.encode (s : Settings) : Json :=
  Json.ofEntries
    [("adapter", .string s.adapter), ("client", s.client.encode), ("fetch", s.fetch.encode),
      ("deploy", s.deploy.encode),
      ("api_definitions",
        Json.ofEntries [("types", .object (Dict.mapValues TypeEndpoints.encode s.endpoints))]),
      ("filters", s.filters.encode), ("validators", s.validators.encode)]

end AccountSync
