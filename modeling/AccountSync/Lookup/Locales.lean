/-
  AccountSync.Lookup.Locales
  ──────────────────────────
  **LOCALES BECOME REFERENCES TO LANGUAGE SETTINGS.**

  Texts carry the locale they are written in.  The language settings of a locale are
  unique only within a brand, so they are looked up by brand and locale together.

      Locales.key?       — the text under which settings are looked up
      Locales.resolved   — all elements, rule after rule
-/
import AccountSync.Lookup.Basic
import AccountSync.Settings.Basic

namespace AccountSync.Locales

/-- The field with the locale. -/
def localeField : String := "locale"

/-- The field with the locale of the text that a text goes back to. -/
def sourceLocaleField : String := "source_locale"

/-- The text that stands for a brand or a locale: that of a scalar; for a reference that of
its target's identifier, or else the full name. -/
def keyPart? : Value → Option String
  | .reference r => some ((r.targetId?.bind Value.keyText?).getD r.id.fullName)
  | v => v.keyText?

/-- The text under which language settings are looked up. -/
def key? (brand locale : Value) : Option String := do
  let brand ← keyPart? brand
  let locale ← keyPart? locale
  pure (brand ++ "/" ++ locale)

/-- The text under which the value of a field of an instance is looked up. -/
def fieldKey? (rule : LocaleRule) (field : String) (i : Instance) : Option String := do
  let brand ← i.get? rule.brandField
  let locale ← i.get? field
  key? brand locale

/-- The language settings of a rule by brand and locale. -/
def table (rule : LocaleRule) (elements : List Element) : LookupTable :=
  LookupTable.ofInstances (rule.settingsType ++ "_by_brand_locale") (fieldKey? rule localeField)
    (Element.instancesOf elements rule.settingsType)

/-- The instance with a field resolved; a locale without settings stays as it is. -/
def resolveField (rule : LocaleRule) (t : LookupTable) (field : String) (i : Instance) :
    Instance :=
  match (fieldKey? rule field i).bind t.find? with
  | some (.element r) => i.set field (.reference r)
  | _ => i

/-- The instance with its locale resolved, and then that of the text it goes back to, each
if its type is one of those that the rule names for it. -/
def resolveInstance (rule : LocaleRule) (t : LookupTable) (i : Instance) : Instance :=
  if rule.localeTypes.contains i.typeName then
    let i := resolveField rule t localeField i
    if rule.sourceLocaleTypes.contains i.typeName then resolveField rule t sourceLocaleField i
    else i
  else i

/-- All elements with the locales that a rule names resolved. -/
def resolvedBy (elements : List Element) (rule : LocaleRule) : List Element :=
  Element.mapInstances (resolveInstance rule (table rule elements)) elements

/-- All elements with the locales that the rules name resolved, rule after rule. -/
def resolved (rules : List LocaleRule) (elements : List Element) : List Element :=
  rules.foldl resolvedBy elements

end AccountSync.Locales
