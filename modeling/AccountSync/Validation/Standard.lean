/-
  AccountSync.Validation.Standard
  ───────────────────────────────
  **THE STANDARD VALIDATORS.**

      Validator.standard   — those that have rules in the settings, in order
-/
import AccountSync.Validation.ExternalSource
import AccountSync.Validation.FeatureGate
import AccountSync.Validation.Removal

namespace AccountSync.Validator

/-- A validator, unless it has no rules. -/
def unlessEmpty {α : Type} (rules : List α) (v : Validator) : List Validator :=
  if rules.isEmpty then [] else [v]

/-- The validators that have rules in the settings. -/
def standard (adapter : String) (s : ValidatorSettings) : List Validator :=
  unlessEmpty s.defaultProtectedTypes (defaultRemoval s.defaultProtectedTypes)
    ++ unlessEmpty s.externalSourceTypes (externalSource s.externalSourceTypes)
    ++ s.featureGates.map (featureGate adapter)
    ++ unlessEmpty s.statusRemovals (statusRemoval s.statusRemovals)

end AccountSync.Validator
