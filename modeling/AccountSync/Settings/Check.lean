/-
  AccountSync.Settings.Check
  ──────────────────────────
  **SETTINGS THAT MAKE SENSE.**

      Settings.fault?      — the first thing that is wrong with settings
      Settings.override    — what the environment says about them
-/
import AccountSync.Settings.Basic

namespace AccountSync

/-- What can be wrong with settings. -/
inductive SettingsFault where
  | noAdapter
  | noHttpUrl (url : String)
  | noConcurrency
  | emptyUrl (typeName : String)
  | noPlaceholder (parentType : String)
deriving DecidableEq, Repr

/-- The wording of a fault. -/
def SettingsFault.message : SettingsFault → String
  | .noAdapter => "adapter name is required"
  | .noHttpUrl url => "base_url must be an http(s) URL, got '" ++ url ++ "'"
  | .noConcurrency => "max_concurrent_requests must be at least 1"
  | .emptyUrl typeName => "empty deploy url for type " ++ typeName
  | .noPlaceholder parentType =>
    "order url for " ++ parentType ++ " must contain a placeholder"

/-- What is wrong with the settings of a client, if anything is. -/
def ClientSettings.fault? (c : ClientSettings) : Option SettingsFault :=
  if !(Text.startsWith "http://" c.baseUrl || Text.startsWith "https://" c.baseUrl) then
    some (.noHttpUrl c.baseUrl)
  else if c.maxConcurrent = 0 then some .noConcurrency
  else none

/-- The requests of a type that are there: for additions, modifications, removals. -/
def TypeEndpoints.all (t : TypeEndpoints) : List Endpoint :=
  t.add.toList ++ t.modify.toList ++ t.remove.toList

/-- The first type with a request without url. -/
def emptyUrl? : Dict TypeEndpoints → Option SettingsFault
  | [] => none
  | (typeName, t) :: rest =>
    if t.all.any (fun e => e.url = "") then some (.emptyUrl typeName) else emptyUrl? rest

/-- The first rule whose url has no placeholder. -/
def noPlaceholder? : List OrderInstanceRule → Option SettingsFault
  | [] => none
  | rule :: rest =>
    if rule.url.toList.contains Text.leftBrace then noPlaceholder? rest
    else some (.noPlaceholder rule.parentType)

namespace Settings

/-- The first thing that is wrong with settings: the adapter's name, the client, the requests
of types in the order of their names, the order requests in the order of their rules. -/
def fault? (s : Settings) : Option SettingsFault :=
  if s.adapter = "" then some .noAdapter
  else (s.client.fault? <|> emptyUrl? s.endpoints) <|> noPlaceholder? s.filters.orderInstances

/-- Succeeds if nothing is wrong. -/
def check (s : Settings) : Except Failure Unit :=
  match s.fault? with
  | some fault => .error (.configuration fault.message)
  | none => .ok ()

/-- The variable with the url of the account. -/
def baseUrlVariable : String := "CONFSYNC_BASE_URL"

/-- The variable that says whether unknown identifiers become placeholders. -/
def placeholdersVariable : String := "CONFSYNC_ENABLE_MISSING_REFERENCES"

/-- The truth value that a variable holds. -/
def flag? : String → Option Bool
  | "true" => some true
  | "false" => some false
  | _ => none

/-- The settings with what the environment says; a flag that is neither `true` nor `false`
says nothing. -/
def override (lookup : String → Option String) (s : Settings) : Settings :=
  let s := match lookup baseUrlVariable with
    | some url => { s with client := { s.client with baseUrl := url } }
    | none => s
  match (lookup placeholdersVariable).bind flag? with
  | some flag => { s with fetch := { s.fetch with placeholders := flag } }
  | none => s

end Settings

end AccountSync
