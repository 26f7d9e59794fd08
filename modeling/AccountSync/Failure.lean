/-
  AccountSync.Failure
  ───────────────────
  **WHAT CAN GO WRONG.**

  Every failure is its cause, and one function gives the wording.  A lookup that
  finds nothing is not a failure but an answer of its own.

      Failure.message      — the wording
      Failure.code         — the class it belongs to
      Failure.isTransient  — whether trying again may help
-/
import AccountSync.ElementId.FullName
import AccountSync.Json.Basic

namespace AccountSync

/-- The phases of a fetch and of a deployment in which filters take part. -/
inductive Phase where
  | onFetch
  | preDeploy
  | deploy
  | onDeploy
deriving DecidableEq, Repr

/-- The name of a phase. -/
def Phase.name : Phase → String
  | .onFetch => "on_fetch"
  | .preDeploy => "pre_deploy"
  | .deploy => "deploy"
  | .onDeploy => "on_deploy"

/-- The phase of the given name. -/
def Phase.ofName? : String → Option Phase
  | "on_fetch" => some .onFetch
  | "pre_deploy" => some .preDeploy
  | "deploy" => some .deploy
  | "on_deploy" => some .onDeploy
  | _ => none

/-- A request that failed.  There is no status when no answer came, and no data when the
answer had none. -/
structure HttpFailure where
  status : Option Nat
  message : String
  data : Option Json := none

namespace HttpFailure

/-- Conflicts, throttling, server errors and requests without an answer may succeed later. -/
def isTransient (e : HttpFailure) : Bool :=
  match e.status with
  | none => true
  | some status => status = 409 || status = 429 || 500 ≤ status

/-- The wording of a failed request. -/
def text (e : HttpFailure) : String :=
  match e.status with
  | some status => "Request failed with status code " ++ (Number.int status).text ++ ": " ++ e.message
  | none => "Request failed: " ++ e.message

end HttpFailure

/-- The cause of a failure. -/
inductive Failure where
  /-- A value's shape disagrees with its declared type. -/
  | schemaMismatch (path : ElementId) (expected actual : String)
  /-- A reference was to be written out, but its target is not known. -/
  | unresolvedReference (id : ElementId)
  /-- A reference was to be written out, but its target is no text. -/
  | invalidTemplateValue (id : ElementId) (reason : String)
  /-- A text is not the full name of an identifier. -/
  | invalidElementId (text : String)
  /-- A type is not declared. -/
  | unknownType (name : String)
  /-- A visitor of a value tree kept making it deeper. -/
  | tooDeep
  /-- A request failed. -/
  | http (cause : HttpFailure)
  /-- A single change could not be deployed. -/
  | deployChange (id : ElementId) (reason : String)
  /-- A hook of a filter failed. -/
  | filterHook (filter : String) (phase : Phase) (reason : String)
  /-- The configuration is not acceptable. -/
  | configuration (reason : String)
  /-- A text is not the configuration that it should be. -/
  | malformedYaml
  /-- JSON data does not have the form that it should have. -/
  | malformedJson

/-- The wording of a failure. -/
def Failure.message : Failure → String
  | .schemaMismatch path expected actual =>
    "schema mismatch at " ++ path.fullName ++ ": expected " ++ expected ++ ", found " ++ actual
  | .unresolvedReference id => "unresolved reference to " ++ id.fullName
  | .invalidTemplateValue id reason =>
    "invalid value inside a template expression " ++ id.fullName ++ ": " ++ reason
  | .invalidElementId text => "invalid element id: " ++ text
  | .unknownType name => "unknown type: " ++ name
  | .tooDeep => "value tree too deep"
  | .http cause => cause.text
  | .deployChange _ reason => reason
  | .filterHook filter phase reason =>
    "filter " ++ filter ++ " failed during " ++ phase.name ++ ": " ++ reason
  | .configuration reason => "invalid configuration: " ++ reason
  | .malformedYaml => "yaml error"
  | .malformedJson => "serialization error"

/-- The code that classifies a failure. -/
def Failure.code : Failure → String
  | .schemaMismatch .. => "SCHEMA_MISMATCH"
  | .unresolvedReference _ => "UNRESOLVED_REFERENCE"
  | .invalidTemplateValue .. => "INVALID_TEMPLATE_VALUE"
  | .invalidElementId _ => "INVALID_ELEM_ID"
  | .unknownType _ => "UNKNOWN_TYPE"
  | .tooDeep => "TOO_DEEP"
  | .http _ => "HTTP_ERROR"
  | .deployChange .. => "DEPLOY_CHANGE_FAILED"
  | .filterHook .. => "FILTER_HOOK_FAILED"
  | .configuration _ => "INVALID_CONFIGURATION"
  | .malformedYaml => "YAML_ERROR"
  | .malformedJson => "SERIALIZATION_ERROR"

/-- Whether trying again may help. -/
def Failure.isTransient : Failure → Bool
  | .http cause => cause.isTransient
  | _ => false

end AccountSync
