/-
  AccountSync.Diagnostic
  ──────────────────────
  **MESSAGES FOR THE USER.**

  A diagnostic says what is wrong with an element, or with no element in particular.

      Diagnostic.text     — on one line
      Diagnostic.encode   — serialized
      Diagnostic.decode   — read back
-/
import AccountSync.ElementId.FullName
import AccountSync.Failure

namespace AccountSync

/-- How grave a diagnostic is. -/
inductive Severity where
  | error
  | warning
  | info
deriving DecidableEq, Repr

/-- The name of a severity. -/
def Severity.name : Severity → String
  | .error => "Error"
  | .warning => "Warning"
  | .info => "Info"

/-- The severity of a name. -/
def Severity.ofName? : String → Option Severity
  | "Error" => some .error
  | "Warning" => some .warning
  | "Info" => some .info
  | _ => none

/-- A message about an element, or about none in particular. -/
structure Diagnostic where
  id : Option ElementId
  severity : Severity
  message : String
  detailedMessage : String

namespace Diagnostic

/-- A diagnostic whose detailed message is its message. -/
def plain (id : Option ElementId) (severity : Severity) (message : String) : Diagnostic :=
  ⟨id, severity, message, message⟩

/-- An error about an element. -/
def error (id : ElementId) (message : String) : Diagnostic :=
  plain (some id) .error message

/-- A warning about an element. -/
def warning (id : ElementId) (message : String) : Diagnostic :=
  plain (some id) .warning message

/-- A piece of information about an element. -/
def info (id : ElementId) (message : String) : Diagnostic :=
  plain (some id) .info message

/-- The diagnostic with a longer explanation. -/
def withDetail (d : Diagnostic) (detailed : String) : Diagnostic :=
  { d with detailedMessage := detailed }

/-- Whether the diagnostic is an error. -/
def isError (d : Diagnostic) : Bool :=
  d.severity = .error

/-- The diagnostic on one line. -/
def text (d : Diagnostic) : String :=
  match d.id with
  | some id => "[" ++ d.severity.name ++ "] " ++ id.fullName ++ ": " ++ d.message
  | none => "[" ++ d.severity.name ++ "] " ++ d.message

/-- The serialized diagnostic. -/
def encode (d : Diagnostic) : Json :=
  Json.ofEntries
    ((match d.id with
      | some id => [("elemID", .string id.fullName)]
      | none => [])
    ++ [("severity", .string d.severity.name), ("message", .string d.message),
      ("detailedMessage", .string d.detailedMessage)])

/-- The diagnostic that is serialized so. -/
def decode (j : Json) : Option Diagnostic := do
  let fields ← j.recordFields? ["elemID", "severity", "message", "detailedMessage"]
  let id ← match Dict.get? fields "elemID" with
    | none => some none
    | some .null => some none
    | some (.string text) => (ElementId.parse? text).map some
    | some _ => none
  let severity ← (Dict.get? fields "severity").bind Json.variant?
  let severity ← Severity.ofName? severity
  let message ← (Dict.get? fields "message").bind Json.string?
  let detailed ← (Dict.get? fields "detailedMessage").bind Json.string?
  pure ⟨id, severity, message, detailed⟩

end Diagnostic

end AccountSync
