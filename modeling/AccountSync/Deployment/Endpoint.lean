/-
  AccountSync.Deployment.Endpoint
  ───────────────────────────────
  **DEPLOYING A CHANGE BY A REQUEST OF ITS TYPE.**

  Settings say for each type which request adds, modifies and removes an instance.
  A change is deployed by the one request of its type and action.  The identifier
  that the account gives to a new instance is written into it.

      Settings.request     — the request that deploys a change
      TypeEndpoints.adopt  — the change after the request was answered
      Settings.deployer    — both, with the client in between
-/
import AccountSync.Deployment.Batch
import AccountSync.Deployment.Placeholder
import AccountSync.Settings.Basic
import AccountSync.Value.Flatten

namespace AccountSync

namespace TypeEndpoints

/-- The request for an action. -/
def endpoint? (t : TypeEndpoints) : ChangeAction → Option Endpoint
  | .add => t.add
  | .modify => t.modify
  | .remove => t.remove

/-- The fields that are sent. -/
def sent (t : TypeEndpoints) (values : Dict Json) : Dict Json :=
  t.ignoredFields.foldl Dict.erase values

/-- The body that is sent for the given values. -/
def body (t : TypeEndpoints) (values : Dict Json) : Json :=
  match t.wrapper with
  | some key => .object [(key, .object (t.sent values))]
  | none => .object (t.sent values)

/-- The part of an answer that describes the instance: what is under the wrapping key, if
there is such a key, else the whole answer. -/
def unwrap (t : TypeEndpoints) (data : Json) : Json :=
  (t.wrapper.bind data.get?).getD data

/-- The identifier in an answer. -/
def returnedId? (t : TypeEndpoints) (data : Json) : Option Json :=
  ((t.unwrap data).get? t.idField).filter (fun id => !id.isNull)

/-- A deployed change with what the answer says: a new instance gets its identifier. -/
def adopt (t : TypeEndpoints) (data : Json) : InstanceChange → InstanceChange
  | .addition after =>
    match t.returnedId? data with
    | some id => .addition (after.set t.idField (.ofJson id))
    | none => .addition after
  | c => c

end TypeEndpoints

namespace Settings

/-- How the type of a change is deployed. -/
def endpointsOf (s : Settings) (c : InstanceChange) : Except Failure TypeEndpoints :=
  match Dict.get? s.endpoints c.typeName with
  | some t => .ok t
  | none => .error (.deployChange c.id ("no deploy definition for type " ++ c.typeName))

/-- The endpoint of a type for the action of a change. -/
def endpointOf (t : TypeEndpoints) (c : InstanceChange) : Except Failure Endpoint :=
  match t.endpoint? c.action with
  | some e => .ok e
  | none =>
    .error (.deployChange c.id (c.action.name ++ " is not supported for type " ++ c.typeName))

/-- The url of a request with the values of a change filled in. -/
def urlOf (e : Endpoint) (c : InstanceChange) (values : Dict Json) : Except Failure String :=
  match UrlTemplate.fill e.url (.object values) with
  | .ok url => .ok url
  | .error fault => .error (.deployChange c.id fault.message)

/-- The request that deploys a change.  Its url is filled in from all fields, also from
those that are not sent. -/
def request (t : TypeEndpoints) (c : InstanceChange) : Except Failure Request := do
  let e ← endpointOf t c
  let values ← Fields.flatten c.data.value
  let url ← urlOf e c values
  pure { method := e.method, url, body := if e.method.hasBody then some (t.body values) else none }

/-- Deploys a change by the request of its type. -/
def deployOne {ω : Type} (s : Settings) (client : Client ω) (c : InstanceChange) :
    StateM ω Outcome :=
  match s.endpointsOf c with
  | .error e => pure ⟨c, .error e⟩
  | .ok t =>
    match request t c with
    | .error e => pure ⟨c, .error e⟩
    | .ok r => do
      match ← client.send r with
      | .error e => pure ⟨c, .error (.http e)⟩
      | .ok answer => pure ⟨t.adopt answer.data c, .ok ()⟩

/-- Deploys changes by the requests of their types. -/
def deployer {ω : Type} (s : Settings) (client : Client ω) : ChangeHandler ω :=
  .ofFinish (s.deployOne client)

end Settings

end AccountSync
