/-
  AccountSync.Http.Basic
  ──────────────────────
  **REQUESTS TO THE REMOTE ACCOUNT.**

  A client answers requests.  It may behave in any way: what it does may depend on,
  and change, a world of which nothing is known here.

      Client.send   — one request, answered or failed
-/
import AccountSync.Failure

namespace AccountSync

/-- The methods of requests. -/
inductive HttpMethod where
  | get
  | post
  | put
  | patch
  | delete
deriving DecidableEq, Repr

namespace HttpMethod

/-- How a method is written in configurations. -/
def name : HttpMethod → String
  | .get => "get"
  | .post => "post"
  | .put => "put"
  | .patch => "patch"
  | .delete => "delete"

/-- How a method is written in requests. -/
def verb : HttpMethod → String
  | .get => "GET"
  | .post => "POST"
  | .put => "PUT"
  | .patch => "PATCH"
  | .delete => "DELETE"

/-- The method that is written so in configurations. -/
def ofName? : String → Option HttpMethod
  | "get" => some .get
  | "post" => some .post
  | "put" => some .put
  | "patch" => some .patch
  | "delete" => some .delete
  | _ => none

/-- Whether requests of the method carry a body. -/
def hasBody : HttpMethod → Bool
  | .get => false
  | .delete => false
  | _ => true

end HttpMethod

/-- A request; its url may be relative to the account's. -/
structure Request where
  method : HttpMethod
  url : String
  body : Option Json

/-- An answer that is a success. -/
structure Response where
  status : Nat
  data : Json

/-- Something that answers requests, in a world `ω`. -/
structure Client (ω : Type) where
  send : Request → StateM ω (Except HttpFailure Response)

end AccountSync
