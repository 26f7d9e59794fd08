/-
  AccountSync.Http.Rest
  ─────────────────────
  **A CLIENT THAT SPEAKS HTTP.**

  Urls are relative to that of the account.  A request carries the credentials and,
  if it has a body, JSON.  An answer is JSON, or else text.  What is asked for and not
  found is an empty list; any other status that is no success is a failure.

      Rest.fullUrl     — where a request goes
      Rest.message     — what is sent for a request
      Rest.interpret   — what a reply means
      Rest.client      — both, over any transport
-/
import AccountSync.Http.Status
import AccountSync.Json.Reader
import AccountSync.Json.Writer
import AccountSync.Settings.Basic
import AccountSync.Text.Base64
import AccountSync.Text.Utf8

namespace AccountSync.Rest

/-- What is sent for a request. -/
structure Message where
  method : HttpMethod
  url : String
  authorization : Option String
  body : Option String

/-- What comes back. -/
structure Reply where
  status : Nat
  body : List Nat

/-- Sends messages, in a world `ω`; nothing comes back when the connection fails. -/
abbrev Transport (ω : Type) := Message → StateM ω (Option Reply)

/-! ## Requests -/

/-- The url of the account without slashes at its end. -/
def base (s : ClientSettings) : String :=
  Text.trimEnd '/' s.baseUrl

/-- The url of a request; one that names a server stays as it is. -/
def fullUrl (s : ClientSettings) (url : String) : String :=
  if Text.startsWith "http://" url || Text.startsWith "https://" url then url
  else base s ++ "/" ++ Text.trimStart '/' url

/-- How credentials are sent. -/
def authorization : Credentials → Option String
  | .anonymous => none
  | .basic username password =>
    some ("Basic " ++ String.ofList
      (Base64.encode (Utf8.encode (username ++ ":" ++ password.getD ""))))
  | .bearer token => some ("Bearer " ++ token)

/-- Whether a text may stand in a header: it has no control characters except tabs. -/
def isHeaderValue (text : String) : Bool :=
  text.toList.all (fun c => c = '\t' || (0x20 ≤ c.toNat && c.toNat ≠ 0x7F))

/-- The media type of bodies. -/
def bodyType : String := "application/json"

/-- What is sent for a request. -/
def message (s : ClientSettings) (r : Request) : Message where
  method := r.method
  url := fullUrl s r.url
  authorization := authorization s.credentials
  body := r.body.map Json.compact

/-! ## Replies -/

/-- The data in the body of a reply: nothing, JSON, or text. -/
def decodeBody (bytes : List Nat) : Json :=
  if bytes.isEmpty then .null
  else match Utf8.decode? bytes with
    | some text => (Json.read text).getD (.string text)
    | none => .string (Utf8.decode bytes)

/-- What a reply means. -/
def interpret (method : HttpMethod) (reply : Reply) : Except HttpFailure Response :=
  let data := decodeBody (if Status.hasNoBody reply.status then [] else reply.body)
  if method = .get ∧ reply.status = 404 then .ok ⟨404, .array []⟩
  else if Status.isSuccess reply.status then .ok ⟨reply.status, data⟩
  else .error ⟨some reply.status, Status.reason reply.status, some data⟩

/-- The failure of a request that cannot be written. -/
def unwritable : HttpFailure := ⟨none, "builder error", none⟩

/-- The failure of a request that is not answered. -/
def unanswered : HttpFailure := ⟨none, "error sending request", none⟩

/-- A client over any transport. -/
def client {ω : Type} (s : ClientSettings) (transport : Transport ω) : Client ω where
  send r :=
    let m := message s r
    if m.authorization.all isHeaderValue then do
      match ← transport m with
      | some reply =>
        if Status.isFinal reply.status then pure (interpret r.method reply)
        else pure (.error unanswered)
      | none => pure (.error unanswered)
    else pure (.error unwritable)

end AccountSync.Rest
