/-
  AccountSync.Users.Basic
  ───────────────────────
  **THE USERS OF AN ACCOUNT.**

  Identifiers of users differ from account to account, their email addresses do not.

      Client.users           — the users that the account lists
      Client.fallbackEmail   — the user that stands in for those it does not have
-/
import AccountSync.Settings.Basic
import AccountSync.Value.Flatten

namespace AccountSync

/-- A user of an account. -/
structure User where
  id : Value
  email : String

/-- The user that an entry of a listing describes; both an address and an identifier are
needed. -/
def User.ofJson? (entry : Json) : Option User := do
  let email ← (entry.get? "email").bind Json.string?
  let id ← (entry.get? "id").filter (fun id => !id.isNull)
  pure ⟨.ofJson id, email⟩

/-- The users in the answer to a listing. -/
def User.listOfJson (data : Json) : List User :=
  (((data.get? "users").bind Json.array?).getD []).filterMap User.ofJson?

/-- The address in the answer to the question who is asking. -/
def User.emailOfJson? (data : Json) : Option String :=
  ((data.get? "user").bind (fun user => user.get? "email")).bind Json.string?

namespace Client

variable {ω : Type}

/-- Where the account says who is asking. -/
def currentUserUrl : String := "/api/v2/users/me"

/-- Asks for data. -/
def get (client : Client ω) (url : String) : StateM ω (Except HttpFailure Response) :=
  client.send { method := .get, url, body := none }

/-- The users that the account lists. -/
def users (client : Client ω) (url : String) : StateM ω (Except Failure (List User)) := do
  match ← client.get url with
  | .ok answer => pure (.ok (User.listOfJson answer.data))
  | .error e => pure (.error (.http e))

/-- The address of the user that stands in for users that the account does not have.  The
one who deploys may be named without an address; the account is asked for it then. -/
def fallbackEmail (client : Client ω) (fallback : String) :
    StateM ω (Except Failure (Option String)) :=
  if fallback = DeploySettings.deployer then do
    match ← client.get currentUserUrl with
    | .ok answer => pure (.ok (User.emailOfJson? answer.data))
    | .error e => pure (.error (.http e))
  else pure (.ok (some fallback))

end Client

end AccountSync
