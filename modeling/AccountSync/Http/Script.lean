/-
  AccountSync.Http.Script
  ───────────────────────
  **A CLIENT THAT ANSWERS FROM A SCRIPT.**

  A script is a list of rules; a request is answered by the first one that matches
  and is not spent.  A request that no rule matches is not found.

      Script.client   — answers requests and remembers them
-/
import AccountSync.Http.Basic

namespace AccountSync

/-- Answers requests of a method and a url, or of any where these are not given. -/
structure ScriptRule where
  method : Option String := none
  url : Option String := none
  /-- The rule answers one request only. -/
  once : Bool := false
  answer : Except HttpFailure Response
  spent : Bool := false

/-- Rules, and the requests made so far. -/
structure Script where
  rules : List ScriptRule := []
  requests : List Request := []

namespace Script

/-- Whether a rule answers a request. -/
def matchesRequest (rule : ScriptRule) (r : Request) : Bool :=
  !rule.spent && rule.method.all (· = r.method.verb) && rule.url.all (· = r.url)

/-- The failure of a request that no rule matches. -/
def notFound : HttpFailure :=
  { status := some 404, message := "Not Found" }

/-- The answer to a request, and the rules as they are then. -/
def answer (r : Request) : List ScriptRule → Except HttpFailure Response × List ScriptRule
  | [] => (.error notFound, [])
  | rule :: rest =>
    if matchesRequest rule r then (rule.answer, { rule with spent := rule.once } :: rest)
    else
      let (found, rest) := answer r rest
      (found, rule :: rest)

/-- Answers requests by the rules of the script and remembers them. -/
def client : Client Script where
  send r := fun s =>
    let (found, rules) := answer r s.rules
    (found, { rules, requests := s.requests ++ [r] })

end Script

end AccountSync
