/-
  AccountSync.Filter.Basic
  ────────────────────────
  **FILTERS.**

  A filter takes part in a fetch or a deployment by up to four hooks and says which
  of them count.  It remembers things from one hook to a later one of the same cycle.

      Hook      — changes what it is handed, and may fail half-way
      Filter    — a name, phases and hooks
      Session   — what filters are built from
-/
import AccountSync.Deployment.Endpoint
import AccountSync.Template.Mapping
import AccountSync.Users.Exchange

namespace AccountSync

/-- What a filter remembers during a cycle. -/
structure Memory where
  /-- The identifiers of the account's users by address, once they were asked for. -/
  userIds : Option (Dict Value) := none
  /-- Fields as they were before addresses in them were replaced, by element. -/
  saved : Dict SavedFields := []
  /-- The templates that texts came from. -/
  texts : Template.Mapping := []

/-- How a hook leaves things.  One that failed may have done part of its work. -/
structure Hooked (σ : Type) where
  state : σ
  memory : Memory
  result : Except Failure Unit := .ok ()

/-- Changes what it is handed, in a world `ω`. -/
abbrev Hook (ω σ : Type) := σ → Memory → StateM ω (Hooked σ)

namespace Hook

variable {ω σ : Type}

/-- The hook that does nothing. -/
def nothing : Hook ω σ :=
  fun s memory => pure { state := s, memory }

/-- The hook that needs no memory and no world and never fails. -/
def ofFunction (f : σ → σ) : Hook ω σ :=
  fun s memory => pure { state := f s, memory }

end Hook

/-- A participant in fetches and deployments. -/
structure Filter (ω : Type) where
  name : String
  /-- The phases whose hooks count; the others are never called. -/
  phases : List Phase
  /-- Brings fetched elements into shape. -/
  onFetch : Hook ω (List Element) := .nothing
  /-- Prepares changes before they are deployed. -/
  preDeploy : Hook ω (List InstanceChange) := .nothing
  /-- Deploys the changes that the filter claims. -/
  deploy : List InstanceChange → StateM ω (Except Failure StageResult) :=
    fun changes => pure (.ok { leftover := changes })
  /-- Undoes the preparation on changes that were applied. -/
  onDeploy : Hook ω (List InstanceChange) := .nothing

/-- What filters are built from. -/
structure Session (ω : Type) where
  settings : Settings
  client : Client ω
  next : Scheduler ω

namespace Session

variable {ω : Type}

/-- How many requests may be under way at once. -/
def pool (s : Session ω) : Pool ω :=
  ⟨s.settings.client.maxConcurrent, s.next⟩

/-- Deploys changes by the requests of their types. -/
def deployer (s : Session ω) : ChangeHandler ω :=
  s.settings.deployer s.client

end Session

end AccountSync
