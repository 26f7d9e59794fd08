/-
  AccountSync.Deployment.Batch
  ────────────────────────────
  **DEPLOYING A BATCH OF CHANGES.**

  A change that fails is reported and never keeps the others from being deployed.
  What was applied and what failed are both listed in the order of the batch.

      Pool.deploy              — all changes of a batch
      Pool.deployRemovalsLast  — removals after everything else
      Pool.route               — the changes that are claimed; the others are left over
      Failure.report           — how the failure of a change is worded
-/
import AccountSync.Change.Basic
import AccountSync.Deployment.Fanout
import AccountSync.Diagnostic
import AccountSync.Json.Writer

namespace AccountSync

/-- A change as its handler left it, and whether it could be deployed. -/
structure Outcome where
  change : InstanceChange
  result : Except Failure Unit

/-- Deploys single changes, in a world `ω`. -/
abbrev ChangeHandler (ω : Type) := Job ω InstanceChange Outcome

/-- What became of the changes of a batch. -/
structure DeployResult where
  applied : List InstanceChange := []
  errors : List Diagnostic := []

namespace DeployResult

/-- What became of two batches, one after the other. -/
def append (a b : DeployResult) : DeployResult :=
  ⟨a.applied ++ b.applied, a.errors ++ b.errors⟩

instance : Append DeployResult := ⟨append⟩

end DeployResult

/-- What became of the changes of a batch, and the changes that are left over for later
stages. -/
structure StageResult where
  result : DeployResult := {}
  leftover : List InstanceChange := []

/-- What the answer to a failed request adds to the wording: data that is an object, over
several lines. -/
def HttpFailure.attachment (e : HttpFailure) : String :=
  match e.data with
  | some (.object entries) => "\n" ++ (Json.object entries).pretty
  | _ => ""

/-- What a failure adds to the wording. -/
def Failure.attachment : Failure → String
  | .http cause => cause.attachment
  | _ => ""

/-- How the failure of the change of an element is worded. -/
def Failure.report (e : Failure) (id : ElementId) : String :=
  "Deployment of " ++ id.fullName ++ " failed: " ++ e.message ++ e.attachment

namespace Outcome

/-- The change, if it could be deployed. -/
def applied? (o : Outcome) : Option InstanceChange :=
  match o.result with
  | .ok () => some o.change
  | .error _ => none

/-- The error, if the change could not be deployed. -/
def error? (o : Outcome) : Option Diagnostic :=
  match o.result with
  | .ok () => none
  | .error e => some (.error o.change.id (e.report o.change.id))

end Outcome

/-- What became of the changes with the given outcomes. -/
def DeployResult.ofOutcomes (outcomes : List Outcome) : DeployResult :=
  ⟨outcomes.filterMap Outcome.applied?, outcomes.filterMap Outcome.error?⟩

/-- How many calls may be under way at once, and who decides which ends next. -/
structure Pool (ω : Type) where
  limit : Nat
  next : Scheduler ω

namespace Pool

variable {ω : Type}

/-- Deploys all changes of a batch. -/
def deploy (pool : Pool ω) (handler : ChangeHandler ω) (changes : List InstanceChange) :
    StateM ω DeployResult := do
  let outcomes ← handler.fanOut pool.limit pool.next changes
  pure (.ofOutcomes outcomes)

/-- Deploys additions and modifications, and when all of these are done the removals. -/
def deployRemovalsLast (pool : Pool ω) (handler : ChangeHandler ω)
    (changes : List InstanceChange) : StateM ω DeployResult := do
  let (removals, others) := changes.partition Change.isRemoval
  let first ← pool.deploy handler others
  let last ← pool.deploy handler removals
  pure (first ++ last)

/-- Deploys the changes that are claimed; the others are left over. -/
def route (pool : Pool ω) (claims : InstanceChange → Bool) (handler : ChangeHandler ω)
    (changes : List InstanceChange) : StateM ω StageResult := do
  let (claimed, leftover) := changes.partition claims
  let result ← pool.deploy handler claimed
  pure { result, leftover }

end Pool

end AccountSync
