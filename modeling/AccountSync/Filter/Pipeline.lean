/-
  AccountSync.Filter.Pipeline
  ───────────────────────────
  **FILTERS IN A ROW.**

  A pipeline runs one filter after the other.  A hook that fails is reported and
  whatever it did is undone, so that the next filter finds things as the last
  successful one left them.

      Pipeline.fetch    — every filter brings the elements into shape
      Pipeline.deploy   — changes are prepared, deployed and restored

  In a deployment each filter deploys what it claims and leaves the rest over for the
  next; what is left in the end goes to the deployer of the pipeline.  If a filter
  fails to deploy, every change it was handed is reported and goes no further.
-/
import AccountSync.Filter.Basic

namespace AccountSync

/-- A filter in a pipeline, and what it remembers. -/
structure Stage (ω : Type) where
  filter : Filter ω
  memory : Memory := {}

/-- Elements after a fetch, and what went wrong. -/
structure FetchResult where
  elements : List Element
  errors : List Diagnostic

/-- Filters in a row, and the deployer of what they leave over. -/
structure Pipeline (ω : Type) where
  stages : List (Stage ω)
  deployer : ChangeHandler ω
  pool : Pool ω

namespace Pipeline

variable {ω σ : Type}

/-- The pipeline of filters that remember nothing yet.  What they leave over is deployed by
the requests of the types. -/
def ofFilters (s : Session ω) (filters : List (Filter ω)) : Pipeline ω where
  stages := filters.map (fun filter => { filter })
  deployer := s.deployer
  pool := s.pool

/-- The names of the filters. -/
def filterNames (p : Pipeline ω) : List String :=
  p.stages.map (fun stage => stage.filter.name)

/-- How the failure of a hook is worded. -/
def hookFailure (filter : Filter ω) (phase : Phase) (e : Failure) : String :=
  (Failure.filterHook filter.name phase e.message).message

/-! ## Hooks that change things in place -/

/-- What comes out of running a hook of every filter. -/
structure Run (ω σ : Type) where
  state : σ
  reports : List Diagnostic
  stages : List (Stage ω)

/-- The state after a hook: what the hook left, or what it was handed if it failed. -/
def keptState (before : σ) (done : Hooked σ) : σ :=
  match done.result with
  | .ok () => done.state
  | .error _ => before

/-- The report about a hook, if it failed. -/
def report (severity : Severity) (filter : Filter ω) (phase : Phase) (done : Hooked σ) :
    List Diagnostic :=
  match done.result with
  | .ok () => []
  | .error e => [.plain none severity (hookFailure filter phase e)]

/-- Runs a hook of every filter that takes part in its phase, in order. -/
def runHooks (phase : Phase) (severity : Severity) (hook : Filter ω → Hook ω σ) :
    List (Stage ω) → σ → StateM ω (Run ω σ)
  | [], s => pure ⟨s, [], []⟩
  | stage :: rest, s =>
    if stage.filter.phases.contains phase then do
      let done ← hook stage.filter s stage.memory
      let later ← runHooks phase severity hook rest (keptState s done)
      pure ⟨later.state, report severity stage.filter phase done ++ later.reports,
        { stage with memory := done.memory } :: later.stages⟩
    else do
      let later ← runHooks phase severity hook rest s
      pure ⟨later.state, later.reports, stage :: later.stages⟩

/-- Brings fetched elements into shape. -/
def fetch (p : Pipeline ω) (elements : List Element) : StateM ω (FetchResult × Pipeline ω) := do
  let run ← runHooks .onFetch .warning Filter.onFetch p.stages elements
  pure (⟨run.state, run.reports⟩, { p with stages := run.stages })

/-! ## Deploying -/

/-- What becomes of the changes that a filter was handed and failed to deploy. -/
def dropped (filter : Filter ω) (changes : List InstanceChange) (e : Failure) : StageResult :=
  { result := { errors := changes.map (fun c => .error c.id (hookFailure filter .deploy e)) } }

/-- Lets every filter that deploys have the changes that the ones before left over, as long
as there are any. -/
def deployStages : List (Stage ω) → List InstanceChange → StateM ω StageResult
  | [], changes => pure { leftover := changes }
  | stage :: rest, changes =>
    if changes.isEmpty || !stage.filter.phases.contains .deploy then deployStages rest changes
    else do
      match ← stage.filter.deploy changes with
      | .error e => pure (dropped stage.filter changes e)
      | .ok done =>
        let later ← deployStages rest done.leftover
        pure { result := done.result ++ later.result, leftover := later.leftover }

/-- Deploys what all filters left over. -/
def deployLeftover (p : Pipeline ω) (changes : List InstanceChange) : StateM ω DeployResult :=
  if changes.isEmpty then pure {} else p.pool.deploy p.deployer changes

/-- Prepares changes, deploys them and restores those that were applied. -/
def deploy (p : Pipeline ω) (changes : List InstanceChange) :
    StateM ω (DeployResult × Pipeline ω) := do
  let before ← runHooks .preDeploy .error Filter.preDeploy p.stages changes
  let claimed ← deployStages before.stages before.state
  let others ← p.deployLeftover claimed.leftover
  let done := claimed.result ++ others
  let after ← runHooks .onDeploy .error Filter.onDeploy before.stages done.applied
  pure (⟨after.state, before.reports ++ done.errors ++ after.reports⟩,
    { p with stages := after.stages })

end Pipeline

end AccountSync
