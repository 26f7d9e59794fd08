/-
  AccountSync.Adapter
  ───────────────────
  **AN ACCOUNT AND ITS ELEMENTS.**

  An adapter fetches elements of an account and deploys changes of them.  Each fetch
  and each deployment has a pipeline of its own, so that no filter remembers anything
  from one to the next.

      Adapter.fetch    — elements of excluded types are left out, the others filtered
      Adapter.deploy   — changes with an error are withheld, the others deployed
-/
import AccountSync.Filter.Pipeline
import AccountSync.Filter.Standard
import AccountSync.Validation.Standard

namespace AccountSync

/-- What elements are fetched from and changes deployed to. -/
structure Adapter (ω : Type) where
  session : Session ω
  source : ElementSource
  filters : Session ω → List (Filter ω) := Filter.standard
  validators : List Validator

namespace Adapter

variable {ω : Type}

/-- The adapter with the standard filters and validators. -/
def standard (session : Session ω) (source : ElementSource) : Adapter ω where
  session
  source
  validators := Validator.standard session.settings.adapter session.settings.validators

/-- A new pipeline. -/
def pipeline (a : Adapter ω) : Pipeline ω :=
  .ofFilters a.session (a.filters a.session)

/-- Whether an element is fetched; object types always are. -/
def includes (a : Adapter ω) : Element → Bool
  | .inst i => a.session.settings.fetch.includes i.typeName
  | .object _ => true

/-- Filters the elements that are fetched. -/
def fetch (a : Adapter ω) (elements : List Element) : StateM ω FetchResult := do
  let (result, _) ← a.pipeline.fetch (elements.filter a.includes)
  pure result

/-- What the validators say about changes, in their order. -/
def diagnostics (a : Adapter ω) (changes : List InstanceChange) : List Diagnostic :=
  a.validators.flatMap (fun v => v.check a.source changes)

/-- The elements that have errors, by full name. -/
def blocked (ds : List Diagnostic) : List String :=
  ((ds.filter Diagnostic.isError).filterMap (fun d => d.id)).map (fun id => id.topLevel.1.fullName)

/-- The changes that are deployed: those of elements without errors. -/
def allowed (ds : List Diagnostic) (changes : List InstanceChange) : List InstanceChange :=
  changes.filter (fun c => !(blocked ds).contains c.id.fullName)

/-- Checks changes and deploys those without errors.  What the validators say comes before
what goes wrong in the deployment. -/
def deploy (a : Adapter ω) (changes : List InstanceChange) : StateM ω DeployResult := do
  let ds := a.diagnostics changes
  let (done, _) ← a.pipeline.deploy (allowed ds changes)
  pure { done with errors := ds ++ done.errors }

end Adapter

end AccountSync
