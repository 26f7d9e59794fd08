/-
  AccountSync.Proofs.Validation.Withholding
  ─────────────────────────────────────────
  **ERRORS WITHHOLD WHAT THEY ARE ABOUT, AND NOTHING ELSE.**

  A validator may speak of an element or of a place inside of it.  In both cases an error
  withholds every change of the element, and the deployment goes on as if these changes had
  never been in the batch.  They are told apart by full names, one of the change and one of
  the element around the place, which is safe as full names name one identifier.

      ElementId.Holds      — an element, and the places inside of it
      Diagnostic.Blocks    — an error about an element or a place inside of it
      Adapter.passed_eq    — which changes are let pass
      deploy_withholds     — what comes of a batch of which some changes are withheld
-/
import AccountSync.Proofs.Deployment.RemovalsLast
import AccountSync.Proofs.Filter.Handed

namespace AccountSync

variable {ω : Type}

/-! ## §1. Places inside of elements. -/

/-- A place is inside of an element, or it is the element itself.  Fields and annotations are
inside of their type, but the instances of the type are elements of their own. -/
inductive ElementId.Holds : ElementId → ElementId → Prop where
  | type (adapter typeName : String) :
      Holds (.ofType adapter typeName) (.ofType adapter typeName)
  | attr (adapter typeName : String) (path : List String) :
      Holds (.ofType adapter typeName) ((ElementId.ofType adapter typeName).nest path)
  | field (adapter typeName : String) (path : List String) :
      Holds (.ofType adapter typeName) ⟨adapter, typeName, .within .field path⟩
  | inst (adapter typeName name : String) (path : List String) :
      Holds (.ofInstance adapter typeName name)
        ((ElementId.ofInstance adapter typeName name).nest path)
  /-- A place that lacks the name of its instance is taken to be inside of the one without a
  name. -/
  | nameless (adapter typeName : String) :
      Holds (.ofInstance adapter typeName "") ⟨adapter, typeName, .within .inst []⟩

/-- The enclosing element of a place is the one that holds it. -/
theorem ElementId.topLevel_eq_iff {e id : ElementId} : id.topLevel.1 = e ↔ e.Holds id := by
  constructor
  · rintro rfl
    obtain ⟨adapter, typeName, place⟩ := id
    match place with
    | .type => exact .type adapter typeName
    | .within .field path => exact .field adapter typeName path
    | .within .attr path => exact .attr adapter typeName path
    | .within .inst [] => exact .nameless adapter typeName
    | .within .inst (name :: path) => exact .inst adapter typeName name path
  · rintro (_ | _ | _ | _ | _) <;> rfl

instance (e id : ElementId) : Decidable (e.Holds id) :=
  decidable_of_iff (id.topLevel.1 = e) ElementId.topLevel_eq_iff

/-- The diagnostic is an error about the element or about a place inside of it. -/
def Diagnostic.Blocks (d : Diagnostic) (e : ElementId) : Prop :=
  d.isError = true ∧ ∃ id ∈ d.id, e.Holds id

instance (d : Diagnostic) (e : ElementId) : Decidable (d.Blocks e) :=
  inferInstanceAs (Decidable (_ ∧ _))

/-! ## §2. What is let pass. -/

namespace Adapter

/-- The element has an error, from whichever validator. -/
def Withheld (a : Adapter ω) (batch : List InstanceChange) (e : ElementId) : Prop :=
  ∃ v ∈ a.validators, ∃ d ∈ v.check a.source batch, d.Blocks e

instance (a : Adapter ω) (batch : List InstanceChange) (e : ElementId) :
    Decidable (a.Withheld batch e) :=
  inferInstanceAs (Decidable (∃ v ∈ a.validators, ∃ d ∈ v.check a.source batch, d.Blocks e))

/-- An element has an error if its full name is that of an element around a reported place. -/
theorem fullName_mem_blocked_iff (a : Adapter ω) (batch : List InstanceChange) (e : ElementId) :
    e.fullName ∈ blocked (a.diagnostics batch) ↔ a.Withheld batch e := by
  rw [mem_blocked]
  constructor
  · rintro ⟨id, hid, hname⟩
    obtain ⟨d, hd, herror, hdid⟩ := mem_reportedIds.mp hid
    obtain ⟨v, hv, hd⟩ := List.mem_flatMap.mp hd
    -- no other element has that full name
    have hholds : e.Holds id := ElementId.topLevel_eq_iff.mp (ElementId.fullName_injective hname)
    exact ⟨v, hv, d, hd, herror, id, hdid, hholds⟩
  · rintro ⟨v, hv, d, hd, herror, id, hdid, hholds⟩
    refine ⟨id, mem_reportedIds.mpr ⟨d, List.mem_flatMap.mpr ⟨v, hv, hd⟩, herror, hdid⟩, ?_⟩
    rw [ElementId.topLevel_eq_iff.mpr hholds]

/-- The changes that are let pass are those of elements without errors. -/
theorem passed_eq (a : Adapter ω) (batch : List InstanceChange) :
    a.passed batch = batch.filter fun c => ¬a.Withheld batch c.id := by
  unfold passed allowed
  refine List.filter_congr fun c _ => ?_
  rw [Bool.eq_iff_iff, Bool.not_eq_true', decide_eq_true_iff, ← fullName_mem_blocked_iff]
  simp

/-- The changes that are let pass are all that a deployment goes on with. -/
theorem deploy_eq (a : Adapter ω) (batch : List InstanceChange) (w : ω) :
    a.deploy batch w
      = (⟨(a.pipeline.deploy (a.passed batch) w).1.1.applied,
          a.diagnostics batch ++ (a.pipeline.deploy (a.passed batch) w).1.1.errors⟩,
        (a.pipeline.deploy (a.passed batch) w).2) := rfl

/-- If no filter makes up changes of elements with errors, then no such change is handed to a hook
or to the deployer of the pipeline, and none is applied. -/
theorem handed_apart (a : Adapter ω) (batch : List InstanceChange)
    (hfilters : ∀ f ∈ a.filters a.session, f.StaysWithin fun e => ¬a.Withheld batch e) (w : ω) :
    let passed := batch.filter fun c => ¬a.Withheld batch c.id
    ∀ c, c ∈ (a.pipeline.recorded.deploy passed (w, [])).2.2.begun
      ∨ c ∈ (a.pipeline.deploy passed w).1.1.applied → ¬a.Withheld batch c.id := by
  intro passed c hc
  -- what is let pass is about elements without errors, and nobody makes up anything else
  have habout : About (fun e => ¬a.Withheld batch e) passed := by
    refine List.forall_mem_map.mpr fun c hc => ?_
    simpa using (List.mem_filter.mp hc).2
  have hstages : ∀ f ∈ a.pipeline.stages.map Stage.filter,
      f.StaysWithin fun e => ¬a.Withheld batch e := by
    rw [show a.pipeline.stages.map Stage.filter = a.filters a.session from
      Pipeline.ofFilters_filters a.session _]
    exact hfilters
  obtain ⟨happlied, hbegun⟩ := a.pipeline.deploy_handed hstages
    (a.session.settings.deployer_keepsIds a.session.client) habout w
  rw [(a.pipeline.deploy_recorded passed w).1] at happlied
  exact hc.elim (hbegun.forall c) (happlied.forall c)

end Adapter

/-! ## §3. What becomes of a batch. -/

/-- **Withholding is safe and exact**, whatever the validators and the filters are.  The changes
that no error is about are deployed in their order by a new pipeline, and this is all that
happens: what is applied and what is left of the world is what the pipeline makes of them, and
its errors come after what the validators say.  Unless a filter makes up changes of elements
with errors, no such change is handed to a hook or to the deployer of the pipeline, and none is
applied.  The standard filters make up none. -/
theorem deploy_withholds (a : Adapter ω) (batch : List InstanceChange) (w : ω) :
    let passed := batch.filter fun c => ¬a.Withheld batch c.id
    let run := a.pipeline.deploy passed w
    let onRecord := a.pipeline.recorded.deploy passed (w, [])
    let said := a.validators.flatMap fun v => v.check a.source batch
    a.deploy batch w = (⟨run.1.1.applied, said ++ run.1.1.errors⟩, run.2)
      ∧ (onRecord.1.1 = run.1.1 ∧ onRecord.2.1 = run.2)
      ∧ ((∀ f ∈ a.filters a.session, f.StaysWithin fun e => ¬a.Withheld batch e) →
          ∀ c, c ∈ onRecord.2.2.begun ∨ c ∈ run.1.1.applied → ¬a.Withheld batch c.id)
      ∧ ∀ (s : Session ω) (P : ElementId → Prop), ∀ f ∈ Filter.standard s, f.StaysWithin P := by
  intro passed run onRecord said
  refine ⟨?_, a.pipeline.deploy_recorded passed w, fun hfilters => a.handed_apart batch hfilters w,
    Filter.standard_staysWithin⟩
  rw [Adapter.deploy_eq, Adapter.passed_eq]
  rfl

/-- Finds fault with a place inside of everything that is modified, and warns of the rest. -/
def Validator.ofNames : Validator where
  name := "names"
  check _ changes := changes.map fun c =>
    if c.isModification then .error (c.id.nest ["name"]) "" else .warning c.id ""

/-- The default group cannot be removed, and another one not be modified as its name has an error.
Only the third group is handed over and removed; about that one there is but a warning. -/
theorem deploy_withholds_two_groups :
    let group (name : String) (id : Int) (isDefault : Bool) : Instance :=
      .named name (.ofType "z" "group") [("default", .bool isDefault), ("id", .number (.int id))]
    let batch : List InstanceChange := [.removal (group "a" 1 true),
      .modification (group "b" 2 false) (group "b" 2 true), .removal (group "c" 3 false)]
    let a : Adapter (List Request) := {
      session := .ofGroups
      source := fun _ => none
      validators := [.defaultRemoval ["group"], .ofNames] }
    let r := a.deploy batch []
    changedIds r.1.applied = [.ofInstance "z" "group" "c"]
      ∧ reportedIds r.1.errors
        = [.ofInstance "z" "group" "a", (ElementId.ofInstance "z" "group" "b").nest ["name"]]
      ∧ r.2.map (fun r => (r.method, r.url)) = [(.delete, "/groups/3")]
      ∧ ∀ c ∈ (a.pipeline.recorded.deploy (a.passed batch) ([], [])).2.2.begun,
        ¬a.Withheld batch c.id := by
  intro group batch a r
  have hhanded := (deploy_withholds a batch []).2.2.1 (Filter.standard_staysWithin a.session _)
  refine ⟨by decide +kernel, by decide +kernel, by decide +kernel, ?_⟩
  rw [a.passed_eq batch]
  exact fun c hc => hhanded c (.inl hc)

end AccountSync
