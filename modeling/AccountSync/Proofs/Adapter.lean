/-
  AccountSync.Proofs.Adapter
  ──────────────────────────
  **WHICH CHANGES A DEPLOYMENT LOSES SIGHT OF.**

  A change that is deployed with the standard filters and validators is applied or
  reported, with one exception: a parent whose list of children is all that changed, when a
  change of a child fails.  Then the child is reported and the parent is not.  The tour of
  the rules about lists tells in which deployments that is so.

      Pipeline.tour         — the visits to parents in a deployment
      mem_allowed_iff       — changes are withheld by errors about themselves
      deploy_balance        — the books of a deployment with the standard filters
-/
import AccountSync.Adapter
import AccountSync.Proofs.Children.Visits
import AccountSync.Proofs.Deployment.Conservation
import AccountSync.Proofs.ElementId.FullName
import AccountSync.Proofs.Filter.Standard
import AccountSync.Proofs.Validation.Standard

namespace AccountSync

open Children (Visit results)
open scoped List

variable {ω : Type}

/-! ## §1. The standard filters. -/

theorem Children.tour_nil (pool : Pool ω) (handler : ChangeHandler ω)
    (rules : List ChildOrderRule) : tour pool handler rules [] = pure ⟨[], []⟩ := by
  induction rules with
  | nil => rfl
  | cons rule rest ih => simp only [tour, visitAll, leftovers, List.flatMap_nil, pure_bind, ih,
      List.append_nil]

/-- The first stage is passed over if its filter does not deploy. -/
theorem Pipeline.deployStages_skip_first {stages : List (Stage ω)} {f : Filter ω}
    {others : List (Filter ω)} (h : stages.map Stage.filter = f :: others)
    (hf : f.deploys = false) (changes : List InstanceChange) :
    ∃ rest, rest.map Stage.filter = others
      ∧ deployStages stages changes = deployStages rest changes := by
  obtain ⟨stage, rest, rfl, rfl, hrest⟩ := List.map_eq_cons_iff.mp h
  exact ⟨rest, hrest, deployStages_skip hf rest changes⟩

namespace Filter

/-- Deploying lists of children is going on a tour. -/
theorem childOrder_deploy (s : Session ω) (changes : List InstanceChange) :
    (childOrder s).deploy changes = (do
      let t ← Children.tour s.pool s.deployer s.settings.filters.childOrder changes
      pure (.ok { result := results t.visits, leftover := t.left })) := by
  show (Children.deployLists s.pool s.deployer s.settings.filters.childOrder changes
    >>= fun done => pure (Except.ok done)) = _
  rw [Children.deployLists_eq]
  rfl

/-- Of the standard filters the first that deploys goes on a tour, and the other two distribute
what that leaves over. -/
theorem deployStages_standard (s : Session ω) {stages : List (Stage ω)}
    (hstages : stages.map Stage.filter = standard s) (changes : List InstanceChange) (w : ω) :
    let t := (Children.tour s.pool s.deployer s.settings.filters.childOrder changes w).1
    ∃ later : StageResult, later.Distributes t.left
      ∧ (Pipeline.deployStages stages changes w).1
        = { result := results t.visits ++ later.result, leftover := later.leftover } := by
  intro t
  -- the four filters in front do not deploy
  obtain ⟨stages₁, h₁, hskip₁⟩ := Pipeline.deployStages_skip_first hstages rfl changes
  obtain ⟨stages₂, h₂, hskip₂⟩ := Pipeline.deployStages_skip_first h₁ rfl changes
  obtain ⟨stages₃, h₃, hskip₃⟩ := Pipeline.deployStages_skip_first h₂ rfl changes
  obtain ⟨stages₄, h₄, hskip₄⟩ := Pipeline.deployStages_skip_first h₃ rfl changes
  rw [hskip₁, hskip₂, hskip₃, hskip₄]
  obtain ⟨lists, rest, rfl, hlists, hrest⟩ := List.map_eq_cons_iff.mp h₄
  cases changes with
  | nil =>
    -- no filter takes a turn, and a tour without changes visits nothing
    have hnone : t = ⟨[], []⟩ := by
      show (Children.tour s.pool s.deployer s.settings.filters.childOrder [] w).1 = _
      rw [Children.tour_nil]
      rfl
    rw [hnone, Pipeline.deployStages_nil (lists :: rest) w]
    exact ⟨{ leftover := [] }, .refl _, rfl⟩
  | cons c changes =>
    have hbal : ∀ f ∈ rest.map Stage.filter, f.Balanced := by
      rw [hrest]
      intro f hf
      simp only [List.mem_cons, List.not_mem_nil, or_false] at hf
      rcases hf with rfl | rfl
      · exact (orderInstance_routes s).balanced
      · exact removalLast_balanced s
    have hdeploys : lists.filter.deploys = true := by
      rw [hlists]
      rfl
    let after := (Children.tour s.pool s.deployer s.settings.filters.childOrder (c :: changes) w).2
    refine ⟨(Pipeline.deployStages rest t.left after).1,
      Pipeline.deployStages_distributes hbal t.left after, ?_⟩
    rw [Pipeline.deployStages_turn hdeploys rest (List.cons_ne_nil c changes), hlists,
      childOrder_deploy]
    rfl

end Filter

/-! ## §2. The books of a deployment. -/

namespace Pipeline

/-- The tour of the rules about lists of children in a deployment. -/
def tour (s : Session ω) (changes : List InstanceChange) : StateM ω Children.Tour := do
  let before ← (ofFilters s (Filter.standard s)).prepare changes
  Children.tour s.pool s.deployer s.settings.filters.childOrder before.state

theorem ofFilters_filters (s : Session ω) (filters : List (Filter ω)) :
    (ofFilters s filters).stages.map Stage.filter = filters := by
  show (filters.map _).map Stage.filter = filters
  rw [List.map_map]
  exact List.map_id filters

/-- The hooks before a deployment keep the list of changes. -/
theorem prepare_ids (s : Session ω) (changes : List InstanceChange) (w : ω) :
    changedIds ((ofFilters s (Filter.standard s)).prepare changes w).1.state
      = changedIds changes := by
  refine runHooks_ids .error ?_ changes w
  rw [ofFilters_filters]
  exact Filter.standard_preDeploy_keepsIds s

/-- What a deployment with the standard filters speaks of: first what the tour came to, and then
each change that the tour left over. -/
theorem deploy_tour (s : Session ω) (changes : List InstanceChange) (w : ω) :
    let r := ((ofFilters s (Filter.standard s)).deploy changes w).1.1
    let t := (tour s changes w).1
    ∃ others : DeployResult, others.ids.Perm (changedIds t.left)
      ∧ changedIds r.applied = changedIds (results t.visits).applied ++ changedIds others.applied
      ∧ reportedIds r.errors = reportedIds (results t.visits).errors
        ++ reportedIds others.errors := by
  intro r t
  let p := ofFilters s (Filter.standard s)
  have hfilters : p.stages.map Stage.filter = Filter.standard s := ofFilters_filters s _
  have hkeep : ∀ f ∈ p.stages.map Stage.filter,
      f.phases.contains .onDeploy = true → f.onDeploy.KeepsIds := by
    rw [hfilters]
    exact Filter.standard_onDeploy_keepsIds s
  obtain ⟨outcomes, hout, happlied, herrors⟩ := p.deploy_phases hkeep changes w
  obtain ⟨later, hlater, hclaim⟩ := Filter.deployStages_standard s
    ((p.prepare_filters changes w).trans hfilters) (p.prepare changes w).1.state
    (p.prepare changes w).2
  have hclaim : (p.claim changes w).1
      = { result := results t.visits ++ later.result, leftover := later.leftover } := hclaim
  rw [hclaim] at hout happlied herrors
  refine ⟨later.result ++ DeployResult.ofOutcomes outcomes, ?_, ?_, ?_⟩
  · have hids := ofOutcomes_ids outcomes
    rw [hout.ids (s.settings.deployer_keepsIds s.client)] at hids
    calc (later.result ++ DeployResult.ofOutcomes outcomes).ids
      _ ~ later.result.ids ++ (DeployResult.ofOutcomes outcomes).ids := DeployResult.append_ids _ _
      _ ~ later.result.ids ++ changedIds later.leftover := hids.append_left _
      _ ~ changedIds t.left := hlater
  · rw [happlied, DeployResult.append_applied, DeployResult.append_applied, changedIds_append,
      changedIds_append, List.append_assoc]
  · rw [herrors, DeployResult.append_errors, DeployResult.append_errors, reportedIds_append,
      reportedIds_append, List.append_assoc]

/-- The books of the tour balance for the changes as they were before hooks prepared them. -/
theorem tour_spec (s : Session ω) (changes : List InstanceChange) (w : ω) :
    let t := (tour s changes w).1
    Children.Ledger changes t.visits t.left
      ∧ ∀ v ∈ t.visits, v.Genuine s.settings.filters.childOrder s.deployer := by
  have htour := Children.tour_ledger s.pool s.deployer
    (List.Subset.refl s.settings.filters.childOrder)
    ((ofFilters s (Filter.standard s)).prepare changes w).1.state
    ((ofFilters s (Filter.standard s)).prepare changes w).2
  exact ⟨htour.1.of_ids (prepare_ids s changes w), htour.2⟩

/-- The books of a deployment with the standard filters: what is lost makes up for the children
that are reported. -/
theorem deploy_balance (s : Session ω) (changes : List InstanceChange) (w : ω) :
    let r := ((ofFilters s (Filter.standard s)).deploy changes w).1.1
    let visits := (tour s changes w).1.visits
    (r.ids ++ visits.flatMap Visit.lost).Perm (changedIds changes ++ visits.flatMap Visit.failed)
      ∧ (visits.flatMap Visit.lost).Subperm (changedIds changes) := by
  intro r visits
  obtain ⟨others, hothers, happlied, herrors⟩ := deploy_tour s changes w
  obtain ⟨⟨hbalance, honce⟩, -⟩ := tour_spec s changes w
  refine ⟨?_, (List.sublist_append_left _ _).subperm.trans honce⟩
  have hids : r.ids.Perm ((results visits).ids ++ others.ids) := by
    refine List.Perm.trans (.of_eq ?_) (DeployResult.append_ids (results visits) others)
    unfold DeployResult.ids
    rw [happlied, herrors, DeployResult.append_applied, DeployResult.append_errors,
      changedIds_append, reportedIds_append]
  calc r.ids ++ visits.flatMap Visit.lost
    _ ~ (results visits).ids ++ others.ids ++ visits.flatMap Visit.lost := hids.append_right _
    _ ~ (results visits).ids ++ changedIds (tour s changes w).1.left ++ visits.flatMap Visit.lost :=
      (hothers.append_left _).append_right _
    _ ~ (results visits).ids ++ visits.flatMap Visit.lost
        ++ changedIds (tour s changes w).1.left := by
      rw [List.append_assoc, List.append_assoc]
      exact List.perm_append_comm.append_left _
    _ ~ changedIds changes ++ visits.flatMap Visit.failed := hbalance

end Pipeline

/-! ## §3. Withheld changes. -/

theorem ElementId.topLevel_of_isTopLevel {id : ElementId} (h : id.isTopLevel = true) :
    id.topLevel.1 = id := by
  obtain ⟨adapter, typeName, place⟩ := id
  match place, h with
  | .type, _ => rfl
  | .within .inst [_], _ => rfl

namespace Adapter

theorem mem_blocked {ds : List Diagnostic} {name : String} :
    name ∈ blocked ds ↔ ∃ id ∈ reportedIds ds, id.topLevel.1.fullName = name :=
  List.mem_map

/-- If errors are about elements of the batch, a change is withheld exactly if one is about its
own element. -/
theorem mem_allowed_iff {ds : List Diagnostic} {batch : List InstanceChange}
    (hlocal : ∀ id ∈ reportedIds ds, id ∈ changedIds batch)
    (htop : ∀ id ∈ changedIds batch, id.isTopLevel = true) {c : InstanceChange} (hc : c ∈ batch) :
    c ∈ allowed ds batch ↔ c.id ∉ reportedIds ds := by
  -- changes are withheld by full names of top-level elements, which here are those of the
  -- elements themselves
  have hblocked : c.id.fullName ∈ blocked ds ↔ c.id ∈ reportedIds ds := by
    rw [mem_blocked]
    constructor
    · rintro ⟨id, hid, hname⟩
      rw [ElementId.topLevel_of_isTopLevel (htop id (hlocal id hid))] at hname
      rwa [← ElementId.fullName_injective hname]
    · intro hid
      refine ⟨c.id, hid, ?_⟩
      rw [ElementId.topLevel_of_isTopLevel (htop c.id (List.mem_map_of_mem hc))]
  unfold allowed
  rw [List.mem_filter, Bool.not_eq_true', ← hblocked]
  simp [hc]

/-- What the standard validators report is about elements of the batch. -/
theorem reported_local (session : Session ω) (source : ElementSource)
    (batch : List InstanceChange) :
    ∀ id ∈ reportedIds ((standard session source).diagnostics batch), id ∈ changedIds batch := by
  intro id hid
  obtain ⟨d, hd, -, hdid⟩ := mem_reportedIds.mp hid
  obtain ⟨v, hv, hd⟩ := List.mem_flatMap.mp hd
  obtain ⟨c, hc, hcid⟩ := Validator.standard_local _ _ v hv source batch d hd
  obtain rfl : c.id = id := Option.some.inj (hcid.symm.trans hdid)
  exact List.mem_map_of_mem hc

/-- The changes that the validators let pass. -/
def passed (a : Adapter ω) (batch : List InstanceChange) : List InstanceChange :=
  allowed (a.diagnostics batch) batch

/-- The visits to parents of lists in a deployment. -/
def visits (session : Session ω) (source : ElementSource) (batch : List InstanceChange) (w : ω) :
    List Visit :=
  (Pipeline.tour session ((standard session source).passed batch) w).1.visits

/-- What a deployment results in: what the validators say, and then what came of the changes that
they let pass. -/
theorem deploy_result (a : Adapter ω) (batch : List InstanceChange) (w : ω) :
    (a.deploy batch w).1
      = ⟨(a.pipeline.deploy (a.passed batch) w).1.1.applied,
          a.diagnostics batch ++ (a.pipeline.deploy (a.passed batch) w).1.1.errors⟩ := rfl

theorem standard_pipeline (session : Session ω) (source : ElementSource) :
    (standard session source).pipeline = .ofFilters session (Filter.standard session) := rfl

/-- If the books of the changes that were let pass balance, a change is accounted for unless it is
lost and not among the failed children. -/
theorem accounted_iff {ds : List Diagnostic} {batch : List InstanceChange}
    (hdistinct : (changedIds batch).Nodup)
    (hallowed : ∀ c ∈ batch, c ∈ allowed ds batch ↔ c.id ∉ reportedIds ds)
    {done : DeployResult} {lost failed : List ElementId}
    (hbalance : (done.ids ++ lost).Perm (changedIds (allowed ds batch) ++ failed))
    (hlost : lost.Subperm (changedIds (allowed ds batch))) {c : InstanceChange} (hc : c ∈ batch) :
    (c.id ∈ changedIds done.applied ∨ c.id ∈ reportedIds (ds ++ done.errors))
      ↔ ¬(c.id ∈ lost ∧ c.id ∉ failed) := by
  rw [reportedIds_append]
  by_cases hwithheld : c.id ∈ reportedIds ds
  · -- the change is reported by a validator, and so it was handed to no filter
    have hnotLost : c.id ∉ lost := by
      intro hmem
      obtain ⟨c', hc', hid⟩ := List.mem_map.mp (hlost.subset hmem)
      have hpassed := (hallowed c' (List.mem_of_mem_filter hc')).mp hc'
      rw [hid] at hpassed
      exact hpassed hwithheld
    exact iff_of_true (.inr (List.mem_append_left _ hwithheld)) fun h => hnotLost h.1
  · -- the change is in the books, once
    have hone : (changedIds (allowed ds batch)).count c.id = 1 := by
      have hnodup : (changedIds (allowed ds batch)).Nodup :=
        hdistinct.sublist (List.filter_sublist.map _)
      have hmem : c.id ∈ changedIds (allowed ds batch) :=
        List.mem_map_of_mem ((hallowed c hc).mpr hwithheld)
      rw [hnodup.count, if_pos hmem]
    have hcount := hbalance.count_eq c.id
    have hlostOnce := hlost.count_le c.id
    rw [List.count_append, List.count_append, hone] at hcount
    have hspoken : (c.id ∈ changedIds done.applied
        ∨ c.id ∈ reportedIds ds ++ reportedIds done.errors) ↔ c.id ∈ done.ids := by
      unfold DeployResult.ids
      simp only [List.mem_append, hwithheld, false_or]
    -- so it is spoken of unless it is lost and no failed child makes up for it
    rw [hspoken, ← List.count_pos_iff, ← List.count_pos_iff (l := lost), ← List.count_eq_zero]
    omega

end Adapter

/-- **A deployment with the standard filters and validators loses sight of a change exactly if**
it is that of a parent whose list of children is all that changed, one of the children could not
be deployed, and the parent is not itself among the children that could not.  Every other change
of the batch is applied or reported. -/
theorem deploy_accounts_unless_child_fails (session : Session ω) (source : ElementSource)
    (batch : List InstanceChange) (hdistinct : (changedIds batch).Nodup)
    (htop : ∀ c ∈ batch, c.id.isTopLevel = true) (w : ω) :
    let r := ((Adapter.standard session source).deploy batch w).1
    let visits := Adapter.visits session source batch w
    (∀ v ∈ visits, v.Genuine session.settings.filters.childOrder session.deployer)
    ∧ (∃ others : DeployResult,
        changedIds r.applied = changedIds (results visits).applied ++ changedIds others.applied
        ∧ reportedIds r.errors
          = reportedIds ((Adapter.standard session source).diagnostics batch)
            ++ (reportedIds (results visits).errors ++ reportedIds others.errors))
    ∧ ∀ c ∈ batch, (c.id ∈ changedIds r.applied ∨ c.id ∈ reportedIds r.errors)
        ↔ ¬(c.id ∈ visits.flatMap Visit.lost ∧ c.id ∉ visits.flatMap Visit.failed) := by
  intro r visits
  have hallowed (c : InstanceChange) (hc : c ∈ batch) :=
    Adapter.mem_allowed_iff (Adapter.reported_local session source batch)
      (List.forall_mem_map.mpr htop) hc
  obtain ⟨others, -, happlied, herrors⟩ :=
    Pipeline.deploy_tour session ((Adapter.standard session source).passed batch) w
  obtain ⟨hbalance, hlost⟩ :=
    Pipeline.deploy_balance session ((Adapter.standard session source).passed batch) w
  have hgenuine := (Pipeline.tour_spec session ((Adapter.standard session source).passed batch) w).2
  -- from here on only the result of the pipeline counts, and not how it comes about
  have hr : r = _ := Adapter.deploy_result (Adapter.standard session source) batch w
  rw [Adapter.standard_pipeline] at hr
  generalize ((Pipeline.ofFilters session (Filter.standard session)).deploy
    ((Adapter.standard session source).passed batch) w).1.1 = done at happlied herrors hbalance hr
  rw [hr]
  refine ⟨hgenuine, ⟨others, happlied, ?_⟩, ?_⟩
  · rw [reportedIds_append, herrors]
    rfl
  · exact fun c hc => Adapter.accounted_iff hdistinct hallowed hbalance hlost hc

/-- A category gets its first section. -/
def InstanceChange.firstSection : InstanceChange :=
  let category := ElementId.ofType "z" "category"
  let stored := Value.map [("id", .number (.int 1))]
  let child := Reference.to (.ofInstance "z" "section" "s") (some stored)
  .modification (.named "c" category [("sections", .list [])])
    (.named "c" category [("sections", .list [.reference child])])

/-- The section cannot be deployed and is reported; of the category nothing is said. -/
theorem deploy_loses_category :
    let c := InstanceChange.firstSection
    let r := ((Adapter.standard .ofSections fun _ => none).deploy [c] ()).1
    (changedIds [c]).Nodup ∧ c.id.isTopLevel = true
      ∧ changedIds r.applied = []
      ∧ reportedIds r.errors = [.ofInstance "z" "section" "s"]
      ∧ ¬(c.id ∈ changedIds r.applied ∨ c.id ∈ reportedIds r.errors) := by
  intro c r
  have happlied : changedIds r.applied = [] := rfl
  have herrors : reportedIds r.errors = [.ofInstance "z" "section" "s"] := rfl
  have hid : c.id = .ofInstance "z" "category" "c" := rfl
  refine ⟨by rw [changedIds_cons]; decide, rfl, happlied, herrors, ?_⟩
  rw [happlied, herrors, hid]
  decide

/-- The same beside a new category: that one is reported, as nothing tells how categories are
deployed. -/
theorem deploy_accounts_for_new_category :
    let batch := [.firstSection, .addition (.named "d" (.ofType "z" "category") [])]
    let r := ((Adapter.standard .ofSections fun _ => none).deploy batch ()).1
    let visits := Adapter.visits .ofSections (fun _ => none) batch ()
    visits.flatMap Visit.lost = [.ofInstance "z" "category" "c"]
      ∧ visits.flatMap Visit.failed = [.ofInstance "z" "section" "s"]
      ∧ reportedIds r.errors = [.ofInstance "z" "section" "s", .ofInstance "z" "category" "d"]
      ∧ ∀ c ∈ batch, (c.id ∈ changedIds r.applied ∨ c.id ∈ reportedIds r.errors)
          ↔ ¬(c.id ∈ visits.flatMap Visit.lost ∧ c.id ∉ visits.flatMap Visit.failed) := by
  intro batch r visits
  have hdistinct : (changedIds batch).Nodup := by
    show [ElementId.ofInstance "z" "category" "c", .ofInstance "z" "category" "d"].Nodup
    decide
  have htop : ∀ c ∈ batch, c.id.isTopLevel = true :=
    List.forall_mem_cons.mpr ⟨rfl, List.forall_mem_singleton.mpr rfl⟩
  exact ⟨rfl, rfl, rfl, (deploy_accounts_unless_child_fails .ofSections (fun _ => none) batch
    hdistinct htop ()).2.2⟩

end AccountSync
