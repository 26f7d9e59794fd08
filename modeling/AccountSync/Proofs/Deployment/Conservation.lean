/-
  AccountSync.Proofs.Deployment.Conservation
  ──────────────────────────────────────────
  **A DEPLOYMENT ACCOUNTS FOR EVERY CHANGE EXACTLY ONCE.**

  Nothing is assumed of the filters but that a deploy hook that succeeds distributes what
  it was handed over applied, reported and left over, and that restoring hooks keep the
  list of changes.  Which hooks fail, and when, makes no difference; neither do the client
  and the scheduler.  The handler at the end of the pipeline must not turn a change into one
  of another element: where it does, the result speaks of that element instead.

      Filter.Balanced            — what is assumed of a filter
      Course                     — how a deployment went
      Course.Accounts            — what the course says about the result
      Pipeline.deploy_accounts   — every deployment has such a course
      batch_not_accounted_for    — handlers and hooks that speak of other elements
-/
import AccountSync.Filter.Standard
import AccountSync.Proofs.Deployment.Chain

namespace AccountSync

variable {ω : Type}

/-! ## §1. Filters that keep the balance. -/

namespace Filter

/-- A deploy hook that succeeds distributes the changes that it was handed, and a restoring
hook that succeeds keeps the list of changes.  Hooks that do not count may do anything. -/
structure Balanced (f : Filter ω) : Prop where
  deploy : f.deploys = true → ∀ handed, Ensures (f.deploy handed)
    (fun outcome => ∀ done, outcome = .ok done → done.Distributes handed)
  onDeploy : f.phases.contains .onDeploy = true → f.onDeploy.KeepsIds

/-- The filter claims changes by a test and leaves the others over. -/
structure Routes (f : Filter ω) : Prop where
  deploy : ∃ (pool : Pool ω) (claims : InstanceChange → Bool) (handler : ChangeHandler ω),
    handler.KeepsIds ∧ f.deploy = fun changes => do
      let done ← pool.route claims handler changes
      pure (.ok done)
  onDeploy : f.phases.contains .onDeploy = true → f.onDeploy.KeepsIds

/-- A hook that never fails is balanced if what it comes to is. -/
theorem ensures_ok {x : StateM ω StageResult} {handed : List InstanceChange}
    (h : Ensures x (StageResult.Distributes handed)) :
    Ensures (do let done ← x; pure (.ok done) : StateM ω (Except Failure StageResult))
      (fun outcome => ∀ done, outcome = .ok done → done.Distributes handed) :=
  h.bind fun done hdone => .pure fun done' heq => by
    obtain rfl : done = done' := Except.ok.inj heq
    exact hdone

theorem Routes.balanced {f : Filter ω} (h : f.Routes) : f.Balanced := by
  obtain ⟨⟨pool, claims, handler, hids, hdeploy⟩, hon⟩ := h
  refine ⟨fun _ handed => ?_, hon⟩
  rw [hdeploy]
  exact ensures_ok (pool.route_distributes claims hids handed)

theorem orderInstance_routes (s : Session ω) : (orderInstance s).Routes :=
  ⟨⟨s.pool, _, _, OrderInstances.deployer_keepsIds _ s.client, rfl⟩, nofun⟩

theorem removalLast_balanced (s : Session ω) : (removalLast s).Balanced := by
  refine ⟨fun _ handed => ?_, nofun⟩
  let claims : InstanceChange → Bool :=
    fun c => s.settings.filters.removalLastTypes.contains c.typeName
  have hids := s.settings.deployer_keepsIds s.client
  have hclaimed := s.pool.deployRemovalsLast_ids hids (handed.partition claims).1
  exact hclaimed.bind fun r hr => .pure fun done hdone => by
    obtain rfl := Except.ok.inj hdone
    exact Pool.distributes_of_claimed hr

end Filter

/-! ## §2. The course of a deployment. -/

/-- How a deployment went: the turns that filters took, what they left over for the handler
of the pipeline, and the outcomes of that. -/
structure Course (ω : Type) where
  turns : List (Turn ω)
  rest : List InstanceChange
  outcomes : List Outcome

namespace Course

/-- What became of the changes that the filters left over. -/
def others (course : Course ω) : DeployResult :=
  .ofOutcomes course.outcomes

/-- The course of a deployment of prepared changes by a pipeline, and its result. -/
structure Accounts (p : Pipeline ω) (prepared : List InstanceChange) (course : Course ω)
    (r : DeployResult) : Prop where
  /-- The deploying filters take turns in order, each on what the one before left over. -/
  chain : Chain (p.stages.map Stage.filter) prepared course.turns course.rest
  /-- What is left over in the end goes to the handler of the pipeline, change by change. -/
  outcomes : OutcomesOf p.deployer course.rest course.outcomes
  /-- Applied changes are listed turn by turn, and those of the handler last. -/
  applied : changedIds r.applied
    = course.turns.flatMap (fun t => changedIds t.applied) ++ changedIds course.others.applied
  /-- The same holds of the errors about elements. -/
  errors : reportedIds r.errors
    = course.turns.flatMap (fun t => reportedIds t.errors) ++ reportedIds course.others.errors
  /-- A change gets to a later turn only if each earlier one left it over. -/
  passedOn : course.turns.Pairwise
    (fun t later => (changedIds later.handed).Subperm (changedIds t.leftover))
  /-- It gets to the handler only if all turns left it over. -/
  passedToHandler : ∀ t ∈ course.turns,
    (changedIds course.rest).Subperm (changedIds t.leftover)
  /-- If a hook fails, there is one error for each change that it was handed, and these
  changes get no further. -/
  failed : ∀ earlier t later, course.turns = earlier ++ t :: later → t.Failed →
    t.applied = [] ∧ reportedIds t.errors = changedIds t.handed ∧ later = [] ∧ course.rest = []
  /-- Each prepared change is dealt with in one turn or gets to the handler. -/
  divided : (course.turns.flatMap Turn.ids ++ changedIds course.rest).Perm (changedIds prepared)
  /-- Each of those that get to the handler has one outcome, and is applied or reported as
  the handler left it. -/
  settled : r.ids.Perm
    (course.turns.flatMap Turn.ids ++ course.outcomes.map (fun o => o.change.id))
  /-- So the result speaks of the prepared changes exactly if the handler was true to the
  elements that it got. -/
  balance : r.ids.Perm (changedIds prepared)
    ↔ (course.outcomes.map (fun o => o.change.id)).Perm (changedIds course.rest)
  /-- By a handler that always is, each prepared change is applied once or reported once. -/
  kept : p.deployer.KeepsIds → r.ids.Perm (changedIds prepared)

/-! ## §3. Turns of balanced filters. -/

theorem balanced_turn {filters : List (Filter ω)} (hbal : ∀ f ∈ filters, f.Balanced)
    {batch rest : List InstanceChange} {turns : List (Turn ω)}
    (h : Chain filters batch turns rest) {t : Turn ω} (ht : t ∈ turns) :
    t.stage.Distributes t.handed := by
  have hmem : t.filter ∈ filters.filter Filter.deploys :=
    h.inOrder.subset (List.mem_map_of_mem ht)
  obtain ⟨hfilter, hdeploys⟩ := List.mem_filter.mp hmem
  have hout := ((hbal _ hfilter).deploy hdeploys t.handed).of_yields (h.genuine t ht)
  obtain ⟨filter, handed, outcome⟩ := t
  cases outcome with
  | ok done => exact hout done rfl
  | error e =>
    -- nothing is assumed of a hook that fails: the pipeline reports all it was handed
    show (reportedIds (handed.map _) ++ []).Perm (changedIds handed)
    rw [reportedIds_errors, List.append_nil]

theorem leftover_subperm_handed {t : Turn ω} (h : t.stage.Distributes t.handed) :
    (changedIds t.leftover).Subperm (changedIds t.handed) :=
  (List.sublist_append_right _ _).subperm.trans h.subperm

/-- The elements of all turns are those of the applied changes and of the errors of all
turns. -/
theorem flatMap_ids (turns : List (Turn ω)) :
    (turns.flatMap (fun t => changedIds t.applied)
      ++ turns.flatMap (fun t => reportedIds t.errors)).Perm (turns.flatMap Turn.ids) := by
  induction turns with
  | nil => exact .nil
  | cons t turns ih =>
    simp only [List.perm_iff_count, List.flatMap_cons, List.count_append] at ih ⊢
    intro id
    have := ih id
    have : List.count id t.ids = List.count id (changedIds t.applied)
        + List.count id (reportedIds t.errors) := List.count_append
    omega

theorem changedIds_flatMap (turns : List (Turn ω)) :
    changedIds (turns.flatMap Turn.applied)
      = turns.flatMap (fun t => changedIds t.applied) := by
  unfold changedIds
  rw [List.map_flatMap]

theorem reportedIds_flatMap (turns : List (Turn ω)) :
    reportedIds (turns.flatMap Turn.errors)
      = turns.flatMap (fun t => reportedIds t.errors) := by
  unfold reportedIds
  rw [List.filter_flatMap, List.filterMap_flatMap]

end Course

/-! ## §4. Every deployment accounts for its batch. -/

namespace Pipeline

/-- The changes as the preparing hooks leave them, and the filters with what they remember
then. -/
def prepare (p : Pipeline ω) (batch : List InstanceChange) :
    StateM ω (Run ω (List InstanceChange)) :=
  runHooks .preDeploy .error Filter.preDeploy p.stages batch

/-- What is left over has outcomes, one per change; without changes there are none. -/
theorem deployLeftover_outcomes (p : Pipeline ω) (rest : List InstanceChange) :
    Ensures (p.deployLeftover rest) (fun r =>
      ∃ outcomes, OutcomesOf p.deployer rest outcomes ∧ r = .ofOutcomes outcomes) := by
  cases rest with
  | nil => exact .pure ⟨[], .nil, rfl⟩
  | cons c rest => exact p.pool.deploy_outcomes p.deployer (c :: rest)

/-- Balanced filters distribute together what they are handed. -/
theorem deployStages_distributes {stages : List (Stage ω)}
    (hbal : ∀ f ∈ stages.map Stage.filter, f.Balanced) (changes : List InstanceChange) :
    Ensures (deployStages stages changes) (StageResult.Distributes changes) := by
  refine (deployStages_chain stages changes).mono ?_
  rintro r ⟨turns, hchain, happlied, herrors⟩
  have hbalance := hchain.handover.balance fun t ht => Course.balanced_turn hbal hchain ht
  refine List.Perm.trans (List.Perm.append_right _ ?_) hbalance
  unfold DeployResult.ids
  rw [happlied, herrors, Course.changedIds_flatMap, Course.reportedIds_flatMap]
  exact Course.flatMap_ids turns

/-- What the filters deploy of a batch, and what they leave over. -/
def claim (p : Pipeline ω) (batch : List InstanceChange) : StateM ω StageResult := do
  let before ← p.prepare batch
  deployStages before.stages before.state

/-- What a deployment results in, in terms of its phases. -/
theorem deploy_result (p : Pipeline ω) (batch : List InstanceChange) (w : ω) :
    ∃ others restored,
      Yields (p.deployLeftover (p.claim batch w).1.leftover) others
      ∧ Yields (runHooks .onDeploy .error Filter.onDeploy (p.prepare batch w).1.stages
          ((p.claim batch w).1.result.applied ++ others.applied)) restored
      ∧ (p.deploy batch w).1.1 = ⟨restored.state,
          (p.prepare batch w).1.reports ++ ((p.claim batch w).1.result.errors ++ others.errors)
            ++ restored.reports⟩ :=
  ⟨_, _, ⟨_, rfl⟩, ⟨_, rfl⟩, rfl⟩

theorem prepare_filters (p : Pipeline ω) (batch : List InstanceChange) (w : ω) :
    (p.prepare batch w).1.stages.map Stage.filter = p.stages.map Stage.filter :=
  runHooks_filters _ _ _ p.stages batch w

theorem claim_chain (p : Pipeline ω) (batch : List InstanceChange) (w : ω) :
    ∃ turns, Chain (p.stages.map Stage.filter) (p.prepare batch w).1.state turns
        (p.claim batch w).1.leftover
      ∧ (p.claim batch w).1.result.applied = turns.flatMap Turn.applied
      ∧ (p.claim batch w).1.result.errors = turns.flatMap Turn.errors := by
  rw [← p.prepare_filters batch w]
  exact deployStages_chain (p.prepare batch w).1.stages (p.prepare batch w).1.state
    (p.prepare batch w).2

/-- The elements that a deployment speaks of: those of the filters, and then those of the handler
of the pipeline.  What the hooks at both ends report is about no element. -/
theorem deploy_phases (p : Pipeline ω)
    (hkeep : ∀ f ∈ p.stages.map Stage.filter,
      f.phases.contains .onDeploy = true → f.onDeploy.KeepsIds)
    (batch : List InstanceChange) (w : ω) :
    ∃ outcomes, OutcomesOf p.deployer (p.claim batch w).1.leftover outcomes
      ∧ changedIds (p.deploy batch w).1.1.applied
        = changedIds (p.claim batch w).1.result.applied
          ++ changedIds (DeployResult.ofOutcomes outcomes).applied
      ∧ reportedIds (p.deploy batch w).1.1.errors
        = reportedIds (p.claim batch w).1.result.errors
          ++ reportedIds (DeployResult.ofOutcomes outcomes).errors := by
  obtain ⟨others, restored, hothers, hrestored, hresult⟩ := p.deploy_result batch w
  obtain ⟨outcomes, hout, rfl⟩ := (p.deployLeftover_outcomes _).of_yields hothers
  rw [← p.prepare_filters batch w] at hkeep
  have hstate := (runHooks_ids .error hkeep _).of_yields hrestored
  -- the reports of the hooks at both ends are about no element, and so they do not count
  have hbefore : reportedIds (p.prepare batch w).1.reports = [] :=
    runHooks_reports _ _ _ p.stages batch w
  have hafter := (runHooks_reports _ _ _ _ _).of_yields hrestored
  refine ⟨outcomes, hout, ?_, ?_⟩
  · rw [hresult, ← changedIds_append]
    exact hstate
  · rw [hresult]
    simp only [reportedIds_append, hbefore, hafter, List.nil_append, List.append_nil]

theorem deploy_accounts (p : Pipeline ω) (hbal : ∀ f ∈ p.stages.map Stage.filter, f.Balanced)
    (batch : List InstanceChange) (w : ω) :
    ∃ course : Course ω, course.Accounts p (p.prepare batch w).1.state (p.deploy batch w).1.1 := by
  obtain ⟨outcomes, hout, happliedIds, herrorIds⟩ :=
    p.deploy_phases (fun f hf => (hbal f hf).onDeploy) batch w
  obtain ⟨turns, hchain, happlied, herrors⟩ := p.claim_chain batch w
  rw [happlied, Course.changedIds_flatMap] at happliedIds
  rw [herrors, Course.reportedIds_flatMap] at herrorIds
  have hturn : ∀ t ∈ turns, t.stage.Distributes t.handed :=
    fun t ht => Course.balanced_turn hbal hchain ht
  obtain ⟨hpassed, hhandler, -, -⟩ := hchain.handover.leftover_subperm
    fun t ht => Course.leftover_subperm_handed (hturn t ht)
  have hdivided := hchain.handover.balance hturn
  -- the books are kept for the turns first, and the handler comes on top
  have hsettled : (p.deploy batch w).1.1.ids.Perm
      (turns.flatMap Turn.ids ++ outcomes.map (fun o => o.change.id)) := by
    have hturns := Course.flatMap_ids turns
    have hothersIds := ofOutcomes_ids outcomes
    unfold DeployResult.ids at hothersIds ⊢
    rw [happliedIds, herrorIds]
    simp only [List.perm_iff_count, List.count_append] at hturns hothersIds ⊢
    intro id
    have := hturns id
    have := hothersIds id
    omega
  exact ⟨⟨turns, (p.claim batch w).1.leftover, outcomes⟩, {
    chain := hchain
    outcomes := hout
    applied := happliedIds
    errors := herrorIds
    passedOn := hpassed
    passedToHandler := hhandler
    failed := by
      intro earlier t later hturns hfailed
      have hover := hchain.handover
      rw [show turns = earlier ++ t :: later from hturns] at hover
      obtain ⟨hnone, hrest⟩ := hover.of_failed hfailed
      obtain ⟨hnothing, hreported, -⟩ := hfailed.stage
      exact ⟨hnothing, hreported, hnone, hrest⟩
    divided := hdivided
    settled := hsettled
    balance := by
      -- both sides have the turns in common
      rw [hsettled.congr_left, ← hdivided.congr_right, List.perm_append_left_iff]
    kept := fun hids => by
      rw [hout.ids hids] at hsettled
      exact hsettled.trans hdivided }⟩

end Pipeline

/-- **Every deployment accounts for its batch**, whatever hooks fail: by a pipeline of balanced
filters each prepared change is applied or reported exactly once, if the handler at the end leaves
each change with its element.  Filters that claim changes by a test and leave the others over are
balanced if their handlers do so, and so are those of the library that deploy reordered children
and late removals. -/
theorem deploy_accounts_for_batch :
    (∀ p : Pipeline ω, (∀ f ∈ p.stages.map Stage.filter, f.Balanced) →
      ∀ (batch : List InstanceChange) (w : ω), ∃ course : Course ω,
        course.Accounts p (p.prepare batch w).1.state (p.deploy batch w).1.1)
    ∧ ∀ (s : Session ω) (f : Filter ω),
      f = .removalLast s ∨ f = .orderInstance s ∨ f.Routes → f.Balanced := by
  refine ⟨fun p hbal batch w => p.deploy_accounts hbal batch w, fun s f h => ?_⟩
  rcases h with rfl | rfl | h
  · exact Filter.removalLast_balanced s
  · exact (Filter.orderInstance_routes s).balanced
  · exact h.balanced

/-- The first filter claims additions, the second one fails: of an addition and a removal the
one is applied and the other is reported. -/
theorem deploy_accounts_for_failing_hook :
    let done : ChangeHandler Unit := .ofFinish (fun c => pure ⟨c, .ok ()⟩)
    let pool : Pool Unit := ⟨2, .eager⟩
    let claiming : Filter Unit := {
      name := "claiming"
      phases := [.deploy]
      deploy := fun changes => do
        let r ← pool.route Change.isAddition done changes
        pure (.ok r) }
    let failing : Filter Unit := {
      name := "failing"
      phases := [.deploy]
      deploy := fun _ => pure (.error .malformedJson) }
    let p : Pipeline Unit := ⟨[⟨claiming, {}⟩, ⟨failing, {}⟩], done, pool⟩
    let batch : List InstanceChange :=
      [.removal (.named "a" (.ofType "z" "t") []), .addition (.named "b" (.ofType "z" "t") [])]
    (∃ course : Course Unit, course.Accounts p (p.prepare batch ()).1.state (p.deploy batch ()).1.1)
      ∧ p.deployer.KeepsIds
      ∧ (p.deploy batch ()).1.1.ids.Perm (changedIds batch)
      ∧ changedIds (p.deploy batch ()).1.1.applied = [.ofInstance "z" "t" "b"]
      ∧ reportedIds (p.deploy batch ()).1.1.errors = [.ofInstance "z" "t" "a"] := by
  intro done pool claiming failing p batch
  have hids : done.KeepsIds := fun _ => .pure rfl
  have hbal : ∀ f ∈ p.stages.map Stage.filter, f.Balanced := by
    intro f hf
    simp only [p, List.map_cons, List.map_nil, List.mem_cons, List.not_mem_nil, or_false] at hf
    rcases hf with rfl | rfl
    · exact Filter.Routes.balanced ⟨⟨pool, _, done, hids, rfl⟩, nofun⟩
    · exact ⟨fun _ _ => .pure nofun, nofun⟩
  obtain ⟨course, haccounts⟩ := deploy_accounts_for_batch.1 p hbal batch ()
  exact ⟨⟨course, haccounts⟩, hids, haccounts.kept hids, rfl, rfl⟩

/-- An account in which sections are ordered in their category, and which answers no request. -/
def Session.ofSections : Session Unit where
  settings := {
    adapter := "z"
    client := { baseUrl := "https://a" }
    filters := {
      childOrder := [{
        parentType := "category"
        childType := "section"
        orderField := "sections"
        parentIdField := "category_id" }] } }
  client := ⟨fun _ => pure (.error { status := none, message := "" })⟩
  next := .eager

/-- A category gets another name and its first section. -/
def InstanceChange.renamedWithSection : InstanceChange :=
  let category := ElementId.ofType "z" "category"
  let stored := Value.map [("id", .number (.int 1))]
  let child := Reference.to (.ofInstance "z" "section" "s") (some stored)
  .modification (.named "c" category [("name", .string "x"), ("sections", .list [])])
    (.named "c" category [("name", .string "y"), ("sections", .list [.reference child])])

/-- A result may speak of other elements than its batch.  A handler that turns a change of `a` into
one of `b` leaves a result about `b` only.  And where a category is changed that also gets its
first section, the filter leaves the category over, so that nothing of the batch is lost, but it
reports the section, which cannot be deployed. -/
theorem batch_not_accounted_for :
    let a : ElementId := .ofInstance "z" "t" "a"
    let b : ElementId := .ofInstance "z" "t" "b"
    let c : ElementId := .ofInstance "z" "category" "c"
    let s : ElementId := .ofInstance "z" "section" "s"
    let done : ChangeHandler Unit := .ofFinish (fun c => pure ⟨c, .ok ()⟩)
    let turning : ChangeHandler Unit :=
      .ofFinish (fun c => pure ⟨c.map (fun i => { i with id := b }), .ok ()⟩)
    let lists : Filter Unit := .childOrder .ofSections
    let p : Pipeline Unit := ⟨[], turning, ⟨1, .inTurn⟩⟩
    let p' : Pipeline Unit := ⟨[⟨lists, {}⟩], done, ⟨1, .inTurn⟩⟩
    let batch : List InstanceChange := [.removal (.named "a" (.ofType "z" "t") [])]
    let batch' := [.renamedWithSection]
    ((∀ f ∈ p.stages.map Stage.filter, f.Balanced)
        ∧ (p.prepare batch ()).1.state = batch ∧ changedIds batch = [a]
        ∧ (p.deploy batch ()).1.1.ids = [b])
      ∧ ((∃ errors, (lists.deploy batch' ()).1 = .ok ⟨⟨[], errors⟩, batch'⟩)
        ∧ (p'.prepare batch' ()).1.state = batch' ∧ changedIds batch' = [c]
        ∧ (p'.deploy batch' ()).1.1.ids = [c, s])
      ∧ ¬[b].Perm [a] ∧ ¬[c, s].Perm [c] := by
  intro a b c s done turning lists p p' batch batch'
  have hturned : (p.deploy batch ()).1.1.ids = [b] := rfl
  have hreported : (p'.deploy batch' ()).1.1.ids = [c, s] := rfl
  refine ⟨⟨fun f hf => absurd hf List.not_mem_nil, rfl, rfl, hturned⟩,
    ⟨⟨_, rfl⟩, rfl, rfl, hreported⟩, ?_, ?_⟩
  · decide
  · decide

end AccountSync
