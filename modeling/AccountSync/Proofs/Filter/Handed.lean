/-
  AccountSync.Proofs.Filter.Handed
  ────────────────────────────────
  **WHAT HOOKS AND HANDLERS ARE HANDED.**

  A hook works on the changes that it is handed, and on no others unless it makes them up.  So
  hooks are put on record in the way of handlers, with an entry for each change that one is
  handed.  If no filter turns changes of some elements into changes of others, nothing but
  changes of these elements is on record.

      Pipeline.recorded            — a pipeline with everything that is handed over on record
      Pipeline.deploy_erases       — the record takes no part in a deployment
      Filter.StaysWithin           — changes of some elements never turn into others
      Pipeline.deploy_handed       — no changes but those are handed to hooks and handlers
      Filter.standard_staysWithin  — the standard filters make up no changes
-/
import AccountSync.Proofs.Adapter
import AccountSync.Proofs.Deployment.Schedule

namespace AccountSync

variable {ω α γ γ' δ σ : Type}

/-! ## §1. Hooks on record. -/

/-- A computation on changes, after an entry for each of them. -/
def handing (changes : List InstanceChange) (x : StateM ω γ) : LoggedM ω InstanceChange γ :=
  fun p => let r := x p.1; (r.1, (r.2, p.2 ++ changes.map .began))

/-- The hook with what it is handed on record. -/
def Hook.recorded (hook : Hook ω (List InstanceChange)) :
    Hook (ω × CallLog InstanceChange) (List InstanceChange) :=
  fun changes memory => handing changes (hook changes memory)

/-- The filter with the changes that it is handed on record. -/
def Filter.recorded (f : Filter ω) : Filter (ω × CallLog InstanceChange) where
  name := f.name
  phases := f.phases
  onFetch elements memory := unaware (f.onFetch elements memory)
  preDeploy := f.preDeploy.recorded
  deploy changes := handing changes (f.deploy changes)
  onDeploy := f.onDeploy.recorded

/-- The filter on record remembers what it would remember otherwise. -/
def Stage.recorded (stage : Stage ω) : Stage (ω × CallLog InstanceChange) :=
  ⟨stage.filter.recorded, stage.memory⟩

namespace Pipeline

/-- What comes out of running the hooks on record. -/
def Run.recorded (run : Run ω σ) : Run (ω × CallLog InstanceChange) σ :=
  ⟨run.state, run.reports, run.stages.map Stage.recorded⟩

/-- The pipeline with the changes that its hooks and its deployer are handed on record. -/
def recorded (p : Pipeline ω) : Pipeline (ω × CallLog InstanceChange) :=
  ⟨p.stages.map Stage.recorded, p.deployer.recorded, p.pool.recorded⟩

end Pipeline

/-! ## §2. The record takes no part in a deployment. -/

namespace Erases

theorem handing (changes : List InstanceChange) (x : StateM ω γ) :
    Erases (AccountSync.handing changes x) x :=
  fun _ _ => ⟨rfl, rfl⟩

/-- Results that have a form of their own on record are passed on in that form. -/
theorem bind_map {x' : LoggedM ω α γ'} {x : StateM ω γ} {g : γ → γ'} {f' : γ' → LoggedM ω α δ}
    {f : γ → StateM ω δ} (hx : Erases x' (g <$> x)) (hf : ∀ c, Erases (f' (g c)) (f c)) :
    Erases (x' >>= f') (x >>= f) := by
  intro w log
  obtain ⟨hresult, hworld⟩ := hx w log
  have hrest := hf (x w).1 (x w).2 (x' (w, log)).2.2
  have hresult : (x' (w, log)).1 = g (x w).1 := hresult
  have hworld : (x' (w, log)).2.1 = (x w).2 := hworld
  rw [bind_apply, bind_apply, hresult]
  rw [← hworld] at hrest ⊢
  exact hrest

end Erases

namespace Pipeline

theorem runHooks_erases (phase : Phase) (severity : Severity)
    {hook : Filter ω → Hook ω (List InstanceChange)}
    {hook' : Filter (ω × CallLog InstanceChange) →
      Hook (ω × CallLog InstanceChange) (List InstanceChange)}
    (hhook : ∀ f : Filter ω, hook' f.recorded = (hook f).recorded) (stages : List (Stage ω))
    (changes : List InstanceChange) :
    Erases (runHooks phase severity hook' (stages.map Stage.recorded) changes)
      (Run.recorded <$> runHooks phase severity hook stages changes) := by
  -- on the filters: each call is made in the same state, with the log set aside
  induction stages generalizing changes with
  | nil => exact .pure _
  | cons stage rest ih =>
    rw [List.map_cons]
    unfold runHooks
    by_cases hphase : stage.filter.phases.contains phase = true
    · have hphase' : stage.recorded.filter.phases.contains phase = true := hphase
      have hcall : Erases (hook' stage.recorded.filter changes stage.memory)
          (hook stage.filter changes stage.memory) := by
        show Erases (hook' stage.filter.recorded changes stage.memory) _
        rw [hhook]
        exact .handing changes _
      rw [if_pos hphase, if_pos hphase', map_bind]
      refine hcall.bind fun done => ?_
      rw [map_bind]
      exact (ih _).bind_map fun later => .pure _
    · have hphase' : ¬stage.recorded.filter.phases.contains phase = true := hphase
      rw [if_neg hphase, if_neg hphase', map_bind]
      exact (ih changes).bind_map fun later => .pure _

theorem deployStages_erases (stages : List (Stage ω)) (changes : List InstanceChange) :
    Erases (deployStages (stages.map Stage.recorded) changes) (deployStages stages changes) := by
  induction stages generalizing changes with
  | nil => exact .pure _
  | cons stage rest ih =>
    rw [List.map_cons]
    cases hdeploys : stage.filter.deploys with
    | false =>
      have hdeploys' : stage.recorded.filter.deploys = false := hdeploys
      rw [deployStages_skip hdeploys, deployStages_skip hdeploys']
      exact ih changes
    | true =>
      have hdeploys' : stage.recorded.filter.deploys = true := hdeploys
      cases changes with
      | nil => exact ih []
      | cons c changes =>
        have hne : c :: changes ≠ [] := List.cons_ne_nil c changes
        rw [deployStages_turn hdeploys rest hne, deployStages_turn hdeploys' _ hne]
        refine (Erases.handing (c :: changes) (stage.filter.deploy _)).bind fun outcome => ?_
        cases outcome with
        | error e => exact .pure _
        | ok done => exact (ih done.leftover).bind fun later => .pure _

theorem deployLeftover_erases (p : Pipeline ω) (changes : List InstanceChange) :
    Erases (p.recorded.deployLeftover changes) (p.deployLeftover changes) := by
  unfold deployLeftover
  split
  · exact .pure _
  · exact p.pool.deploy_erases p.deployer changes

/-- **Putting on record what is handed over takes no part in a deployment.** -/
theorem deploy_erases (p : Pipeline ω) (changes : List InstanceChange) :
    Erases (p.recorded.deploy changes)
      ((fun r => (r.1, r.2.recorded)) <$> p.deploy changes) := by
  unfold deploy
  rw [map_bind]
  refine (runHooks_erases .preDeploy .error (fun _ => rfl) p.stages changes).bind_map
    fun before => ?_
  rw [map_bind]
  refine (deployStages_erases before.stages before.state).bind fun claimed => ?_
  rw [map_bind]
  refine (p.deployLeftover_erases claimed.leftover).bind fun others => ?_
  rw [map_bind]
  refine (runHooks_erases .onDeploy .error (fun _ => rfl) before.stages _).bind_map fun after => ?_
  exact .pure _

/-- On record, a deployment comes to the same result and leaves the same world behind. -/
theorem deploy_recorded (p : Pipeline ω) (changes : List InstanceChange) (w : ω) :
    (p.recorded.deploy changes (w, [])).1.1 = (p.deploy changes w).1.1
      ∧ (p.recorded.deploy changes (w, [])).2.1 = (p.deploy changes w).2 := by
  have herased := p.deploy_erases changes w []
  exact ⟨congrArg Prod.fst herased.1, herased.2⟩

end Pipeline

/-! ## §3. Filters that make up no changes. -/

/-- All changes are about elements with the property. -/
def About (P : ElementId → Prop) (changes : List InstanceChange) : Prop :=
  ∀ id ∈ changedIds changes, P id

/-- Unless it fails, the hook leaves changes of certain elements as changes of such elements. -/
def Hook.StaysWithin (P : ElementId → Prop) (hook : Hook ω (List InstanceChange)) : Prop :=
  ∀ changes memory, About P changes →
    Ensures (hook changes memory) (fun done => done.result = .ok () → About P done.state)

/-- Of changes of certain elements the filter applies and leaves over only changes of such
elements. -/
def Filter.DeploysWithin (P : ElementId → Prop) (f : Filter ω) : Prop :=
  ∀ handed, About P handed → Ensures (f.deploy handed) (fun outcome =>
    ∀ done, outcome = .ok done → About P done.result.applied ∧ About P done.leftover)

/-- The filter makes up no changes: in every phase that it declares, changes of certain elements
come to changes of such elements. -/
structure Filter.StaysWithin (P : ElementId → Prop) (f : Filter ω) : Prop where
  preDeploy : f.phases.contains .preDeploy = true → f.preDeploy.StaysWithin P
  deploy : f.phases.contains .deploy = true → f.DeploysWithin P
  onDeploy : f.phases.contains .onDeploy = true → f.onDeploy.StaysWithin P

section

variable {P : ElementId → Prop}

theorem About.nil : About P [] :=
  List.forall_mem_nil _

theorem About.append {a b : List InstanceChange} (ha : About P a) (hb : About P b) :
    About P (a ++ b) := by
  intro id hid
  rw [changedIds_append] at hid
  exact (List.mem_append.mp hid).elim (ha id) (hb id)

theorem About.of_subset {a b : List InstanceChange} (h : About P b)
    (hsub : changedIds a ⊆ changedIds b) : About P a :=
  fun id hid => h id (hsub hid)

theorem About.forall {changes : List InstanceChange} (h : About P changes) :
    ∀ c ∈ changes, P c.id :=
  fun c hc => h c.id (List.mem_map_of_mem hc)

theorem Hook.KeepsIds.staysWithin {hook : Hook ω (List InstanceChange)} (h : hook.KeepsIds)
    (P : ElementId → Prop) : hook.StaysWithin P := by
  intro changes memory hchanges
  refine (h changes memory).mono fun done hdone hok => ?_
  unfold About
  rw [hdone hok]
  exact hchanges

/-- What is distributed is what was handed over. -/
theorem StageResult.Distributes.about {handed : List InstanceChange} {r : StageResult}
    (h : r.Distributes handed) (hhanded : About P handed) :
    About P r.result.applied ∧ About P r.leftover := by
  constructor
  · refine hhanded.of_subset fun id hid => h.subset ?_
    exact List.mem_append_left _ (List.mem_append_left _ hid)
  · exact hhanded.of_subset fun id hid => h.subset (List.mem_append_right _ hid)

end

/-! ## §4. The standard filters. -/

/-- What is applied and what is left over are changes that were handed over. -/
def StageResult.Within (handed : List InstanceChange) (r : StageResult) : Prop :=
  r.result.applied ⊆ handed ∧ r.leftover ⊆ handed

namespace Children

variable (pool : Pool ω) (handler : ChangeHandler ω)

theorem settled_within (kind : OrderChange) (c : InstanceChange) (errors : List Diagnostic) :
    (settled kind c errors).Within [c] := by
  have halone : (if errors.isEmpty then [c] else []) ⊆ [c] := by
    split
    · exact List.Subset.refl _
    · exact List.nil_subset _
  cases kind with
  | mixed => exact ⟨List.nil_subset _, List.Subset.refl _⟩
  | orderOnly | noOrder => exact ⟨halone, List.nil_subset _⟩

theorem deployParent_within (rule : ChildOrderRule) (c : InstanceChange) :
    Ensures (deployParent pool handler rule c) (StageResult.Within [c]) := by
  unfold deployParent
  split
  · exact .pure ⟨List.nil_subset _, List.Subset.refl _⟩
  · split
    · exact .pure ⟨List.nil_subset _, List.nil_subset _⟩
    · -- the children are deployed, but none of them counts as applied
      exact (Ensures.yields _).bind fun done _ => .pure (settled_within _ c done.errors)

theorem deployOrder_within (rule : ChildOrderRule) (changes : List InstanceChange) :
    Ensures (deployOrder pool handler rule changes) (StageResult.Within changes) := by
  induction changes with
  | nil => exact .pure ⟨List.Subset.refl _, List.Subset.refl _⟩
  | cons c rest ih =>
    refine (deployParent_within pool handler rule c).bind fun first hfirst => ?_
    have hc : [c] ⊆ c :: rest := List.cons_subset_cons c (List.nil_subset rest)
    have hrest : rest ⊆ c :: rest := List.subset_cons_self c rest
    refine ih.bind fun others hothers => .pure ⟨?_, ?_⟩
    · exact List.append_subset.mpr
        ⟨List.Subset.trans hfirst.1 hc, List.Subset.trans hothers.1 hrest⟩
    · exact List.append_subset.mpr
        ⟨List.Subset.trans hfirst.2 hc, List.Subset.trans hothers.2 hrest⟩

theorem deployLists_within (rules : List ChildOrderRule) (changes : List InstanceChange) :
    Ensures (deployLists pool handler rules changes) (StageResult.Within changes) := by
  induction rules generalizing changes with
  | nil => exact .pure ⟨List.nil_subset _, List.Subset.refl _⟩
  | cons rule rest ih =>
    refine (deployOrder_within pool handler rule changes).bind fun first hfirst => ?_
    refine (ih first.leftover).bind fun others hothers => .pure ⟨?_, ?_⟩
    · exact List.append_subset.mpr ⟨hfirst.1, List.Subset.trans hothers.1 hfirst.2⟩
    · exact List.Subset.trans hothers.2 hfirst.2

end Children

namespace Filter

/-- A balanced filter whose preparing hook keeps the list of changes makes up none. -/
theorem Balanced.staysWithin {f : Filter ω} (h : f.Balanced)
    (hpre : f.phases.contains .preDeploy = true → f.preDeploy.KeepsIds) (P : ElementId → Prop) :
    f.StaysWithin P where
  preDeploy hphase := (hpre hphase).staysWithin P
  deploy hdeploys handed hhanded :=
    (h.deploy hdeploys handed).mono fun _ hout done hdone => (hout done hdone).about hhanded
  onDeploy hphase := (h.onDeploy hphase).staysWithin P

/-- The parents whose lists are deployed are among what was handed over; their children are sent
to the account and never applied. -/
theorem childOrder_deploysWithin (s : Session ω) (P : ElementId → Prop) :
    (childOrder s).DeploysWithin P := by
  intro handed hhanded
  refine (Children.deployLists_within s.pool s.deployer s.settings.filters.childOrder handed).bind
    fun done hdone => .pure fun done' heq => ?_
  obtain rfl := Except.ok.inj heq
  exact ⟨hhanded.of_subset (List.map_subset _ hdone.1),
    hhanded.of_subset (List.map_subset _ hdone.2)⟩

theorem standard_deploysWithin (s : Session ω) (P : ElementId → Prop) :
    ∀ f ∈ standard s, f.phases.contains .deploy = true → f.DeploysWithin P := by
  unfold standard
  simp only [List.forall_mem_cons]
  -- three filters deploy, of which the one of lists is not balanced
  refine ⟨nofun, nofun, nofun, nofun, fun _ => ?_, ?_, ?_, nofun⟩
  · exact childOrder_deploysWithin s P
  · exact ((orderInstance_routes s).balanced.staysWithin nofun P).deploy
  · exact ((removalLast_balanced s).staysWithin nofun P).deploy

/-- The standard filters deploy, prepare and restore what they are handed. -/
theorem standard_staysWithin (s : Session ω) (P : ElementId → Prop) :
    ∀ f ∈ standard s, f.StaysWithin P := fun f hf => {
  preDeploy := fun h => (standard_preDeploy_keepsIds s f hf h).staysWithin P
  deploy := standard_deploysWithin s P f hf
  onDeploy := fun h => (standard_onDeploy_keepsIds s f hf h).staysWithin P }

end Filter

/-! ## §5. What is on record. -/

/-- On record, what the hook is handed and what it leaves is about elements with the property. -/
def Hook.Records (P : ElementId → Prop)
    (hook : Hook (ω × CallLog InstanceChange) (List InstanceChange)) : Prop :=
  ∀ changes memory (log : CallLog InstanceChange), About P changes → About P log.begun →
    Logs (hook changes memory) log
      (fun done log' => (done.result = .ok () → About P done.state) ∧ About P log'.begun)

/-- On record, what the filter is handed and what comes of it is about elements with the
property. -/
structure Filter.Records (P : ElementId → Prop) (f : Filter (ω × CallLog InstanceChange)) :
    Prop where
  preDeploy : f.phases.contains .preDeploy = true → f.preDeploy.Records P
  deploy : f.deploys = true → ∀ handed (log : CallLog InstanceChange),
    About P handed → About P log.begun → Logs (f.deploy handed) log
      (fun outcome log' => (∀ done, outcome = .ok done →
        About P done.result.applied ∧ About P done.leftover) ∧ About P log'.begun)
  onDeploy : f.phases.contains .onDeploy = true → f.onDeploy.Records P

section

variable {P : ElementId → Prop}

theorem CallLog.begun_map_began (items : List α) : begun (items.map .began) = items := by
  induction items with
  | nil => rfl
  | cons item rest ih => exact congrArg (item :: ·) ih

/-- What is handed over is put on record. -/
theorem Logs.handing {x : StateM ω γ} {Q : γ → Prop} (hx : Ensures x Q)
    {changes : List InstanceChange} {log : CallLog InstanceChange} (hchanges : About P changes)
    (hlog : About P log.begun) :
    Logs (AccountSync.handing changes x) log (fun c log' => Q c ∧ About P log'.begun) := by
  intro w
  refine ⟨hx w, ?_⟩
  show About P (CallLog.begun (log ++ changes.map .began))
  rw [CallLog.begun_append, CallLog.begun_map_began]
  exact hlog.append hchanges

theorem Hook.StaysWithin.recorded {hook : Hook ω (List InstanceChange)}
    (h : hook.StaysWithin P) : hook.recorded.Records P :=
  fun changes memory _ hchanges hlog => .handing (h changes memory hchanges) hchanges hlog

theorem Filter.StaysWithin.recorded {f : Filter ω} (h : f.StaysWithin P) :
    f.recorded.Records P where
  preDeploy hphase := (h.preDeploy hphase).recorded
  deploy hdeploys handed _ hhanded hlog :=
    .handing (h.deploy hdeploys handed hhanded) hhanded hlog
  onDeploy hphase := (h.onDeploy hphase).recorded

namespace Pipeline

variable {log : CallLog InstanceChange}

theorem runHooks_records {phase : Phase} (severity : Severity)
    {hook : Filter (ω × CallLog InstanceChange) →
      Hook (ω × CallLog InstanceChange) (List InstanceChange)}
    {stages : List (Stage (ω × CallLog InstanceChange))}
    (hhook : ∀ f ∈ stages.map Stage.filter, f.phases.contains phase = true → (hook f).Records P)
    {changes : List InstanceChange} (hchanges : About P changes) (hlog : About P log.begun) :
    Logs (runHooks phase severity hook stages changes) log
      (fun run log' => About P run.state ∧ About P log'.begun) := by
  induction stages generalizing changes log with
  | nil => exact .pure ⟨hchanges, hlog⟩
  | cons stage rest ih =>
    obtain ⟨hstage, hrest⟩ := List.forall_mem_cons.mp hhook
    unfold runHooks
    split
    next hphase =>
      refine (hstage hphase changes stage.memory log hchanges hlog).bind fun done log' hdone => ?_
      obtain ⟨hstate, hlog'⟩ := hdone
      -- if the hook fails, what it did is undone
      have hkept : About P (keptState changes done) := by
        unfold keptState
        split
        next hok => exact hstate hok
        · exact hchanges
      exact (ih hrest hkept hlog').bind fun later log'' hlater => .pure hlater
    · exact (ih hrest hchanges hlog).bind fun later log' hlater => .pure hlater

theorem deployStages_records {stages : List (Stage (ω × CallLog InstanceChange))}
    (hfilters : ∀ f ∈ stages.map Stage.filter, f.Records P)
    {changes : List InstanceChange} (hchanges : About P changes) (hlog : About P log.begun) :
    Logs (deployStages stages changes) log (fun r log' =>
      (About P r.result.applied ∧ About P r.leftover) ∧ About P log'.begun) := by
  induction stages generalizing changes log with
  | nil => exact .pure ⟨⟨.nil, hchanges⟩, hlog⟩
  | cons stage rest ih =>
    obtain ⟨hstage, hrest⟩ := List.forall_mem_cons.mp hfilters
    cases hdeploys : stage.filter.deploys with
    | false =>
      rw [deployStages_skip hdeploys]
      exact ih hrest hchanges hlog
    | true =>
      cases changes with
      | nil => exact ih hrest hchanges hlog
      | cons c changes =>
        rw [deployStages_turn hdeploys rest (List.cons_ne_nil c changes)]
        refine (hstage.deploy hdeploys _ log hchanges hlog).bind fun outcome log' hout => ?_
        obtain ⟨hdone, hlog'⟩ := hout
        cases outcome with
        | error e =>
          -- nothing is applied and nothing left over, but what was handed over stays on record
          exact .pure ⟨⟨.nil, .nil⟩, hlog'⟩
        | ok done =>
          obtain ⟨happlied, hleft⟩ := hdone done rfl
          refine (ih hrest hleft hlog').bind fun later log'' hlater => .pure ?_
          obtain ⟨⟨happlied', hleft'⟩, hlog''⟩ := hlater
          exact ⟨⟨happlied.append happlied', hleft'⟩, hlog''⟩

theorem deployLeftover_records (p : Pipeline ω) (hids : p.deployer.KeepsIds)
    {changes : List InstanceChange} (hchanges : About P changes) (hlog : About P log.begun) :
    Logs (p.recorded.deployLeftover changes) log
      (fun r log' => About P r.applied ∧ About P log'.begun) := by
  unfold deployLeftover
  split
  · exact .pure ⟨.nil, hlog⟩
  · intro w
    have hids' : p.recorded.deployer.KeepsIds := fun c p => hids c p.1
    have hdone := p.recorded.pool.deploy_ids hids' changes (w, log)
    obtain ⟨new, hnew, hserves⟩ := p.pool.deploy_logs p.deployer changes log w
    refine ⟨hchanges.of_subset fun id hid => ?_, ?_⟩
    · exact hdone.subset (List.mem_append_left _ hid)
    · show About P (CallLog.begun (p.pool.recorded.deploy p.deployer.recorded changes (w, log)).2.2)
      rw [hnew, CallLog.begun_append, hserves.inOrder]
      exact hlog.append hchanges

/-- **Where no filter makes up changes of other elements, none is handed to a hook or to the
deployer, and none is applied.** -/
theorem deploy_handed (p : Pipeline ω) (hfilters : ∀ f ∈ p.stages.map Stage.filter, f.StaysWithin P)
    (hids : p.deployer.KeepsIds) {changes : List InstanceChange} (hchanges : About P changes) :
    Logs (p.recorded.deploy changes) []
      (fun r log => About P r.1.applied ∧ About P log.begun) := by
  have hrecords : ∀ f ∈ p.recorded.stages.map Stage.filter, f.Records P := by
    intro f hf
    obtain ⟨_, hrecorded, rfl⟩ := List.mem_map.mp hf
    obtain ⟨stage, hstage, rfl⟩ := List.mem_map.mp hrecorded
    exact (hfilters _ (List.mem_map_of_mem hstage)).recorded
  unfold deploy
  -- the hooks that prepare leave the filters as they are, so these have the property to the end
  have hbefore : Logs (runHooks .preDeploy .error Filter.preDeploy p.recorded.stages changes) []
      (fun run log => (About P run.state ∧ About P log.begun)
        ∧ ∀ f ∈ run.stages.map Stage.filter, f.Records P) := by
    intro w
    refine ⟨runHooks_records .error (fun f hf => (hrecords f hf).preDeploy) hchanges .nil w, ?_⟩
    rw [runHooks_filters .preDeploy .error Filter.preDeploy p.recorded.stages changes (w, [])]
    exact hrecords
  refine hbefore.bind fun before log hbefore => ?_
  obtain ⟨⟨hstate, hlog⟩, hrecords⟩ := hbefore
  refine (deployStages_records hrecords hstate hlog).bind fun claimed log hclaimed => ?_
  obtain ⟨⟨happlied, hleft⟩, hlog⟩ := hclaimed
  refine (p.deployLeftover_records hids hleft hlog).bind fun others log hothers => ?_
  obtain ⟨happlied', hlog⟩ := hothers
  refine (runHooks_records .error (fun f hf => (hrecords f hf).onDeploy)
    (happlied.append happlied') hlog).bind fun after log hafter => ?_
  exact .pure hafter

end Pipeline

end

end AccountSync
