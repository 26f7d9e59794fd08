/-
  AccountSync.Proofs.Filter.Isolation
  ───────────────────────────────────
  **A FAILED HOOK LEAVES NO TRACE BUT ITS REPORT.**

  Hooks change what they are handed in place and may fail half-way.  Whatever the hooks of a
  phase do, the phase comes down to a list of calls: one for each filter that declares the
  phase, each on what the last successful call before it left.

      Call                        — one call of a hook: the stage, what it was given, the world
      Isolated                    — what a list of calls says about a phase
      Pipeline.runHooks_isolated  — every phase is such a list of calls
      hooks_isolated              — the phases of a fetch and of a deployment

  Nothing is assumed about the hooks.  They may use the world and what their filter remembers,
  also where they fail; only the state that they were handed is given back.
-/
import AccountSync.Proofs.Deployment.Conservation

namespace AccountSync

variable {ω σ : Type}

/-! ## §1. Calls. -/

/-- A call of a hook: the filter with what it remembers, the state that it was given, and the world
that it was called in. -/
structure Call (ω σ : Type) where
  stage : Stage ω
  given : σ
  world : ω

namespace Call

variable (hook : Filter ω → Hook ω σ)

/-- What the hook does to a state when it is called as in this call. -/
def effect (c : Call ω σ) (s : σ) : σ :=
  (hook c.stage.filter s c.stage.memory c.world).1.state

/-- How the hook leaves things. -/
def done (c : Call ω σ) : Hooked σ :=
  (hook c.stage.filter c.given c.stage.memory c.world).1

/-- The world after the call. -/
def worldAfter (c : Call ω σ) : ω :=
  (hook c.stage.filter c.given c.stage.memory c.world).2

/-- The filter with what it remembers after the call. -/
def stageAfter (c : Call ω σ) : Stage ω :=
  { c.stage with memory := (c.done hook).memory }

/-- Why the call failed, if it did. -/
def failure? (c : Call ω σ) : Option Failure :=
  match (c.done hook).result with
  | .ok () => none
  | .error e => some e

/-- Whether the call was successful. -/
def succeeded (c : Call ω σ) : Bool :=
  (c.failure? hook).isNone

/-- The state after calls: what the last successful one left, or else the state before. -/
def kept (s : σ) (calls : List (Call ω σ)) : σ :=
  match (calls.filter (succeeded hook)).getLast? with
  | some c => (c.done hook).state
  | none => s

/-- The world after calls: the one that the last call left, or else the one before. -/
def endWorld (w : ω) (calls : List (Call ω σ)) : ω :=
  match calls.getLast? with
  | some c => c.worldAfter hook
  | none => w

variable {hook}

/-- The first of some calls settles what the others start from. -/
theorem kept_cons (s : σ) (c : Call ω σ) (calls : List (Call ω σ)) :
    kept hook s (c :: calls) = kept hook (Pipeline.keptState s (c.done hook)) calls := by
  unfold kept Pipeline.keptState
  cases hresult : (c.done hook).result with
  | ok =>
    have hc : c.succeeded hook = true := by
      simp only [succeeded, failure?, hresult, Option.isNone_none]
    rw [List.filter_cons_of_pos hc, List.getLast?_cons]
    cases (calls.filter (succeeded hook)).getLast? <;> rfl
  | error e =>
    have hc : ¬c.succeeded hook = true := by
      simp only [succeeded, failure?, hresult, Option.isNone_some]
      nofun
    rw [List.filter_cons_of_neg hc]

theorem endWorld_cons (w : ω) (c : Call ω σ) (calls : List (Call ω σ)) :
    endWorld hook w (c :: calls) = endWorld hook (c.worldAfter hook) calls := by
  unfold endWorld
  rw [List.getLast?_cons]
  cases calls.getLast? <;> rfl

/-- A hook that succeeds hands on what it did to the state that it was given. -/
theorem keptState_of_succeeded {c : Call ω σ} (h : c.succeeded hook = true) :
    Pipeline.keptState c.given (c.done hook) = c.effect hook c.given := by
  unfold Pipeline.keptState
  cases hresult : (c.done hook).result with
  | ok => rfl
  | error e => simp [succeeded, failure?, hresult] at h

/-- A hook that fails hands on the state that it was given. -/
theorem keptState_of_failed {c : Call ω σ} (h : c.succeeded hook = false) :
    Pipeline.keptState c.given (c.done hook) = c.given := by
  unfold Pipeline.keptState
  cases hresult : (c.done hook).result with
  | ok => simp [succeeded, failure?, hresult] at h
  | error e => rfl

end Call

/-! ## §2. What a phase comes down to. -/

/-- Whether the filter of a stage takes part in a phase. -/
def Stage.takesPart (phase : Phase) (stage : Stage ω) : Bool :=
  stage.filter.phases.contains phase

/-- The calls that a phase comes down to, and what follows for its result and for the world. -/
structure Isolated (phase : Phase) (severity : Severity) (hook : Filter ω → Hook ω σ)
    (stages : List (Stage ω)) (s : σ) (w : ω) (calls : List (Call ω σ))
    (r : Pipeline.Run ω σ) (w' : ω) : Prop where
  /-- Each filter that declares the phase is called once, in order, and no other is. -/
  called : calls.map Call.stage = stages.filter (Stage.takesPart phase)
  /-- Each call is given what the last successful one before it left, or else the input. -/
  given : ∀ earlier c later, calls = earlier ++ c :: later → c.given = Call.kept hook s earlier
  /-- Each call is made in the world that the one before it left. -/
  world : ∀ earlier c later, calls = earlier ++ c :: later → c.world = Call.endWorld hook w earlier
  /-- What the last successful call left is the result. -/
  state : r.state = Call.kept hook s calls
  /-- It is what the successful hooks do one after the other. -/
  composed : r.state
    = (calls.filter (Call.succeeded hook)).foldl (fun s c => c.effect hook s) s
  /-- Each failed call is reported once, in order, as about no element. -/
  reports : r.reports = calls.filterMap (fun c => (c.failure? hook).map
    (fun e => .plain none severity (Pipeline.hookFailure c.stage.filter phase e)))
  /-- The filters stay as they are and where they are. -/
  filters : r.stages.map Stage.filter = stages.map Stage.filter
  /-- Those that were called remember what their hooks left, also where these failed. -/
  memories : r.stages.filter (Stage.takesPart phase) = calls.map (Call.stageAfter hook)
  /-- The others remember what they did. -/
  bystanders : r.stages.filter (fun stage => !stage.takesPart phase)
    = stages.filter (fun stage => !stage.takesPart phase)
  /-- The world is left as the last call left it. -/
  endWorld : w' = Call.endWorld hook w calls

namespace Isolated

variable {phase : Phase} {severity : Severity} {hook : Filter ω → Hook ω σ}
  {rest : List (Stage ω)} {s : σ} {w w' : ω} {calls : List (Call ω σ)} {r : Pipeline.Run ω σ}

theorem nil (s : σ) (w : ω) : Isolated phase severity hook [] s w [] ⟨s, [], []⟩ w where
  called := rfl
  given := fun earlier c later h => absurd h.symm (by simp)
  world := fun earlier c later h => absurd h.symm (by simp)
  state := rfl
  composed := rfl
  reports := rfl
  filters := rfl
  memories := rfl
  bystanders := rfl
  endWorld := rfl

/-- A filter that does not declare the phase is not called. -/
theorem skip {stage : Stage ω} (hstage : stage.takesPart phase = false)
    (h : Isolated phase severity hook rest s w calls r w') :
    Isolated phase severity hook (stage :: rest) s w calls ⟨r.state, r.reports, stage :: r.stages⟩
      w' where
  called := by rw [List.filter_cons_of_neg (by simp [hstage]), h.called]
  given := h.given
  world := h.world
  state := h.state
  composed := h.composed
  reports := h.reports
  filters := congrArg (stage.filter :: ·) h.filters
  memories := by rw [List.filter_cons_of_neg (by simp [hstage]), h.memories]
  bystanders := by
    rw [List.filter_cons_of_pos (by simp [hstage]), List.filter_cons_of_pos (by simp [hstage]),
      h.bystanders]
  endWorld := h.endWorld

/-- A filter that declares the phase is called, and the others go on with what its hook left unless
that failed. -/
theorem cons {stage : Stage ω} (hstage : stage.takesPart phase = true)
    (h : Isolated phase severity hook rest
      (Pipeline.keptState s ((Call.mk stage s w).done hook)) ((Call.mk stage s w).worldAfter hook)
      calls r w') :
    Isolated phase severity hook (stage :: rest) s w (⟨stage, s, w⟩ :: calls)
      ⟨r.state,
        Pipeline.report severity stage.filter phase ((Call.mk stage s w).done hook) ++ r.reports,
        (Call.mk stage s w).stageAfter hook :: r.stages⟩ w' where
  called := by rw [List.filter_cons_of_pos hstage, List.map_cons, h.called]
  given := by
    intro earlier c later hcalls
    rcases List.cons_eq_append_iff.mp hcalls with ⟨rfl, hc⟩ | ⟨earlier, rfl, hlater⟩
    · obtain ⟨rfl, -⟩ := List.cons.inj hc
      rfl
    · rw [Call.kept_cons]
      exact h.given earlier c later hlater
  world := by
    intro earlier c later hcalls
    rcases List.cons_eq_append_iff.mp hcalls with ⟨rfl, hc⟩ | ⟨earlier, rfl, hlater⟩
    · obtain ⟨rfl, -⟩ := List.cons.inj hc
      rfl
    · rw [Call.endWorld_cons]
      exact h.world earlier c later hlater
  state := by
    rw [Call.kept_cons]
    exact h.state
  composed := by
    show r.state = _
    rw [h.composed]
    cases hc : (Call.mk stage s w).succeeded hook with
    | true =>
      rw [List.filter_cons_of_pos hc, List.foldl_cons]
      exact congrArg (fun s => List.foldl _ s _) (Call.keptState_of_succeeded hc)
    | false =>
      rw [List.filter_cons_of_neg (by simp [hc])]
      exact congrArg (fun s => List.foldl _ s _) (Call.keptState_of_failed hc)
  reports := by
    show Pipeline.report _ _ _ _ ++ r.reports = _
    rw [h.reports, List.filterMap_cons]
    unfold Pipeline.report Call.failure?
    cases ((Call.mk stage s w).done hook).result <;> rfl
  filters := congrArg (stage.filter :: ·) h.filters
  memories := by
    have hafter : ((Call.mk stage s w).stageAfter hook).takesPart phase = true := hstage
    rw [List.filter_cons_of_pos hafter, List.map_cons, h.memories]
  bystanders := by
    have hafter : ((Call.mk stage s w).stageAfter hook).takesPart phase = true := hstage
    rw [List.filter_cons_of_neg (by simp [hafter]), List.filter_cons_of_neg (by simp [hstage]),
      h.bystanders]
  endWorld := by
    rw [Call.endWorld_cons]
    exact h.endWorld

end Isolated

namespace Pipeline

/-- Every phase comes down to calls of the hooks that take part. -/
theorem runHooks_isolated (phase : Phase) (severity : Severity) (hook : Filter ω → Hook ω σ)
    (stages : List (Stage ω)) (s : σ) (w : ω) :
    ∃ calls, Isolated phase severity hook stages s w calls
      (runHooks phase severity hook stages s w).1 (runHooks phase severity hook stages s w).2 := by
  induction stages generalizing s w with
  | nil => exact ⟨[], .nil s w⟩
  | cons stage rest ih =>
    unfold runHooks
    cases hstage : stage.takesPart phase with
    | true =>
      have hphase : stage.filter.phases.contains phase = true := hstage
      rw [if_pos hphase]
      obtain ⟨calls, hcalls⟩ := ih (keptState s ((Call.mk stage s w).done hook))
        ((Call.mk stage s w).worldAfter hook)
      exact ⟨_, hcalls.cons hstage⟩
    | false =>
      have hphase : ¬stage.filter.phases.contains phase = true := Bool.eq_false_iff.mp hstage
      rw [if_neg hphase]
      obtain ⟨calls, hcalls⟩ := ih s w
      exact ⟨calls, hcalls.skip hstage⟩

/-! ## §3. The phases of a pipeline. -/

/-- What becomes of prepared changes: the filters deploy what they claim, and the deployer of the
pipeline what they leave over. -/
def deployPrepared (p : Pipeline ω) (before : Run ω (List InstanceChange)) :
    StateM ω DeployResult := do
  let claimed ← deployStages before.stages before.state
  let others ← p.deployLeftover claimed.leftover
  pure (claimed.result ++ others)

/-- Only filters that declare that they deploy are ever handed changes to deploy. -/
theorem deployStages_filter (stages : List (Stage ω)) (changes : List InstanceChange) :
    deployStages stages changes
      = deployStages (stages.filter (Stage.takesPart .deploy)) changes := by
  induction stages generalizing changes with
  | nil => rfl
  | cons stage rest ih =>
    cases hstage : stage.takesPart .deploy with
    | false => rw [deployStages_skip hstage, List.filter_cons_of_neg (by simp [hstage]), ih]
    | true =>
      rw [List.filter_cons_of_pos hstage]
      unfold deployStages
      simp only [ih]

end Pipeline

/-- **Hooks are isolated from each other's failures**, whatever they do and whichever fail: when
elements are fetched, when changes are prepared and when applied ones are restored, each phase
comes down to one call for each filter that declares it, on what the last successful call left.
Failures are reported as warnings in a fetch and as errors in a deployment.  Between preparing and
restoring, no other filters are handed changes than those that declare that they deploy. -/
theorem hooks_isolated (p : Pipeline ω) (w : ω) :
    (∀ elements, ∃ calls run w',
      Isolated .onFetch .warning Filter.onFetch p.stages elements w calls run w'
      ∧ p.fetch elements w
        = ((⟨run.state, run.reports⟩, { p with stages := run.stages }), w'))
    ∧ (∀ batch, ∃ preparing before w₁ deployed w₂ restoring after w₃,
      Isolated .preDeploy .error Filter.preDeploy p.stages batch w preparing before w₁
      ∧ p.deployPrepared before w₁ = (deployed, w₂)
      ∧ Isolated .onDeploy .error Filter.onDeploy before.stages deployed.applied w₂ restoring after
        w₃
      ∧ p.deploy batch w
        = ((⟨after.state, before.reports ++ deployed.errors ++ after.reports⟩,
            { p with stages := after.stages }), w₃))
    ∧ ∀ stages changes, Pipeline.deployStages (ω := ω) stages changes
        = Pipeline.deployStages (stages.filter (Stage.takesPart .deploy)) changes := by
  refine ⟨fun elements => ?_, fun batch => ?_, Pipeline.deployStages_filter⟩
  · obtain ⟨calls, hcalls⟩ :=
      Pipeline.runHooks_isolated .onFetch .warning Filter.onFetch p.stages elements w
    exact ⟨calls, _, _, hcalls, rfl⟩
  · obtain ⟨preparing, hpreparing⟩ :=
      Pipeline.runHooks_isolated .preDeploy .error Filter.preDeploy p.stages batch w
    obtain ⟨restoring, hrestoring⟩ := Pipeline.runHooks_isolated .onDeploy .error Filter.onDeploy
      (p.prepare batch w).1.stages
      (p.deployPrepared (p.prepare batch w).1 (p.prepare batch w).2).1.applied
      (p.deployPrepared (p.prepare batch w).1 (p.prepare batch w).2).2
    exact ⟨preparing, _, _, _, _, restoring, _, _, hpreparing, rfl, hrestoring, rfl⟩

/-- The first filter drops all elements and fails, so the second one still has them to reverse. -/
example :
    let failing : Filter Unit := {
      name := "failing"
      phases := [.onFetch]
      onFetch := fun _ memory => pure ⟨[], memory, .error .malformedJson⟩ }
    let reversing : Filter Unit := {
      name := "reversing"
      phases := [.onFetch]
      onFetch := .ofFunction List.reverse }
    let done : ChangeHandler Unit := .ofFinish (fun c => pure ⟨c, .ok ()⟩)
    let p : Pipeline Unit := ⟨[⟨failing, {}⟩, ⟨reversing, {}⟩], done, ⟨1, .eager⟩⟩
    let a : Element := .inst (.named "a" (.ofType "z" "t") [])
    let b : Element := .inst (.named "b" (.ofType "z" "t") [])
    (p.fetch [a, b] ()).1.1.elements = [b, a] ∧ (p.fetch [a, b] ()).1.1.errors.length = 1 :=
  ⟨rfl, rfl⟩

end AccountSync
