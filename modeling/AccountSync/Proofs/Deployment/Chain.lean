/-
  AccountSync.Proofs.Deployment.Chain
  ───────────────────────────────────
  **WHAT EACH FILTER IS HANDED.**

  The deploying filters of a pipeline take turns.  Each is handed exactly what the one
  before left over; a filter that fails reports everything it was handed, and nothing is
  left for the next.

      Turn                       — what a filter was handed and what came of it
      Chain                      — how the turns hang together
      Pipeline.deployStages_chain  — every deployment is such a chain
      Handover.balance           — balances of the turns add up
-/
import AccountSync.Filter.Pipeline
import AccountSync.Proofs.Deployment.Batch
import Mathlib.Data.List.Perm.Subperm

namespace AccountSync

variable {ω σ : Type}

/-! ## §1. Hooks that work in place. -/

/-- Unless it fails, the hook keeps the list of changes, whatever it does to their values. -/
def Hook.KeepsIds (hook : Hook ω (List InstanceChange)) : Prop :=
  ∀ changes memory, Ensures (hook changes memory)
    (fun done => done.result = .ok () → changedIds done.state = changedIds changes)

namespace Pipeline

/-- Running hooks changes what filters remember and not the filters. -/
theorem runHooks_filters (phase : Phase) (severity : Severity) (hook : Filter ω → Hook ω σ)
    (stages : List (Stage ω)) (s : σ) :
    Ensures (runHooks phase severity hook stages s)
      (fun run => run.stages.map Stage.filter = stages.map Stage.filter) := by
  induction stages generalizing s with
  | nil => exact .pure rfl
  | cons stage rest ih =>
    unfold runHooks
    split
    · refine (Ensures.yields _).bind fun done _ => ?_
      exact (ih _).bind fun later hlater => .pure (congrArg (stage.filter :: ·) hlater)
    · exact (ih s).bind fun later hlater => .pure (congrArg (stage.filter :: ·) hlater)

/-- A report about a hook is about no element in particular. -/
theorem report_ids (severity : Severity) (filter : Filter ω) (phase : Phase) (done : Hooked σ) :
    reportedIds (report severity filter phase done) = [] := by
  unfold report
  split
  · rfl
  · exact reportedIds_plain_none _ _

theorem runHooks_reports (phase : Phase) (severity : Severity) (hook : Filter ω → Hook ω σ)
    (stages : List (Stage ω)) (s : σ) :
    Ensures (runHooks phase severity hook stages s) (fun run => reportedIds run.reports = []) := by
  induction stages generalizing s with
  | nil => exact .pure rfl
  | cons stage rest ih =>
    unfold runHooks
    split
    · refine (Ensures.yields _).bind fun done _ => ?_
      refine (ih _).bind fun later hlater => .pure ?_
      rw [reportedIds_append, report_ids, hlater]
      rfl
    · exact (ih s).bind fun later hlater => .pure hlater

/-- Hooks that keep the list of changes do so one after the other, also where some fail. -/
theorem runHooks_ids {phase : Phase} (severity : Severity)
    {hook : Filter ω → Hook ω (List InstanceChange)} {stages : List (Stage ω)}
    (hkeep : ∀ f ∈ stages.map Stage.filter, f.phases.contains phase = true → (hook f).KeepsIds)
    (changes : List InstanceChange) :
    Ensures (runHooks phase severity hook stages changes)
      (fun run => changedIds run.state = changedIds changes) := by
  induction stages generalizing changes with
  | nil => exact .pure rfl
  | cons stage rest ih =>
    have ih := ih fun f hf => hkeep f (List.mem_cons_of_mem _ hf)
    unfold runHooks
    split
    next hphase =>
      -- if the hook fails, what it did is undone
      have hkept : Ensures (hook stage.filter changes stage.memory)
          (fun done => changedIds (keptState changes done) = changedIds changes) := by
        refine (hkeep _ List.mem_cons_self hphase changes stage.memory).mono fun done hdone => ?_
        unfold keptState
        split
        next h => exact hdone h
        · rfl
      refine hkept.bind fun done hdone => ?_
      exact (ih _).bind fun later hlater => .pure (hlater.trans hdone)
    · exact (ih changes).bind fun later hlater => .pure hlater

end Pipeline

/-! ## §2. Turns. -/

/-- Whether the filter deploys changes at all. -/
def Filter.deploys (f : Filter ω) : Bool :=
  f.phases.contains .deploy

/-- A filter's turn in a deployment: what it was handed, and what its hook came to. -/
structure Turn (ω : Type) where
  filter : Filter ω
  handed : List InstanceChange
  outcome : Except Failure StageResult

namespace Turn

/-- What the turn adds to the deployment. -/
def stage (t : Turn ω) : StageResult :=
  match t.outcome with
  | .ok done => done
  | .error e => Pipeline.dropped t.filter t.handed e

/-- The changes that were applied in the turn. -/
def applied (t : Turn ω) : List InstanceChange :=
  t.stage.result.applied

/-- The errors of the turn. -/
def errors (t : Turn ω) : List Diagnostic :=
  t.stage.result.errors

/-- What the turn left over. -/
def leftover (t : Turn ω) : List InstanceChange :=
  t.stage.leftover

/-- Whether the hook failed. -/
def Failed (t : Turn ω) : Prop :=
  ∃ e, t.outcome = .error e

/-- A turn that failed reports each change that was handed over, and nothing else comes of
it. -/
theorem Failed.stage {t : Turn ω} (h : t.Failed) :
    t.applied = [] ∧ reportedIds t.errors = changedIds t.handed ∧ t.leftover = [] := by
  obtain ⟨e, he⟩ := h
  have hstage : t.stage = Pipeline.dropped t.filter t.handed e := by
    unfold Turn.stage
    rw [he]
  unfold applied errors leftover
  rw [hstage]
  exact ⟨rfl, reportedIds_errors t.handed _, rfl⟩

end Turn

/-- Turns in a row: each is handed, as long as there is anything, what the one before left
over. -/
inductive Handover : List InstanceChange → List (Turn ω) → List InstanceChange → Prop where
  | done (rest : List InstanceChange) : Handover rest [] rest
  | turn {t : Turn ω} {turns : List (Turn ω)} {rest : List InstanceChange} :
      t.handed ≠ [] → Handover t.leftover turns rest → Handover t.handed (t :: turns) rest

/-- How filters deploy a batch and leave a rest: the turns are those of the deploying filters
in order, none is passed over while changes are left, and each outcome is one that the hook
can come to. -/
structure Chain (filters : List (Filter ω)) (batch : List InstanceChange) (turns : List (Turn ω))
    (rest : List InstanceChange) : Prop where
  inOrder : turns.map Turn.filter <+: filters.filter Filter.deploys
  complete : rest = [] ∨ turns.map Turn.filter = filters.filter Filter.deploys
  handover : Handover batch turns rest
  genuine : ∀ t ∈ turns, Yields (t.filter.deploy t.handed) t.outcome

namespace Chain

theorem of_nil (filters : List (Filter ω)) : Chain filters [] [] [] where
  inOrder := List.nil_prefix
  complete := .inl rfl
  handover := .done []
  genuine := nofun

/-- A filter that does not deploy takes no turn. -/
theorem skip {f : Filter ω} (hf : f.deploys = false) {filters : List (Filter ω)}
    {batch : List InstanceChange} {turns : List (Turn ω)} {rest : List InstanceChange}
    (h : Chain filters batch turns rest) : Chain (f :: filters) batch turns rest := by
  have hfilter : (f :: filters).filter Filter.deploys = filters.filter Filter.deploys :=
    List.filter_cons_of_neg (by simp [hf])
  exact ⟨hfilter ▸ h.inOrder, hfilter ▸ h.complete, h.handover, h.genuine⟩

/-- A filter that deploys takes a turn, and the others go on with what it leaves over. -/
theorem cons {t : Turn ω} (hf : t.filter.deploys = true) (hne : t.handed ≠ [])
    (hout : Yields (t.filter.deploy t.handed) t.outcome) {filters : List (Filter ω)}
    {turns : List (Turn ω)} {rest : List InstanceChange}
    (h : Chain filters t.leftover turns rest) :
    Chain (t.filter :: filters) t.handed (t :: turns) rest := by
  have hfilter : (t.filter :: filters).filter Filter.deploys
      = t.filter :: filters.filter Filter.deploys := List.filter_cons_of_pos hf
  refine ⟨?_, ?_, .turn hne h.handover, ?_⟩
  · rw [hfilter, List.map_cons]
    exact (List.prefix_cons_inj _).mpr h.inOrder
  · rw [hfilter, List.map_cons]
    exact h.complete.imp_right (congrArg (t.filter :: ·))
  · intro t' ht'
    rcases List.mem_cons.mp ht' with rfl | ht'
    · exact hout
    · exact h.genuine t' ht'

end Chain

/-! ## §3. Every deployment is a chain of turns. -/

namespace Pipeline

/-- A filter that does not deploy is passed over. -/
theorem deployStages_skip {stage : Stage ω} (h : stage.filter.deploys = false)
    (rest : List (Stage ω)) (changes : List InstanceChange) :
    deployStages (stage :: rest) changes = deployStages rest changes := by
  have hskip : (changes.isEmpty || !stage.filter.phases.contains Phase.deploy) = true := by
    rw [show stage.filter.phases.contains .deploy = false from h]
    exact Bool.or_true _
  rw [deployStages, if_pos hskip]

/-- A filter that deploys takes its turn as long as there are changes, and unless it fails the
others go on with what it leaves over. -/
theorem deployStages_turn {stage : Stage ω} (h : stage.filter.deploys = true)
    (rest : List (Stage ω)) {changes : List InstanceChange} (hne : changes ≠ []) :
    deployStages (stage :: rest) changes
      = (do
        match ← stage.filter.deploy changes with
        | .error e => pure (dropped stage.filter changes e)
        | .ok done =>
          let later ← deployStages rest done.leftover
          pure { result := done.result ++ later.result, leftover := later.leftover }) := by
  have hturn : ¬(changes.isEmpty || !stage.filter.phases.contains Phase.deploy) = true := by
    rw [show stage.filter.phases.contains .deploy = true from h]
    simp [hne]
  rw [deployStages]
  exact if_neg hturn

/-- Without changes no filter takes a turn. -/
theorem deployStages_nil (stages : List (Stage ω)) :
    Ensures (deployStages stages []) (fun r => r = { leftover := [] }) := by
  induction stages with
  | nil => exact .pure rfl
  | cons stage rest ih => exact ih

theorem deployStages_chain (stages : List (Stage ω)) (batch : List InstanceChange) :
    Ensures (deployStages stages batch) (fun r =>
      ∃ turns, Chain (stages.map Stage.filter) batch turns r.leftover
        ∧ r.result.applied = turns.flatMap Turn.applied
        ∧ r.result.errors = turns.flatMap Turn.errors) := by
  induction stages generalizing batch with
  | nil =>
    exact .pure ⟨[], ⟨List.nil_prefix, .inr rfl, .done batch, nofun⟩, rfl, rfl⟩
  | cons stage rest ih =>
    cases batch with
    | nil =>
      refine (deployStages_nil (stage :: rest)).mono ?_
      rintro r rfl
      exact ⟨[], .of_nil _, rfl, rfl⟩
    | cons c changes =>
      cases hf : stage.filter.deploys with
      | false =>
        rw [deployStages_skip hf]
        refine (ih (c :: changes)).mono ?_
        rintro r ⟨turns, hchain, happlied, herrors⟩
        exact ⟨turns, hchain.skip hf, happlied, herrors⟩
      | true =>
        rw [deployStages_turn hf rest (List.cons_ne_nil c changes)]
        refine (Ensures.yields _).bind fun outcome hout => ?_
        cases outcome with
        | error e =>
          -- the filter failed: its turn is the last one
          refine .pure ⟨[⟨stage.filter, c :: changes, .error e⟩], ?_, rfl, ?_⟩
          · exact Chain.cons (t := ⟨stage.filter, c :: changes, .error e⟩) hf
              (List.cons_ne_nil c changes) hout (.of_nil _)
          · simp [Turn.errors, Turn.stage]
        | ok done =>
          -- the others go on with what the filter left over
          refine (ih done.leftover).bind fun later hlater => .pure ?_
          obtain ⟨turns, hchain, happlied, herrors⟩ := hlater
          refine ⟨⟨stage.filter, c :: changes, .ok done⟩ :: turns, ?_, ?_, ?_⟩
          · exact Chain.cons (t := ⟨stage.filter, c :: changes, .ok done⟩) hf
              (List.cons_ne_nil c changes) hout hchain
          · show done.result.applied ++ later.result.applied = _
            rw [happlied]
            rfl
          · show done.result.errors ++ later.result.errors = _
            rw [herrors]
            rfl

end Pipeline

/-! ## §4. Balances of turns add up. -/

/-- The elements that the turn speaks of: each applied change and each reported one. -/
def Turn.ids (t : Turn ω) : List ElementId :=
  t.stage.result.ids

namespace Handover

/-- If every turn distributes what it was handed, then so do all turns together. -/
theorem balance {batch rest : List InstanceChange} {turns : List (Turn ω)}
    (h : Handover batch turns rest) (hturn : ∀ t ∈ turns, t.stage.Distributes t.handed) :
    (turns.flatMap Turn.ids ++ changedIds rest).Perm (changedIds batch) := by
  induction h with
  | done rest => simp
  | @turn t turns rest _ _ ih =>
    have hfirst : (t.ids ++ changedIds t.leftover).Perm (changedIds t.handed) :=
      hturn t List.mem_cons_self
    have hrest := ih fun t' ht' => hturn t' (List.mem_cons_of_mem t ht')
    simp only [List.perm_iff_count, List.flatMap_cons, List.count_append] at hfirst hrest ⊢
    intro id
    have := hfirst id
    have := hrest id
    omega

/-- Later turns, and the rest, are part of what an earlier turn left over. -/
theorem leftover_subperm {batch rest : List InstanceChange} {turns : List (Turn ω)}
    (h : Handover batch turns rest)
    (hturn : ∀ t ∈ turns, (changedIds t.leftover).Subperm (changedIds t.handed)) :
    turns.Pairwise (fun t later => (changedIds later.handed).Subperm (changedIds t.leftover))
      ∧ (∀ t ∈ turns, (changedIds rest).Subperm (changedIds t.leftover))
      ∧ (∀ t ∈ turns, (changedIds t.handed).Subperm (changedIds batch))
      ∧ (changedIds rest).Subperm (changedIds batch) := by
  induction h with
  | done rest => exact ⟨.nil, nofun, nofun, .refl _⟩
  | @turn t turns rest _ _ ih =>
    -- the later turns start from what this one left over, which is part of what it was handed
    have hfirst := hturn t List.mem_cons_self
    obtain ⟨hpair, hrest, hhanded, hall⟩ :=
      ih fun t' ht' => hturn t' (List.mem_cons_of_mem t ht')
    refine ⟨.cons hhanded hpair, ?_, ?_, hall.trans hfirst⟩
    · intro t' ht'
      rcases List.mem_cons.mp ht' with rfl | ht'
      · exact hall
      · exact hrest t' ht'
    · intro t' ht'
      rcases List.mem_cons.mp ht' with rfl | ht'
      · exact .refl _
      · exact (hhanded t' ht').trans hfirst

theorem of_nil {turns : List (Turn ω)} {rest : List InstanceChange}
    (h : Handover [] turns rest) : turns = [] ∧ rest = [] := by
  -- a turn is only taken when there is something to hand over
  generalize hbatch : ([] : List InstanceChange) = batch at h
  cases h with
  | done => exact ⟨rfl, rfl⟩
  | turn hne _ => exact absurd hbatch.symm hne

/-- After a turn that failed there is no other, and nothing is left over. -/
theorem of_failed {batch rest : List InstanceChange} {earlier later : List (Turn ω)} {t : Turn ω}
    (h : Handover batch (earlier ++ t :: later) rest) (ht : t.Failed) :
    later = [] ∧ rest = [] := by
  induction earlier generalizing batch with
  | nil =>
    -- this is the turn that failed, and it leaves nothing over
    cases h with
    | turn _ hnext =>
      rw [ht.stage.2.2] at hnext
      exact of_nil hnext
  | cons first earlier ih =>
    cases h with
    | turn _ hnext => exact ih hnext

end Handover

end AccountSync
