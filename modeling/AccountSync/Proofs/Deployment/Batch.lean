/-
  AccountSync.Proofs.Deployment.Batch
  ───────────────────────────────────
  **NO CHANGE OF A BATCH IS LOST, AND NONE COUNTS TWICE.**

  Deployments are balanced by the elements that changes are about: each change that was
  handed over is applied, reported by one error about its element, or left over.

      changedIds, reportedIds   — the elements of changes, and of errors
      StageResult.Distributes   — the balance
      Pool.deploy_outcomes      — every change of a batch has an outcome of its own
      Pool.route_distributes    — what is not claimed is left over
-/
import AccountSync.Children.OrderInstances
import AccountSync.Deployment.Endpoint
import AccountSync.Proofs.Deployment.Fanout

namespace AccountSync

open List (Forall₂)
open scoped List

variable {ω : Type}

/-! ## §1. The elements that changes and errors are about. -/

/-- The elements that changes are about, one entry per change. -/
def changedIds (changes : List InstanceChange) : List ElementId :=
  changes.map InstanceChange.id

/-- The elements that errors are about, one entry per error.  Warnings, and errors about no
element in particular, do not count. -/
def reportedIds (ds : List Diagnostic) : List ElementId :=
  (ds.filter Diagnostic.isError).filterMap (fun d => d.id)

@[simp] theorem changedIds_nil : changedIds [] = [] := rfl

@[simp] theorem changedIds_cons (c : InstanceChange) (changes : List InstanceChange) :
    changedIds (c :: changes) = c.id :: changedIds changes := rfl

@[simp] theorem changedIds_append (a b : List InstanceChange) :
    changedIds (a ++ b) = changedIds a ++ changedIds b :=
  List.map_append

@[simp] theorem reportedIds_nil : reportedIds [] = [] := rfl

@[simp] theorem reportedIds_append (a b : List Diagnostic) :
    reportedIds (a ++ b) = reportedIds a ++ reportedIds b := by
  unfold reportedIds
  rw [List.filter_append, List.filterMap_append]

@[simp] theorem reportedIds_error_cons (id : ElementId) (message : String)
    (ds : List Diagnostic) :
    reportedIds (.error id message :: ds) = id :: reportedIds ds := rfl

/-- A diagnostic about no element in particular reports none. -/
@[simp] theorem reportedIds_plain_none (severity : Severity) (message : String) :
    reportedIds [.plain none severity message] = [] := by
  cases severity <;> rfl

/-- One error per change reports exactly the elements of the changes. -/
theorem reportedIds_errors (changes : List InstanceChange)
    (message : InstanceChange → String) :
    reportedIds (changes.map (fun c => .error c.id (message c))) = changedIds changes := by
  induction changes with
  | nil => rfl
  | cons c rest ih =>
    rw [List.map_cons, reportedIds_error_cons, ih, changedIds_cons]

/-! ## §2. Balances. -/

/-- The elements that a result speaks of: each applied change and each reported one. -/
def DeployResult.ids (r : DeployResult) : List ElementId :=
  changedIds r.applied ++ reportedIds r.errors

@[simp] theorem DeployResult.append_applied (a b : DeployResult) :
    (a ++ b).applied = a.applied ++ b.applied := rfl

@[simp] theorem DeployResult.append_errors (a b : DeployResult) :
    (a ++ b).errors = a.errors ++ b.errors := rfl

/-- Two results together speak of what either speaks of. -/
theorem DeployResult.append_ids (a b : DeployResult) : (a ++ b).ids.Perm (a.ids ++ b.ids) := by
  unfold ids
  rw [append_applied, append_errors, changedIds_append, reportedIds_append, List.append_assoc,
    List.append_assoc]
  refine List.Perm.append_left _ ?_
  rw [← List.append_assoc, ← List.append_assoc]
  exact List.perm_append_comm.append_right _

/-- Of the changes that were handed over, each is applied, reported or left over. -/
def StageResult.Distributes (handed : List InstanceChange) (r : StageResult) : Prop :=
  (r.result.ids ++ changedIds r.leftover).Perm (changedIds handed)

/-- The handler deploys the change that it is handed, and no change of another element. -/
def Job.KeepsIds (handler : ChangeHandler ω) : Prop :=
  ∀ c, Ensures (handler.finish c) (fun o => o.change.id = c.id)

/-- The outcomes of changes: one per change, each one that the handler can come to. -/
def OutcomesOf (handler : ChangeHandler ω) (changes : List InstanceChange)
    (outcomes : List Outcome) : Prop :=
  Forall₂ (fun c o => Yields (handler.finish c) o) changes outcomes

/-- The elements of the outcomes are those of the changes. -/
theorem OutcomesOf.ids {handler : ChangeHandler ω} (hids : handler.KeepsIds)
    {changes : List InstanceChange} {outcomes : List Outcome}
    (h : OutcomesOf handler changes outcomes) :
    outcomes.map (fun o => o.change.id) = changedIds changes := by
  induction h with
  | nil => rfl
  | @cons c o changes outcomes hout _ ih =>
    rw [List.map_cons, changedIds_cons, ih, (hids c).of_yields hout]

/-- An outcome is applied or reported, and not both. -/
theorem ofOutcomes_ids (outcomes : List Outcome) :
    (DeployResult.ofOutcomes outcomes).ids.Perm (outcomes.map (fun o => o.change.id)) := by
  induction outcomes with
  | nil => exact .nil
  | cons o rest ih =>
    obtain ⟨change, result⟩ := o
    -- an error stands behind all applied changes, wherever its change stood
    cases result with
    | ok _ => exact ih.cons change.id
    | error e => exact List.perm_middle.trans (ih.cons change.id)

/-! ## §3. Batches. -/

namespace Pool

/-- Every change of a batch has an outcome of its own. -/
theorem deploy_outcomes (pool : Pool ω) (handler : ChangeHandler ω)
    (changes : List InstanceChange) :
    Ensures (pool.deploy handler changes) (fun r =>
      ∃ outcomes, OutcomesOf handler changes outcomes ∧ r = .ofOutcomes outcomes) := by
  have hfan := handler.fanOut_forall₂ (fun c => Ensures.yields (handler.finish c))
    pool.limit pool.next changes
  exact hfan.bind fun outcomes hout => .pure ⟨outcomes, hout, rfl⟩

/-- Each change of a batch is applied or reported. -/
theorem deploy_ids (pool : Pool ω) {handler : ChangeHandler ω} (hids : handler.KeepsIds)
    (changes : List InstanceChange) :
    Ensures (pool.deploy handler changes) (fun r => r.ids.Perm (changedIds changes)) := by
  refine (pool.deploy_outcomes handler changes).mono ?_
  rintro r ⟨outcomes, hout, rfl⟩
  rw [← hout.ids hids]
  exact ofOutcomes_ids outcomes

/-- The changes that a test picks and the others are all changes. -/
theorem partition_ids (picks : InstanceChange → Bool) (changes : List InstanceChange) :
    (changedIds (changes.partition picks).1 ++ changedIds (changes.partition picks).2).Perm
      (changedIds changes) := by
  rw [List.partition_eq_filter_filter, ← changedIds_append]
  exact (List.filter_append_perm picks changes).map InstanceChange.id

theorem deployRemovalsLast_ids (pool : Pool ω) {handler : ChangeHandler ω}
    (hids : handler.KeepsIds) (changes : List InstanceChange) :
    Ensures (pool.deployRemovalsLast handler changes)
      (fun r => r.ids.Perm (changedIds changes)) := by
  -- the batch is cut in two and deployed the other way round
  have hpart := partition_ids Change.isRemoval changes
  show Ensures (do
    let first ← pool.deploy handler (changes.partition Change.isRemoval).2
    let last ← pool.deploy handler (changes.partition Change.isRemoval).1
    pure (first ++ last)) _
  generalize changes.partition Change.isRemoval = parts at hpart ⊢
  refine (pool.deploy_ids hids parts.2).bind fun first hfirst => ?_
  refine (pool.deploy_ids hids parts.1).bind fun last hlast => .pure ?_
  calc (first ++ last).ids
    _ ~ first.ids ++ last.ids := first.append_ids last
    _ ~ changedIds parts.2 ++ changedIds parts.1 := hfirst.append hlast
    _ ~ changedIds parts.1 ++ changedIds parts.2 := List.perm_append_comm
    _ ~ changedIds changes := hpart

/-- A batch that is claimed in part: what the rest of a stage does not touch is left over. -/
theorem distributes_of_claimed {claims : InstanceChange → Bool} {changes : List InstanceChange}
    {r : DeployResult} (h : r.ids.Perm (changedIds (changes.partition claims).1)) :
    StageResult.Distributes changes { result := r, leftover := (changes.partition claims).2 } :=
  (h.append_right _).trans (partition_ids claims changes)

theorem route_distributes (pool : Pool ω) (claims : InstanceChange → Bool)
    {handler : ChangeHandler ω} (hids : handler.KeepsIds) (changes : List InstanceChange) :
    Ensures (pool.route claims handler changes) (StageResult.Distributes changes) :=
  (pool.deploy_ids hids _).bind fun _ hr => .pure (distributes_of_claimed hr)

end Pool

/-! ## §4. The handlers of the library. -/

/-- Adopting an identifier from an answer changes a field and not the element. -/
theorem TypeEndpoints.adopt_id (t : TypeEndpoints) (data : Json) (c : InstanceChange) :
    (t.adopt data c).id = c.id := by
  cases c with
  | addition after =>
    unfold adopt
    cases t.returnedId? data <;> rfl
  | removal before => rfl
  | modification before after => rfl

theorem Settings.deployer_keepsIds (s : Settings) (client : Client ω) :
    (s.deployer client).KeepsIds := by
  intro c
  show Ensures (s.deployOne client c) _
  unfold deployOne
  split
  · exact .pure rfl
  next t _ =>
    split
    · exact .pure rfl
    next r _ =>
      refine (Ensures.yields (client.send r)).bind fun answer _ => ?_
      cases answer with
      | error e => exact .pure rfl
      | ok answer => exact .pure (t.adopt_id answer.data c)

theorem OrderInstances.deployer_keepsIds (rules : List OrderInstanceRule) (client : Client ω) :
    (OrderInstances.deployer rules client).KeepsIds := by
  intro c
  show Ensures (deployOne rules client c) _
  unfold deployOne
  split
  · exact .pure rfl
  · split
    · exact .pure rfl
    next r _ =>
      refine (Ensures.yields (client.send r)).bind fun answer _ => ?_
      cases answer with
      | error e => exact .pure rfl
      | ok answer => exact .pure rfl

end AccountSync
