/-
  AccountSync.Proofs.Children.Visits
  ──────────────────────────────────
  **WHAT BECOMES OF PARENTS WHOSE LISTS CHANGED.**

  A rule about lists of children visits one parent after the other.  The children are
  deployed in place of the parent, under identifiers of their own, so the balance of changes
  is not kept: errors of children come from outside, and a parent whose list is all that
  changed is lost when one of its children fails.  A tour keeps the books of all of this.

      Visit              — what became of a parent
      Visit.lost         — the parent, if it is neither applied nor reported nor left over
      Visit.failed       — the children that are reported
      deployLists_eq     — deploying lists is going on a tour and summing up
      tour_ledger        — the books of a tour
-/
import AccountSync.Children.Lists
import AccountSync.Proofs.Deployment.Batch
import Mathlib.Data.List.Perm.Subperm

namespace AccountSync.Children

variable {ω : Type}

/-! ## §1. Visits. -/

/-- What became of a parent that came to a rule. -/
inductive Visit where
  /-- Its list did not change. -/
  | passed (parent : InstanceChange)
  /-- The changes of its children could not be built. -/
  | refused (parent : InstanceChange) (message : String)
  /-- The changes of its children were deployed, with these outcomes. -/
  | sent (kind : OrderChange) (parent : InstanceChange) (outcomes : List Outcome)

namespace Visit

/-- The change of the parent. -/
def parent : Visit → InstanceChange
  | .passed c => c
  | .refused c _ => c
  | .sent _ c _ => c

/-- What the visit comes to. -/
def result : Visit → StageResult
  | .passed c => { leftover := [c] }
  | .refused c message => { result := { errors := [.error c.id message] } }
  | .sent kind c outcomes => settled kind c (DeployResult.ofOutcomes outcomes).errors

/-- The parent, if its list is all that changed and one of its children failed: it is neither
applied nor left over, and no error is about it. -/
def lost : Visit → List ElementId
  | .sent .mixed _ _ => []
  | .sent _ c outcomes =>
    if (DeployResult.ofOutcomes outcomes).errors.isEmpty then [] else [c.id]
  | _ => []

/-- The children that failed. -/
def failed : Visit → List ElementId
  | .sent _ _ outcomes => reportedIds (DeployResult.ofOutcomes outcomes).errors
  | _ => []

/-- The visit is one that the rules and the handler can come to: the children whose outcomes it
has are those that the parent lists. -/
def Genuine (rules : List ChildOrderRule) (handler : ChangeHandler ω) : Visit → Prop
  | .sent kind c outcomes => kind ≠ .noOrder ∧ ∃ rule ∈ rules, ∃ children,
      orderChangeFor rule c = kind ∧ positionChanges rule c = .ok children
        ∧ OutcomesOf handler children outcomes
  | _ => True

/-- A parent whose list is all that changed is applied or lost, and each failed child is
reported. -/
theorem balance_alone (c : InstanceChange) (errors : List Diagnostic) :
    (changedIds (if errors.isEmpty then [c] else []) ++ reportedIds errors
      ++ (if errors.isEmpty then [] else [c.id]) ++ []).Perm (c.id :: reportedIds errors) := by
  cases errors with
  | nil => exact .refl _
  | cons d ds =>
    rw [List.append_nil]
    exact List.perm_append_singleton c.id (reportedIds (d :: ds))

/-- What is lost makes up for the children that come from outside. -/
theorem balance (v : Visit) :
    (v.result.result.ids ++ v.lost ++ changedIds v.result.leftover).Perm
      (v.parent.id :: v.failed) := by
  cases v with
  | passed c => exact .refl _
  | refused c message => exact .refl _
  | sent kind c outcomes =>
    cases kind with
    | orderOnly | noOrder => exact balance_alone c (DeployResult.ofOutcomes outcomes).errors
    | mixed =>
      -- the parent goes on to the next rule, and its children are reported
      show (failed (.sent .mixed c outcomes) ++ [] ++ [c.id]).Perm _
      rw [List.append_nil]
      exact List.perm_append_singleton c.id _

/-- A parent is lost or left over at most once. -/
theorem lost_once (v : Visit) :
    (v.lost ++ changedIds v.result.leftover).Sublist [v.parent.id] := by
  have halone (c : InstanceChange) (errors : List Diagnostic) :
      ((if errors.isEmpty then [] else [c.id]) ++ []).Sublist [c.id] := by
    rw [List.append_nil]
    split
    · exact List.nil_sublist _
    · exact .refl _
  cases v with
  | passed c => exact .refl _
  | refused c message => exact List.nil_sublist _
  | sent kind c outcomes =>
    cases kind with
    | mixed => exact .refl _
    | orderOnly | noOrder =>
      -- nothing is left over, and the parent is lost if an error came up
      show ((if (DeployResult.ofOutcomes outcomes).errors.isEmpty then [] else [c.id])
        ++ []).Sublist _
      exact halone c (DeployResult.ofOutcomes outcomes).errors

end Visit

/-! ## §2. Tours. -/

/-- The parents that the rules visited, and what they left over in the end. -/
structure Tour where
  visits : List Visit
  left : List InstanceChange

/-- What visits come to, one after the other. -/
def results : List Visit → DeployResult
  | [] => {}
  | v :: rest => v.result.result ++ results rest

/-- What visits leave over, in order. -/
def leftovers (visits : List Visit) : List InstanceChange :=
  visits.flatMap (fun v => v.result.leftover)

/-- Visits a parent: if its list changed, the children are deployed. -/
def visit (pool : Pool ω) (handler : ChangeHandler ω) (rule : ChildOrderRule)
    (c : InstanceChange) : StateM ω Visit :=
  match orderChangeFor rule c with
  | .noOrder => pure (.passed c)
  | kind =>
    match positionChanges rule c with
    | .error message => pure (.refused c message)
    | .ok children => do
      let outcomes ← handler.fanOut pool.limit pool.next children
      pure (.sent kind c outcomes)

/-- Visits one parent after the other. -/
def visitAll (pool : Pool ω) (handler : ChangeHandler ω) (rule : ChildOrderRule) :
    List InstanceChange → StateM ω (List Visit)
  | [] => pure []
  | c :: rest => do
    let first ← visit pool handler rule c
    let others ← visitAll pool handler rule rest
    pure (first :: others)

/-- The visits of one rule after the other, each to what the one before left over. -/
def tour (pool : Pool ω) (handler : ChangeHandler ω) :
    List ChildOrderRule → List InstanceChange → StateM ω Tour
  | [], changes => pure ⟨[], changes⟩
  | rule :: rest, changes => do
    let first ← visitAll pool handler rule changes
    let later ← tour pool handler rest (leftovers first)
    pure ⟨first ++ later.visits, later.left⟩

theorem results_append (visits later : List Visit) :
    results (visits ++ later) = results visits ++ results later := by
  induction visits with
  | nil => rfl
  | cons v rest ih =>
    show v.result.result ++ results (rest ++ later) = _
    rw [ih]
    show DeployResult.append _ (DeployResult.append _ _) = _
    unfold DeployResult.append
    rw [← List.append_assoc, ← List.append_assoc]
    rfl

theorem deployParent_eq (pool : Pool ω) (handler : ChangeHandler ω) (rule : ChildOrderRule)
    (c : InstanceChange) : deployParent pool handler rule c = (do
      let v ← visit pool handler rule c
      pure v.result) := by
  unfold deployParent visit
  cases orderChangeFor rule c with
  | noOrder => rfl
  | orderOnly => cases positionChanges rule c <;> rfl
  | mixed => cases positionChanges rule c <;> rfl

theorem deployOrder_eq (pool : Pool ω) (handler : ChangeHandler ω) (rule : ChildOrderRule)
    (changes : List InstanceChange) : deployOrder pool handler rule changes = (do
      let visits ← visitAll pool handler rule changes
      pure { result := results visits, leftover := leftovers visits }) := by
  induction changes with
  | nil => rfl
  | cons c rest ih =>
    unfold deployOrder
    rw [deployParent_eq, ih]
    rfl

/-- Deploying lists is going on a tour and summing up what it came to. -/
theorem deployLists_eq (pool : Pool ω) (handler : ChangeHandler ω) (rules : List ChildOrderRule)
    (changes : List InstanceChange) : deployLists pool handler rules changes = (do
      let t ← tour pool handler rules changes
      pure { result := results t.visits, leftover := t.left }) := by
  induction rules generalizing changes with
  | nil => rfl
  | cons rule rest ih =>
    simp only [deployLists, tour, deployOrder_eq, ih, bind_assoc, pure_bind, results_append]

/-! ## §3. The books. -/

/-- Of the changes that were handed over, each is applied, reported, lost or left over; on top of
that the failed children are reported.  No change is lost twice, or lost and left over. -/
structure Ledger (handed : List InstanceChange) (visits : List Visit)
    (left : List InstanceChange) : Prop where
  balance : ((results visits).ids ++ visits.flatMap Visit.lost ++ changedIds left).Perm
    (changedIds handed ++ visits.flatMap Visit.failed)
  once : (visits.flatMap Visit.lost ++ changedIds left).Subperm (changedIds handed)

theorem count_results_cons (v : Visit) (visits : List Visit) (id : ElementId) :
    (results (v :: visits)).ids.count id
      = v.result.result.ids.count id + (results visits).ids.count id := by
  show (DeployResult.ids (v.result.result ++ results visits)).count id = _
  rw [(DeployResult.append_ids _ _).count_eq, List.count_append]

theorem count_results_append (visits later : List Visit) (id : ElementId) :
    (results (visits ++ later)).ids.count id
      = (results visits).ids.count id + (results later).ids.count id := by
  induction visits with
  | nil => exact (Nat.zero_add _).symm
  | cons v visits ih =>
    rw [List.cons_append, count_results_cons, count_results_cons, ih, Nat.add_assoc]

namespace Ledger

/-- Only the elements that changes are about count. -/
theorem of_ids {handed handed' left : List InstanceChange} {visits : List Visit}
    (h : Ledger handed visits left) (hids : changedIds handed = changedIds handed') :
    Ledger handed' visits left :=
  ⟨hids ▸ h.balance, hids ▸ h.once⟩

/-- Without visits everything is left over. -/
theorem nil (changes : List InstanceChange) : Ledger changes [] changes where
  balance := by
    show (changedIds changes).Perm (changedIds changes ++ [])
    rw [List.append_nil]
  once := .refl _

/-- The books of visits to one parent after the other. -/
theorem of_visits (visits : List Visit) :
    Ledger (visits.map Visit.parent) visits (leftovers visits) where
  balance := by
    -- books are compared by how often an element is in them
    rw [List.perm_iff_count]
    intro id
    induction visits with
    | nil => rfl
    | cons v visits ih =>
      have hfirst := List.perm_iff_count.mp v.balance id
      simp only [leftovers, List.map_cons, List.flatMap_cons, changedIds_append, changedIds_cons,
        List.count_append, List.count_cons, count_results_cons] at hfirst ih ⊢
      omega
  once := by
    rw [List.subperm_iff_count]
    intro id
    induction visits with
    | nil => exact Nat.le_refl _
    | cons v visits ih =>
      have hfirst := v.lost_once.count_le id
      simp only [leftovers, List.map_cons, List.flatMap_cons, changedIds_append, changedIds_cons,
        List.count_append, List.count_cons, List.count_nil] at hfirst ih ⊢
      omega

/-- The books of later visits go on where those of earlier ones end. -/
theorem append {handed middle left : List InstanceChange} {visits later : List Visit}
    (h : Ledger handed visits middle) (h' : Ledger middle later left) :
    Ledger handed (visits ++ later) left where
  balance := by
    have hfirst := List.perm_iff_count.mp h.balance
    have hlater := List.perm_iff_count.mp h'.balance
    rw [List.perm_iff_count]
    intro id
    have := hfirst id
    have := hlater id
    simp only [List.flatMap_append, List.count_append, count_results_append] at *
    omega
  once := by
    have hfirst := List.subperm_iff_count.mp h.once
    have hlater := List.subperm_iff_count.mp h'.once
    rw [List.subperm_iff_count]
    intro id
    have := hfirst id
    have := hlater id
    simp only [List.flatMap_append, List.count_append] at *
    omega

end Ledger

/-- A visit is about the parent that came, and its outcomes are those of the children that the
parent lists. -/
theorem visit_spec (pool : Pool ω) (handler : ChangeHandler ω) {rules : List ChildOrderRule}
    {rule : ChildOrderRule} (hrule : rule ∈ rules) (c : InstanceChange) :
    Ensures (visit pool handler rule c) (fun v => v.parent = c ∧ v.Genuine rules handler) := by
  unfold visit
  have hsent (hkind : orderChangeFor rule c ≠ .noOrder) {children : List InstanceChange}
      (hchildren : positionChanges rule c = .ok children) :
      Ensures (do
        let outcomes ← handler.fanOut pool.limit pool.next children
        pure (Visit.sent (orderChangeFor rule c) c outcomes))
        (fun v => v.parent = c ∧ v.Genuine rules handler) := by
    have hfan := handler.fanOut_forall₂ (fun child => Ensures.yields (handler.finish child))
      pool.limit pool.next children
    exact hfan.bind fun outcomes hout =>
      .pure ⟨rfl, hkind, rule, hrule, children, rfl, hchildren, hout⟩
  split
  · exact .pure ⟨rfl, trivial⟩
  next hkind =>
    -- the list changed, alone or among other things
    split
    · exact .pure ⟨rfl, trivial⟩
    next children hchildren => exact hsent hkind hchildren

theorem visitAll_spec (pool : Pool ω) (handler : ChangeHandler ω) {rules : List ChildOrderRule}
    {rule : ChildOrderRule} (hrule : rule ∈ rules) (changes : List InstanceChange) :
    Ensures (visitAll pool handler rule changes)
      (fun visits =>
        visits.map Visit.parent = changes ∧ ∀ v ∈ visits, v.Genuine rules handler) := by
  induction changes with
  | nil =>
    unfold visitAll
    exact .pure ⟨rfl, List.forall_mem_nil _⟩
  | cons c rest ih =>
    refine (visit_spec pool handler hrule c).bind fun v hv => ?_
    refine ih.bind fun visits hvisits => .pure ?_
    obtain ⟨hparent, hgenuine⟩ := hv
    obtain ⟨hparents, hall⟩ := hvisits
    exact ⟨by rw [List.map_cons, hparent, hparents], List.forall_mem_cons.mpr ⟨hgenuine, hall⟩⟩

/-- **The books of a tour balance**, and every visit in them is genuine. -/
theorem tour_ledger (pool : Pool ω) (handler : ChangeHandler ω) {all rules : List ChildOrderRule}
    (hrules : rules ⊆ all) (changes : List InstanceChange) :
    Ensures (tour pool handler rules changes)
      (fun t => Ledger changes t.visits t.left ∧ ∀ v ∈ t.visits, v.Genuine all handler) := by
  induction rules generalizing changes with
  | nil =>
    unfold tour
    exact .pure ⟨.nil changes, List.forall_mem_nil _⟩
  | cons rule rest ih =>
    have hrule := hrules List.mem_cons_self
    refine (visitAll_spec pool handler hrule changes).bind fun visits hvisits => ?_
    obtain ⟨hparents, hgenuine⟩ := hvisits
    refine (ih (fun r hr => hrules (List.mem_cons_of_mem rule hr)) _).bind fun later hlater => ?_
    obtain ⟨hledger, hgenuine'⟩ := hlater
    -- the rule visits every change that it gets, so its books start from all of them
    have hfirst := Ledger.of_visits visits
    rw [hparents] at hfirst
    refine .pure ⟨hfirst.append hledger, ?_⟩
    intro v hv
    exact (List.mem_append.mp hv).elim (hgenuine v) (hgenuine' v)

end AccountSync.Children
