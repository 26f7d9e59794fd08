/-
  AccountSync.Proofs.Children.Routing
  ───────────────────────────────────
  **WHERE PARENTS GO WHOSE LISTS MAY HAVE CHANGED.**

  A rule sends every parent of a batch one of four ways.  Is its list the same, or has it none,
  then it is left over.  Did its list change, and the changes of the children cannot be built,
  then it is reported.  Else the children are deployed, and then it is applied or, if other
  fields changed as well, left over.  The ways are told apart by the fields in which the
  snapshots differ, and the children of one parent are done before those of the next one begin.

      ChangesList, ChangesOther — the fields in which the snapshots of a parent differ
      touches                   — that is what the differences are counted for
      ParentTurn.Routed         — what becomes of a parent
      CallsFor                  — the calls that are made for a parent
      order_routed              — a whole batch
-/
import AccountSync.Proofs.Children.Positions
import AccountSync.Proofs.Deployment.Reorders

namespace AccountSync.Children

open List (Forall₂)
open scoped List

variable {ω : Type} {rule : ChildOrderRule} {c : InstanceChange}

/-! ## §1. What differs. -/

/-- The change is one of a parent that the rule is about, and the list is another one. -/
def ChangesList (rule : ChildOrderRule) (c : InstanceChange) : Prop :=
  ∃ before after, c = .modification before after ∧ after.typeName = rule.parentType
    ∧ before.DiffersIn after rule.orderField

/-- The change modifies a field other than that of the list. -/
def ChangesOther (rule : ChildOrderRule) (c : InstanceChange) : Prop :=
  ∃ before after field, c = .modification before after ∧ field ≠ rule.orderField
    ∧ before.DiffersIn after field

/-- The differences of the change lie in fields. -/
def Orderable (c : InstanceChange) : Prop :=
  ∀ before after, c = .modification before after → Comparable before after

/-- What is to be seen of a change in its differences. -/
def Touches (rule : ChildOrderRule) (c : InstanceChange) : OrderChange → Prop
  | .noOrder => ¬ChangesList rule c
  | .orderOnly => ChangesList rule c ∧ ¬ChangesOther rule c
  | .mixed => ChangesList rule c ∧ ChangesOther rule c

theorem ChangesList.isModification (h : ChangesList rule c) : c.isModification = true := by
  obtain ⟨_, _, rfl, -⟩ := h
  rfl

theorem orderable_of_not_modification (h : c.isModification = false) : Orderable c := by
  rintro before after rfl
  exact absurd h.symm Bool.false_ne_true

theorem changesList_modification {before after : Instance} :
    ChangesList rule (.modification before after)
      ↔ after.typeName = rule.parentType ∧ before.DiffersIn after rule.orderField := by
  constructor
  · rintro ⟨_, _, heq, htype, hdiffers⟩
    cases heq
    exact ⟨htype, hdiffers⟩
  · intro h
    exact ⟨before, after, rfl, h⟩

theorem changesOther_modification {before after : Instance} :
    ChangesOther rule (.modification before after)
      ↔ ∃ field, field ≠ rule.orderField ∧ before.DiffersIn after field := by
  constructor
  · rintro ⟨_, _, field, heq, hfield⟩
    cases heq
    exact ⟨field, hfield⟩
  · intro ⟨field, hfield⟩
    exact ⟨before, after, field, rfl, hfield⟩

/-- **Counting differences tells in which fields the snapshots differ.** -/
theorem touches (h : Orderable c) : Touches rule c (orderChangeFor rule c) := by
  cases c with
  | addition after | removal before =>
    -- what is added or removed has one snapshot, and so no differences
    show Touches rule _ (if _ then OrderChange.noOrder else OrderChange.noOrder)
    rw [ite_self]
    intro hlist
    exact absurd hlist.isModification Bool.false_ne_true
  | modification before after =>
    by_cases htype : rule.parentType = after.typeName
    · have hlist : ChangesList rule (.modification before after)
          ↔ before.DiffersIn after rule.orderField := by
        simp [changesList_modification, htype]
      have hnone : orderChange rule.orderField (.modification before after) = .noOrder
          ↔ ¬before.DiffersIn after rule.orderField :=
        orderChange_eq_noOrder_iff (h before after rfl)
      have honly : orderChange rule.orderField (.modification before after) = .orderOnly
          ↔ before.DiffersIn after rule.orderField
            ∧ ∀ other, before.DiffersIn after other → other = rule.orderField :=
        orderChange_eq_orderOnly_iff (h before after rfl)
      rw [orderChangeFor_of_type htype]
      cases hkind : orderChange rule.orderField (.modification before after) with
      | noOrder =>
        show ¬ChangesList rule _
        rw [hlist]
        exact hnone.mp hkind
      | orderOnly =>
        obtain ⟨hdiffers, hothers⟩ := honly.mp hkind
        refine ⟨hlist.mpr hdiffers, ?_⟩
        intro hother
        obtain ⟨field, hne, hfield⟩ := changesOther_modification.mp hother
        exact hne (hothers field hfield)
      | mixed =>
        rw [hkind] at hnone honly
        have hdiffers : before.DiffersIn after rule.orderField := by simpa using hnone
        refine ⟨hlist.mpr hdiffers, ?_⟩
        -- if there were no other field, then the list would be all that changed
        by_contra hother
        have hothers : ∀ other, before.DiffersIn after other → other = rule.orderField := by
          intro other hdiffers
          by_contra hne
          exact hother (changesOther_modification.mpr ⟨other, hne, hdiffers⟩)
        exact absurd (honly.mpr ⟨hdiffers, hothers⟩) nofun
    · have hkind : orderChangeFor rule (.modification before after) = .noOrder :=
        orderChangeFor_eq_noOrder (h before after rfl) fun heq => absurd heq htype
      rw [hkind]
      intro hlist
      exact htype (changesList_modification.mp hlist).1.symm

/-- Whether a rule leaves a change over is to be seen of what differs, and of whether the changes
of the children can be built. -/
theorem passesOn_iff (h : Orderable c) : passesOn rule c = true
    ↔ ¬ChangesList rule c
      ∨ (ChangesOther rule c ∧ ∃ children, positionChanges rule c = .ok children) := by
  have htouches : Touches rule c (orderChangeFor rule c) := touches h
  have hbuilt : (positionChanges rule c).isOk = true
      ↔ ∃ children, positionChanges rule c = .ok children := by
    cases positionChanges rule c <;> simp [Except.isOk, Except.toBool]
  unfold passesOn
  cases hkind : orderChangeFor rule c with
  | noOrder =>
    rw [hkind] at htouches
    exact iff_of_true rfl (.inl htouches)
  | orderOnly =>
    rw [hkind] at htouches
    obtain ⟨hlist, hother⟩ := htouches
    simp [hlist, hother]
  | mixed =>
    rw [hkind] at htouches
    obtain ⟨hlist, hother⟩ := htouches
    simp [hlist, hother, hbuilt]

/-! ## §2. The turn of a parent. -/

/-- A parent, the world when its turn comes, and what becomes of it. -/
structure ParentTurn (ω : Type) where
  parent : InstanceChange
  world : ω
  result : StageResult

/-- The parents of a batch have their turns one after the other. -/
def parentTurns (pool : Pool ω) (handler : ChangeHandler ω) (rule : ChildOrderRule) :
    List InstanceChange → ω → List (ParentTurn ω)
  | [], _ => []
  | c :: rest, w =>
    let done := deployParent pool handler rule c w
    ⟨c, w, done.1⟩ :: parentTurns pool handler rule rest done.2

/-- What becomes of a parent whose children were deployed, with these outcomes. -/
structure ParentTurn.Sent (rule : ChildOrderRule) (outcomes : List Outcome) (t : ParentTurn ω) :
    Prop where
  errors : t.result.result.errors = outcomes.filterMap Outcome.error?
  applied : ¬ChangesOther rule t.parent → (∀ o ∈ outcomes, o.result = .ok ()) →
    t.result.result.applied = [t.parent]
  failed : ¬ChangesOther rule t.parent → ¬(∀ o ∈ outcomes, o.result = .ok ()) →
    t.result.result.applied = []
  done : ¬ChangesOther rule t.parent → t.result.leftover = []
  mixed : ChangesOther rule t.parent →
    t.result.result.applied = [] ∧ t.result.leftover = [t.parent]

/-- What becomes of a parent. -/
structure ParentTurn.Routed (pool : Pool ω) (handler : ChangeHandler ω) (rule : ChildOrderRule)
    (t : ParentTurn ω) : Prop where
  /-- The list is the same. -/
  passed : ¬ChangesList rule t.parent → t.result = { leftover := [t.parent] }
  /-- The list is another one, but the changes of the children cannot be built. -/
  refused : ChangesList rule t.parent →
    (¬∃ children, positionChanges rule t.parent = .ok children) →
    t.result = { result := {
      errors := [.error t.parent.id (notReferences rule t.parent.data)] } }
  /-- The children are deployed in the world that the parent finds. -/
  sent : ChangesList rule t.parent → ∀ children, positionChanges rule t.parent = .ok children →
    let outcomes := (handler.fanOut pool.limit pool.next children t.world).1
    OutcomesOf handler children outcomes ∧ t.Sent rule outcomes

/-- Errors come from the outcomes that are no success. -/
theorem errors_isEmpty_iff (outcomes : List Outcome) :
    (DeployResult.ofOutcomes outcomes).errors.isEmpty = true
      ↔ ∀ o ∈ outcomes, o.result = .ok () := by
  have hnone (o : Outcome) : o.error? = none ↔ o.result = .ok () := by
    unfold Outcome.error?
    cases o.result <;> simp
  show (outcomes.filterMap Outcome.error?).isEmpty = true ↔ _
  rw [List.isEmpty_iff, List.filterMap_eq_nil_iff]
  simp only [hnone]

/-- A parent whose children were deployed is done with if its list is all that changed. -/
theorem settled_sent {kind : OrderChange} (h : Touches rule c kind) (hlist : ChangesList rule c)
    (w : ω) (outcomes : List Outcome) :
    ParentTurn.Sent rule outcomes
      ⟨c, w, settled kind c (DeployResult.ofOutcomes outcomes).errors⟩ := by
  cases kind with
  | noOrder => exact absurd hlist h
  | orderOnly =>
    have hother : ¬ChangesOther rule c := h.2
    refine ⟨rfl, fun _ hall => ?_, fun _ hsome => ?_, fun _ => rfl, fun h => absurd h hother⟩
    · exact if_pos ((errors_isEmpty_iff outcomes).mpr hall)
    · exact if_neg fun hempty => hsome ((errors_isEmpty_iff outcomes).mp hempty)
  | mixed =>
    have hother : ChangesOther rule c := h.2
    exact ⟨rfl, fun h => absurd hother h, fun h => absurd hother h, fun h => absurd hother h,
      fun _ => ⟨rfl, rfl⟩⟩

theorem changesList_iff (h : Orderable c) :
    ChangesList rule c ↔ orderChangeFor rule c ≠ .noOrder := by
  have htouches : Touches rule c (orderChangeFor rule c) := touches h
  cases hkind : orderChangeFor rule c with
  | noOrder =>
    rw [hkind] at htouches
    exact iff_of_false htouches (not_not_intro rfl)
  | orderOnly | mixed =>
    rw [hkind] at htouches
    exact iff_of_true htouches.1 nofun

section Parents

variable (pool : Pool ω) (handler : ChangeHandler ω)

theorem deployParent_same (h : Orderable c) (hlist : ¬ChangesList rule c) :
    deployParent pool handler rule c = pure { leftover := [c] } := by
  have hkind : orderChangeFor rule c = .noOrder := by
    by_contra hkind
    exact hlist ((changesList_iff h).mpr hkind)
  unfold deployParent
  rw [hkind]

theorem deployParent_refused (h : Orderable c) (hlist : ChangesList rule c) {message : String}
    (hchanges : positionChanges rule c = .error message) :
    deployParent pool handler rule c
      = pure { result := { errors := [.error c.id message] } } := by
  have hkind := (changesList_iff h).mp hlist
  unfold deployParent
  rw [hchanges]
  split
  next hnone => exact absurd hnone hkind
  next => rfl

theorem deployParent_sent (h : Orderable c) (hlist : ChangesList rule c)
    {children : List InstanceChange} (hchanges : positionChanges rule c = .ok children) :
    deployParent pool handler rule c = (do
      let done ← pool.deploy handler children
      pure (settled (orderChangeFor rule c) c done.errors)) := by
  have hkind := (changesList_iff h).mp hlist
  unfold deployParent
  rw [hchanges]
  split
  next hnone => exact absurd hnone hkind
  next => rfl

theorem deployParent_routed (h : Orderable c) (w : ω) :
    ParentTurn.Routed pool handler rule ⟨c, w, (deployParent pool handler rule c w).1⟩ where
  passed hlist := by
    rw [deployParent_same pool handler h hlist]
    rfl
  refused hlist hnone := by
    rw [deployParent_refused pool handler h hlist (positionChanges_eq_error hnone)]
    rfl
  sent hlist children hchildren := by
    rw [deployParent_sent pool handler h hlist hchildren]
    have houtcomes : Ensures (handler.fanOut pool.limit pool.next children)
        (OutcomesOf handler children) :=
      handler.fanOut_forall₂ (fun child => Ensures.yields (handler.finish child)) pool.limit
        pool.next children
    exact ⟨houtcomes w, settled_sent (touches h) hlist w _⟩

end Parents

/-- Only a parent is applied whose list is all that changed. -/
theorem ParentTurn.Routed.of_applied {pool : Pool ω} {handler : ChangeHandler ω} {t : ParentTurn ω}
    (h : t.Routed pool handler rule) (hc : c ∈ t.result.result.applied) :
    c = t.parent ∧ ChangesList rule t.parent ∧ ¬ChangesOther rule t.parent := by
  by_cases hlist : ChangesList rule t.parent
  · by_cases hbuilt : ∃ children, positionChanges rule t.parent = .ok children
    · obtain ⟨children, hchildren⟩ := hbuilt
      obtain ⟨-, hsent⟩ := h.sent hlist children hchildren
      by_cases hother : ChangesOther rule t.parent
      · rw [(hsent.mixed hother).1] at hc
        exact absurd hc List.not_mem_nil
      · by_cases hall : ∀ o ∈ (handler.fanOut pool.limit pool.next children t.world).1,
            o.result = .ok ()
        · rw [hsent.applied hother hall] at hc
          exact ⟨List.mem_singleton.mp hc, hlist, hother⟩
        · rw [hsent.failed hother hall] at hc
          exact absurd hc List.not_mem_nil
    · rw [h.refused hlist hbuilt] at hc
      exact absurd hc List.not_mem_nil
  · rw [h.passed hlist] at hc
    exact absurd hc List.not_mem_nil

/-- The turns of a batch are those of its parents, each is routed, and together they are what
becomes of the batch. -/
theorem parentTurns_spec (rule : ChildOrderRule) (pool : Pool ω) (handler : ChangeHandler ω)
    {changes : List InstanceChange} (h : ∀ c ∈ changes, Orderable c) (w : ω) :
    let turns := parentTurns pool handler rule changes w
    let done := (deployOrder pool handler rule changes w).1
    turns.map ParentTurn.parent = changes
      ∧ (∀ t ∈ turns, t.Routed pool handler rule)
      ∧ done.result.applied = turns.flatMap (fun t => t.result.result.applied)
      ∧ done.result.errors = turns.flatMap (fun t => t.result.result.errors)
      ∧ done.leftover = turns.flatMap (fun t => t.result.leftover) := by
  induction changes generalizing w with
  | nil => exact ⟨rfl, fun _ ht => absurd ht List.not_mem_nil, rfl, rfl, rfl⟩
  | cons c rest ih =>
    obtain ⟨hc, hrest⟩ := List.forall_mem_cons.mp h
    let first := deployParent pool handler rule c w
    obtain ⟨hparents, hrouted, happlied, herrors, hleft⟩ := ih hrest first.2
    refine ⟨congrArg (c :: ·) hparents, ?_, ?_, ?_, ?_⟩
    · exact List.forall_mem_cons.mpr ⟨deployParent_routed pool handler hc w, hrouted⟩
    · exact congrArg (first.1.result.applied ++ ·) happlied
    · exact congrArg (first.1.result.errors ++ ·) herrors
    · exact congrArg (first.1.leftover ++ ·) hleft

/-! ## §3. Calls. -/

/-- The calls that are made for a parent: if its list is another one and the changes of the children
can be built, then there is one for each item of the list; else there is none. -/
structure CallsFor (limit : Nat) (rule : ChildOrderRule) (c : InstanceChange)
    (log : CallLog InstanceChange) : Prop where
  made : ChangesList rule c → ∀ children, positionChanges rule c = .ok children →
    children.length = (listed rule c.data).length ∧ log.Serves limit children
  none : ¬(ChangesList rule c ∧ ∃ children, positionChanges rule c = .ok children) → log = []

theorem deployParent_logs (pool : Pool ω) (handler : ChangeHandler ω) (h : Orderable c)
    (before : CallLog InstanceChange) :
    Logs (deployParent pool.recorded handler.recorded rule c) before
      (fun _ log => ∃ new, log = before ++ new ∧ CallsFor pool.limit rule c new) := by
  have hnothing (hnot : ¬(ChangesList rule c ∧ ∃ children, positionChanges rule c = .ok children)) :
      ∃ new, before = before ++ new ∧ CallsFor pool.limit rule c new := by
    refine ⟨[], (List.append_nil before).symm, fun hlist children hchildren => ?_, fun _ => rfl⟩
    exact absurd ⟨hlist, children, hchildren⟩ hnot
  by_cases hlist : ChangesList rule c
  · cases hchanges : positionChanges rule c with
    | error message =>
      rw [deployParent_refused _ _ h hlist hchanges]
      exact .pure (hnothing (by simp [hchanges]))
    | ok children =>
      rw [deployParent_sent _ _ h hlist hchanges]
      refine (pool.deploy_logs handler children before).bind fun _ log hlog => .pure ?_
      obtain ⟨new, rfl, hnew⟩ := hlog
      refine ⟨new, rfl, fun _ children' hchildren' => ?_, fun hnot => ?_⟩
      · obtain rfl := Except.ok.inj (hchanges.symm.trans hchildren')
        obtain ⟨children', hchildren', hpositions⟩ :=
          positionChanges_of_refers (positionChanges_ok_iff.mp ⟨children, hchanges⟩)
        obtain rfl := Except.ok.inj (hchanges.symm.trans hchildren')
        exact ⟨hpositions.length, hnew⟩
      · exact absurd ⟨hlist, children, hchanges⟩ hnot
  · rw [deployParent_same _ _ h hlist]
    exact .pure (hnothing fun hboth => hlist hboth.1)

/-- The calls of a batch are those of its parents, one parent after the other. -/
theorem deployOrder_logs (rule : ChildOrderRule) (pool : Pool ω) (handler : ChangeHandler ω)
    {changes : List InstanceChange} (h : ∀ c ∈ changes, Orderable c)
    (before : CallLog InstanceChange) :
    Logs (deployOrder pool.recorded handler.recorded rule changes) before
      (fun _ log => ∃ logs, log = before ++ logs.flatten
        ∧ Forall₂ (CallsFor pool.limit rule) changes logs) := by
  induction changes generalizing before with
  | nil => exact .pure ⟨[], (List.append_nil before).symm, .nil⟩
  | cons c rest ih =>
    obtain ⟨hc, hrest⟩ := List.forall_mem_cons.mp h
    refine (deployParent_logs pool handler hc before).bind fun first log hlog => ?_
    obtain ⟨new, rfl, hnew⟩ := hlog
    refine (ih hrest (before ++ new)).bind fun others log hlog => .pure ?_
    obtain ⟨logs, rfl, hlogs⟩ := hlog
    exact ⟨new :: logs, by simp, .cons hnew hlogs⟩

/-- When all calls for a parent are made, those that began have ended. -/
theorem CallsFor.ended {limit : Nat} {log : CallLog InstanceChange}
    (h : CallsFor limit rule c log) : log.ended ~ log.begun := by
  by_cases hmade : ChangesList rule c ∧ ∃ children, positionChanges rule c = .ok children
  · obtain ⟨hlist, children, hchildren⟩ := hmade
    obtain ⟨-, hserves⟩ := h.made hlist children hchildren
    rw [hserves.inOrder]
    exact hserves.once
  · rw [h.none hmade]
    exact .refl _

theorem callsFor_ended {limit : Nat} {changes : List InstanceChange}
    {logs : List (CallLog InstanceChange)} (h : Forall₂ (CallsFor limit rule) changes logs) :
    CallLog.ended logs.flatten ~ CallLog.begun logs.flatten := by
  induction h with
  | nil => exact .refl _
  | cons hfirst _ ih =>
    rw [List.flatten_cons, CallLog.ended_append, CallLog.begun_append]
    exact hfirst.ended.append ih

/-! ## §4. A batch. -/

/-- **A rule routes every change of a batch by what differs.**  Left over are, in their order, the
changes whose list is the same or which have none, and those of which other fields differ as well
and the changes of the children could be built.  Each parent has its turn, and what becomes of the
batch is what becomes of the parents; none of them is both applied and left over.  The calls are
those for the first parent, and then those for the next one, and by then all that began have
ended. -/
theorem order_routed (pool : Pool ω) (handler : ChangeHandler ω) (rule : ChildOrderRule)
    (changes : List InstanceChange) (h : ∀ c ∈ changes, Orderable c) (w : ω) :
    let done := (deployOrder pool handler rule changes w).1
    let turns := parentTurns pool handler rule changes w
    let recorded := deployOrder pool.recorded handler.recorded rule changes (w, [])
    (done.leftover = changes.filter (passesOn rule)
        ∧ ∀ c ∈ changes, passesOn rule c = true ↔ ¬ChangesList rule c
          ∨ (ChangesOther rule c ∧ ∃ children, positionChanges rule c = .ok children))
      ∧ turns.map ParentTurn.parent = changes
      ∧ (∀ t ∈ turns, t.Routed pool handler rule)
      ∧ done.result.applied = turns.flatMap (fun t => t.result.result.applied)
      ∧ done.result.errors = turns.flatMap (fun t => t.result.result.errors)
      ∧ (∀ c ∈ done.result.applied, c ∉ done.leftover)
      ∧ (recorded.1 = done ∧ recorded.2.1 = (deployOrder pool handler rule changes w).2)
      ∧ ∃ logs, recorded.2.2 = logs.flatten
        ∧ Forall₂ (CallsFor pool.limit rule) changes logs
        ∧ ∀ earlier later, logs = earlier ++ later →
          CallLog.ended earlier.flatten ~ CallLog.begun earlier.flatten := by
  intro done turns recorded
  obtain ⟨hparents, hrouted, happlied, herrors, -⟩ := parentTurns_spec rule pool handler h w
  have hleft : done.leftover = changes.filter (passesOn rule) :=
    deployOrder_leftover pool handler rule changes w
  obtain ⟨logs, hlogs, hcalls⟩ := deployOrder_logs rule pool handler h [] w
  refine ⟨⟨hleft, fun c hc => passesOn_iff (h c hc)⟩, hparents, hrouted, happlied, herrors, ?apart,
    deployOrder_erases pool handler rule changes w [], logs, hlogs, hcalls, ?ended⟩
  case apart =>
    intro c hc hleftover
    rw [happlied] at hc
    obtain ⟨t, ht, hc⟩ := List.mem_flatMap.mp hc
    obtain ⟨rfl, hlist, hother⟩ := (hrouted t ht).of_applied hc
    rw [hleft] at hleftover
    obtain ⟨hmem, hpasses⟩ := List.mem_filter.mp hleftover
    rcases (passesOn_iff (h _ hmem)).mp hpasses with hsame | ⟨hmixed, -⟩
    · exact hsame hlist
    · exact hother hmixed
  case ended =>
    intro earlier later hsplit
    subst hsplit
    exact callsFor_ended (List.forall₂_take_append changes earlier later hcalls)

/-- An added category is left over, and one whose sections changed places leads to two calls. -/
theorem order_routed_for_swap :
    let handler : ChangeHandler Unit := .ofFinish fun c => pure ⟨c, .ok ()⟩
    let pool : Pool Unit := ⟨2, .eager⟩
    let swap : InstanceChange := .modification .beforeSwap .afterSwap
    let batch : List InstanceChange := [.addition .beforeSwap, swap]
    let done := (deployOrder pool handler .ofSections batch ()).1
    let recorded := deployOrder pool.recorded handler.recorded .ofSections batch ((), [])
    (∀ c ∈ batch, Orderable c)
      ∧ done.leftover = [.addition .beforeSwap]
      ∧ changedIds done.result.applied = [.ofInstance "z" "category" "c"]
      ∧ ∃ children, positionChanges .ofSections swap = .ok children ∧ children.length = 2
        ∧ recorded.2.2.Serves 2 children := by
  intro handler pool swap batch done recorded
  have horderable : ∀ c ∈ batch, Orderable c := by
    refine List.forall_mem_cons.mpr ⟨orderable_of_not_modification rfl, ?_⟩
    refine List.forall_mem_singleton.mpr ?_
    intro before after heq
    obtain ⟨rfl, rfl⟩ := Change.modification.inj heq
    exact ⟨rfl, by decide, by decide⟩
  obtain ⟨⟨hleft, -⟩, -, -, -, -, -, -, logs, hlogs, hcalls, -⟩ :=
    order_routed pool handler .ofSections batch horderable ()
  obtain ⟨children, hchildren⟩ : ∃ children, positionChanges .ofSections swap = .ok children :=
    ⟨_, rfl⟩
  have hleftover : done.leftover = [.addition .beforeSwap] := by
    have hsame : passesOn .ofSections (.addition .beforeSwap) = true := by decide +kernel
    have hother : passesOn .ofSections swap = false := by decide +kernel
    rw [hleft, List.filter_cons_of_pos hsame, List.filter_cons_of_neg (by simp [hother])]
    rfl
  refine ⟨horderable, hleftover, by decide +kernel, children, hchildren, ?_⟩
  obtain ⟨first, rest, hfirst, hrest, rfl⟩ := List.forall₂_cons_left_iff.mp hcalls
  obtain ⟨second, nothing, hsecond, hnothing, rfl⟩ := List.forall₂_cons_left_iff.mp hrest
  obtain rfl := List.forall₂_nil_left_iff.mp hnothing
  have hswap : ChangesList .ofSections swap := ⟨_, _, rfl, rfl, rfl⟩
  obtain ⟨hlength, hserves⟩ := hsecond.made hswap children hchildren
  have hnone : first = [] := by
    refine hfirst.none fun hboth => ?_
    exact absurd hboth.1.isModification Bool.false_ne_true
  have hlog : recorded.2.2 = second := by
    rw [hlogs, hnone]
    exact List.append_nil second
  rw [hlog]
  exact ⟨hlength, hserves⟩

end AccountSync.Children
