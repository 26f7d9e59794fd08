/-
  AccountSync.Proofs.Filter.Handlers
  ──────────────────────────────────
  **WHAT FILTERS HAND TO THEIR HANDLERS.**

  Three of the standard filters deploy changes themselves, each by a handler of its own.  With
  the calls of that handler on record, two of them hand on nothing but what they were handed.
  The filter of child lists hands on changes that it makes up: one for each child that is listed,
  of which it sets the position.

      Filter.HandsOn                  — what a filter hands on, and what it makes up
      Filter.orderInstance_handsOn    — orders are handed on as they are
      Filter.removalLast_handsOn      — and so are late removals
      Filter.childOrder_handsOn       — children are given positions
-/
import AccountSync.Proofs.Deployment.RemovalsLast
import AccountSync.Proofs.Filter.Handed

namespace AccountSync

variable {ω γ : Type}

/-! ## §1. Calls on record. -/

/-- A way to deploy changes with all calls of handlers on record. -/
abbrev DeployOnRecord (ω : Type) :=
  List InstanceChange → LoggedM ω InstanceChange (Except Failure StageResult)

/-- With the record forgotten this is how the filter deploys; and on record are only changes that
the filter was handed, and such as it makes up of them. -/
structure Filter.HandsOn (f : Filter ω) (onRecord : DeployOnRecord ω)
    (made : List InstanceChange → InstanceChange → Prop) : Prop where
  erases : ∀ handed, Erases (onRecord handed) (f.deploy handed)
  calls : ∀ handed w, ∀ c ∈ (onRecord handed (w, [])).2.2.begun, c ∈ handed ∨ made handed c

/-- Only calls on changes with the property are put on record, and the result is as it should. -/
def Calls (P : InstanceChange → Prop) (Q : γ → Prop) (x : LoggedM ω InstanceChange γ) : Prop :=
  ∀ log, Logs x log fun a log' => Q a ∧ ∃ new, log' = log ++ new ∧ ∀ c ∈ new.begun, P c

namespace Calls

variable {δ : Type} {P : InstanceChange → Prop} {Q : γ → Prop}

theorem pure {a : γ} (h : Q a) : Calls P Q (Pure.pure a : LoggedM ω InstanceChange γ) :=
  fun log => .pure ⟨h, [], (List.append_nil log).symm, fun _ hc => absurd hc List.not_mem_nil⟩

theorem bind {x : LoggedM ω InstanceChange γ} {f : γ → LoggedM ω InstanceChange δ}
    {R : δ → Prop} (hx : Calls P Q x) (hf : ∀ a, Q a → Calls P R (f a)) :
    Calls P R (x >>= f) := by
  intro log
  refine (hx log).bind fun a log' h => ?_
  obtain ⟨ha, new, rfl, hnew⟩ := h
  refine (hf a ha (log ++ new)).mono fun b log'' h => ?_
  obtain ⟨hb, later, rfl, hlater⟩ := h
  refine ⟨hb, new ++ later, List.append_assoc log new later, fun c hc => ?_⟩
  rw [CallLog.begun_append] at hc
  exact (List.mem_append.mp hc).elim (hnew c) (hlater c)

/-- All that a batch calls its handler on are its changes. -/
theorem deploy (pool : Pool ω) (handler : ChangeHandler ω) {changes : List InstanceChange}
    (h : ∀ c ∈ changes, P c) :
    Calls P (fun _ => True) (pool.recorded.deploy handler.recorded changes) := by
  refine fun log => (pool.deploy_logs handler changes log).mono fun _ _ hlog => ?_
  obtain ⟨new, hnew, hserves⟩ := hlog
  exact ⟨trivial, new, hnew, fun c hc => h c (hserves.inOrder ▸ hc)⟩

/-- What is on record when it was empty before. -/
theorem begun {x : LoggedM ω InstanceChange γ} (h : Calls P Q x) (w : ω) :
    ∀ c ∈ (x (w, [])).2.2.begun, P c := by
  obtain ⟨-, new, hnew, hcalls⟩ := h [] w
  rw [hnew]
  exact hcalls

end Calls

/-! ## §2. Filters that hand on what they are handed. -/

namespace Filter

/-- The filter of orders with its calls on record. -/
def orderInstanceOnRecord (s : Session ω) : DeployOnRecord ω := fun changes => do
  let rules := s.settings.filters.orderInstances
  let done ← s.pool.recorded.route (OrderInstances.claims rules)
    (OrderInstances.deployer rules s.client).recorded changes
  pure (.ok done)

/-- The filter of late removals with its calls on record. -/
def removalLastOnRecord (s : Session ω) : DeployOnRecord ω := fun changes => do
  let (claimed, leftover) := changes.partition
    (fun c => s.settings.filters.removalLastTypes.contains c.typeName)
  let result ← s.pool.recorded.deployRemovalsLast s.deployer.recorded claimed
  pure (.ok { result, leftover })

theorem mem_of_mem_partition {claims : InstanceChange → Bool} {handed : List InstanceChange}
    {c : InstanceChange} (h : c ∈ (handed.partition claims).1) : c ∈ handed := by
  rw [List.partition_eq_filter_filter] at h
  exact List.mem_of_mem_filter h

theorem orderInstance_handsOn (s : Session ω) :
    (orderInstance s).HandsOn (orderInstanceOnRecord s) fun _ _ => False where
  erases handed := by
    have hdeploy := s.pool.deploy_erases
      (OrderInstances.deployer s.settings.filters.orderInstances s.client)
      (handed.partition (OrderInstances.claims s.settings.filters.orderInstances)).1
    exact (hdeploy.bind fun _ => .pure _).bind fun _ => .pure _
  calls handed w c hc := by
    have hcalls : Calls (· ∈ handed) (fun _ => True) (orderInstanceOnRecord s handed) := by
      have hrouted : Calls (· ∈ handed) (fun _ => True) (s.pool.recorded.route
          (OrderInstances.claims s.settings.filters.orderInstances)
          (OrderInstances.deployer s.settings.filters.orderInstances s.client).recorded handed) :=
        (Calls.deploy _ _ fun c hc => mem_of_mem_partition hc).bind fun _ _ => .pure trivial
      exact hrouted.bind fun _ _ => .pure trivial
    exact .inl (hcalls.begun w c hc)

theorem removalLast_handsOn (s : Session ω) :
    (removalLast s).HandsOn (removalLastOnRecord s) fun _ _ => False where
  erases handed :=
    (s.pool.deployRemovalsLast_erases s.deployer _).bind fun _ => .pure _
  calls handed w c hc := by
    have hcalls : Calls (· ∈ handed) (fun _ => True) (removalLastOnRecord s handed) := by
      refine Calls.bind (Q := fun _ => True) ?_ fun _ _ => .pure trivial
      rw [Pool.deployRemovalsLast_eq]
      -- one batch after the other, and both are parts of what is claimed
      refine (Calls.deploy s.pool s.deployer fun c hc => ?_).bind fun _ _ =>
        (Calls.deploy s.pool s.deployer fun c hc => ?_).bind fun _ _ => .pure trivial
      · exact mem_of_mem_partition (List.mem_of_mem_filter hc)
      · exact mem_of_mem_partition (List.mem_of_mem_filter hc)
    exact .inl (hcalls.begun w c hc)

end Filter

/-! ## §3. Children are given positions. -/

theorem Value.reference?_eq_some_iff {v : Value} {r : Reference} :
    v.reference? = some r ↔ v = .reference r := by
  cases v <;> simp [reference?]

namespace Children

/-- The change gives a child that one of the parents lists its place as its position, as one of
the rules says. -/
def MadeFrom (rules : List ChildOrderRule) (parents : List InstanceChange)
    (c : InstanceChange) : Prop :=
  ∃ parent ∈ parents, ∃ rule ∈ rules, ∃ (place : Nat) (r : Reference) (id : Value),
    (listed rule parent.data)[place]? = some (.reference r) ∧ r.targetId? = some id
      ∧ c = .modification (child rule parent.data r id (storedPosition? rule r))
        (child rule parent.data r id (some (.number (.int place))))

/-- Each change of children gives a child that is listed its place, counted from the start. -/
theorem mem_positionChangesFrom {rule : ChildOrderRule} {parent : Instance} {start : Nat}
    {items : List Value} {changes : List InstanceChange}
    (h : positionChangesFrom rule parent start items = some changes) {c : InstanceChange}
    (hc : c ∈ changes) :
    ∃ (i : Nat) (r : Reference) (id : Value), items[i]? = some (.reference r)
      ∧ r.targetId? = some id
      ∧ c = .modification (child rule parent r id (storedPosition? rule r))
        (child rule parent r id (some (.number (.int (start + i : Nat))))) := by
  induction items generalizing start changes with
  | nil =>
    obtain rfl := Option.some.inj h
    exact absurd hc List.not_mem_nil
  | cons item rest ih =>
    obtain ⟨first, hfirst, h⟩ := Option.bind_eq_some_iff.mp h
    obtain ⟨others, hothers, h⟩ := Option.bind_eq_some_iff.mp h
    obtain rfl := Option.some.inj h
    rcases List.mem_cons.mp hc with rfl | hc
    · obtain ⟨r, hr, hfirst⟩ := Option.bind_eq_some_iff.mp hfirst
      obtain ⟨id, hid, hfirst⟩ := Option.bind_eq_some_iff.mp hfirst
      exact ⟨0, r, id, congrArg some (Value.reference?_eq_some_iff.mp hr), hid,
        (Option.some.inj hfirst).symm⟩
    · obtain ⟨i, r, id, hitem, hid, rfl⟩ := ih hothers hc
      rw [Nat.add_right_comm, Nat.add_assoc]
      exact ⟨i + 1, r, id, hitem, hid, rfl⟩

/-- Nothing is removed by changes that are made up. -/
theorem MadeFrom.isRemoval {rules : List ChildOrderRule} {parents : List InstanceChange}
    {c : InstanceChange} (h : MadeFrom rules parents c) : c.isRemoval = false := by
  obtain ⟨_, _, _, _, _, _, _, _, _, rfl⟩ := h
  rfl

theorem MadeFrom.of_positionChanges {rules : List ChildOrderRule} {rule : ChildOrderRule}
    (hrule : rule ∈ rules) {parents : List InstanceChange} {parent : InstanceChange}
    (hparent : parent ∈ parents) {changes : List InstanceChange}
    (h : positionChanges rule parent = .ok changes) {c : InstanceChange} (hc : c ∈ changes) :
    MadeFrom rules parents c := by
  unfold positionChanges at h
  split at h
  next children hchildren =>
    obtain rfl := Except.ok.inj h
    obtain ⟨place, r, id, hitem, hid, hplaced⟩ := mem_positionChangesFrom hchildren hc
    rw [Nat.zero_add] at hplaced
    exact ⟨parent, hparent, rule, hrule, place, r, id, hitem, hid, hplaced⟩
  next => exact absurd h nofun

variable (pool : Pool ω) (handler : ChangeHandler ω) {rules : List ChildOrderRule}
  {handed : List InstanceChange}

theorem deployParent_erases (rule : ChildOrderRule) (c : InstanceChange) :
    Erases (deployParent pool.recorded handler.recorded rule c)
      (deployParent pool handler rule c) := by
  unfold deployParent
  split
  · exact .pure _
  · split
    · exact .pure _
    · exact (pool.deploy_erases handler _).bind fun _ => .pure _

theorem deployOrder_erases (rule : ChildOrderRule) (changes : List InstanceChange) :
    Erases (deployOrder pool.recorded handler.recorded rule changes)
      (deployOrder pool handler rule changes) := by
  induction changes with
  | nil => exact .pure _
  | cons c rest ih =>
    exact (deployParent_erases pool handler rule c).bind fun _ => ih.bind fun _ => .pure _

theorem deployLists_erases (rules : List ChildOrderRule) (changes : List InstanceChange) :
    Erases (deployLists pool.recorded handler.recorded rules changes)
      (deployLists pool handler rules changes) := by
  induction rules generalizing changes with
  | nil => exact .pure _
  | cons rule rest ih =>
    exact (deployOrder_erases pool handler rule changes).bind fun first =>
      (ih first.leftover).bind fun _ => .pure _

theorem deployParent_calls {rule : ChildOrderRule} (hrule : rule ∈ rules) {c : InstanceChange}
    (hc : c ∈ handed) :
    Calls (MadeFrom rules handed) (fun r => r.leftover ⊆ [c])
      (deployParent pool.recorded handler.recorded rule c) := by
  unfold deployParent
  split
  · exact .pure (List.Subset.refl _)
  · split
    · exact .pure (List.nil_subset _)
    next changes hchanges =>
      -- the parent may be left over, but the handler is called on children only
      refine (Calls.deploy pool handler fun child hchild => ?_).bind fun done _ => .pure ?_
      · exact .of_positionChanges hrule hc hchanges hchild
      · exact (settled_within _ c done.errors).2

theorem deployOrder_calls {rule : ChildOrderRule} (hrule : rule ∈ rules)
    {changes : List InstanceChange} (hchanges : changes ⊆ handed) :
    Calls (MadeFrom rules handed) (fun r => r.leftover ⊆ changes)
      (deployOrder pool.recorded handler.recorded rule changes) := by
  induction changes with
  | nil => exact .pure (List.nil_subset _)
  | cons c rest ih =>
    obtain ⟨hc, hrest⟩ := List.cons_subset.mp hchanges
    refine (deployParent_calls pool handler hrule hc).bind fun first hfirst => ?_
    refine (ih hrest).bind fun others hothers => .pure (List.append_subset.mpr ⟨?_, ?_⟩)
    · exact List.Subset.trans hfirst (List.cons_subset_cons c (List.nil_subset rest))
    · exact List.Subset.trans hothers (List.subset_cons_self c rest)

theorem deployLists_calls {later : List ChildOrderRule} (hlater : later ⊆ rules)
    {changes : List InstanceChange} (hchanges : changes ⊆ handed) :
    Calls (MadeFrom rules handed) (fun _ => True)
      (deployLists pool.recorded handler.recorded later changes) := by
  induction later generalizing changes with
  | nil => exact .pure trivial
  | cons rule rest ih =>
    obtain ⟨hrule, hrest⟩ := List.cons_subset.mp hlater
    refine (deployOrder_calls pool handler hrule hchanges).bind fun first hfirst => ?_
    exact (ih hrest (List.Subset.trans hfirst hchanges)).bind fun _ _ => .pure trivial

end Children

namespace Filter

/-- The filter of child lists with its calls on record. -/
def childOrderOnRecord (s : Session ω) : DeployOnRecord ω := fun changes => do
  let done ← Children.deployLists s.pool.recorded s.deployer.recorded
    s.settings.filters.childOrder changes
  pure (.ok done)

/-- **The filter of child lists makes changes up**, but only such as give a listed child its
position. -/
theorem childOrder_handsOn (s : Session ω) :
    (childOrder s).HandsOn (childOrderOnRecord s)
      (Children.MadeFrom s.settings.filters.childOrder) where
  erases handed := (Children.deployLists_erases s.pool s.deployer _ handed).bind fun _ => .pure _
  calls handed w c hc := by
    have hcalls : Calls (Children.MadeFrom s.settings.filters.childOrder handed)
        (fun _ => True) (childOrderOnRecord s handed) :=
      (Children.deployLists_calls s.pool s.deployer (List.Subset.refl _)
        (List.Subset.refl _)).bind fun _ _ => .pure trivial
    exact .inr (hcalls.begun w c hc)

end Filter

end AccountSync
