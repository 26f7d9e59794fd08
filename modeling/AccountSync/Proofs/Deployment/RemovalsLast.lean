/-
  AccountSync.Proofs.Deployment.RemovalsLast
  ──────────────────────────────────────────
  **REMOVALS WAIT FOR THE REST, AND FOR NOTHING ELSE.**

  A batch whose removals come last is two fan-outs, one after the other.  So the log of its
  calls is in two parts, and everything about it follows from where the one part ends: by then
  all additions and modifications have ended, in whatever order, and no removal has begun.
  How the first part went is never asked, so that removals are made also where it failed.

      CallLog.RemovalsWait   — additions and modifications have ended when removals begin
      Pool.RemovalsLast      — what a batch comes to whose removals are last
      removals_wait          — every batch is deployed so, and what the filter claims is
      removals_go_ahead      — every removal is made, however the rest went
      removal_after_failure  — one that is made though what was to replace it failed
-/
import AccountSync.Filter.Standard
import AccountSync.Proofs.Deployment.Schedule

namespace AccountSync

open List (Forall₂)
open scoped List

variable {ω α : Type}

/-! ## §1. Logs in two parts. -/

namespace CallLog

variable {limit : Nat} {items later : List α} {first last : CallLog α}

/-- When all calls that began have ended, what comes next is as sound as it is by itself. -/
theorem Sound.append (hfirst : first.ended ~ first.begun) (hlast : last.Sound limit) :
    Sound limit (first ++ last) := by
  obtain ⟨hcalls, hflight⟩ := hlast
  have hlen := hfirst.length_eq
  refine ⟨?_, ?_⟩
  · rw [begun_append, ended_append]
    exact hfirst.subperm.append hcalls
  · unfold inFlight at hflight ⊢
    rw [begun_append, ended_append, List.length_append, List.length_append]
    omega

/-- Calls on some items, and then calls on others: each call is made as it should be. -/
theorem Serves.append (hfirst : first.Serves limit items) (hlast : last.Serves limit later) :
    Serves limit (items ++ later) (first ++ last) where
  inOrder := by rw [begun_append, hfirst.inOrder, hlast.inOrder]
  once := by
    rw [ended_append]
    exact hfirst.once.append hlast.once
  sound := by
    intro earlier hearlier
    have hended : first.ended ~ first.begun := by
      rw [hfirst.inOrder]
      exact hfirst.once
    obtain ⟨rest, hrest⟩ := hearlier
    -- the moment is in the first part, or all of the first part lies behind it
    rcases List.append_eq_append_iff.mp hrest with ⟨more, hmore, -⟩ | ⟨begun, rfl, hbegun⟩
    · exact hfirst.sound earlier ⟨more, hmore.symm⟩
    · exact .append hended (hlast.sound begun ⟨rest, hbegun.symm⟩)

/-- When the call on another item begins, those on the first items have ended. -/
theorem Serves.ended_before (hfirst : first.Serves limit items) {earlier rest : CallLog α} {c : α}
    (hc : c ∉ items) (h : first ++ last = earlier ++ .began c :: rest) :
    items <+~ earlier.ended := by
  rcases List.append_eq_append_iff.mp h with ⟨more, rfl, -⟩ | ⟨more, rfl, hmore⟩
  · rw [ended_append]
    exact hfirst.once.symm.subperm.trans (List.sublist_append_left _ _).subperm
  · cases more with
    | nil =>
      rw [List.append_nil] at hfirst
      exact hfirst.once.symm.subperm
    | cons e more =>
      -- the call would be one of the first part, which calls the first items only
      obtain ⟨rfl, -⟩ := List.cons.inj hmore
      have hmem : c ∈ begun (earlier ++ .began c :: more) := by
        rw [begun_append]
        exact List.mem_append_right _ List.mem_cons_self
      rw [hfirst.inOrder] at hmem
      exact absurd hmem hc

/-- The calls on the changes of a batch are made as they should be, and removals wait. -/
structure RemovalsWait (limit : Nat) (changes : List InstanceChange)
    (log : CallLog InstanceChange) : Prop where
  /-- Additions and modifications begin in the order of the batch, and then removals do. -/
  inOrder : log.begun
    = changes.filter (fun c => !c.isRemoval) ++ changes.filter Change.isRemoval
  /-- Each change is called, and called once. -/
  once : log.ended ~ changes
  /-- At every moment the log was sound. -/
  sound : ∀ earlier : CallLog InstanceChange, earlier <+: log → earlier.Sound limit
  /-- When the call on a removal begins, those on all additions and modifications have ended. -/
  waits : ∀ (earlier : CallLog InstanceChange) c rest, log = earlier ++ .began c :: rest →
    c.isRemoval = true → changes.filter (fun c => !c.isRemoval) <+~ earlier.ended

theorem others_removals_perm (changes : List InstanceChange) :
    changes.filter (fun c => !c.isRemoval) ++ changes.filter Change.isRemoval ~ changes :=
  List.perm_append_comm.trans (List.filter_append_perm Change.isRemoval changes)

theorem RemovalsWait.of_serves {changes : List InstanceChange}
    {first last : CallLog InstanceChange}
    (hfirst : first.Serves limit (changes.filter fun c => !c.isRemoval))
    (hlast : last.Serves limit (changes.filter Change.isRemoval)) :
    RemovalsWait limit changes (first ++ last) where
  inOrder := (hfirst.append hlast).inOrder
  once := (hfirst.append hlast).once.trans (others_removals_perm changes)
  sound := (hfirst.append hlast).sound
  waits := by
    intro earlier c rest hlog hc
    have hnot : c ∉ changes.filter fun c => !c.isRemoval := by
      rw [List.mem_filter, hc]
      nofun
    exact hfirst.ended_before hnot hlog

end CallLog

/-! ## §2. Two fan-outs. -/

namespace DeployResult

theorem ofOutcomes_append (first last : List Outcome) :
    ofOutcomes (first ++ last) = ofOutcomes first ++ ofOutcomes last := by
  unfold ofOutcomes
  rw [List.filterMap_append, List.filterMap_append]
  rfl

/-- The order of outcomes is the order of what is applied and of what is reported, and counts for
nothing else. -/
theorem ofOutcomes_perm {outcomes outcomes' : List Outcome} (h : outcomes ~ outcomes') :
    (ofOutcomes outcomes).applied ~ (ofOutcomes outcomes').applied
      ∧ (ofOutcomes outcomes).errors ~ (ofOutcomes outcomes').errors :=
  ⟨h.filterMap _, h.filterMap _⟩

end DeployResult

namespace Pool

variable (pool : Pool ω) (handler : ChangeHandler ω) (changes : List InstanceChange)

/-- Additions and modifications are a batch of their own, and so are removals. -/
theorem deployRemovalsLast_eq : pool.deployRemovalsLast handler changes = (do
    let first ← pool.deploy handler (changes.filter fun c => !c.isRemoval)
    let last ← pool.deploy handler (changes.filter Change.isRemoval)
    pure (first ++ last)) := by
  unfold deployRemovalsLast
  rw [List.partition_eq_filter_filter]
  rfl

theorem deployRemovalsLast_erases :
    Erases (pool.recorded.deployRemovalsLast handler.recorded changes)
      (pool.deployRemovalsLast handler changes) := by
  rw [deployRemovalsLast_eq, deployRemovalsLast_eq]
  refine (pool.deploy_erases handler _).bind fun first => ?_
  exact (pool.deploy_erases handler _).bind fun last => .pure (first ++ last)

/-- What two fan-outs put on record is in two parts. -/
theorem deployRemovalsLast_logs (before : CallLog InstanceChange) :
    Logs (pool.recorded.deployRemovalsLast handler.recorded changes) before
      (fun _ log => ∃ new, log = before ++ new ∧ new.RemovalsWait pool.limit changes) := by
  rw [deployRemovalsLast_eq]
  refine (pool.deploy_logs handler _ before).bind fun first log hlog => ?_
  obtain ⟨new, rfl, hfirst⟩ := hlog
  refine (pool.deploy_logs handler _ (before ++ new)).bind fun last log hlog => .pure ?_
  obtain ⟨new', rfl, hlast⟩ := hlog
  exact ⟨new ++ new', List.append_assoc before new new', .of_serves hfirst hlast⟩

/-- Each addition and modification has an outcome of its own, and then each removal has. -/
theorem deployRemovalsLast_outcomes :
    Ensures (pool.deployRemovalsLast handler changes) (fun r => ∃ first last,
      OutcomesOf handler (changes.filter fun c => !c.isRemoval) first
        ∧ OutcomesOf handler (changes.filter Change.isRemoval) last
        ∧ r = .ofOutcomes (first ++ last)) := by
  rw [deployRemovalsLast_eq]
  refine (pool.deploy_outcomes handler _).bind fun first hfirst => ?_
  refine (pool.deploy_outcomes handler _).bind fun last hlast => .pure ?_
  obtain ⟨outcomes, hout, rfl⟩ := hfirst
  obtain ⟨outcomes', hout', rfl⟩ := hlast
  exact ⟨outcomes, outcomes', hout, hout', (DeployResult.ofOutcomes_append _ _).symm⟩

end Pool

namespace Job.Answers

variable {handler : ChangeHandler ω} {effect : InstanceChange → InstanceChange}
  {verdict : InstanceChange → Except Failure Unit}

/-- A batch comes to the outcomes of its changes, in their order. -/
theorem deploy (h : handler.Answers effect verdict) (pool : Pool ω)
    (changes : List InstanceChange) :
    Ensures (pool.deploy handler changes)
      (fun r => r = .ofOutcomes (changes.map fun c => ⟨effect c, verdict c⟩)) :=
  (h.fanOut pool.limit pool.next changes).bind fun _ hout => .pure (congrArg _ hout)

/-- With removals last it comes to the outcomes of the others first. -/
theorem deployRemovalsLast (h : handler.Answers effect verdict) (pool : Pool ω)
    (changes : List InstanceChange) :
    Ensures (pool.deployRemovalsLast handler changes) (fun r => r = .ofOutcomes
      ((changes.filter (fun c => !c.isRemoval) ++ changes.filter Change.isRemoval).map
        fun c => ⟨effect c, verdict c⟩)) := by
  rw [Pool.deployRemovalsLast_eq]
  refine (h.deploy pool _).bind fun first hfirst => ?_
  refine (h.deploy pool _).bind fun last hlast => .pure ?_
  rw [hfirst, hlast, List.map_append, DeployResult.ofOutcomes_append]

end Job.Answers

/-! ## §3. Removals wait. -/

/-- What a batch comes to whose removals are last. -/
structure Pool.RemovalsLast (pool : Pool ω) (handler : ChangeHandler ω)
    (changes : List InstanceChange) (w : ω) : Prop where
  /-- Putting calls on record takes no part in the deployment. -/
  erased : ∀ log,
    (pool.recorded.deployRemovalsLast handler.recorded changes (w, log)).1
        = (pool.deployRemovalsLast handler changes w).1
      ∧ (pool.recorded.deployRemovalsLast handler.recorded changes (w, log)).2.1
        = (pool.deployRemovalsLast handler changes w).2
  /-- No removal begins before all additions and modifications have ended. -/
  calls : (pool.recorded.deployRemovalsLast handler.recorded changes (w, [])).2.2.RemovalsWait
    pool.limit changes
  /-- It is a batch of additions and modifications, and then one of removals. -/
  batches : pool.deployRemovalsLast handler changes w = (do
    let first ← pool.deploy handler (changes.filter fun c => !c.isRemoval)
    let last ← pool.deploy handler (changes.filter Change.isRemoval)
    pure (first ++ last) : StateM ω DeployResult) w
  /-- What is applied and what is reported are the additions and modifications in the order of the
  batch, and then the removals. -/
  outcomes : ∃ first last,
    OutcomesOf handler (changes.filter fun c => !c.isRemoval) first
      ∧ OutcomesOf handler (changes.filter Change.isRemoval) last
      ∧ (pool.deployRemovalsLast handler changes w).1.applied
        = first.filterMap Outcome.applied? ++ last.filterMap Outcome.applied?
      ∧ (pool.deployRemovalsLast handler changes w).1.errors
        = first.filterMap Outcome.error? ++ last.filterMap Outcome.error?
  /-- It is what a batch without any waiting comes to, but for the order, if what becomes of a
  change depends on the change alone. -/
  reordered : ∀ effect verdict, handler.Answers effect verdict → ∀ (free : Pool ω) (w' : ω),
    (pool.deployRemovalsLast handler changes w).1.applied
        ~ (free.deploy handler changes w').1.applied
      ∧ (pool.deployRemovalsLast handler changes w).1.errors
        ~ (free.deploy handler changes w').1.errors

theorem Pool.removalsLast (pool : Pool ω) (handler : ChangeHandler ω)
    (changes : List InstanceChange) (w : ω) : pool.RemovalsLast handler changes w where
  erased := pool.deployRemovalsLast_erases handler changes w
  calls := by
    obtain ⟨new, hnew, hwait⟩ := pool.deployRemovalsLast_logs handler changes [] w
    rw [hnew]
    exact hwait
  batches := congrFun (pool.deployRemovalsLast_eq handler changes) w
  outcomes := by
    obtain ⟨first, last, hfirst, hlast, hr⟩ := pool.deployRemovalsLast_outcomes handler changes w
    refine ⟨first, last, hfirst, hlast, ?_, ?_⟩
    · rw [hr]
      exact List.filterMap_append
    · rw [hr]
      exact List.filterMap_append
  reordered := by
    intro effect verdict h free w'
    rw [h.deployRemovalsLast pool changes w, h.deploy free changes w']
    exact DeployResult.ofOutcomes_perm ((CallLog.others_removals_perm changes).map _)

/-- The filter of late removals claims changes by their types. -/
def Filter.claimsLate (s : Session ω) (c : InstanceChange) : Bool :=
  s.settings.filters.removalLastTypes.contains c.typeName

/-- What it claims is deployed with removals last, and what it does not claim is left over. -/
theorem Filter.removalLast_deploy (s : Session ω) (batch : List InstanceChange) (w : ω) :
    let run := s.pool.deployRemovalsLast s.deployer (batch.filter (claimsLate s)) w
    (removalLast s).deploy batch w
      = (.ok { result := run.1, leftover := batch.filter fun c => !claimsLate s c }, run.2) := by
  unfold removalLast
  simp only [List.partition_eq_filter_filter]
  rfl

/-- **Removals wait for the rest of their batch**, whatever the handler does, however many calls
may be under way and whichever ends next: the call on a removal begins when those on all additions
and modifications have ended, and each change is called once.  So is what the filter of late
removals claims. -/
theorem removals_wait :
    (∀ (pool : Pool ω) (handler : ChangeHandler ω) (changes : List InstanceChange) (w : ω),
      pool.RemovalsLast handler changes w)
    ∧ ∀ (s : Session ω) (batch : List InstanceChange) (w : ω),
        let claimed := batch.filter (Filter.claimsLate s)
        let run := s.pool.deployRemovalsLast s.deployer claimed w
        (Filter.removalLast s).deploy batch w = (.ok {
            result := run.1
            leftover := batch.filter fun c => !Filter.claimsLate s c }, run.2)
          ∧ s.pool.RemovalsLast s.deployer claimed w :=
  ⟨fun pool handler changes w => pool.removalsLast handler changes w, fun s batch w =>
    ⟨Filter.removalLast_deploy s batch w, s.pool.removalsLast s.deployer _ w⟩⟩

/-! ## §4. Removals go ahead. -/

/-- What becomes of the removals of a batch, however the other changes went. -/
structure Pool.RemovalsGoAhead (pool : Pool ω) (handler : ChangeHandler ω)
    (changes : List InstanceChange) (w : ω) : Prop where
  /-- The call on each removal is made, once and in the order of the batch. -/
  made :
    let log := (pool.recorded.deployRemovalsLast handler.recorded changes (w, [])).2.2
    log.begun.filter Change.isRemoval = changes.filter Change.isRemoval
      ∧ log.ended.filter Change.isRemoval ~ changes.filter Change.isRemoval
  /-- It is the outcome of that call that says whether the removal is applied or reported, and no
  outcome of the other calls. -/
  settled : ∃ first last,
    OutcomesOf handler (changes.filter fun c => !c.isRemoval) first
      ∧ OutcomesOf handler (changes.filter Change.isRemoval) last
      ∧ (pool.deployRemovalsLast handler changes w).1 = .ofOutcomes first ++ .ofOutcomes last
  /-- If what becomes of a change depends on the change alone, then the same becomes of the
  removals as without the other changes. -/
  alone : ∀ effect verdict, handler.Answers effect verdict → ∀ (free : Pool ω) (w' : ω),
    (pool.deployRemovalsLast handler changes w).1
      = (free.deploy handler (changes.filter fun c => !c.isRemoval) w').1
        ++ (free.deploy handler (changes.filter Change.isRemoval) w').1
  /-- So a removal is applied also if an addition or modification of its type fails. -/
  regardless : ∀ effect verdict, handler.Answers effect verdict →
    ∀ f ∈ changes, f.isRemoval = false → (verdict f).isOk = false →
      ∀ c ∈ changes, c.isRemoval = true → c.typeName = f.typeName → (verdict c).isOk = true →
        effect c ∈ (pool.deployRemovalsLast handler changes w).1.applied

theorem Pool.removalsGoAhead (pool : Pool ω) (handler : ChangeHandler ω)
    (changes : List InstanceChange) (w : ω) : pool.RemovalsGoAhead handler changes w where
  made := by
    intro log
    have hcalls := (pool.removalsLast handler changes w).calls
    refine ⟨?_, hcalls.once.filter _⟩
    rw [hcalls.inOrder, List.filter_append, List.filter_filter, List.filter_filter]
    simp
  settled := by
    obtain ⟨first, last, hfirst, hlast, hr⟩ := pool.deployRemovalsLast_outcomes handler changes w
    exact ⟨first, last, hfirst, hlast, hr.trans (DeployResult.ofOutcomes_append first last)⟩
  alone := by
    intro effect verdict h free w'
    rw [h.deployRemovalsLast pool changes w, h.deploy free _ w', h.deploy free _ w',
      List.map_append, DeployResult.ofOutcomes_append]
  regardless := by
    intro effect verdict h f _ _ _ c hc _ _ hok
    -- neither the failure nor the types come into it
    have hperm := ((pool.removalsLast handler changes w).reordered effect verdict h pool w).1
    rw [h.deploy pool changes w, DeployResult.applied_ofVerdicts] at hperm
    exact hperm.mem_iff.mpr (List.mem_map_of_mem (List.mem_filter.mpr ⟨hc, hok⟩))

/-- **Removals go ahead however the rest of their batch went.**  Nothing asks whether additions
and modifications could be deployed: every removal is made once these have ended, and what comes
of it is what its own call comes to.  So it is with what the filter of late removals claims. -/
theorem removals_go_ahead :
    (∀ (pool : Pool ω) (handler : ChangeHandler ω) (changes : List InstanceChange) (w : ω),
      pool.RemovalsGoAhead handler changes w)
    ∧ ∀ (s : Session ω) (batch : List InstanceChange) (w : ω),
        let claimed := batch.filter (Filter.claimsLate s)
        let run := s.pool.deployRemovalsLast s.deployer claimed w
        (Filter.removalLast s).deploy batch w = (.ok {
            result := run.1
            leftover := batch.filter fun c => !Filter.claimsLate s c }, run.2)
          ∧ s.pool.RemovalsGoAhead s.deployer claimed w :=
  ⟨fun pool handler changes w => pool.removalsGoAhead handler changes w, fun s batch w =>
    ⟨Filter.removalLast_deploy s batch w, s.pool.removalsGoAhead s.deployer _ w⟩⟩

/-- An account that keeps the requests it was sent, and refuses to modify anything. -/
def Session.ofGroups : Session (List Request) where
  settings := {
    adapter := "z"
    client := { baseUrl := "https://a" }
    endpoints := [("group", {
      modify := some ⟨"/groups/" ++ Text.braced "id", .put⟩
      remove := some ⟨"/groups/" ++ Text.braced "id", .delete⟩ })]
    filters := { removalLastTypes := ["group"] } }
  client := ⟨fun r sent =>
    (if r.method = .put then .error { status := some 422, message := "Unprocessable" }
      else .ok ⟨204, .null⟩, sent ++ [r])⟩
  next := .eager

/-- The default group is to be removed, and another one to take its place.  That one cannot be
modified and is reported; the default group is removed all the same. -/
theorem removal_after_failure :
    let group (name : String) (id : Int) (isDefault : Bool) : Instance :=
      .named name (.ofType "z" "group") [("default", .bool isDefault), ("id", .number (.int id))]
    let removed : InstanceChange := .removal (group "a" 1 true)
    let promoted : InstanceChange := .modification (group "b" 2 false) (group "b" 2 true)
    let run := (Filter.removalLast .ofGroups).deploy [removed, promoted] []
    Filter.claimsLate .ofGroups removed = true ∧ Filter.claimsLate .ofGroups promoted = true
      ∧ removed.typeName = promoted.typeName
      ∧ (∃ done, run.1 = .ok done ∧ reportedIds done.result.errors = [promoted.id]
        ∧ changedIds done.result.applied = [removed.id])
      ∧ run.2.map (fun r => (r.method, r.url)) = [(.put, "/groups/2"), (.delete, "/groups/1")] := by
  intro group removed promoted run
  have hrun : run = _ := Filter.removalLast_deploy .ofGroups [removed, promoted] []
  refine ⟨rfl, rfl, rfl, ⟨_, congrArg Prod.fst hrun, ?_, ?_⟩, ?_⟩
  · decide +kernel
  · decide +kernel
  · rw [hrun]
    decide +kernel

end AccountSync
