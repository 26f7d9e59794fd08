/-
  AccountSync.Proofs.Filter.Standard
  ──────────────────────────────────
  **THE STANDARD FILTERS KEEP THE LIST OF CHANGES.**

  Before and after a deployment the standard filters change values inside changes: addresses
  of users, and bodies of text.  No change is added, dropped or moved, and none gets to be
  about another element.

      Exchange.apply_ids, Exchange.restore_ids — addresses of users
      Bodies.render_ids, Bodies.restore_ids    — bodies of text
      Filter.standard_preDeploy_keepsIds       — hooks before a deployment
      Filter.standard_onDeploy_keepsIds        — hooks after one
-/
import AccountSync.Filter.Standard
import AccountSync.Proofs.Change.Snapshots
import AccountSync.Proofs.Deployment.Chain

namespace AccountSync

variable {ω : Type}

/-! ## §1. Addresses of users. -/

namespace Exchange

theorem applyAt_id (ids : UserIds) (path : List String) (i : Instance) :
    (applyAt ids path i).1.id = i.id := by
  unfold applyAt
  split
  · rfl
  · split
    · rfl
    · split <;> rfl

theorem applyRules_id (ids : UserIds) (rules : List IdReferenceRule) (i : Instance) :
    (applyRules ids rules i).1.id = i.id := by
  induction rules generalizing i with
  | nil => rfl
  | cons rule rest ih =>
    show (applyRules ids rest (applyAt ids rule.path i).1).1.id = i.id
    rw [ih, applyAt_id]

theorem apply_ids (rules : List IdReferenceRule) (ids : UserIds) (changes : List InstanceChange)
    (kept : Dict SavedFields) :
    changedIds (apply rules ids changes kept).1 = changedIds changes := by
  induction changes generalizing kept with
  | nil => rfl
  | cons c rest ih =>
    unfold apply
    split
    · exact congrArg (c.id :: ·) (ih kept)
    · show InstanceChange.id (c.setData _) :: changedIds (apply rules ids rest _).1 = _
      rw [ih, InstanceChange.setData_id (applyRules_id ids _ c.data), changedIds_cons]

theorem putBack_id (saved : SavedFields) (i : Instance) : (putBack saved i).id = i.id := by
  unfold putBack
  induction saved.reverse generalizing i with
  | nil => rfl
  | cons field rest ih => exact ih (i.set field.1 field.2)

theorem restore_ids (changes : List InstanceChange) (kept : Dict SavedFields) :
    changedIds (restore changes kept).1 = changedIds changes := by
  induction changes generalizing kept with
  | nil => rfl
  | cons c rest ih =>
    unfold restore
    split
    · exact congrArg (c.id :: ·) (ih kept)
    next saved _ =>
      show InstanceChange.id (c.setData _) :: changedIds (restore rest _).1 = _
      rw [ih, InstanceChange.setData_id (putBack_id saved c.data), changedIds_cons]

end Exchange

/-! ## §2. Bodies of text. -/

namespace Bodies

theorem renderField_id (field : String) (mapping : Template.Mapping) (i : Instance) :
    (renderField field mapping i).1.id = i.id := by
  unfold renderField
  split
  · rfl
  · split <;> rfl

theorem restoreField_id (field : String) (mapping : Template.Mapping) (i : Instance) :
    (restoreField field mapping i).id = i.id := by
  unfold restoreField
  split <;> rfl

theorem render_ids (rules : List BodyTemplateRule) (changes : List InstanceChange)
    (mapping : Template.Mapping) :
    changedIds (render rules changes mapping).1 = changedIds changes := by
  induction changes generalizing mapping with
  | nil => rfl
  | cons c rest ih =>
    unfold render
    split
    · exact congrArg (c.id :: ·) (ih mapping)
    next field _ =>
      -- a body is text in every snapshot, and no snapshot gets another identifier by it
      have hid := Change.mapState_data (g := Instance.id) (renderField_id field) mapping c
      show InstanceChange.id (c.mapState (renderField field) mapping).1
        :: changedIds (render rules rest _).1 = _
      rw [ih, changedIds_cons]
      exact congrArg (· :: changedIds rest) hid

theorem restore_ids (rules : List BodyTemplateRule) (mapping : Template.Mapping)
    (changes : List InstanceChange) :
    changedIds (restore rules mapping changes) = changedIds changes := by
  unfold restore changedIds
  rw [List.map_map]
  refine List.map_congr_left fun c _ => ?_
  rw [Function.comp_apply]
  cases changedField? rules c with
  | none => rfl
  | some field =>
    show Instance.id (c.map (restoreField field mapping)).data = c.data.id
    rw [Change.map_data, restoreField_id]

end Bodies

/-! ## §3. The hooks. -/

namespace Filter

theorem exchangeUsers_keepsIds (s : Session ω) : (exchangeUsers s).KeepsIds := by
  intro changes memory
  unfold exchangeUsers
  dsimp only
  split
  · refine (Ensures.yields _).bind fun known _ => ?_
    cases known with
    | error e => exact .pure nofun
    | ok known =>
      refine (Ensures.yields _).bind fun fallback _ => ?_
      exact .pure fun _ => Exchange.apply_ids _ _ changes memory.saved
  · exact .pure fun _ => rfl

theorem restoreUsers_keepsIds : (restoreUsers : Hook ω (List InstanceChange)).KeepsIds :=
  fun changes memory => .pure fun _ => Exchange.restore_ids changes memory.saved

/-- The standard filters keep the list of changes before a deployment. -/
theorem standard_preDeploy_keepsIds (s : Session ω) :
    ∀ f ∈ standard s, f.phases.contains .preDeploy = true → f.preDeploy.KeepsIds := by
  unfold standard
  simp only [List.forall_mem_cons]
  -- only two filters have such a hook: that of users and that of bodies
  refine ⟨nofun, fun _ => exchangeUsers_keepsIds s, nofun, fun _ => ?_, nofun, nofun, nofun, nofun⟩
  exact fun changes memory => .pure fun _ => Bodies.render_ids _ changes memory.texts

/-- The standard filters keep the list of changes after a deployment. -/
theorem standard_onDeploy_keepsIds (s : Session ω) :
    ∀ f ∈ standard s, f.phases.contains .onDeploy = true → f.onDeploy.KeepsIds := by
  unfold standard
  simp only [List.forall_mem_cons]
  refine ⟨nofun, fun _ => restoreUsers_keepsIds, nofun, fun _ => ?_, nofun, nofun, nofun, nofun⟩
  exact fun changes memory => .pure fun _ => Bodies.restore_ids _ memory.texts changes

end Filter

end AccountSync
