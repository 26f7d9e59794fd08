/-
  AccountSync.Proofs.Change.Snapshots
  ───────────────────────────────────
  **WHAT HAPPENS TO A CHANGE HAPPENS TO ITS SNAPSHOTS.**

  A change has one snapshot or two, and one of them counts.  Steps over changes are steps over
  their snapshots, and another snapshot may be put in the place of the one that counts.

      Change.snapshots      — the snapshots of a change in order
      Change.map_eq_map_iff — two steps do the same to a change
      Change.setData_data   — the snapshot that counts is replaced
      Change.ext_of         — what determines a change
-/
import AccountSync.Change.Basic

namespace AccountSync

namespace Change

variable {α β γ : Type}

/-- The snapshots of a change in order. -/
def snapshots : Change α → List α
  | .addition after => [after]
  | .removal before => [before]
  | .modification before after => [before, after]

/-! ## §1. Steps over snapshots. -/

theorem map_map (f : α → β) (g : β → γ) (c : Change α) : (c.map f).map g = c.map (g ∘ f) := by
  cases c <;> rfl

theorem map_data (f : α → β) (c : Change α) : (c.map f).data = f c.data := by
  cases c <;> rfl

/-- What happens to a change is what happens to its snapshots. -/
theorem map_eq_map_iff {f g : α → β} {c : Change α} :
    c.map f = c.map g ↔ ∀ i ∈ c.snapshots, f i = g i := by
  cases c <;> simp [map, snapshots]

theorem map_eq_self_iff {f : α → α} {c : Change α} :
    c.map f = c ↔ ∀ i ∈ c.snapshots, f i = i := by
  cases c <;> simp [map, snapshots]

/-- The state of a step is carried along the snapshots. -/
theorem mapState_state {σ : Type} (f : σ → α → α × σ) (s : σ) (c : Change α) :
    (c.mapState f s).2 = c.snapshots.foldl (fun s i => (f s i).2) s := by
  cases c <;> rfl

/-- What a step leaves alone in every snapshot, it leaves alone in the one that counts. -/
theorem mapState_data {σ : Type} {g : α → β} {f : σ → α → α × σ}
    (h : ∀ s a, g (f s a).1 = g a) (s : σ) (c : Change α) :
    g (c.mapState f s).1.data = g c.data := by
  cases c with
  | addition after => exact h s after
  | removal before => exact h s before
  | modification before after => exact h (f s before).2 after

/-! ## §2. The snapshot that counts. -/

theorem setData_data (c : Change α) (new : α) : (c.setData new).data = new := by
  cases c <;> rfl

theorem setData_self (c : Change α) : c.setData c.data = c := by
  cases c <;> rfl

theorem setData_action (c : Change α) (a : α) : (c.setData a).action = c.action := by
  cases c <;> rfl

/-- The snapshot from before is the one that counts in a removal only. -/
theorem setData_before? {c : Change α} (h : c.isRemoval = false) (a : α) :
    (c.setData a).before? = c.before? := by
  cases c with
  | addition after => rfl
  | removal before => exact absurd h nofun
  | modification before after => rfl

theorem ext_of {c d : Change α} (haction : c.action = d.action) (hbefore : c.before? = d.before?)
    (hdata : c.data = d.data) : c = d := by
  cases c <;> cases d <;> simp_all [action, before?, data]

theorem isRemoval_of_action {c d : Change α} (h : c.action = d.action) :
    c.isRemoval = d.isRemoval := by
  unfold isRemoval
  rw [h]

end Change

theorem InstanceChange.setData_id {c : InstanceChange} {i : Instance} (h : i.id = c.id) :
    InstanceChange.id (c.setData i) = c.id := by
  unfold InstanceChange.id at h ⊢
  rw [Change.setData_data, h]

end AccountSync
