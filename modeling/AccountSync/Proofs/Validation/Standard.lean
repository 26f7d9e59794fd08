/-
  AccountSync.Proofs.Validation.Standard
  ──────────────────────────────────────
  **VALIDATORS SPEAK OF CHANGES OF THE BATCH.**

  Whatever a standard validator says, it says about the element of a change that it was
  given, and never about a value inside of one.

      Validator.Local            — everything that is said is about a change
      Validator.standard_local   — the standard validators are so
-/
import AccountSync.Proofs.Deployment.Batch
import AccountSync.Validation.Standard

namespace AccountSync

/-- Everything that the validator says is about the element of a change that it was given. -/
def Validator.Local (v : Validator) : Prop :=
  ∀ source changes, ∀ d ∈ v.check source changes, ∃ c ∈ changes, d.id = some c.id

theorem mem_reportedIds {ds : List Diagnostic} {id : ElementId} :
    id ∈ reportedIds ds ↔ ∃ d ∈ ds, d.isError = true ∧ d.id = some id := by
  unfold reportedIds
  simp only [List.mem_filterMap, List.mem_filter, and_assoc]

/-- An instance that is removed is that of a removal. -/
theorem mem_removedInstances {changes : List InstanceChange} {i : Instance} :
    i ∈ removedInstances changes ↔ .removal i ∈ changes := by
  constructor
  · intro h
    obtain ⟨c, hc, rfl⟩ := List.mem_map.mp h
    obtain ⟨hmem, hremoval⟩ := List.mem_filter.mp hc
    cases c with
    | removal i => exact hmem
    | addition | modification => exact absurd hremoval nofun
  · exact fun h => List.mem_map.mpr ⟨.removal i, List.mem_filter.mpr ⟨h, rfl⟩, rfl⟩

namespace ExternalSource

theorem checkDifferences_id {i : Instance} {differences : List Difference} {d : Diagnostic}
    (h : d ∈ checkDifferences i differences) : d.id = some i.id := by
  unfold checkDifferences at h
  split at h
  · obtain rfl := List.mem_singleton.mp h
    rfl
  · rcases List.mem_append.mp h with h | h
    all_goals
      split at h
      · obtain rfl := List.mem_singleton.mp h
        rfl
      · exact absurd h List.not_mem_nil

theorem checkChange_id {c : InstanceChange} {d : Diagnostic} (h : d ∈ checkChange c) :
    d.id = some c.id := by
  cases c with
  | addition after =>
    obtain rfl := List.mem_singleton.mp h
    rfl
  | removal before =>
    obtain rfl := List.mem_singleton.mp h
    rfl
  | modification before after => exact checkDifferences_id h

end ExternalSource

theorem FeatureGate.fault_id (rule : FeatureGateRule) (i : Instance) :
    (fault rule i).id = some i.id := by
  unfold fault
  split <;> rfl

namespace Validator

theorem defaultRemoval_local (types : List String) : (defaultRemoval types).Local := by
  intro source changes d hd
  obtain ⟨i, hi, rfl⟩ := List.mem_map.mp hd
  exact ⟨.removal i, mem_removedInstances.mp (List.mem_of_mem_filter hi), rfl⟩

theorem externalSource_local (types : List String) : (externalSource types).Local := by
  intro source changes d hd
  obtain ⟨c, hc, hd⟩ := List.mem_flatMap.mp hd
  exact ⟨c, List.mem_of_mem_filter hc, ExternalSource.checkChange_id hd⟩

theorem featureGate_local (adapter : String) (rule : FeatureGateRule) :
    (featureGate adapter rule).Local := by
  intro source changes d hd
  change d ∈ FeatureGate.check adapter rule source changes at hd
  unfold FeatureGate.check at hd
  split at hd
  · exact absurd hd List.not_mem_nil
  · obtain ⟨c, hc, rfl⟩ := List.mem_map.mp hd
    exact ⟨c, List.mem_of_mem_filter hc, FeatureGate.fault_id rule c.data⟩

theorem statusRemoval_local (rules : List StatusRemovalRule) : (statusRemoval rules).Local := by
  intro source changes d hd
  obtain ⟨i, hi, hfault⟩ := List.mem_filterMap.mp hd
  unfold StatusRemoval.fault? at hfault
  split at hfault
  · exact absurd hfault nofun
  · split at hfault
    · exact absurd hfault nofun
    · obtain rfl := Option.some.inj hfault
      exact ⟨.removal i, mem_removedInstances.mp hi, rfl⟩

theorem unlessEmpty_local {α : Type} (rules : List α) {v : Validator} (h : v.Local) :
    ∀ v' ∈ unlessEmpty rules v, v'.Local := by
  intro v' hv'
  unfold unlessEmpty at hv'
  split at hv'
  · exact absurd hv' List.not_mem_nil
  · obtain rfl := List.mem_singleton.mp hv'
    exact h

/-- The standard validators speak of the changes that they are given. -/
theorem standard_local (adapter : String) (s : ValidatorSettings) :
    ∀ v ∈ standard adapter s, v.Local := by
  intro v hv
  simp only [standard, List.mem_append] at hv
  rcases hv with ((hv | hv) | hv) | hv
  · exact unlessEmpty_local _ (defaultRemoval_local _) v hv
  · exact unlessEmpty_local _ (externalSource_local _) v hv
  · obtain ⟨rule, _, rfl⟩ := List.mem_map.mp hv
    exact featureGate_local adapter rule
  · exact unlessEmpty_local _ (statusRemoval_local _) v hv

end Validator

end AccountSync
