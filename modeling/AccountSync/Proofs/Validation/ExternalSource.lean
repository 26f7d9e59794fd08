/-
  AccountSync.Proofs.Validation.ExternalSource
  ────────────────────────────────────────────
  **LOCKED FIELDS ARE GUARDED BY THE SOURCE THAT COMES AFTER.**

  Two fields of an instance that belongs to an app are locked.  In whatever way one of them
  changes, deep inside or as a whole, there is a difference whose path starts with it, and so
  the change is withheld.  But it is the snapshot from after that says whether the instance
  belongs to an app at all.  A change that takes the source away, or sets it to null, is not
  even looked at, and may change the secret on the way.

      ExternalSource.checkChange_locked — a locked field that changes is an error
      ExternalSource.check_unguarded    — a change that takes the source away is passed over
      locked_fields_guarded_iff         — changes of locked fields are withheld or passed over
      source_taken_away                 — one that is passed over and deployed
-/
import AccountSync.Proofs.Change.Fields
import AccountSync.Proofs.Validation.Withholding

namespace AccountSync

variable {ω : Type}

namespace ExternalSource

/-! ## §1. Differences in locked fields. -/

/-- The fields that an app does not share with its users. -/
def Locked (field : String) : Prop :=
  field = sourceField ∨ field = secretField

theorem isLocked_of_head {d : Difference} {field : String} (hfield : Locked field)
    (hd : d.path.head? = some field) : isLocked d = true := by
  have hmem : field ∈ d.path := List.mem_of_head? hd
  refine List.any_eq_true.mpr ⟨field, hmem, ?_⟩
  simpa [Locked] using hfield

/-- A locked field that changes in any way is the one thing that is reported. -/
theorem checkChange_locked {before after : Instance} (htop : after.id.isTopLevel = true)
    (hbefore : before.value.Sorted) (hafter : after.value.Sorted) {field : String}
    (hfield : Locked field) (hdiffers : before.DiffersIn after field) :
    checkChange (.modification before after) = [lockedFault after] := by
  obtain ⟨d, hd, hhead⟩ := Difference.ofFields_touches htop hbefore hafter hdiffers
  have hany : (Difference.ofInstances before after).any isLocked = true :=
    List.any_eq_true.mpr ⟨d, hd, isLocked_of_head hfield hhead⟩
  show checkDifferences after _ = _
  rw [checkDifferences, if_pos hany]

/-! ## §2. Changes that are looked at. -/

theorem check_append (types : List String) (a b : List InstanceChange) :
    check types (a ++ b) = check types a ++ check types b := by
  unfold check
  rw [List.filter_append, List.flatMap_append]

theorem mem_check {types : List String} {changes : List InstanceChange} {d : Diagnostic} :
    d ∈ check types changes ↔ ∃ c ∈ changes, types.contains c.typeName = true
      ∧ isExternal c.data = true ∧ d ∈ checkChange c := by
  unfold check
  simp only [List.mem_flatMap, List.mem_filter, Bool.and_eq_true, and_assoc]

/-- A change after which the instance does not belong to an app is not looked at. -/
theorem check_unguarded (types : List String) {c : InstanceChange}
    (hexternal : isExternal c.data = false) : check types [c] = [] := by
  refine List.eq_nil_iff_forall_not_mem.mpr fun d hd => ?_
  obtain ⟨c', hc', -, hexternal', -⟩ := mem_check.mp hd
  obtain rfl := List.mem_singleton.mp hc'
  exact absurd (hexternal.symm.trans hexternal') nofun

end ExternalSource

open ExternalSource

/-- **A change of a locked field is an error exactly if the instance belongs to an app after it.**
Then it is withheld by every adapter with this validator, in whatever way the field changes.  But
if the source is taken away or set to null, nothing is said about the change, whatever the source
was before and whatever becomes of the secret. -/
theorem locked_fields_guarded_iff (types : List String) {before after : Instance}
    (htype : types.contains after.typeName = true) (htop : after.id.isTopLevel = true)
    (hbefore : before.value.Sorted) (hafter : after.value.Sorted) {field : String}
    (hfield : Locked field) (hdiffers : before.DiffersIn after field) :
    let c : InstanceChange := .modification before after
    ((∃ d ∈ check types [c], d.isError = true) ↔ isExternal after = true)
    ∧ (isExternal after = true → ∀ (a : Adapter ω) (batch : List InstanceChange) (w : ω),
        .externalSource types ∈ a.validators → c ∈ batch →
          lockedFault after ∈ (a.deploy batch w).1.errors
            ∧ a.Withheld batch c.id ∧ c ∉ a.passed batch)
    ∧ (isExternal after = false → ∀ earlier later,
        check types (earlier ++ c :: later) = check types (earlier ++ later)) := by
  intro c
  -- the differences give the change away, whether or not anybody looks at them
  have hchange : checkChange c = [lockedFault after] :=
    checkChange_locked htop hbefore hafter hfield hdiffers
  have hfault (hexternal : isExternal after = true) {batch : List InstanceChange} (hc : c ∈ batch) :
      lockedFault after ∈ check types batch := by
    refine mem_check.mpr ⟨c, hc, htype, hexternal, ?_⟩
    rw [hchange]
    exact List.mem_singleton_self _
  refine ⟨⟨?_, fun hexternal => ?_⟩, fun hexternal a batch w hv hc => ?_, fun hexternal => ?_⟩
  · rintro ⟨d, hd, -⟩
    obtain ⟨c', hc', -, hexternal, -⟩ := mem_check.mp hd
    obtain rfl := List.mem_singleton.mp hc'
    exact hexternal
  · exact ⟨lockedFault after, hfault hexternal (List.mem_singleton_self c), rfl⟩
  · have hwithheld : a.Withheld batch c.id := by
      refine ⟨_, hv, lockedFault after, hfault hexternal hc, rfl, after.id, rfl, ?_⟩
      exact ElementId.topLevel_eq_iff.mp (ElementId.topLevel_of_isTopLevel htop)
    refine ⟨?_, hwithheld, ?_⟩
    · exact List.mem_append_left _ (List.mem_flatMap.mpr ⟨_, hv, hfault hexternal hc⟩)
    · rw [a.passed_eq, List.mem_filter]
      simp [hwithheld]
  · intro earlier later
    have hc : check types [c] = [] := check_unguarded types hexternal
    rw [check_append, check_append, ← List.singleton_append, check_append, hc, List.nil_append]

/-- An account that guards its webhooks, keeps the requests it was sent and takes all of them. -/
def Session.ofWebhooks : Session (List Request) where
  settings := {
    adapter := "z"
    client := { baseUrl := "https://a" }
    endpoints := [("webhook", { modify := some ⟨"/webhooks/" ++ Text.braced "id", .put⟩ })]
    validators := { externalSourceTypes := ["webhook"] } }
  client := ⟨fun r sent => (.ok ⟨204, .null⟩, sent ++ [r])⟩
  next := .eager

/-- A webhook with its secret. -/
def Instance.ofWebhook (source : Fields) (secret : String) : Instance :=
  .named "w" (.ofType "z" "webhook")
    (source ++ [("id", .number (.int 1)), ("signing_secret", .string secret)])

/-- What a webhook says that was installed by an app. -/
def Fields.ofApp : Fields :=
  [("external_source", .map [("type", .string "app_installation")])]

/-- A new secret of a webhook that stays with its app: the change is withheld. -/
theorem locked_fields_guarded_for_secret :
    let before := Instance.ofWebhook .ofApp "a"
    let after := Instance.ofWebhook .ofApp "b"
    let c : InstanceChange := .modification before after
    let a : Adapter (List Request) := .standard .ofWebhooks fun _ => none
    after.id.isTopLevel = true ∧ before.value.Sorted ∧ after.value.Sorted
      ∧ before.DiffersIn after secretField ∧ isExternal after = true
      ∧ lockedFault after ∈ (a.deploy [c] []).1.errors ∧ c ∉ a.passed [c] := by
  intro before after c a
  have hbefore : before.value.Sorted := by decide
  have hafter : after.value.Sorted := by decide
  have hdiffers : before.DiffersIn after secretField := rfl
  have hexternal : isExternal after = true := rfl
  have hwithheld := (locked_fields_guarded_iff ["webhook"] (by decide) rfl hbefore hafter
    (.inr rfl) hdiffers).2.1 hexternal a [c] [] (List.mem_singleton_self _)
    (List.mem_singleton_self c)
  exact ⟨rfl, hbefore, hafter, hdiffers, hexternal, hwithheld.1, hwithheld.2.2⟩

/-- A webhook that belonged to an app loses its source and gets a new secret.  Its differences give
that away, but nobody looks at them: nothing is said and the change is deployed. -/
theorem source_taken_away :
    let before := Instance.ofWebhook .ofApp "a"
    let after := Instance.ofWebhook [] "b"
    let c : InstanceChange := .modification before after
    let r := (Adapter.standard .ofWebhooks fun _ => none).deploy [c] []
    isExternal before = true
      ∧ before.DiffersIn after sourceField ∧ before.DiffersIn after secretField
      ∧ checkChange c = [lockedFault after] ∧ check ["webhook"] [c] = []
      ∧ r.1.errors.length = 0 ∧ changedIds r.1.applied = [c.id]
      ∧ r.2.map (fun r => (r.method, r.url)) = [(.put, "/webhooks/1")] := by
  intro before after c r
  have hdiffers : before.DiffersIn after secretField := rfl
  have hfault : checkChange c = [lockedFault after] :=
    checkChange_locked rfl (by decide) (by decide) (.inr rfl) hdiffers
  refine ⟨rfl, rfl, hdiffers, hfault, check_unguarded ["webhook"] rfl, ?_, ?_, ?_⟩
  · decide +kernel
  · decide +kernel
  · decide +kernel

end AccountSync
