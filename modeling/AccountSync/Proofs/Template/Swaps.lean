/-
  AccountSync.Proofs.Template.Swaps
  ─────────────────────────────────
  **SWAPPING TEMPLATES AND TEXTS CHANGES NOTHING BUT THE FORM.**

  One mapping serves any number of values, and of two templates with one text the later one
  takes the place of the earlier one.  What carries everything is that a template in the
  mapping has the text that it is found under: steps keep that, and while it holds a value and
  what becomes of it are written out alike.

      Mapping.Faithful         — the templates have the texts they are found under
      Mapping.Replaced, Mapping.Restored — what steps do
      Mapping.after_faithful   — so it stays, however many steps are done
      Mapping.steps_keep_text
-/
import AccountSync.Proofs.Dict
import AccountSync.Proofs.World
import AccountSync.Template.Mapping
import AccountSync.Value.Flatten

namespace AccountSync.Template.Mapping

variable {mapping : Mapping}

/-! ## §1. What steps do. -/

/-- Every template has the text that it is found under. -/
def Faithful (mapping : Mapping) : Prop :=
  ∀ e ∈ mapping, rendered e.2 = .ok e.1

/-- What replacing comes to: the result, the value and the mapping. -/
inductive Replaced (mapping : Mapping) : Value → Except Failure Unit × Value × Mapping → Prop
  | template {parts : List Part} {text : String} : rendered parts = .ok text →
      Replaced mapping (.template parts) (.ok (), .string text, Dict.insert mapping text parts)
  | failed {parts : List Part} {e : Failure} : rendered parts = .error e →
      Replaced mapping (.template parts) (.error e, .template parts, mapping)
  | other {v : Value} : (∀ parts, v ≠ .template parts) → Replaced mapping v (.ok (), v, mapping)

/-- What restoring comes to; it never fails, and leaves the mapping alone. -/
inductive Restored (mapping : Mapping) : Value → Except Failure Unit × Value × Mapping → Prop
  | text {s : String} {parts : List Part} : Dict.get? mapping s = some parts →
      rendered parts = .ok s → Restored mapping (.string s) (.ok (), .template parts, mapping)
  | same {v : Value} : (∀ s, v = .string s → Dict.get? mapping s = none) →
      Restored mapping v (.ok (), v, mapping)

/-- The value and the mapping are put in place when both are there, and not before. -/
theorem replace_run (mapping : Mapping) (v : Value) :
    Step.replace.run.run (v, mapping)
      = match mapping.replace v with
        | .ok replaced => (.ok (), replaced)
        | .error e => (.error e, v, mapping) := by
  unfold Step.run
  rw [run_bind]
  show (liftM (mapping.replace v) >>= set : ExceptT Failure (StateM (Value × Mapping)) Unit).run
    (v, mapping) = _
  rw [run_bind]
  cases mapping.replace v <;> rfl

theorem replaced (mapping : Mapping) (v : Value) :
    Replaced mapping v (Step.replace.run.run (v, mapping)) := by
  rw [replace_run]
  cases v with
  | template parts =>
    unfold replace
    dsimp only
    cases htext : rendered parts with
    | error e => exact .failed htext
    | ok text => exact .template htext
  | _ => exact .other nofun

/-- What is found in a faithful mapping has the text that was looked for. -/
theorem restored (h : mapping.Faithful) (v : Value) :
    Restored mapping v (Step.restore.run.run (v, mapping)) := by
  show Restored mapping v (.ok (), mapping.restore v, mapping)
  cases v with
  | string s =>
    unfold restore
    dsimp only
    cases hfound : Dict.get? mapping s with
    | none =>
      refine .same fun s' hs => ?_
      obtain rfl := Value.string.inj hs
      exact hfound
    | some parts => exact .text hfound (h (s, parts) (Dict.mem_of_get? hfound))
  | _ => exact .same nofun

/-! ## §2. What steps keep. -/

theorem Faithful.insert (h : mapping.Faithful) {parts : List Part} {text : String}
    (htext : rendered parts = .ok text) : Faithful (Dict.insert mapping text parts) := by
  intro e he
  -- it is the new template, or one that was there before
  obtain rfl | hbefore := Dict.mem_of_mem_insert he
  · exact htext
  · exact h e hbefore

/-- A step leaves a faithful mapping faithful, on whatever value it is done. -/
theorem Faithful.step (h : mapping.Faithful) (step : Step) (v : Value) :
    Faithful (step.run.run (v, mapping)).2.2 := by
  cases step with
  | replace =>
    generalize hrun : Step.replace.run.run (v, mapping) = outcome
    have hdone : Replaced mapping v outcome := hrun ▸ replaced mapping v
    cases hdone with
    | template htext => exact h.insert htext
    | failed _ => exact h
    | other _ => exact h
  | restore => exact h

/-- So do any number of steps. -/
theorem after_faithful (h : mapping.Faithful) (steps : List (Step × Value)) :
    (mapping.after steps).Faithful := by
  induction steps generalizing mapping with
  | nil => exact h
  | cons first rest ih =>
    obtain ⟨step, v⟩ := first
    exact ih (h.step step v)

/-- A value and what a step makes of it are written out alike. -/
theorem step_flatten (h : mapping.Faithful) (step : Step) (v : Value) :
    (step.run.run (v, mapping)).2.1.flatten = v.flatten := by
  cases step with
  | replace =>
    generalize hrun : Step.replace.run.run (v, mapping) = outcome
    have hdone : Replaced mapping v outcome := hrun ▸ replaced mapping v
    cases hdone with
    | @template parts text htext =>
      show .ok (.string text) = (rendered parts).map Json.string
      rw [htext]
      rfl
    | failed _ => rfl
    | other _ => rfl
  | restore =>
    generalize hrun : Step.restore.run.run (v, mapping) = outcome
    have hdone : Restored mapping v outcome := hrun ▸ restored h v
    cases hdone with
    | @text s parts _ htext =>
      show (rendered parts).map Json.string = .ok (.string s)
      rw [htext]
      rfl
    | same _ => rfl

/-- **Steps with one mapping change nothing but the form.**  The mapping is empty at first, and any
steps are done with it on any values.  At every time each template in it has the text that it is
found under; a template is replaced by exactly its text, and where that cannot be written value and
mapping stay as they are; a text is restored to a template with that text, or stays; and no step
changes what a value is written out as. -/
theorem steps_keep_text (steps : List (Step × Value)) :
    (∀ e ∈ after [] steps, rendered e.2 = .ok e.1)
    ∧ ∀ v, Replaced (after [] steps) v (Step.replace.run.run (v, after [] steps))
      ∧ Restored (after [] steps) v (Step.restore.run.run (v, after [] steps))
      ∧ ∀ step : Step, (step.run.run (v, after [] steps)).2.1.flatten = v.flatten := by
  have hempty : Faithful [] := fun e he => absurd he List.not_mem_nil
  have hfaithful := after_faithful hempty steps
  refine ⟨hfaithful, fun v => ?_⟩
  exact ⟨replaced _ v, restored hfaithful v, fun step => step_flatten hfaithful step v⟩

end AccountSync.Template.Mapping
