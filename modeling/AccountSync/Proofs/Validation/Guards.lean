/-
  AccountSync.Proofs.Validation.Guards
  ────────────────────────────────────
  **GUARDED CHANGES DO NOT GET THROUGH.**

  Three kinds of validators guard an account: default instances stay, instances stay unless they
  have a certain status, and some types take part only while a setting is on.  Each reports
  exactly the changes that it guards against, and these are withheld.  All that is left is what
  filters make up: the positions of children are set whether or not their type may be changed.

      Guarded                       — the changes that are guarded against
      Validator.Judges              — what a validator reports
      guards_hold                   — what becomes of guarded changes
      gated_section_positioned      — positions of children are not looked at
-/
import AccountSync.Proofs.Filter.Handlers
import AccountSync.Proofs.Validation.Withholding

namespace AccountSync

variable {ω : Type} {source : ElementSource} {batch : List InstanceChange}

/-! ## §1. What is guarded against. -/

/-- The instance lists the action. -/
def Instance.ListsAction (i : Instance) (action : ActionMatch) : Prop :=
  ∃ items, i.get? action.listField = some (.list items)
    ∧ ∃ item ∈ items, item.get? "field" = some (.string action.value)

/-- The setting of the rule is off, according to the settings instance that is stored. -/
def FeatureGateRule.Off (rule : FeatureGateRule) (adapter : String) (source : ElementSource) :
    Prop :=
  ∃ settings, source (.ofSettings adapter rule.settingsType) = some (.inst settings)
    ∧ (Value.map settings.value).getPath? (Text.pieces '.' rule.settingPath) = some (.bool false)

/-- The changes that the rules guard against. -/
inductive Guarded (adapter : String) (rules : ValidatorSettings) (source : ElementSource) :
    InstanceChange → Prop where
  /-- Default instances of protected types stay. -/
  | default {i : Instance} : i.typeName ∈ rules.defaultProtectedTypes →
      i.get? "default" = some (.bool true) → Guarded adapter rules source (.removal i)
  /-- By the first rule about their type, instances stay unless they have a certain status. -/
  | status {i : Instance} {rule : StatusRemovalRule} :
      rules.statusRemovals.find? (fun r => r.typeName = i.typeName) = some rule →
      i.get? rule.statusField ≠ some (.string rule.removableStatus) →
      Guarded adapter rules source (.removal i)
  /-- Changes of a type need a setting; if the rule is about an action, then additions and
  modifications do that list it. -/
  | gate {c : InstanceChange} {rule : FeatureGateRule} : rule ∈ rules.featureGates →
      c.typeName = rule.typeName →
      (∀ action ∈ rule.action, c.isRemoval = false ∧ c.data.ListsAction action) →
      rule.Off adapter source → Guarded adapter rules source c

/-- The validator reports the changes that it guards against, by an error about the element, and
says nothing about other changes. -/
structure Validator.Judges (v : Validator) (source : ElementSource)
    (guarded : InstanceChange → Prop) : Prop where
  only : ∀ batch, ∀ d ∈ v.check source batch,
    d.isError = true ∧ ∃ c ∈ batch, guarded c ∧ d.id = some c.id
  every : ∀ batch, ∀ c ∈ batch, guarded c →
    ∃ d ∈ v.check source batch, d.isError = true ∧ d.id = some c.id

/-! ## §2. What validators report. -/

theorem Value.bool?_eq_some_iff {v : Option Value} {b : Bool} :
    v.bind Value.bool? = some b ↔ v = some (.bool b) := by
  match v with
  | none => exact ⟨nofun, nofun⟩
  | some v => cases v <;> simp [Value.bool?]

theorem Value.string?_eq_some_iff {v : Option Value} {text : String} :
    v.bind Value.string? = some text ↔ v = some (.string text) := by
  match v with
  | none => exact ⟨nofun, nofun⟩
  | some v => cases v <;> simp [Value.string?]

namespace FeatureGate

variable {adapter : String} {rule : FeatureGateRule}

theorem hasAction_iff {action : ActionMatch} {i : Instance} :
    hasAction action i = true ↔ i.ListsAction action := by
  unfold hasAction Instance.ListsAction
  match i.get? action.listField with
  | some (.list items) =>
    simp [Value.list?, isAction, Value.string?_eq_some_iff]
  | none | some .null | some (.bool _) | some (.number _) | some (.string _) | some (.map _)
  | some (.reference _) | some (.template _) => simp [Value.list?]

theorem needs_iff {c : InstanceChange} :
    needs rule c = true ↔ c.typeName = rule.typeName
      ∧ ∀ action ∈ rule.action, c.isRemoval = false ∧ c.data.ListsAction action := by
  unfold needs
  cases rule.action with
  | none => simp
  | some action => simp [hasAction_iff]

/-- The setting can be read and is off exactly if that is what is stored. -/
theorem setting?_eq_false_iff :
    setting? adapter rule source = some false ↔ rule.Off adapter source := by
  have hpath (i : Instance) : (settingAt? rule.settingPath i).bind Value.bool? = some false
      ↔ (Value.map i.value).getPath? (Text.pieces '.' rule.settingPath) = some (.bool false) := by
    unfold settingAt?
    cases Text.pieces '.' rule.settingPath with
    | nil => exact ⟨nofun, nofun⟩
    | cons first rest => exact Value.bool?_eq_some_iff
  unfold setting? FeatureGateRule.Off
  cases source (.ofSettings adapter rule.settingsType) with
  | none => exact ⟨nofun, nofun⟩
  | some e =>
    cases e with
    | object o => exact ⟨nofun, nofun⟩
    | inst i =>
      refine (hpath i).trans ⟨fun h => ⟨i, rfl, h⟩, ?_⟩
      rintro ⟨settings, hsettings, h⟩
      obtain rfl := Element.inst.inj (Option.some.inj hsettings)
      exact h

theorem fault_isError (rule : FeatureGateRule) (i : Instance) : (fault rule i).isError = true := by
  unfold fault
  split <;> rfl

end FeatureGate

namespace Validator

theorem defaultRemoval_judges (types : List String) (source : ElementSource) :
    (defaultRemoval types).Judges source fun c => ∃ i, c = .removal i ∧ i.typeName ∈ types
      ∧ i.get? "default" = some (.bool true) where
  only batch d hd := by
    obtain ⟨i, hi, rfl⟩ := List.mem_map.mp hd
    obtain ⟨hremoved, hguard⟩ := List.mem_filter.mp hi
    simp only [Bool.and_eq_true, List.contains_iff_mem, DefaultRemoval.isDefault,
      decide_eq_true_eq, Value.bool?_eq_some_iff] at hguard
    exact ⟨rfl, .removal i, mem_removedInstances.mp hremoved, ⟨i, rfl, hguard⟩, rfl⟩
  every batch c hc := by
    rintro ⟨i, rfl, hguard⟩
    refine ⟨DefaultRemoval.fault i, List.mem_map.mpr ⟨i, List.mem_filter.mpr ⟨?_, ?_⟩, rfl⟩, rfl,
      rfl⟩
    · exact mem_removedInstances.mpr hc
    · simpa only [Bool.and_eq_true, List.contains_iff_mem, DefaultRemoval.isDefault,
        decide_eq_true_eq, Value.bool?_eq_some_iff] using hguard

theorem statusRemoval_judges (rules : List StatusRemovalRule) (source : ElementSource) :
    (statusRemoval rules).Judges source fun c => ∃ i rule, c = .removal i
      ∧ rules.find? (fun r => r.typeName = i.typeName) = some rule
      ∧ i.get? rule.statusField ≠ some (.string rule.removableStatus) where
  only batch d hd := by
    obtain ⟨i, hi, hfault⟩ := List.mem_filterMap.mp hd
    unfold StatusRemoval.fault? at hfault
    split at hfault
    · exact absurd hfault nofun
    next rule hrule =>
      split at hfault
      · exact absurd hfault nofun
      next hstatus =>
        obtain rfl := Option.some.inj hfault
        refine ⟨rfl, .removal i, mem_removedInstances.mp hi, ⟨i, rule, rfl, hrule, ?_⟩, rfl⟩
        exact fun h => hstatus (Value.string?_eq_some_iff.mpr h)
  every batch c hc := by
    rintro ⟨i, rule, rfl, hrule, hstatus⟩
    refine ⟨StatusRemoval.fault rule i, List.mem_filterMap.mpr
      ⟨i, mem_removedInstances.mpr hc, ?_⟩, rfl, rfl⟩
    have hfound : StatusRemoval.ruleFor? rules i.typeName = some rule := hrule
    unfold StatusRemoval.fault?
    rw [hfound]
    exact if_neg fun h => hstatus (Value.string?_eq_some_iff.mp h)

theorem featureGate_judges (adapter : String) (rule : FeatureGateRule) (source : ElementSource) :
    (featureGate adapter rule).Judges source fun c => c.typeName = rule.typeName
      ∧ (∀ action ∈ rule.action, c.isRemoval = false ∧ c.data.ListsAction action)
      ∧ rule.Off adapter source where
  only batch d hd := by
    change d ∈ FeatureGate.check adapter rule source batch at hd
    unfold FeatureGate.check at hd
    split at hd
    · exact absurd hd List.not_mem_nil
    next hon =>
      obtain ⟨c, hc, rfl⟩ := List.mem_map.mp hd
      obtain ⟨hmem, hneeds⟩ := List.mem_filter.mp hc
      obtain ⟨htype, haction⟩ := FeatureGate.needs_iff.mp hneeds
      have hoff : FeatureGate.setting? adapter rule source = some false := by
        cases h : FeatureGate.setting? adapter rule source with
        | none => exact absurd (h ▸ rfl) hon
        | some on =>
          cases on with
          | true => exact absurd (h ▸ rfl) hon
          | false => rfl
      refine ⟨FeatureGate.fault_isError rule c.data, c, hmem, ⟨htype, haction, ?_⟩,
        FeatureGate.fault_id rule c.data⟩
      exact FeatureGate.setting?_eq_false_iff.mp hoff
  every batch c hc := by
    rintro ⟨htype, haction, hoff⟩
    have hset : FeatureGate.setting? adapter rule source = some false :=
      FeatureGate.setting?_eq_false_iff.mpr hoff
    refine ⟨FeatureGate.fault rule c.data, ?_, FeatureGate.fault_isError rule c.data,
      FeatureGate.fault_id rule c.data⟩
    show _ ∈ FeatureGate.check adapter rule source batch
    unfold FeatureGate.check
    rw [hset]
    have hneeds := FeatureGate.needs_iff.mpr ⟨htype, haction⟩
    exact List.mem_map_of_mem (List.mem_filter.mpr ⟨hc, hneeds⟩)

theorem mem_unlessEmpty {α : Type} {rules : List α} {v v' : Validator} :
    v' ∈ unlessEmpty rules v ↔ rules ≠ [] ∧ v' = v := by
  unfold unlessEmpty
  cases rules <;> simp

/-- The validators that guard changes are the standard ones but that of external sources. -/
def guards (adapter : String) (rules : ValidatorSettings) : List Validator :=
  (standard adapter rules).filter fun v => v.name ≠ "external_source"

/-- What guards report is guarded against. -/
theorem guards_only {adapter : String} {rules : ValidatorSettings} {v : Validator}
    (hv : v ∈ guards adapter rules) {d : Diagnostic} (hd : d ∈ v.check source batch) :
    d.isError = true ∧ ∃ c ∈ batch, Guarded adapter rules source c ∧ d.id = some c.id := by
  obtain ⟨hmem, hname⟩ := List.mem_filter.mp hv
  unfold standard at hmem
  simp only [List.mem_append, mem_unlessEmpty, List.mem_map] at hmem
  -- one case for each kind of rule; the second is that of external sources, which is no guard
  rcases hmem with ((⟨-, rfl⟩ | ⟨-, rfl⟩) | ⟨rule, hrule, rfl⟩) | ⟨-, rfl⟩
  · obtain ⟨herror, c, hc, ⟨i, rfl, hi⟩, hid⟩ := (defaultRemoval_judges _ source).only batch d hd
    exact ⟨herror, _, hc, .default hi.1 hi.2, hid⟩
  · exact absurd hname nofun
  · obtain ⟨herror, c, hc, hgate, hid⟩ := (featureGate_judges adapter rule source).only batch d hd
    exact ⟨herror, c, hc, .gate hrule hgate.1 hgate.2.1 hgate.2.2, hid⟩
  · obtain ⟨herror, c, hc, ⟨i, rule, rfl, hi⟩, hid⟩ :=
      (statusRemoval_judges _ source).only batch d hd
    exact ⟨herror, _, hc, .status hi.1 hi.2, hid⟩

/-- What is guarded against a guard reports. -/
theorem guards_every {adapter : String} {rules : ValidatorSettings} {c : InstanceChange}
    (hc : c ∈ batch) (h : Guarded adapter rules source c) :
    ∃ v ∈ guards adapter rules, ∃ d ∈ v.check source batch,
      d.isError = true ∧ d.id = some c.id := by
  -- a kind of guard is in use as soon as there is a rule for it
  have hguard {v : Validator}
      (hname : v.name ∈ ["default_removal", "feature_gate", "status_removal"])
      (hv : v ∈ standard adapter rules) : v ∈ guards adapter rules := by
    refine List.mem_filter.mpr ⟨hv, decide_eq_true fun h => ?_⟩
    exact absurd (h ▸ hname) (by decide)
  unfold standard at hguard
  simp only [List.mem_append, mem_unlessEmpty, List.mem_map] at hguard
  cases h with
  | default htype hdefault =>
    refine ⟨_, hguard List.mem_cons_self (.inl (.inl (.inl ⟨List.ne_nil_of_mem htype, rfl⟩))), ?_⟩
    exact (defaultRemoval_judges _ source).every batch _ hc ⟨_, rfl, htype, hdefault⟩
  | status hrule hstatus =>
    have hmem := List.mem_of_find?_eq_some hrule
    refine ⟨_, hguard (.tail _ (.tail _ (.head _))) (.inr ⟨List.ne_nil_of_mem hmem, rfl⟩), ?_⟩
    exact (statusRemoval_judges _ source).every batch _ hc ⟨_, _, rfl, hrule, hstatus⟩
  | @gate _ rule hrule htype haction hoff =>
    refine ⟨_, hguard (.tail _ (.head _)) (.inl (.inr ⟨rule, hrule, rfl⟩)), ?_⟩
    exact (featureGate_judges adapter rule source).every batch c hc ⟨htype, haction, hoff⟩

end Validator

/-! ## §3. What becomes of guarded changes. -/

/-- **Guarded changes do not get through.**  The standard validators, but that of external sources,
report errors about the guarded changes of a batch and say nothing else.  The deployment goes on
as if the changes of these elements had never been in the batch: on record, no hook and no
deployer is handed one of them, and none is applied.  Three filters deploy, and two of these hand
on to their handlers only what they are handed; the one of child lists makes up changes that give
listed children their positions, and never a removal.  No validator looks at these. -/
theorem guards_hold (s : Session ω) (source : ElementSource) {batch : List InstanceChange}
    (htop : ∀ c ∈ batch, c.id.isTopLevel = true) (w : ω) :
    let a := Adapter.standard s source
    let guarded := Guarded s.settings.adapter s.settings.validators source
    let guards := Validator.guards s.settings.adapter s.settings.validators
    let apart (c : InstanceChange) : Prop := ∀ g ∈ batch, guarded g → c.id ≠ g.id
    let passed := batch.filter fun c => ¬a.Withheld batch c.id
    let run := a.pipeline.deploy passed w
    let onRecord := a.pipeline.recorded.deploy passed (w, [])
    (∀ v ∈ guards, ∀ d ∈ v.check source batch,
        d.isError = true ∧ ∃ c ∈ batch, guarded c ∧ d.id = some c.id)
      ∧ (∀ c ∈ batch, guarded c → ∃ v ∈ guards, ∃ d ∈ v.check source batch,
        d.isError = true ∧ d.id = some c.id)
      ∧ a.deploy batch w = (⟨run.1.1.applied, a.diagnostics batch ++ run.1.1.errors⟩, run.2)
      ∧ (∀ c ∈ passed, apart c)
      ∧ (onRecord.1.1 = run.1.1 ∧ onRecord.2.1 = run.2)
      ∧ (∀ c, c ∈ onRecord.2.2.begun ∨ c ∈ run.1.1.applied → apart c)
      ∧ (Filter.standard s).filter Filter.deploys
        = [Filter.childOrder s, Filter.orderInstance s, Filter.removalLast s]
      ∧ (Filter.orderInstance s).HandsOn (Filter.orderInstanceOnRecord s) (fun _ _ => False)
      ∧ (Filter.removalLast s).HandsOn (Filter.removalLastOnRecord s) (fun _ _ => False)
      ∧ (Filter.childOrder s).HandsOn (Filter.childOrderOnRecord s)
        (Children.MadeFrom s.settings.filters.childOrder)
      ∧ (∀ handed c, Children.MadeFrom s.settings.filters.childOrder handed c →
        c.isRemoval = false) := by
  intro a guarded guards apart passed run onRecord
  have hwithheld (g : InstanceChange) (hg : g ∈ batch) (hguard : guarded g) :
      a.Withheld batch g.id := by
    obtain ⟨v, hv, d, hd, herror, hid⟩ := Validator.guards_every hg hguard
    -- the error names the changed element itself, and that is at the top
    have hholds := ElementId.topLevel_eq_iff.mp (ElementId.topLevel_of_isTopLevel (htop g hg))
    exact ⟨v, List.mem_of_mem_filter hv, d, hd, herror, g.id, hid, hholds⟩
  have hapart (c : InstanceChange) (hc : ¬a.Withheld batch c.id) : apart c :=
    fun g hg hguard heq => hc (heq ▸ hwithheld g hg hguard)
  have hfilters : ∀ f ∈ a.filters a.session, f.StaysWithin fun e => ¬a.Withheld batch e :=
    Filter.standard_staysWithin s _
  -- from here on any adapter would do
  clear_value a
  refine ⟨fun v hv d => Validator.guards_only hv, fun c hc => Validator.guards_every hc, ?deployed,
    fun c hc => hapart c ?passed, a.pipeline.deploy_recorded passed w, fun c hc => hapart c ?handed,
    rfl, Filter.orderInstance_handsOn s, Filter.removalLast_handsOn s,
    Filter.childOrder_handsOn s, fun _ _ => Children.MadeFrom.isRemoval⟩
  case deployed =>
    rw [Adapter.deploy_eq, Adapter.passed_eq]
  case passed => simpa using (List.mem_filter.mp hc).2
  case handed => exact a.handed_apart batch hfilters w c hc

/-- Sections take part only while the guide has them. -/
def FeatureGateRule.ofSections : FeatureGateRule where
  typeName := "section"
  settingsType := "features"
  settingPath := "guide.sections"

/-- An account where the default group stays, as do macros unless they are inactive, and with
sections in their category. -/
def Session.ofGuards : Session (List Request) where
  settings := {
    adapter := "z"
    client := { baseUrl := "https://a" }
    endpoints := [("group", { remove := some ⟨"/groups/" ++ Text.braced "id", .delete⟩ }),
      ("section", { modify := some ⟨"/sections/" ++ Text.braced "id", .put⟩ })]
    filters := { childOrder := Session.ofSections.settings.filters.childOrder }
    validators := {
      defaultProtectedTypes := ["group"]
      featureGates := [.ofSections]
      statusRemovals := [{ typeName := "macro", removableStatus := "inactive" }] } }
  client := ⟨fun r sent => (.ok ⟨200, .null⟩, sent ++ [r])⟩
  next := .eager

/-- The guide has no sections. -/
def ElementSource.ofGuards : ElementSource := fun id =>
  if id = .ofSettings "z" "features" then
    some (.inst (.named "_config" (.ofType "z" "features")
      [("guide", .map [("sections", .bool false)])]))
  else none

theorem FeatureGateRule.ofSections_off : ofSections.Off "z" .ofGuards := by
  have hpieces : Text.pieces '.' ofSections.settingPath = ["guide", "sections"] := by
    decide +kernel
  refine ⟨_, rfl, ?_⟩
  rw [hpieces]
  rfl

/-- Of four changes of a group, a macro and sections that are guarded against none gets through, and
the removal of another group does. -/
theorem guards_hold_for_groups :
    let instances (type name : String) (value : Fields) : Instance :=
      .named name (.ofType "z" type) value
    let group (name : String) (id : Int) (isDefault : Bool) : Instance :=
      instances "group" name [("default", .bool isDefault), ("id", .number (.int id))]
    let stopped : List InstanceChange := [.removal (group "a" 1 true),
      .removal (instances "macro" "m" [("status", .string "active")]),
      .addition (instances "section" "s" []), .removal (instances "section" "t" [])]
    let batch : List InstanceChange := stopped ++ [.removal (group "b" 2 false)]
    let guarded := Guarded Session.ofGuards.settings.adapter
      Session.ofGuards.settings.validators .ofGuards
    let a := Adapter.standard Session.ofGuards .ofGuards
    let passed := batch.filter fun c => ¬a.Withheld batch c.id
    (∀ c ∈ batch, c.id.isTopLevel = true)
      ∧ (∀ c ∈ stopped, guarded c)
      ∧ (∀ c ∈ passed, ∀ g ∈ batch, guarded g → c.id ≠ g.id)
      ∧ (a.deploy batch []).2.map (fun r => (r.method, r.url)) = [(.delete, "/groups/2")] := by
  intro instances group stopped batch guarded a passed
  have htop : ∀ c ∈ batch, c.id.isTopLevel = true := by decide +kernel
  have hguarded : ∀ c ∈ stopped, guarded c := by
    simp only [stopped, List.forall_mem_cons]
    refine ⟨.default List.mem_cons_self rfl, .status rfl ?_, ?_, ?_,
      fun _ hc => absurd hc List.not_mem_nil⟩
    · exact fun h => absurd (Value.string.inj (Option.some.inj h)) (by decide)
    · exact .gate List.mem_cons_self rfl nofun FeatureGateRule.ofSections_off
    · exact .gate List.mem_cons_self rfl nofun FeatureGateRule.ofSections_off
  exact ⟨htop, hguarded, (guards_hold .ofGuards .ofGuards htop []).2.2.2.1, by decide +kernel⟩

/-- **No validator looks at the positions of children.**  The guide has no sections, and still the
category gets its first one: the batch has no change of a section and nothing is withheld, but
the filter of child lists makes up a modification of the section, and it is sent. -/
theorem gated_section_positioned :
    let s := Session.ofGuards
    let batch : List InstanceChange := [.firstSection]
    let a := Adapter.standard s .ofGuards
    (∀ c ∈ batch, c.id.isTopLevel = true ∧ ¬a.Withheld batch c.id)
      ∧ (∃ c ∈ (Filter.childOrderOnRecord s batch ([], [])).2.2.begun,
        Guarded s.settings.adapter s.settings.validators .ofGuards c)
      ∧ (a.deploy batch []).2.map (fun r => (r.method, r.url)) = [(.put, "/sections/1")] := by
  intro s batch a
  refine ⟨by decide +kernel, ?_, by decide +kernel⟩
  -- the rule about sections asks for nothing but the type
  have htypes : ((Filter.childOrderOnRecord s batch ([], [])).2.2.begun.map
      InstanceChange.typeName) = ["section"] := by decide +kernel
  obtain ⟨c, hc, htype⟩ := List.mem_map.mp (htypes ▸ List.mem_cons_self)
  exact ⟨c, hc, .gate List.mem_cons_self htype nofun FeatureGateRule.ofSections_off⟩

end AccountSync
