/-
  AccountSync.Proofs.Filter.Prepared
  ──────────────────────────────────
  **WHAT THE STANDARD FILTERS PREPARE.**

  Before a deployment addresses of users become identifiers, and bodies become text.  The
  first is done to the snapshot from after alone, the second to both.  Each change is prepared
  by itself, and no list of references is touched.

      Instance.Refilled        — a step that changes nothing but fields
      Edit                     — a step that changes fields and spares lists of references
      Filter.preparedChange    — a change as the standard filters prepare it
      prepare_standard         — they prepare change by change
      prepared_modification    — both snapshots of a modification are edited
      prepared_differences     — when no field comes to differ that did not
-/
import AccountSync.Proofs.Change.Fields
import AccountSync.Proofs.Deployment.Conservation
import AccountSync.Proofs.Filter.Standard

namespace AccountSync

variable {ω : Type}

/-! ## §1. Steps that change fields, and spare lists of references. -/

/-- The value is a list of nothing but references. -/
def Value.ListsReferences (v : Value) : Prop :=
  ∃ items, v = .list items ∧ ∀ item ∈ items, ∃ r, item = .reference r

/-- The field has no value, or a list of references. -/
def Instance.HoldsReferences (i : Instance) (field : String) : Prop :=
  ∀ v, i.get? field = some v → v.ListsReferences

theorem Instance.get?_set_self (i : Instance) (field : String) (v : Value) :
    (i.set field v).get? field = some v :=
  Dict.get?_insert_self i.value field v

theorem Instance.get?_set_of_ne (i : Instance) {field other : String} (h : field ≠ other)
    (v : Value) : (i.set field v).get? other = i.get? other :=
  Dict.get?_insert_of_ne i.value h v

/-- The second instance is the first one with other values of fields, in key order if they were. -/
def Instance.Refilled (i j : Instance) : Prop :=
  ∃ value, j = { i with value } ∧ (Dict.Sorted i.value → Dict.Sorted value)

namespace Instance.Refilled

theorem refl (i : Instance) : i.Refilled i :=
  ⟨i.value, rfl, fun hsorted => hsorted⟩

theorem set (i : Instance) (field : String) (v : Value) : i.Refilled (i.set field v) :=
  ⟨_, rfl, fun hsorted => hsorted.insert field v⟩

theorem trans {i j k : Instance} (h : i.Refilled j) (h' : j.Refilled k) : i.Refilled k := by
  obtain ⟨value, rfl, hsorted⟩ := h
  obtain ⟨value', rfl, hsorted'⟩ := h'
  exact ⟨value', rfl, hsorted' ∘ hsorted⟩

theorem id {i j : Instance} (h : i.Refilled j) : j.id = i.id := by
  obtain ⟨value, rfl, -⟩ := h
  rfl

theorem typeName {i j : Instance} (h : i.Refilled j) : j.typeName = i.typeName := by
  obtain ⟨value, rfl, -⟩ := h
  rfl

/-- Instances that differ in nothing but fields are the same if they have the same fields. -/
theorem eq_of_get? {i j : Instance} (hsorted : Dict.Sorted i.value) (h : i.Refilled j)
    (hget : ∀ field, j.get? field = i.get? field) : j = i := by
  obtain ⟨value, rfl, hvalue⟩ := h
  exact congrArg (fun value => { i with value }) ((hvalue hsorted).ext hsorted hget)

end Instance.Refilled

/-- The second instance is the first one with other values of fields, but none of them held a list
of references. -/
structure Edit (i j : Instance) : Prop where
  id : j.id = i.id
  type : j.type = i.type
  sorted : Dict.Sorted i.value → Dict.Sorted j.value
  spared : ∀ field, i.HoldsReferences field → j.get? field = i.get? field

namespace Edit

theorem refl (i : Instance) : Edit i i :=
  ⟨rfl, rfl, fun hsorted => hsorted, fun _ _ => rfl⟩

theorem trans {i j k : Instance} (h : Edit i j) (h' : Edit j k) : Edit i k where
  id := h'.id.trans h.id
  type := h'.type.trans h.type
  sorted := h'.sorted ∘ h.sorted
  spared := by
    intro field hfield
    have hkept := h.spared field hfield
    rw [← hkept]
    refine h'.spared field fun v hv => hfield v ?_
    rw [← hkept, hv]

/-- A field may get a value unless it holds references, or it may get the value that it has. -/
theorem set {i : Instance} {field : String} {v : Value}
    (h : i.HoldsReferences field → i.get? field = some v) : Edit i (i.set field v) where
  id := rfl
  type := rfl
  sorted := fun hsorted => hsorted.insert field v
  spared := by
    intro other hother
    by_cases heq : field = other
    · subst heq
      rw [i.get?_set_self, h hother]
    · exact i.get?_set_of_ne heq v

end Edit

/-! ## §2. Addresses of users. -/

namespace Exchange

/-- A list of references holds no address. -/
theorem covers_leavesAt (ids : UserIds) (path : List String) {v : Value} (h : v.ListsReferences) :
    (v.leavesAt path).any ids.covers = false := by
  obtain ⟨items, rfl, hitems⟩ := h
  unfold Value.leavesAt
  induction items with
  | nil => rfl
  | cons item rest ih =>
    obtain ⟨⟨r, rfl⟩, hrest⟩ := List.forall_mem_cons.mp hitems
    unfold Value.itemLeaves
    rw [List.any_append, ih hrest]
    cases path <;> rfl

theorem applyAt_edit (ids : UserIds) (path : List String) (i : Instance) :
    Edit i (applyAt ids path i).1 := by
  unfold applyAt
  split
  · exact .refl i
  next first rest =>
    split
    · exact .refl i
    next field hfield =>
      split
      next hany =>
        refine .set fun hrefs => ?_
        rw [covers_leavesAt ids rest (hrefs field hfield)] at hany
        exact absurd hany nofun
      · exact .refl i

theorem applyRules_edit (ids : UserIds) (rules : List IdReferenceRule) (i : Instance) :
    Edit i (applyRules ids rules i).1 := by
  induction rules generalizing i with
  | nil => exact .refl i
  | cons rule rest ih => exact (applyAt_edit ids rule.path i).trans (ih _)

/-- A change with identifiers for addresses, unless the identifiers are not known. -/
def exchanged (rules : List IdReferenceRule) (ids? : Option UserIds) (c : InstanceChange) :
    InstanceChange :=
  match ids? with
  | none => c
  | some ids =>
    if c.isRemoval then c
    else c.setData (applyRules ids (rulesFor rules c.typeName) c.data).1

/-- Each change is dealt with by itself. -/
theorem apply_eq_map (rules : List IdReferenceRule) (ids : UserIds)
    (changes : List InstanceChange) (kept : Dict SavedFields) :
    (apply rules ids changes kept).1 = changes.map (exchanged rules (some ids)) := by
  induction changes generalizing kept with
  | nil => rfl
  | cons c rest ih =>
    unfold apply
    rw [List.map_cons]
    unfold exchanged
    split
    · exact congrArg (c :: ·) (ih kept)
    · exact congrArg (c.setData _ :: ·) (ih _)

end Exchange

/-! ## §3. Bodies of text. -/

namespace Bodies

/-- A body as text, as far as its text can be written. -/
def text (body : Value) : Value :=
  match Template.Mapping.replace [] body with
  | .ok (text, _) => text
  | .error _ => body

/-- The instance with a body as text. -/
def withText (field : String) (i : Instance) : Instance :=
  match i.get? field with
  | none => i
  | some body =>
    match Template.Mapping.replace [] body with
    | .ok (text, _) => i.set field text
    | .error _ => i

/-- What is remembered of texts makes no difference for the instance. -/
theorem renderField_eq (field : String) (mapping : Template.Mapping) (i : Instance) :
    (renderField field mapping i).1 = withText field i := by
  unfold renderField withText
  cases i.get? field with
  | none => rfl
  | some body =>
    cases body with
    | template parts =>
      simp only [Template.Mapping.replace]
      cases Template.rendered parts <;> rfl
    | _ => rfl

theorem withText_edit (field : String) (i : Instance) : Edit i (withText field i) := by
  unfold withText
  split
  · exact .refl i
  next body hbody =>
    split
    next text _ htext =>
      refine .set fun hrefs => ?_
      obtain ⟨items, rfl, -⟩ := hrefs body hbody
      obtain ⟨rfl, -⟩ := Prod.mk.inj (Except.ok.inj htext)
      exact hbody
    · exact .refl i

/-- The body depends on what it was and on nothing else. -/
theorem withText_get?_self (field : String) (i : Instance) :
    (withText field i).get? field = (i.get? field).map text := by
  unfold withText
  cases hbody : i.get? field with
  | none => exact hbody
  | some body =>
    rw [Option.map_some]
    unfold text
    dsimp only
    cases Template.Mapping.replace [] body with
    | ok done => exact i.get?_set_self field done.1
    | error e => exact hbody

/-- No other field is touched. -/
theorem withText_get?_of_ne {field other : String} (h : field ≠ other) (i : Instance) :
    (withText field i).get? other = i.get? other := by
  unfold withText
  cases i.get? field with
  | none => rfl
  | some body =>
    dsimp only
    cases Template.Mapping.replace [] body with
    | ok done => exact i.get?_set_of_ne h done.1
    | error e => rfl

/-- A change with its bodies as text. -/
def rendered (rules : List BodyTemplateRule) (c : InstanceChange) : InstanceChange :=
  match changedField? rules c with
  | none => c
  | some field => c.map (withText field)

theorem mapState_eq (field : String) (mapping : Template.Mapping) (c : InstanceChange) :
    (c.mapState (renderField field) mapping).1 = c.map (withText field) := by
  cases c with
  | addition after => exact congrArg Change.addition (renderField_eq field mapping after)
  | removal before => exact congrArg Change.removal (renderField_eq field mapping before)
  | modification before after =>
    exact congrArg₂ Change.modification (renderField_eq field mapping before)
      (renderField_eq field (renderField field mapping before).2 after)

/-- Each change is dealt with by itself. -/
theorem render_eq_map (rules : List BodyTemplateRule) (changes : List InstanceChange)
    (mapping : Template.Mapping) :
    (render rules changes mapping).1 = changes.map (rendered rules) := by
  induction changes generalizing mapping with
  | nil => rfl
  | cons c rest ih =>
    unfold render
    rw [List.map_cons]
    cases hfield : changedField? rules c with
    | none =>
      have hc : rendered rules c = c := by
        unfold rendered
        rw [hfield]
      rw [hc]
      exact congrArg (c :: ·) (ih mapping)
    | some field =>
      have hc : rendered rules c = c.map (withText field) := by
        unfold rendered
        rw [hfield]
      rw [hc, ← mapState_eq field mapping]
      exact congrArg (_ :: ·) (ih _)

/-- The instance with the body of its type as text, if the type has any. -/
def withBody (rules : List BodyTemplateRule) (typeName : String) (i : Instance) : Instance :=
  match fieldOf? rules typeName with
  | none => i
  | some field => withText field i

theorem withBody_edit (rules : List BodyTemplateRule) (typeName : String) (i : Instance) :
    Edit i (withBody rules typeName i) := by
  unfold withBody
  split
  · exact .refl i
  next field _ => exact withText_edit field i

theorem rendered_modification (rules : List BodyTemplateRule) (before after : Instance) :
    rendered rules (.modification before after)
      = .modification (withBody rules after.typeName before)
        (withBody rules after.typeName after) := by
  have hfield : changedField? rules (.modification before after) = fieldOf? rules after.typeName :=
    rfl
  unfold rendered withBody
  rw [hfield]
  cases fieldOf? rules after.typeName <;> rfl

end Bodies

/-! ## §4. All standard filters. -/

namespace Filter

/-- A change as the standard filters prepare it, given the identifiers of users if they are
needed and known. -/
def preparedChange (s : Session ω) (ids? : Option UserIds) (c : InstanceChange) : InstanceChange :=
  Bodies.rendered s.settings.filters.bodyTemplates
    (Exchange.exchanged s.settings.filters.idReferences ids? c)

/-- The filter of users leaves everything as it is, or it does its work with the identifiers that it
knows by then. -/
theorem exchangeUsers_cases (s : Session ω) (changes : List InstanceChange) (memory : Memory) :
    Ensures (exchangeUsers s changes memory) (fun done =>
      (done.state = changes ∧ done.memory.saved = memory.saved)
        ∨ ∃ ids, done.result = .ok () ∧ done.memory.userIds = some ids.known
          ∧ (done.state, done.memory.saved)
            = Exchange.apply s.settings.filters.idReferences ids changes memory.saved) := by
  unfold exchangeUsers
  dsimp only
  split
  · refine (Ensures.yields _).bind fun known _ => ?_
    cases known with
    | error e => exact .pure (.inl ⟨rfl, rfl⟩)
    | ok known =>
      refine (Ensures.yields _).bind fun fallback _ => .pure ?_
      exact .inr ⟨⟨known, fallback⟩, rfl, rfl, rfl⟩
  · exact .pure (.inl ⟨rfl, rfl⟩)

theorem exchangeUsers_map (s : Session ω) (changes : List InstanceChange) (memory : Memory) :
    Ensures (exchangeUsers s changes memory) (fun done =>
      ∃ ids?, Pipeline.keptState changes done
        = changes.map (Exchange.exchanged s.settings.filters.idReferences ids?)) := by
  refine (exchangeUsers_cases s changes memory).mono fun done hdone => ?_
  rcases hdone with ⟨hstate, -⟩ | ⟨ids, hresult, -, hwork⟩
  · refine ⟨none, ?_⟩
    have hkept : Pipeline.keptState changes done = changes := by
      unfold Pipeline.keptState
      split
      · exact hstate
      · rfl
    rw [hkept]
    exact (List.map_id changes).symm
  · refine ⟨some ids, ?_⟩
    rw [← Exchange.apply_eq_map _ ids changes memory.saved, ← hwork]
    unfold Pipeline.keptState
    rw [hresult]

end Filter

/-- The standard filters prepare each change by itself. -/
theorem Pipeline.prepare_standard (s : Session ω) (batch : List InstanceChange) (w : ω) :
    ∃ ids?, ((ofFilters s (Filter.standard s)).prepare batch w).1.state
      = batch.map (Filter.preparedChange s ids?) := by
  obtain ⟨ids?, hids⟩ := Filter.exchangeUsers_map s batch {} w
  refine ⟨ids?, ?_⟩
  -- of the standard filters two take part: first that of users, then that of bodies
  have hstate : ((ofFilters s (Filter.standard s)).prepare batch w).1.state
      = (Bodies.render s.settings.filters.bodyTemplates
          (keptState batch (Filter.exchangeUsers s batch {} w).1) []).1 := rfl
  rw [hstate, hids, Bodies.render_eq_map, List.map_map]
  rfl

/-! ## §5. Modifications. -/

/-- The standard filters have no reason to make a modification differ in more fields: its type has
no fields with users, and if the body is not what changed then it is literally the same.  Equal
bodies need not be: their texts depend on what references remember of their targets. -/
structure Filter.Unconcerned (s : Session ω) (before after : Instance) : Prop where
  users : Exchange.rulesFor s.settings.filters.idReferences after.typeName = []
  bodies : ∀ field, Bodies.fieldOf? s.settings.filters.bodyTemplates after.typeName = some field →
    before.DiffersIn after field ∨ before.get? field = after.get? field

theorem Exchange.exchanged_modification (rules : List IdReferenceRule) (ids? : Option UserIds)
    (before after : Instance) :
    ∃ after', exchanged rules ids? (.modification before after) = .modification before after'
      ∧ Edit after after' ∧ (rulesFor rules after.typeName = [] → after' = after) := by
  cases ids? with
  | none => exact ⟨after, rfl, .refl after, fun _ => rfl⟩
  | some ids =>
    refine ⟨_, rfl, applyRules_edit ids (rulesFor rules after.typeName) after, fun hnone => ?_⟩
    show (applyRules ids (rulesFor rules after.typeName) after).1 = after
    rw [hnone]
    rfl

theorem Value.sameOption_refl (v : Option Value) : sameOption v v = true := by
  cases v with
  | none => rfl
  | some v => exact v.same_refl

/-- Snapshots that have the same body come to differ in no other field by writing it as text. -/
theorem Bodies.differsIn_of_withBody {rules : List BodyTemplateRule} {typeName : String}
    {before after : Instance}
    (hbody : ∀ field, fieldOf? rules typeName = some field →
      before.DiffersIn after field ∨ before.get? field = after.get? field) {field : String}
    (h : (withBody rules typeName before).DiffersIn (withBody rules typeName after) field) :
    before.DiffersIn after field := by
  unfold withBody at h
  cases hfield : fieldOf? rules typeName with
  | none =>
    rw [hfield] at h
    exact h
  | some body =>
    rw [hfield] at h
    unfold Instance.DiffersIn at h
    dsimp only at h
    by_cases heq : body = field
    · subst heq
      refine (hbody body hfield).resolve_right fun hsame => ?_
      rw [withText_get?_self, withText_get?_self, hsame, Value.sameOption_refl] at h
      exact absurd h nofun
    · rw [withText_get?_of_ne heq, withText_get?_of_ne heq] at h
      exact h

/-- Both snapshots of a modification are edited, and they come to differ in other fields only if
the filters are concerned. -/
theorem Filter.preparedChange_modification (s : Session ω) (ids? : Option UserIds)
    (before after : Instance) :
    ∃ before' after', preparedChange s ids? (.modification before after)
        = .modification before' after'
      ∧ Edit before before' ∧ Edit after after'
      ∧ (Unconcerned s before after →
          ∀ field, before'.DiffersIn after' field → before.DiffersIn after field) := by
  obtain ⟨middle, hmiddle, hedit, hsame⟩ :=
    Exchange.exchanged_modification s.settings.filters.idReferences ids? before after
  let rules := s.settings.filters.bodyTemplates
  refine ⟨Bodies.withBody rules middle.typeName before, Bodies.withBody rules middle.typeName middle,
    ?_, Bodies.withBody_edit rules _ before, hedit.trans (Bodies.withBody_edit rules _ middle), ?_⟩
  · unfold preparedChange
    rw [hmiddle, Bodies.rendered_modification]
  · intro hfree field hne
    obtain rfl := hsame hfree.users
    exact Bodies.differsIn_of_withBody hfree.bodies hne

end AccountSync
