/-
  AccountSync.Proofs.Template.Restored
  ────────────────────────────────────
  **BODIES COME BACK BY THEIR TEXT.**

  While changes are deployed, all bodies of a batch share one memory, which has templates by
  text.  What a body comes back as thus depends on the whole batch: it is the last template
  with its text, be that another one, and be the body no template at all.

      Template.sourceOf?       — the last template with a text
      Bodies.render_remembers  — what is remembered of a batch
      Bodies.restoredTo        — what a body comes back as
      bodies_come_back         — the batch is back unless two of its bodies are confused
      plain_body_lost          — a plain text that becomes the template of another body
-/
import AccountSync.Proofs.Change.Snapshots
import AccountSync.Proofs.Dict
import AccountSync.Proofs.Filter.Prepared
import AccountSync.Proofs.Template.Links

namespace AccountSync

variable {ω : Type}

/-! ## §1. Fields that are set twice. -/

theorem Instance.set_set (i : Instance) (field : String) (v v' : Value) :
    (i.set field v).set field v' = i.set field v' :=
  congrArg (fun value => { i with value }) (Dict.insert_insert i.value field v v')

theorem Instance.set_of_get? {i : Instance} (hsorted : Dict.Sorted i.value) {field : String}
    {v : Value} (h : i.get? field = some v) : i.set field v = i :=
  congrArg (fun value => { i with value }) (Dict.insert_of_get? hsorted h)

/-! ## §2. What is remembered of bodies. -/

namespace Template

/-- The template that a body is, if the body has the text. -/
def templateWith? (text : String) (body : Value) : Option (List Part) :=
  match body with
  | .template parts => if textOf? body = some text then some parts else none
  | _ => none

/-- The last template with a text. -/
def sourceOf? (text : String) : List Value → Option (List Part)
  | [] => none
  | body :: rest => (sourceOf? text rest).or (templateWith? text body)

theorem templateWith?_eq_some {text : String} {body : Value} {parts : List Part}
    (h : templateWith? text body = some parts) :
    body = .template parts ∧ textOf? body = some text := by
  unfold templateWith? at h
  split at h
  next parts' =>
    split at h
    next htext =>
      obtain rfl := Option.some.inj h
      exact ⟨rfl, htext⟩
    · exact absurd h nofun
  · exact absurd h nofun

theorem templateWith?_self {text : String} {parts : List Part}
    (h : textOf? (.template parts) = some text) :
    templateWith? text (.template parts) = some parts :=
  if_pos h

/-- The source of a text is one of the bodies, and it has the text. -/
theorem sourceOf?_eq_some {text : String} {bodies : List Value} {parts : List Part}
    (h : sourceOf? text bodies = some parts) :
    .template parts ∈ bodies ∧ textOf? (.template parts) = some text := by
  induction bodies with
  | nil => exact absurd h nofun
  | cons body rest ih =>
    rcases Option.or_eq_some_iff.mp h with hrest | ⟨-, hbody⟩
    · obtain ⟨hmem, htext⟩ := ih hrest
      exact ⟨List.mem_cons_of_mem body hmem, htext⟩
    · obtain ⟨rfl, htext⟩ := templateWith?_eq_some hbody
      exact ⟨List.mem_cons_self, htext⟩

/-- The text of a template that is among the bodies has a source. -/
theorem sourceOf?_of_mem {text : String} {bodies : List Value} {parts : List Part}
    (hmem : .template parts ∈ bodies) (htext : textOf? (.template parts) = some text) :
    ∃ source, sourceOf? text bodies = some source := by
  induction bodies with
  | nil => exact absurd hmem List.not_mem_nil
  | cons body rest ih =>
    rw [← Option.isSome_iff_exists] at ih ⊢
    unfold sourceOf?
    rw [Option.isSome_or, Bool.or_eq_true]
    rcases List.mem_cons.mp hmem with rfl | hmem
    · right
      rw [templateWith?_self htext]
      rfl
    · exact .inl (ih hmem)

namespace Mapping

/-- Remembers a body by its text, if it is a template that can be written. -/
def remember (mapping : Mapping) (body : Value) : Mapping :=
  match mapping.replace body with
  | .ok (_, mapping) => mapping
  | .error _ => mapping

theorem replace_of_text {parts : List Part} {text : String}
    (h : textOf? (.template parts) = some text) (mapping : Mapping) :
    mapping.replace (.template parts) = .ok (.string text, Dict.insert mapping text parts) := by
  unfold replace
  dsimp only
  rw [textOf?_template_iff.mp h]
  rfl

theorem replace_of_no_text {parts : List Part} (h : textOf? (.template parts) = none)
    (mapping : Mapping) : ∃ e, mapping.replace (.template parts) = .error e := by
  unfold replace
  dsimp only
  cases hrendered : rendered parts with
  | error e => exact ⟨e, rfl⟩
  | ok written =>
    rw [textOf?_template_iff.mpr hrendered] at h
    exact absurd h nofun

theorem remember_get? (mapping : Mapping) (body : Value) (text : String) :
    Dict.get? (mapping.remember body) text
      = (templateWith? text body).or (Dict.get? mapping text) := by
  cases body with
  | template parts =>
    show _ = (if textOf? (.template parts) = some text then some parts else none).or _
    unfold remember
    cases hwritten : textOf? (.template parts) with
    | none =>
      obtain ⟨e, hkept⟩ := replace_of_no_text hwritten mapping
      rw [hkept, if_neg nofun, Option.none_or]
    | some written =>
      rw [replace_of_text hwritten]
      by_cases heq : written = text
      · rw [heq, Dict.get?_insert_self, if_pos rfl, Option.some_or]
      · rw [Dict.get?_insert_of_ne mapping heq, if_neg fun h => heq (Option.some.inj h),
          Option.none_or]
  | _ => rfl

/-- Of the templates with one text the last one is remembered. -/
theorem remember_all_get? (bodies : List Value) (mapping : Mapping) (text : String) :
    Dict.get? (bodies.foldl remember mapping) text
      = (sourceOf? text bodies).or (Dict.get? mapping text) := by
  induction bodies generalizing mapping with
  | nil => rfl
  | cons body rest ih =>
    rw [List.foldl_cons, ih, remember_get?, ← Option.or_assoc]
    rfl

end Mapping

end Template

namespace Bodies

/-- The bodies of a change in the order in which they become text. -/
def bodiesOf (rules : List BodyTemplateRule) (c : InstanceChange) : List Value :=
  match changedField? rules c with
  | none => []
  | some field => c.snapshots.filterMap (fun i => i.get? field)

theorem renderField_remembers (field : String) (mapping : Template.Mapping) (i : Instance) :
    (renderField field mapping i).2 = (i.get? field).elim mapping mapping.remember := by
  unfold renderField
  cases i.get? field with
  | none => rfl
  | some body =>
    show _ = mapping.remember body
    unfold Template.Mapping.remember
    dsimp only
    cases mapping.replace body <;> rfl

/-- What is remembered of a batch are its bodies, one after the other. -/
theorem render_remembers (rules : List BodyTemplateRule) (changes : List InstanceChange)
    (mapping : Template.Mapping) :
    (render rules changes mapping).2
      = (changes.flatMap (bodiesOf rules)).foldl Template.Mapping.remember mapping := by
  induction changes generalizing mapping with
  | nil => rfl
  | cons c rest ih =>
    rw [List.flatMap_cons, List.foldl_append]
    unfold render bodiesOf
    cases changedField? rules c with
    | none => exact ih mapping
    | some field =>
      have hc : (c.mapState (renderField field) mapping).2
          = (c.snapshots.filterMap fun i => i.get? field).foldl Template.Mapping.remember
            mapping := by
        rw [Change.mapState_state, List.foldl_filterMap]
        refine congrArg (c.snapshots.foldl · mapping) (funext₂ fun m i => ?_)
        rw [renderField_remembers]
        cases i.get? field <;> rfl
      rw [← hc]
      exact ih _

/-! ## §3. What bodies come back as. -/

/-- What a body comes back as in a batch with the given bodies. -/
def restoredTo (bodies : List Value) (body : Value) : Value :=
  match (Template.textOf? body).bind (Template.sourceOf? · bodies) with
  | some source => .template source
  | none => body

/-- The instance with what its body comes back as. -/
def withRestored (field : String) (bodies : List Value) (i : Instance) : Instance :=
  match i.get? field with
  | none => i
  | some body => i.set field (restoredTo bodies body)

/-- The change with what its bodies come back as. -/
def restoredChange (rules : List BodyTemplateRule) (bodies : List Value) (c : InstanceChange) :
    InstanceChange :=
  match changedField? rules c with
  | none => c
  | some field => c.map (withRestored field bodies)

/-- The text of a body is turned back by what is remembered of the bodies. -/
theorem restore_text {bodies : List Value} {mapping : Template.Mapping}
    (hmapping : ∀ text, Dict.get? mapping text = Template.sourceOf? text bodies) {body : Value}
    (hbody : body ∈ bodies) : mapping.restore (text body) = restoredTo bodies body := by
  have hstring (s : String) : mapping.restore (.string s)
      = ((Template.sourceOf? s bodies).map Value.template).getD (.string s) := by
    rw [← hmapping]
    unfold Template.Mapping.restore
    dsimp only
    cases Dict.get? mapping s <;> rfl
  cases body with
  | template parts =>
    unfold text restoredTo
    cases hwritten : Template.textOf? (.template parts) with
    | none =>
      obtain ⟨e, hkept⟩ := Template.Mapping.replace_of_no_text hwritten []
      rw [hkept]
      rfl
    | some written =>
      -- the text has a source, as this template is one
      obtain ⟨source, hsource⟩ := Template.sourceOf?_of_mem hbody hwritten
      rw [Template.Mapping.replace_of_text hwritten, Option.bind_some, hsource]
      show mapping.restore (.string written) = _
      rw [hstring, hsource]
      rfl
  | string s =>
    show mapping.restore (.string s) = restoredTo bodies (.string s)
    rw [hstring]
    unfold restoredTo
    show _ = (match Template.sourceOf? s bodies with
      | some source => Value.template source
      | none => .string s)
    cases Template.sourceOf? s bodies <;> rfl
  | _ => rfl

theorem withText_set (field : String) (i : Instance) (v : Value) :
    (withText field i).set field v = i.set field v := by
  unfold withText
  cases i.get? field with
  | none => rfl
  | some body =>
    dsimp only
    cases Template.Mapping.replace [] body with
    | ok done => exact i.set_set field done.1 v
    | error e => rfl

theorem restoreField_withText {field : String} {bodies : List Value} {mapping : Template.Mapping}
    (hmapping : ∀ text, Dict.get? mapping text = Template.sourceOf? text bodies) {i : Instance}
    (hi : ∀ body, i.get? field = some body → body ∈ bodies) :
    restoreField field mapping (withText field i) = withRestored field bodies i := by
  unfold restoreField withRestored
  rw [withText_get?_self]
  cases hbody : i.get? field with
  | none =>
    show withText field i = i
    unfold withText
    rw [hbody]
  | some body =>
    -- the text that was set in between does not count
    show (withText field i).set field _ = i.set field _
    rw [withText_set, restore_text hmapping (hi body hbody)]

theorem changedField?_rendered (rules : List BodyTemplateRule) (c : InstanceChange) :
    changedField? rules (rendered rules c) = changedField? rules c := by
  have htype (field : String) (i : Instance) : (withText field i).typeName = i.typeName :=
    congrArg ElementId.typeName (withText_edit field i).type
  unfold rendered
  cases hfield : changedField? rules c with
  | none => exact hfield
  | some field =>
    refine Eq.trans ?_ hfield
    cases c with
    | removal before => rfl
    | addition after => exact congrArg (fieldOf? rules) (htype field after)
    | modification before after => exact congrArg (fieldOf? rules) (htype field after)

/-- After both hooks every body of a batch is what it comes back as, and nothing else changed. -/
theorem restore_render (rules : List BodyTemplateRule) (batch : List InstanceChange) :
    restore rules (render rules batch []).2 (render rules batch []).1
      = batch.map (restoredChange rules (batch.flatMap (bodiesOf rules))) := by
  have hmapping (text : String) : Dict.get? (render rules batch []).2 text
      = Template.sourceOf? text (batch.flatMap (bodiesOf rules)) := by
    rw [render_remembers, Template.Mapping.remember_all_get?]
    exact Option.or_none
  unfold restore
  rw [render_eq_map, List.map_map]
  refine List.map_congr_left fun c hc => ?_
  rw [Function.comp_apply, changedField?_rendered]
  unfold rendered restoredChange
  cases hfield : changedField? rules c with
  | none => rfl
  | some field =>
    show (c.map (withText field)).map (restoreField field _) = c.map (withRestored field _)
    rw [Change.map_map, Change.map_eq_map_iff]
    intro i hi
    refine restoreField_withText hmapping fun body hbody => List.mem_flatMap.mpr ⟨c, hc, ?_⟩
    unfold bodiesOf
    rw [hfield]
    exact List.mem_filterMap.mpr ⟨i, hi, hbody⟩

/-! ## §4. When bodies come back as they were. -/

/-- The second body is a template with the text of the first one, which is another body. -/
def Confused (a b : Value) : Prop :=
  ∃ parts text, b = .template parts ∧ Template.textOf? b = some text
    ∧ Template.textOf? a = some text ∧ a ≠ b

/-- Every body comes back as it was exactly if no two are confused. -/
theorem restoredTo_eq_self_iff (bodies : List Value) :
    (∀ body ∈ bodies, restoredTo bodies body = body) ↔
      ∀ a ∈ bodies, ∀ b ∈ bodies, ¬Confused a b := by
  constructor
  · rintro hback a ha b hb ⟨parts, text, rfl, hb', ha', hne⟩
    -- both come back as the one source of their text
    obtain ⟨source, hsource⟩ := Template.sourceOf?_of_mem hb hb'
    have hcomes {body : Value} (htext : Template.textOf? body = some text) :
        restoredTo bodies body = .template source := by
      unfold restoredTo
      rw [htext, Option.bind_some, hsource]
    exact hne ((hback a ha).symm.trans ((hcomes ha').trans
      ((hcomes hb').symm.trans (hback _ hb))))
  · intro hclear body hbody
    -- the source of its text has that text too, so it can be no other body
    unfold restoredTo
    cases htext : Template.textOf? body with
    | none => rfl
    | some text =>
      rw [Option.bind_some]
      cases hsource : Template.sourceOf? text bodies with
      | none => rfl
      | some source =>
        obtain ⟨hmem, hsame⟩ := Template.sourceOf?_eq_some hsource
        by_contra hne
        exact hclear body hbody _ hmem ⟨source, text, rfl, hsame, htext, Ne.symm hne⟩

theorem withRestored_eq_self_iff {field : String} {bodies : List Value} {i : Instance}
    (hsorted : Dict.Sorted i.value) :
    withRestored field bodies i = i ↔
      ∀ body, i.get? field = some body → restoredTo bodies body = body := by
  unfold withRestored
  cases hbody : i.get? field with
  | none => exact ⟨nofun, fun _ => rfl⟩
  | some body =>
    constructor
    · rintro hset _ ⟨⟩
      have hget := i.get?_set_self field (restoredTo bodies body)
      rw [show i.set field (restoredTo bodies body) = i from hset, hbody] at hget
      exact (Option.some.inj hget).symm
    · intro hsame
      show i.set field (restoredTo bodies body) = i
      rw [hsame body rfl]
      exact Instance.set_of_get? hsorted hbody

theorem restoredChange_eq_self_iff {rules : List BodyTemplateRule} {bodies : List Value}
    {c : InstanceChange} (hsorted : ∀ i ∈ c.snapshots, Dict.Sorted i.value) :
    restoredChange rules bodies c = c ↔
      ∀ body ∈ bodiesOf rules c, restoredTo bodies body = body := by
  unfold restoredChange bodiesOf
  cases changedField? rules c with
  | none => exact ⟨fun _ => nofun, fun _ => rfl⟩
  | some field =>
    show c.map (withRestored field bodies) = c ↔ _
    rw [Change.map_eq_self_iff]
    constructor
    · intro hsame body hbody
      obtain ⟨i, hi, hbody⟩ := List.mem_filterMap.mp hbody
      exact (withRestored_eq_self_iff (hsorted i hi)).mp (hsame i hi) body hbody
    · intro hsame i hi
      refine (withRestored_eq_self_iff (hsorted i hi)).mpr fun body hbody => ?_
      exact hsame body (List.mem_filterMap.mpr ⟨i, hi, hbody⟩)

end Bodies

/-- Before a deployment the filter of bodies writes each body as text, and afterwards each comes
back as the last template of the batch with its text.  The batch is back exactly if no body has the
text of a template that is another body. -/
theorem bodies_come_back (s : Session ω) {batch : List InstanceChange} {memory : Memory}
    (hsorted : ∀ c ∈ batch, ∀ i ∈ c.snapshots, Dict.Sorted i.value) (hfresh : memory.texts = [])
    (w w' : ω) :
    let rules := s.settings.filters.bodyTemplates
    let bodies := batch.flatMap (Bodies.bodiesOf rules)
    let done := ((Filter.bodyTemplate s).preDeploy batch memory w).1
    let back := ((Filter.bodyTemplate s).onDeploy done.state done.memory w').1
    done.result = .ok () ∧ done.state = batch.map (Bodies.rendered rules)
      ∧ back.result = .ok () ∧ back.state = batch.map (Bodies.restoredChange rules bodies)
      ∧ (back.state = batch ↔ ∀ a ∈ bodies, ∀ b ∈ bodies, ¬Bodies.Confused a b) := by
  intro rules bodies done back
  have hstate : back.state = batch.map (Bodies.restoredChange rules bodies) := by
    rw [← Bodies.restore_render, ← hfresh]
    rfl
  refine ⟨rfl, Bodies.render_eq_map rules batch memory.texts, rfl, hstate, ?_⟩
  rw [hstate, ← Bodies.restoredTo_eq_self_iff]
  conv_lhs => rhs; rw [← List.map_id batch]
  rw [List.map_inj_left]
  constructor
  · intro hsame body hbody
    obtain ⟨c, hc, hbody⟩ := List.mem_flatMap.mp hbody
    exact (Bodies.restoredChange_eq_self_iff (hsorted c hc)).mp (hsame c hc) body hbody
  · intro hsame c hc
    refine (Bodies.restoredChange_eq_self_iff (hsorted c hc)).mpr fun body hbody => ?_
    exact hsame body (List.mem_flatMap.mpr ⟨c, hc, hbody⟩)

/-- A body that links to an article. -/
def Value.ofLink (name : String) (id : Int) : Value :=
  .template [.literal "/articles/",
    .reference (.to (.ofInstance "z" "article" name) (some (.map [("id", .number (.int id))])))]

/-- A new translation with a body. -/
def InstanceChange.newTranslation (name : String) (body : Value) : InstanceChange :=
  .addition (.named name (.ofType "z" "translation") [("body", body)])

theorem newTranslation_sorted (name : String) (body : Value) :
    ∀ i ∈ (InstanceChange.newTranslation name body).snapshots, Dict.Sorted i.value :=
  List.forall_mem_singleton.mpr (List.pairwise_singleton _ _)

/-- Links to two articles come back, as their texts differ. -/
theorem bodies_come_back_for_links :
    let batch := [InstanceChange.newTranslation "t" (.ofLink "a" 7),
      .newTranslation "u" (.ofLink "b" 8)]
    let done := ((Filter.bodyTemplate .ofArticles).preDeploy batch {} ()).1
    (∀ c ∈ batch, ∀ i ∈ c.snapshots, Dict.Sorted i.value) ∧ Memory.texts {} = []
      ∧ ((Filter.bodyTemplate .ofArticles).onDeploy done.state done.memory ()).1.state = batch := by
  intro batch done
  have hsorted : ∀ c ∈ batch, ∀ i ∈ c.snapshots, Dict.Sorted i.value :=
    List.forall_mem_cons.mpr ⟨newTranslation_sorted "t" _,
      List.forall_mem_singleton.mpr (newTranslation_sorted "u" _)⟩
  have hfresh : Memory.texts {} = [] := rfl
  obtain ⟨-, -, -, -, hback⟩ := bodies_come_back .ofArticles hsorted hfresh () ()
  refine ⟨hsorted, hfresh, hback.mpr ?_⟩
  have hbodies : batch.flatMap (Bodies.bodiesOf Session.ofArticles.settings.filters.bodyTemplates)
      = [.ofLink "a" 7, .ofLink "b" 8] := rfl
  have hseven : Template.textOf? (.ofLink "a" 7) = some "/articles/7" := by decide +kernel
  have height : Template.textOf? (.ofLink "b" 8) = some "/articles/8" := by decide +kernel
  rw [hbodies]
  rintro a ha b hb ⟨-, text, -, hb', ha', hne⟩
  rw [← hb'] at ha'
  simp only [List.mem_cons, List.not_mem_nil, or_false] at ha hb
  rcases ha with rfl | rfl <;> rcases hb with rfl | rfl
  · exact hne rfl
  · rw [hseven, height] at ha'
    exact absurd ha' (by decide)
  · rw [hseven, height] at ha'
    exact absurd ha' (by decide)
  · exact hne rfl

/-- A plain text that a template is written as becomes that template. -/
theorem plain_body_lost :
    let batch := [InstanceChange.newTranslation "t" (.ofLink "a" 7),
      .newTranslation "u" (.string "/articles/7")]
    let done := ((Filter.bodyTemplate .ofArticles).preDeploy batch {} ()).1
    let back := ((Filter.bodyTemplate .ofArticles).onDeploy done.state done.memory ()).1.state
    let shapes (changes : List InstanceChange) :=
      changes.map (fun c => (c.data.get? "body").map Value.shape)
    (∃ text, Template.textOf? (.ofLink "a" 7) = some text)
      ∧ shapes batch = [some "template", some "string"]
      ∧ shapes back = [some "template", some "template"]
      ∧ back ≠ batch := by
  intro batch done back shapes
  have hbefore : shapes batch = [some "template", some "string"] := rfl
  have hafter : shapes back = [some "template", some "template"] := by decide +kernel
  refine ⟨⟨"/articles/7", by decide +kernel⟩, hbefore, hafter, fun hsame => ?_⟩
  rw [hsame, hbefore] at hafter
  exact absurd hafter (by decide)

end AccountSync
