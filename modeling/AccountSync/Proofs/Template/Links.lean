/-
  AccountSync.Proofs.Template.Links
  ─────────────────────────────────
  **FETCHED BODIES READ AS THEY WERE.**

  Links in a fetched body become references.  Whatever the patterns find, as long as it is
  found in order, and whatever the links lead to, what a piece of a body is turned into reads as
  that piece; so the body still reads as it was fetched, also when several rules are about it.

      Bodies.parts_text        — what a piece is turned into reads as the piece
      Bodies.Fetched           — an instance with templates for its bodies
      Bodies.extracted_fetched — all rules, one after the other
      fetched_bodies_read_back — the filter of bodies when elements are fetched
-/
import AccountSync.Filter.Standard
import AccountSync.Proofs.Element.Passes
import AccountSync.Proofs.Template.Rendered

namespace AccountSync

open List (Forall₂)

variable {ω : Type} {find : Pattern → Finder}

/-! ## §1. Links and what they lead to. -/

/-- A text that starts with a stem is the stem and what comes after it. -/
theorem Text.append_of_afterStem? {stem cs rest : List Char} (h : afterStem? stem cs = some rest) :
    cs = stem ++ rest := by
  fun_induction afterStem? stem cs with
  | case1 cs => exact Option.some.inj h
  | case2 => exact absurd h nofun
  | case3 stem c cs ih => exact congrArg (c :: ·) (ih h)
  | case4 => exact absurd h nofun

/-- What lies inside a top-level element is not one. -/
theorem ElementId.isTopLevel_nest {id : ElementId} (h : id.isTopLevel = true) (part : String) :
    (id.nest [part]).isTopLevel = false := by
  obtain ⟨adapter, typeName, place⟩ := id
  cases place with
  | type => rfl
  | within kind path =>
    cases kind with
    | inst =>
      cases path with
      | nil => exact absurd h nofun
      | cons first rest => cases rest <;> rfl
    | field => rfl
    | attr => rfl

namespace Bodies

section

variable {elements : List Element} {piece : String}

/-- The owner of the account's address is among the elements. -/
theorem addressOwner?_eq_some {rule : BodyTemplateRule} {owner : Instance}
    (h : addressOwner? rule elements piece = some owner) : owner ∈ Element.instances elements := by
  obtain ⟨typeName, -, hfind⟩ := Option.bind_eq_some_iff.mp h
  exact Element.mem_of_instancesOf (List.mem_of_find?_eq_some hfind)

/-- A link is its stem and the identifier of its target. -/
theorem linkTarget?_eq_some {link : LinkRule} {target : Instance}
    (h : linkTarget? elements piece link = some target) :
    target ∈ Element.instances elements
      ∧ ∃ id, piece = link.stem ++ id ∧ (target.get? "id").bind Value.keyText? = some id := by
  obtain ⟨id, hid, hfind⟩ := Option.bind_eq_some_iff.mp h
  refine ⟨Element.mem_of_instancesOf (List.mem_of_find?_eq_some hfind), id, ?_, ?_⟩
  · obtain ⟨digits, hdigits, hsome⟩ := Option.bind_eq_some_iff.mp hid
    split at hsome
    · obtain rfl := Option.some.inj hsome
      refine String.toList_injective ?_
      rw [String.toList_append, String.toList_ofList]
      exact Text.append_of_afterStem? hdigits
    · exact absurd hsome nofun
  · have hfound := List.find?_some hfind
    exact of_decide_eq_true hfound

/-- A reference to a top-level instance reads as its identifier. -/
theorem rendered_reference {target : Instance} (htop : target.id.isTopLevel = true) {id : String}
    (hid : (target.get? "id").bind Value.keyText? = some id) :
    target.reference.rendered = .ok id := by
  have hid' : ((Value.map target.value).get? "id").bind Value.keyText? = some id := hid
  unfold Instance.reference
  rw [Reference.rendered_topLevel htop, hid']

/-- What a piece of a body is turned into reads as the piece. -/
theorem parts_text (htop : ∀ i ∈ Element.instances elements, i.id.isTopLevel = true)
    (rule : BodyTemplateRule) (piece : String) :
    Template.rendered (parts rule elements piece) = .ok piece := by
  unfold parts
  split
  next owner howner =>
    -- the address is inside its owner, so the reference reads as the text there
    have hinside := ElementId.isTopLevel_nest (htop owner (addressOwner?_eq_some howner))
      rule.baseUrlField
    exact Template.rendered_singleton (Reference.rendered_inside hinside piece)
  · split
    next found hfound =>
      -- a link is its stem, and the reference reads as the identifier after it
      obtain ⟨link, -, hlink⟩ := List.exists_of_findSome?_eq_some hfound
      obtain ⟨target, htarget, rfl⟩ := Option.map_eq_some_iff.mp hlink
      obtain ⟨hmem, id, rfl, hid⟩ := linkTarget?_eq_some htarget
      have hread := Template.rendered_singleton (rendered_reference (htop target hmem) hid)
      exact Template.rendered_literal_cons link.stem hread
    · exact (Template.rendered_literal_cons piece rfl).trans
        (congrArg Except.ok String.append_empty)

end

/-! ## §2. Bodies that become templates. -/

/-- The instance has a body of text in a field, and some rule is about it. -/
def HasBody (rules : List BodyTemplateRule) (i : Instance) (field text : String) : Prop :=
  (∃ rule ∈ rules, rule.typeName = i.typeName ∧ rule.field = field)
    ∧ i.get? field = some (.string text)

/-- The second instance is the first one with other values for its bodies, and these read as the
bodies did.  Nothing else differs. -/
structure Fetched (rules : List BodyTemplateRule) (i j : Instance) : Prop where
  refilled : i.Refilled j
  bodies : ∀ field text, HasBody rules i field text →
    ∃ v, j.get? field = some v ∧ Template.textOf? v = some text
  others : ∀ field, (¬∃ text, HasBody rules i field text) → j.get? field = i.get? field
  unconcerned : (¬∃ field text, HasBody rules i field text) → j = i

namespace Fetched

theorem refl (rules : List BodyTemplateRule) (i : Instance) : Fetched rules i i where
  refilled := .refl i
  bodies := fun _ text hbody => ⟨.string text, hbody.2, rfl⟩
  others := fun _ _ => rfl
  unconcerned := fun _ => rfl

/-- What had a text reads as that text. -/
theorem reads {rules : List BodyTemplateRule} {i j : Instance} (h : Fetched rules i j)
    {field : String} {v : Value} (hv : i.get? field = some v) {text : String}
    (htext : Template.textOf? v = some text) :
    ∃ v', j.get? field = some v' ∧ Template.textOf? v' = some text := by
  by_cases hbody : ∃ text', HasBody rules i field text'
  · obtain ⟨text', hbody⟩ := hbody
    obtain rfl := Option.some.inj (hv.symm.trans hbody.2)
    obtain rfl := Option.some.inj htext
    exact h.bodies field _ hbody
  · exact ⟨v, (h.others field hbody).trans hv, htext⟩

/-- After one rule the others apply. -/
theorem cons {rule : BodyTemplateRule} {rules : List BodyTemplateRule} {i j k : Instance}
    (h : Fetched [rule] i j) (h' : Fetched rules j k) : Fetched (rule :: rules) i k := by
  have hfirst {field text : String} (hbody : HasBody [rule] i field text) :
      HasBody (rule :: rules) i field text := by
    obtain ⟨⟨r, hr, habout⟩, htext⟩ := hbody
    exact ⟨⟨r, List.mem_cons.mpr (.inl (List.mem_singleton.mp hr)), habout⟩, htext⟩
  have hrest {field text : String} (hsame : j.get? field = i.get? field)
      (hbody : HasBody rules j field text) : HasBody (rule :: rules) i field text := by
    obtain ⟨⟨r, hr, habout, hfield⟩, htext⟩ := hbody
    have habout' : r.typeName = i.typeName := habout.trans h.refilled.typeName
    exact ⟨⟨r, List.mem_cons_of_mem rule hr, habout', hfield⟩, hsame.symm.trans htext⟩
  refine ⟨h.refilled.trans h'.refilled, ?_, ?_, ?_⟩
  · -- what the first rule makes of a body may be a text still, and then other rules apply
    intro field text hbody
    obtain ⟨v, hv, htext⟩ := h.reads hbody.2 rfl
    exact h'.reads hv htext
  · intro field hnone
    have hsame : j.get? field = i.get? field :=
      h.others field fun ⟨text, hbody⟩ => hnone ⟨text, hfirst hbody⟩
    exact (h'.others field fun ⟨text, hbody⟩ => hnone ⟨text, hrest hsame hbody⟩).trans hsame
  · intro hnone
    have hsame : j = i := h.unconcerned fun ⟨field, text, hbody⟩ =>
      hnone ⟨field, text, hfirst hbody⟩
    refine (h'.unconcerned fun ⟨field, text, hbody⟩ => ?_).trans hsame
    exact hnone ⟨field, text, hrest (hsame ▸ rfl) hbody⟩

end Fetched

/-- One rule turns bodies into templates that read the same. -/
theorem extractInstance_fetched (hfind : ∀ p, (find p).InOrder) {elements : List Element}
    (htop : ∀ i ∈ Element.instances elements, i.id.isTopLevel = true) (rule : BodyTemplateRule)
    (i : Instance) :
    Fetched [rule] i
      (if i.typeName = rule.typeName then extractInstance find rule elements i else i) := by
  split
  next htype =>
    unfold extractInstance
    split
    next text htext =>
      split
      · exact .refl _ i
      · let finders := (patterns rule).map find
        have hfinders : ∀ find ∈ finders, find.InOrder := List.forall_mem_map.mpr fun p _ => hfind p
        have hreads : Template.textOf? (Template.extractFrom finders (parts rule elements) text)
            = some text :=
          Template.extractFrom_text hfinders fun piece _ => parts_text htop rule piece
        have hbody : HasBody [rule] i rule.field text :=
          ⟨⟨rule, List.mem_singleton_self rule, htype.symm, rfl⟩, htext⟩
        refine ⟨.set i rule.field _, ?_, ?_, ?_⟩
        · rintro field text' ⟨⟨r, hr, -, rfl⟩, htext'⟩
          obtain rfl := List.mem_singleton.mp hr
          obtain ⟨⟩ := htext.symm.trans htext'
          exact ⟨_, i.get?_set_self _ _, hreads⟩
        · intro field hnone
          refine i.get?_set_of_ne ?_ _
          rintro rfl
          exact hnone ⟨text, hbody⟩
        · exact fun hnone => absurd ⟨rule.field, text, hbody⟩ hnone
    · exact .refl _ i
  · exact .refl _ i

end Bodies

/-! ## §3. All elements. -/

/-- Instances have templates for their bodies, and object types are as they were. -/
inductive Element.Fetched (rules : List BodyTemplateRule) : Element → Element → Prop
  | object (o : ObjectType) : Fetched rules (.object o) (.object o)
  | inst {i j : Instance} (h : Bodies.Fetched rules i j) : Fetched rules (.inst i) (.inst j)

theorem Element.Fetched.refl (rules : List BodyTemplateRule) (e : Element) : Fetched rules e e := by
  cases e with
  | object o => exact .object o
  | inst i => exact .inst (.refl rules i)

/-- Bodies become templates that read the same, rule after rule. -/
theorem Bodies.extracted_fetched (hfind : ∀ p, (find p).InOrder) {elements : List Element}
    (htop : ∀ i ∈ Element.instances elements, i.id.isTopLevel = true)
    (rules : List BodyTemplateRule) :
    Forall₂ (Element.Fetched rules) elements (extracted find rules elements) := by
  induction rules generalizing elements with
  | nil => exact List.forall₂_same.mpr fun e _ => .refl [] e
  | cons rule rest ih =>
    -- the rule looks at all elements, and the others look at what it leaves
    let step (i : Instance) : Instance :=
      if i.typeName = rule.typeName then extractInstance find rule elements i else i
    have hstep (i : Instance) : Fetched [rule] i (step i) :=
      extractInstance_fetched hfind htop rule i
    have hinstances : Element.instances (extractedBy find elements rule)
        = (Element.instances elements).map step := Element.instances_mapInstances step elements
    have htop' : ∀ i ∈ Element.instances (extractedBy find elements rule),
        i.id.isTopLevel = true := by
      rw [hinstances]
      refine List.forall_mem_map.mpr fun i hi => ?_
      rw [(hstep i).refilled.id]
      exact htop i hi
    refine (List.forall₂_map_left_iff.mp (ih htop')).imp fun e e' h => ?_
    cases e with
    | object o =>
      cases h
      exact .object o
    | inst i =>
      cases h with
      | inst h => exact .inst ((hstep i).cons h)

/-- When elements are fetched, a body of text becomes a template only if that reads as the text,
whatever rules there are and whatever is linked; and nothing but bodies changes.  Of where patterns
are found only the order counts. -/
theorem fetched_bodies_read_back (hfind : ∀ p, (find p).InOrder) (s : Session ω)
    {elements : List Element} (htop : ∀ i ∈ Element.instances elements, i.id.isTopLevel = true)
    (memory : Memory) (w : ω) :
    let done := ((Filter.bodyTemplateBy find s).onFetch elements memory w).1
    done.result = .ok ()
      ∧ Forall₂ (Element.Fetched s.settings.filters.bodyTemplates) elements done.state := by
  intro done
  refine ⟨rfl, ?_⟩
  show Forall₂ _ elements (if s.settings.fetch.guideEnabled then _ else elements)
  split
  · exact Bodies.extracted_fetched hfind htop _
  · exact List.forall₂_same.mpr fun e _ => .refl _ e

/-- An account whose translations link to its address and to articles. -/
def Session.ofArticles : Session Unit where
  settings := {
    adapter := "z"
    client := { baseUrl := "https://a.b" }
    filters := {
      bodyTemplates := [{
        typeName := "translation"
        field := "body"
        baseUrlType := some "brand"
        links := [⟨"/articles/", "article"⟩] }] } }
  client := ⟨fun _ => pure (.error { status := none, message := "" })⟩
  next := .eager

/-- An address, an article, and a translation that links to both. -/
def Element.ofArticles : List Element :=
  let ofType (typeName name field : String) (v : Value) : Element :=
    .inst (.named name (.ofType "z" typeName) [(field, v)])
  [ofType "brand" "b" "brand_url" (.string "https://a.b"),
    ofType "article" "a" "id" (.number (.int 7)),
    ofType "translation" "t" "body" (.string "see https://a.b/en/articles/7, /articles/8")]

/-- The translation is a template then, and it reads as before. -/
theorem fetched_bodies_read_back_for_articles :
    let elements := Element.ofArticles
    let done := ((Filter.bodyTemplate .ofArticles).onFetch elements {} ()).1
    (∀ p, (Pattern.spans p).InOrder)
      ∧ (∀ i ∈ Element.instances elements, i.id.isTopLevel = true)
      ∧ Forall₂ (Element.Fetched Session.ofArticles.settings.filters.bodyTemplates)
        elements done.state
      ∧ (Element.instances done.state).map (fun i => (i.get? "body").map Value.shape)
        = [none, none, some "template"]
      ∧ (Element.instances done.state).map (fun i => (i.get? "body").bind Template.textOf?)
        = [none, none, some "see https://a.b/en/articles/7, /articles/8"] := by
  intro elements done
  have htop : ∀ i ∈ Element.instances elements, i.id.isTopLevel = true := by decide +kernel
  exact ⟨Pattern.spans_inOrder, htop,
    (fetched_bodies_read_back Pattern.spans_inOrder .ofArticles htop {} ()).2,
    by decide +kernel, by decide +kernel⟩

end AccountSync
