/-
  AccountSync.Proofs.Filter.Fetched
  ─────────────────────────────────
  **WHAT THE STANDARD FILTERS MAKE OF FETCHED ELEMENTS.**

  The standard filters coerce lists, resolve identifiers and locales, extract links, list
  children at their parents and add instances that hold orders.  Only the last one adds
  elements; the others replace instances one by one, and each of them spares the scalars in
  the fields that its rules are not about.

      Filter.Untouched         — fields that no filter before the lists of children is about
      Filter.readied           — elements as they are before the lists of children
      Filter.readied_aligned   — their scalars in untouched fields are those that were fetched
      Pipeline.fetch_standard  — what a fetch results in
-/
import AccountSync.Proofs.Lookup.Locales
import AccountSync.Proofs.Schema.Coercion

namespace AccountSync

open List (Forall₂)

variable {ω : Type} {kept : String → String → Prop} {elements : List Element}

/-! ## §1. What rules are about. -/

/-- A path with more than one key does not lead to a scalar in a field. -/
theorem Value.mapLeavesAt_sameScalar (f : Value → Value) (key : String) (path : List String)
    (v : Value) : SameScalar v (v.mapLeavesAt f (key :: path)) := by
  cases v with
  | map entries =>
    rw [mapLeavesAt_map]
    exact ⟨nofun, fun _ => rfl⟩
  | list items =>
    rw [mapLeavesAt_list]
    exact ⟨nofun, fun _ => rfl⟩
  | _ => exact ⟨fun _ => rfl, fun h => h⟩

theorem Identifiers.mapAt_preserved {i : Instance} {path : List String}
    (h : ∀ field, kept i.typeName field → path ≠ [field]) (f : Value → Value) :
    Instance.Preserved kept i (mapAt f path i) := by
  match path with
  | [] => exact .refl kept i
  | [field] => exact .modify fun hfield => absurd rfl (h field hfield)
  | field :: key :: rest => exact .modify fun _ => Value.mapLeavesAt_sameScalar f key rest

/-- Identifiers are resolved where paths lead. -/
theorem Identifiers.resolved_preserved (settings : Settings) (users : LookupTable)
    (h : ∀ rule ∈ settings.filters.idReferences, ∀ field, kept rule.typeName field →
      rule.path ≠ [field]) (elements : List Element) :
    Forall₂ (Element.Related (Instance.Preserved kept)) elements
      (resolved settings users elements) := by
  refine Element.preserved_passes (fun elements rule hrule => ⟨_, rfl, fun i => ?_⟩) elements
  split
  next htype => exact mapAt_preserved (fun field hfield => h rule hrule field (htype ▸ hfield)) _
  · exact .refl kept i

/-- Locales are resolved in the fields that rules name. -/
theorem Locales.resolved_preserved {rules : List LocaleRule}
    (h : ∀ rule ∈ rules, ∀ typeName field, kept typeName field → ¬Names rule typeName field)
    (elements : List Element) :
    Forall₂ (Element.Related (Instance.Preserved kept)) elements (resolved rules elements) := by
  refine Element.related_mono (fun i _ j hfetched => ?_) (resolved_fetched rules elements)
  obtain ⟨value, hsame, -⟩ := hfetched.refilled
  refine ⟨⟨value, hsame⟩, fun field hfield => ?_⟩
  have hget := (hfetched.fields field).resolve_right fun ⟨rule, hrule, hnames, _⟩ =>
    h rule hrule i.typeName field hfield hnames
  unfold Instance.scalar?
  rw [hget]

/-- Links are extracted from bodies. -/
theorem Bodies.extracted_preserved (find : Pattern → Finder) {rules : List BodyTemplateRule}
    (h : ∀ rule ∈ rules, ¬kept rule.typeName rule.field) (elements : List Element) :
    Forall₂ (Element.Related (Instance.Preserved kept)) elements
      (extracted find rules elements) := by
  refine Element.preserved_passes (fun elements rule hrule => ⟨_, rfl, fun i => ?_⟩) elements
  split
  next htype =>
    unfold extractInstance
    split
    · split
      · exact .refl kept i
      · exact .set (htype ▸ h rule hrule) _
    · exact .refl kept i
  · exact .refl kept i

/-- The second instance is the first one with lists in fields that rules name. -/
structure Children.Listed (rules : List ChildOrderRule) (i j : Instance) : Prop where
  same : ∃ value, j = { i with value }
  fields : ∀ field, (∀ rule ∈ rules, ¬(rule.parentType = i.typeName ∧ rule.orderField = field)) →
    j.get? field = i.get? field

theorem Children.withList_get? (rule : ChildOrderRule) (elements : List Element) (i : Instance)
    {field : String} (h : rule.orderField ≠ field) :
    (withList rule elements i).get? field = i.get? field := by
  unfold withList
  split
  · exact i.get?_set_of_ne h _
  · rfl

theorem Children.withList_same (rule : ChildOrderRule) (elements : List Element) (i : Instance) :
    ∃ value, withList rule elements i = { i with value } := by
  unfold withList
  split
  · exact ⟨_, rfl⟩
  · exact ⟨i.value, rfl⟩

/-- Parents get lists in the fields for them, and other fields stay. -/
theorem Children.withLists_listed (rules : List ChildOrderRule) (elements : List Element) :
    Forall₂ (Element.Related (Listed rules)) elements (withLists rules elements) := by
  refine Element.related_passes (R := Listed) (fun _ => True)
    (fun i => ⟨⟨i.value, rfl⟩, fun _ _ => rfl⟩)
    (fun current _ rule => ⟨_, rfl, trivial, fun i _ rest k h => ?_⟩) trivial rules
  by_cases htype : i.typeName = rule.parentType
  · rw [if_pos htype] at h
    obtain ⟨hsame, hfields⟩ := h
    obtain ⟨value, hvalue⟩ := withList_same rule current i
    rw [hvalue] at hsame
    have htypeName : (withList rule current i).typeName = i.typeName := hvalue ▸ rfl
    refine ⟨hsame, fun field hfield => ?_⟩
    obtain ⟨hrule, hrest⟩ := List.forall_mem_cons.mp hfield
    rw [hfields field (htypeName ▸ hrest)]
    exact withList_get? rule current i fun heq => hrule ⟨htype.symm, heq⟩
  · rw [if_neg htype] at h
    exact ⟨h.same, fun field hfield => h.fields field (List.forall_mem_cons.mp hfield).2⟩

theorem Children.withLists_preserved {rules : List ChildOrderRule}
    (h : ∀ rule ∈ rules, ¬kept rule.parentType rule.orderField) (elements : List Element) :
    Forall₂ (Element.Related (Instance.Preserved kept)) elements (withLists rules elements) := by
  refine Element.related_mono (fun i _ j hlisted => ⟨hlisted.same, fun field hfield => ?_⟩)
    (withLists_listed rules elements)
  unfold Instance.scalar?
  rw [hlisted.fields field]
  rintro rule hrule ⟨htype, rfl⟩
  exact h rule hrule (htype ▸ hfield)

/-! ## §2. The filters before the lists of children. -/

namespace Filter

/-- No filter that comes before the lists of children is about a scalar in the field. -/
structure Untouched (s : Session ω) (elements : List Element) (typeName field : String) : Prop where
  lists : ∀ o, .object o ∈ elements → o.id.typeName = typeName →
    ∀ item, o.typeOf? field ≠ some (.list item)
  identifiers : ∀ rule ∈ s.settings.filters.idReferences, rule.typeName = typeName →
    rule.path ≠ [field]
  locales : ∀ rule ∈ s.settings.filters.locales, ¬Locales.Names rule typeName field
  bodies : ∀ rule ∈ s.settings.filters.bodyTemplates, rule.typeName = typeName →
    rule.field ≠ field

/-- Among fewer elements there are no more declarations. -/
theorem Untouched.mono {s : Session ω} {fewer : List Element} {typeName field : String}
    (h : Untouched s elements typeName field) (hfewer : ∀ e ∈ fewer, e ∈ elements) :
    Untouched s fewer typeName field :=
  { h with lists := fun o ho => h.lists o (hfewer _ ho) }

/-- Where the guide is enabled, texts are brought into shape. -/
def withTexts (s : Session ω) (elements : List Element) : List Element :=
  if s.settings.fetch.guideEnabled then
    Bodies.extracted Pattern.spans s.settings.filters.bodyTemplates
      (Locales.resolved s.settings.filters.locales elements)
  else elements

/-- The elements, given the users that identifiers may stand for, before parents list their
children. -/
def readied (s : Session ω) (users : LookupTable) (coerced : List Element) : List Element :=
  withTexts s (Identifiers.resolved s.settings users coerced)

/-- The lists of the elements are in canonical form, or they could not be brought into it. -/
def Coerced (s : Session ω) (elements coerced : List Element) : Prop :=
  coerced = elements ∨ Coercion.canonical s.settings.filters.unorderedLists elements = .ok coerced

/-- If only untouched fields are kept, then they keep their scalars. -/
theorem readied_aligned {s : Session ω} {coerced : List Element}
    (h : ∀ typeName field, kept typeName field → Untouched s elements typeName field)
    (hcoerced : Coerced s elements coerced) (users : LookupTable) :
    Forall₂ (Element.Aligned (Instance.Preserved kept)) elements (readied s users coerced) := by
  have hlists : Forall₂ (Element.Aligned (Instance.Preserved kept)) elements coerced := by
    rcases hcoerced with rfl | hcoerced
    · exact Element.aligned_refl kept coerced
    · exact Coercion.canonical_aligned
        (fun o ho field hfield => (h _ _ hfield).lists o ho rfl) hcoerced
  have hidentifiers := Identifiers.resolved_preserved s.settings users
    (fun rule hrule field hfield => (h _ _ hfield).identifiers rule hrule rfl) coerced
  refine Element.aligned_trans hlists
    (Element.aligned_trans (Element.aligned_of_related hidentifiers) ?_)
  unfold readied withTexts
  split
  · have hlocales := Locales.resolved_preserved
      (fun rule hrule typeName field hfield => (h typeName field hfield).locales rule hrule)
      (Identifiers.resolved s.settings users coerced)
    refine Element.aligned_trans (Element.aligned_of_related hlocales) (Element.aligned_of_related
      (Bodies.extracted_preserved Pattern.spans (fun rule hrule hfield => ?_) _))
    exact (h _ _ hfield).bodies rule hrule rfl rfl
  · exact Element.aligned_refl kept _

/-- Where the guide is enabled, parents list their children. -/
def withLists (s : Session ω) (elements : List Element) : List Element :=
  if s.settings.fetch.guideEnabled then Children.withLists s.settings.filters.childOrder elements
  else elements

theorem withLists_aligned {s : Session ω}
    (h : ∀ rule ∈ s.settings.filters.childOrder, ¬kept rule.parentType rule.orderField)
    (elements : List Element) :
    Forall₂ (Element.Aligned (Instance.Preserved kept)) elements (withLists s elements) := by
  unfold withLists
  split
  · exact Element.aligned_of_related (Children.withLists_preserved h elements)
  · exact Element.aligned_refl kept elements

end Filter

/-! ## §3. All standard filters. -/

namespace Filter

/-- The first filter coerces lists, or it fails and leaves everything as it was. -/
theorem listCoercion_coerced (s : Session ω) (elements : List Element) (memory : Memory) (w : ω) :
    Coerced s elements
      (Pipeline.keptState elements ((listCoercion s).onFetch elements memory w).1) := by
  unfold listCoercion
  dsimp only
  cases hcoerced : Coercion.canonical s.settings.filters.unorderedLists elements with
  | error e => exact .inl rfl
  | ok coerced => exact .inr hcoerced

/-- The second filter resolves identifiers; the users depend on what the account lists. -/
theorem resolveIdentifiers_resolved (s : Session ω) (elements : List Element) (memory : Memory)
    (w : ω) :
    ∃ users, Pipeline.keptState elements (resolveIdentifiers s elements memory w).1
      = Identifiers.resolved s.settings users elements := by
  unfold resolveIdentifiers
  split
  next hnone =>
    refine ⟨{ name := "" }, ?_⟩
    unfold Identifiers.resolved
    rw [List.isEmpty_iff.mp hnone]
    rfl
  · exact ⟨(Identifiers.usersOf s.settings s.client w).1, rfl⟩

/-- The filters about texts count only where the guide is enabled. -/
theorem withTexts_eq (s : Session ω) (elements : List Element) :
    withTexts s elements
      = (if s.settings.fetch.guideEnabled then
          Bodies.extracted Pattern.spans s.settings.filters.bodyTemplates
          (if s.settings.fetch.guideEnabled then
            Locales.resolved s.settings.filters.locales elements else elements)
        else if s.settings.fetch.guideEnabled then
          Locales.resolved s.settings.filters.locales elements else elements) := by
  unfold withTexts
  split <;> rfl

end Filter

open AccountSync.Filter in
/-- A fetch readies the elements, lists children at their parents and adds instances that hold
orders. -/
theorem Pipeline.fetch_standard (s : Session ω) (elements : List Element) (w : ω) :
    ∃ coerced users, Coerced s elements coerced
      ∧ ((ofFilters s (Filter.standard s)).fetch elements w).1.1.elements
        = withLists s (readied s users coerced)
          ++ OrderInstances.added s.settings.adapter s.settings.filters.orderInstances
            (withLists s (readied s users coerced)) := by
  let first := (listCoercion s).onFetch elements {} w
  obtain ⟨users, hresolved⟩ :=
    resolveIdentifiers_resolved s (keptState elements first.1) {} first.2
  refine ⟨keptState elements first.1, users, listCoercion_coerced s elements {} w, ?_⟩
  unfold readied
  rw [withTexts_eq, ← hresolved]
  rfl

end AccountSync
