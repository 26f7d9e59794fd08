/-
  AccountSync.Proofs.Element.Passes
  ─────────────────────────────────
  **PASSES OVER ALL ELEMENTS.**

  Fetched elements are brought into shape rule after rule.  Each rule looks at all elements
  and replaces instances, one by one; the next rule looks at what it leaves.

      Element.Related          — related instances, and the same object types
      Element.related_passes   — what holds of all rules, from what holds of each
      Instance.Preserved       — an instance with other values, but the same scalars somewhere
      Element.Aligned          — related instances, and object types of the same name
      Element.preserved_passes — passes that leave scalars as they are
-/
import AccountSync.Proofs.Filter.Prepared
import AccountSync.Proofs.Value.Leaves

namespace AccountSync

open List (Forall₂)

/-! ## §1. Instances among elements. -/

theorem map_eq_of_forall₂ {α β γ : Type} {f : α → γ} {g : β → γ} {as : List α} {bs : List β}
    (h : Forall₂ (fun a b => f a = g b) as bs) : as.map f = bs.map g := by
  rw [← List.forall₂_eq_eq_eq, List.forall₂_map_left_iff, List.forall₂_map_right_iff]
  exact h

theorem Element.mem_of_instancesOf {elements : List Element} {typeName : String} {i : Instance}
    (h : i ∈ instancesOf elements typeName) : i ∈ instances elements :=
  List.mem_of_mem_filter h

theorem Element.instances_mapInstances (f : Instance → Instance) (elements : List Element) :
    instances (mapInstances f elements) = (instances elements).map f := by
  induction elements with
  | nil => rfl
  | cons e rest ih =>
    cases e with
    | object o => exact ih
    | inst i => exact congrArg (f i :: ·) ih

theorem Element.mapInstances_self (elements : List Element) :
    mapInstances (fun i => i) elements = elements := by
  refine List.map_id'' (fun e => ?_) elements
  cases e <;> rfl

theorem Element.mapInstances_mapInstances (f g : Instance → Instance) (elements : List Element) :
    mapInstances g (mapInstances f elements) = mapInstances (fun i => g (f i)) elements := by
  unfold mapInstances
  rw [List.map_map]
  refine List.map_congr_left fun e _ => ?_
  cases e <;> rfl

theorem Element.mapInstances_congr {f g : Instance → Instance} {elements : List Element}
    (h : ∀ i ∈ instances elements, f i = g i) :
    mapInstances f elements = mapInstances g elements := by
  refine List.map_congr_left fun e he => ?_
  cases e with
  | object o => rfl
  | inst i => exact congrArg Element.inst (h i (List.mem_filterMap.mpr ⟨.inst i, he, rfl⟩))

/-- Whatever replaces instances without renaming them leaves them top-level. -/
theorem Element.topLevel_mapInstances {elements : List Element}
    (htop : ∀ i ∈ instances elements, i.id.isTopLevel = true) {f : Instance → Instance}
    (hid : ∀ i, (f i).id = i.id) :
    ∀ i ∈ instances (mapInstances f elements), i.id.isTopLevel = true := by
  rw [instances_mapInstances]
  refine List.forall_mem_map.mpr fun i hi => ?_
  rw [hid i]
  exact htop i hi

/-! ## §2. Elements before and after. -/

/-- Instances are related, and object types are as they were. -/
inductive Element.Related (R : Instance → Instance → Prop) : Element → Element → Prop
  | object (o : ObjectType) : Related R (.object o) (.object o)
  | inst {i j : Instance} (h : R i j) : Related R (.inst i) (.inst j)

namespace Element

variable {R S : Instance → Instance → Prop} {elements fetched : List Element}

theorem related_refl (h : ∀ i, R i i) (elements : List Element) :
    Forall₂ (Related R) elements elements := by
  refine List.forall₂_same.mpr fun e _ => ?_
  cases e with
  | object o => exact .object o
  | inst i => exact .inst (h i)

theorem related_mono (h : ∀ i ∈ instances elements, ∀ j, R i j → S i j)
    (hrelated : Forall₂ (Related R) elements fetched) :
    Forall₂ (Related S) elements fetched := by
  induction hrelated with
  | nil => exact .nil
  | cons hfirst _ ih =>
    cases hfirst with
    | object o => exact .cons (.object o) (ih h)
    | inst hi =>
      obtain ⟨hmono, h⟩ := List.forall_mem_cons.mp h
      exact .cons (.inst (hmono _ hi)) (ih h)

/-- What is before a pass, related to what the other passes leave of what is after it. -/
theorem related_of_mapInstances {f : Instance → Instance}
    (h : ∀ i ∈ instances elements, ∀ k, S (f i) k → R i k)
    (hrest : Forall₂ (Related S) (mapInstances f elements) fetched) :
    Forall₂ (Related R) elements fetched := by
  induction elements generalizing fetched with
  | nil =>
    cases hrest
    exact .nil
  | cons e rest ih =>
    cases e with
    | object o =>
      cases hrest with
      | cons hfirst hrest =>
        cases hfirst
        exact .cons (.object o) (ih h hrest)
    | inst i =>
      obtain ⟨hi, h⟩ := List.forall_mem_cons.mp h
      cases hrest with
      | cons hfirst hrest =>
        cases hfirst with
        | inst hk => exact .cons (.inst (hi _ hk)) (ih h hrest)

end Element

/-! ## §3. Rule after rule. -/

/-- If no rule relates an instance to itself, and one more rule to what the others make of what it
leaves, then all rules relate it to what is left in the end.  `Fit` is whatever a rule needs of
the elements. -/
theorem Element.related_passes {ρ : Type} {pass : List Element → ρ → List Element}
    {R : List ρ → Instance → Instance → Prop} (Fit : List Element → Prop)
    (hnil : ∀ i, R [] i i)
    (hcons : ∀ elements, Fit elements → ∀ rule, ∃ f, pass elements rule = mapInstances f elements
      ∧ Fit (mapInstances f elements)
      ∧ ∀ i ∈ instances elements, ∀ rest k, R rest (f i) k → R (rule :: rest) i k)
    {elements : List Element} (hfit : Fit elements) (rules : List ρ) :
    Forall₂ (Related (R rules)) elements (rules.foldl pass elements) := by
  induction rules generalizing elements with
  | nil => exact related_refl hnil elements
  | cons rule rest ih =>
    obtain ⟨f, hpass, hfit', hstep⟩ := hcons elements hfit rule
    rw [List.foldl_cons, hpass]
    exact related_of_mapInstances (fun i hi k => hstep i hi rest k) (ih hfit')

/-! ## §4. Scalars that stay. -/

/-- The second value is the first one if that is a scalar, and otherwise it is no scalar either. -/
structure Value.SameScalar (v v' : Value) : Prop where
  scalar : v.isScalar = true → v' = v
  other : v.isScalar = false → v'.isScalar = false

theorem Value.SameScalar.filter {v v' : Value} (h : SameScalar v v') :
    (some v').filter isScalar = (some v).filter isScalar := by
  cases hv : v.isScalar with
  | true => rw [h.scalar hv]
  | false => simp [Option.filter, hv, h.other hv]

/-- The scalar in a field. -/
def Instance.scalar? (i : Instance) (field : String) : Option Value :=
  (i.get? field).filter Value.isScalar

/-- The second instance is the first one with other values, but with the same scalars in the fields
that are kept of its type. -/
structure Instance.Preserved (kept : String → String → Prop) (i j : Instance) : Prop where
  same : ∃ value, j = { i with value }
  scalars : ∀ field, kept i.typeName field → j.scalar? field = i.scalar? field

namespace Instance.Preserved

variable {kept : String → String → Prop} {i j k : Instance}

theorem refl (kept : String → String → Prop) (i : Instance) : Preserved kept i i :=
  ⟨⟨i.value, rfl⟩, fun _ _ => rfl⟩

theorem id (h : Preserved kept i j) : j.id = i.id := by
  obtain ⟨value, rfl⟩ := h.same
  rfl

theorem typeName (h : Preserved kept i j) : j.typeName = i.typeName := by
  obtain ⟨value, rfl⟩ := h.same
  rfl

theorem trans (h : Preserved kept i j) (h' : Preserved kept j k) : Preserved kept i k where
  same := by
    obtain ⟨value, rfl⟩ := h.same
    exact h'.same
  scalars := fun field hkept =>
    (h'.scalars field (h.typeName.symm ▸ hkept)).trans (h.scalars field hkept)

/-- Any field may be set that is not kept. -/
theorem set {field : String} (h : ¬kept i.typeName field) (v : Value) :
    Preserved kept i (i.set field v) where
  same := ⟨_, rfl⟩
  scalars := by
    intro other hother
    have hne : field ≠ other := by
      rintro rfl
      exact h hother
    unfold scalar?
    rw [i.get?_set_of_ne hne]

/-- A field that is kept may be modified if its scalar is not. -/
theorem modify {field : String} {f : Value → Value}
    (h : kept i.typeName field → ∀ v, Value.SameScalar v (f v)) :
    Preserved kept i { i with value := Dict.modify i.value field f } where
  same := ⟨_, rfl⟩
  scalars := by
    intro other hother
    unfold scalar? Instance.get?
    by_cases heq : field = other
    · subst heq
      rw [Dict.get?_modify_self]
      cases Dict.get? i.value field with
      | none => rfl
      | some v => exact (h hother v).filter
    · rw [Dict.get?_modify_of_ne i.value heq]

end Instance.Preserved

namespace Element

/-- Instances are related, and object types have at least the same identifier. -/
inductive Aligned (R : Instance → Instance → Prop) : Element → Element → Prop
  | object {o o' : ObjectType} (h : o'.id = o.id) : Aligned R (.object o) (.object o')
  | inst {i j : Instance} (h : R i j) : Aligned R (.inst i) (.inst j)

variable {kept : String → String → Prop} {elements fetched : List Element}

theorem aligned_of_related {R : Instance → Instance → Prop}
    (h : Forall₂ (Related R) elements fetched) : Forall₂ (Aligned R) elements fetched := by
  refine h.imp fun e e' he => ?_
  cases he with
  | object o => exact .object rfl
  | inst hi => exact .inst hi

theorem aligned_refl (kept : String → String → Prop) (elements : List Element) :
    Forall₂ (Aligned (Instance.Preserved kept)) elements elements :=
  aligned_of_related (related_refl (.refl kept) elements)

theorem aligned_comp {R S T : Instance → Instance → Prop} {later : List Element}
    (h : Forall₂ (Aligned R) elements fetched) (h' : Forall₂ (Aligned S) fetched later)
    (hcomp : ∀ i j k, R i j → S j k → T i k) : Forall₂ (Aligned T) elements later := by
  induction h generalizing later with
  | nil =>
    cases h'
    exact .nil
  | cons hfirst _ ih =>
    cases h' with
    | cons hfirst' hrest' =>
      refine .cons ?_ (ih hrest')
      cases hfirst with
      | object hid =>
        cases hfirst' with
        | object hid' => exact .object (hid'.trans hid)
      | inst hi =>
        cases hfirst' with
        | inst hi' => exact .inst (hcomp _ _ _ hi hi')

theorem aligned_trans {later : List Element}
    (h : Forall₂ (Aligned (Instance.Preserved kept)) elements fetched)
    (h' : Forall₂ (Aligned (Instance.Preserved kept)) fetched later) :
    Forall₂ (Aligned (Instance.Preserved kept)) elements later :=
  aligned_comp h h' fun _ _ _ => .trans

/-- No element is renamed. -/
theorem aligned_ids (h : Forall₂ (Aligned (Instance.Preserved kept)) elements fetched) :
    fetched.map id = elements.map id := by
  refine (map_eq_of_forall₂ (h.imp fun e e' he => ?_)).symm
  cases he with
  | object hid => exact hid.symm
  | inst hi => exact hi.id.symm

/-- The instances of a type are the same ones. -/
theorem aligned_instancesOf (h : Forall₂ (Aligned (Instance.Preserved kept)) elements fetched)
    (typeName : String) :
    Forall₂ (fun i j => i.typeName = typeName ∧ Instance.Preserved kept i j)
      (instancesOf elements typeName) (instancesOf fetched typeName) := by
  unfold instancesOf
  induction h with
  | nil => exact .nil
  | cons hfirst _ ih =>
    cases hfirst with
    | object hid => exact ih
    | @inst i j hi =>
      show Forall₂ _ (List.filter _ (i :: instances _)) (List.filter _ (j :: instances _))
      rw [List.filter_cons, List.filter_cons, hi.typeName]
      split
      next htype => exact .cons ⟨of_decide_eq_true htype, hi⟩ ih
      · exact ih

/-- If each rule leaves the scalars as they are, then so do all of them. -/
theorem preserved_passes {ρ : Type} {pass : List Element → ρ → List Element} {rules : List ρ}
    (h : ∀ elements, ∀ rule ∈ rules, ∃ f, pass elements rule = mapInstances f elements
      ∧ ∀ i, Instance.Preserved kept i (f i))
    (elements : List Element) :
    Forall₂ (Related (Instance.Preserved kept)) elements (rules.foldl pass elements) := by
  induction rules generalizing elements with
  | nil => exact related_refl (.refl kept) elements
  | cons rule rest ih =>
    obtain ⟨f, hpass, hf⟩ := h elements rule List.mem_cons_self
    rw [List.foldl_cons, hpass]
    refine related_of_mapInstances (fun i _ k hk => (hf i).trans hk) (ih ?_ _)
    exact fun elements rule hrule => h elements rule (List.mem_cons_of_mem _ hrule)

end Element

end AccountSync
