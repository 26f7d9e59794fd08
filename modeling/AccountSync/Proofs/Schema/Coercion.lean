/-
  AccountSync.Proofs.Schema.Coercion
  ──────────────────────────────────
  **WHAT CANONICAL LISTS LEAVE AS IT IS.**

  A lenient walk puts bare items into lists where lists are declared, and drops nothing.  So a
  scalar in a field stays unless the field is declared as a list, and what is no scalar does
  not become one.

      Wraps.sameScalar    — a scalar stays where no list is declared
      canonical_aligned   — all elements with their lists in canonical form
-/
import AccountSync.Proofs.Element.Passes
import AccountSync.Proofs.ElementId.FullName
import AccountSync.Proofs.Schema.Leniency
import AccountSync.Schema.Coercion

namespace AccountSync

open List (Forall₂)

/-! ## §1. Scalars that stay. -/

section

variable {registry : Registry}

/-- Unless a list is declared, a scalar is not changed, and another value does not become one. -/
theorem Wraps.sameScalar {type : Option FieldType} {v w : Value} (h : Wraps registry type v w)
    (hlists : ¬DeclaresList type) : Value.SameScalar v w := by
  cases h with
  | bare _ _ => exact absurd ⟨_, rfl⟩ hlists
  | leaf _ _ _ => exact ⟨fun _ => rfl, fun h => h⟩
  | list _ | map _ _ => exact ⟨nofun, fun _ => rfl⟩

/-- A key that is not declared as a list has the same scalar afterwards. -/
theorem WrapsEntries.get? {typeOf : String → Option FieldType} {vs ws : Fields}
    (h : WrapsEntries registry typeOf vs ws) {key : String} (hkey : ¬DeclaresList (typeOf key)) :
    (Dict.get? ws key).filter Value.isScalar = (Dict.get? vs key).filter Value.isScalar := by
  match h with
  | .nil => rfl
  | @WrapsEntries.cons _ _ k v w vs ws hfirst hrest =>
    by_cases hk : k = key
    · subst hk
      rw [Dict.get?_cons_self, Dict.get?_cons_self]
      exact (hfirst.sameScalar hkey).filter
    · rw [Dict.get?_cons_of_ne hk, Dict.get?_cons_of_ne hk]
      exact hrest.get? hkey

end

/-! ## §2. Types that are declared. -/

/-- A type that is registered in the end was declared with that name, or it was there before. -/
theorem Registry.find?_foldl_register {types : List ObjectType} {name : String} {o : ObjectType}
    (r : Registry) (h : (types.foldl register r).find? name = some o) :
    (o ∈ types ∧ o.id.fullName = name) ∨ r.find? name = some o := by
  induction types generalizing r with
  | nil => exact .inr h
  | cons first rest ih =>
    rcases ih (r.register first) h with ⟨hmem, hname⟩ | hfound
    · exact .inl ⟨List.mem_cons_of_mem first hmem, hname⟩
    · unfold register Registry.find? at hfound
      by_cases hname : first.id.fullName = name
      · rw [hname, Dict.get?_insert_self] at hfound
        obtain rfl := Option.some.inj hfound
        exact .inl ⟨List.mem_cons_self, hname⟩
      · rw [Dict.get?_insert_of_ne r hname] at hfound
        exact .inr hfound

theorem Registry.find?_ofTypes {types : List ObjectType} {name : String} {o : ObjectType}
    (h : (ofTypes types).find? name = some o) : o ∈ types ∧ o.id.fullName = name :=
  (find?_foldl_register [] h).resolve_right nofun

/-! ## §3. Elements with their lists in canonical form. -/

namespace Coercion

variable {kept : String → String → Prop}

/-- No type declares a list for a field that is kept. -/
def NoLists (kept : String → String → Prop) (elements : List Element) : Prop :=
  ∀ o, .object o ∈ elements → ∀ field, kept o.id.typeName field →
    ∀ item, o.typeOf? field ≠ some (.list item)

theorem wrapInstance_preserved {elements : List Element} (h : NoLists kept elements)
    (i : Instance) :
    Instance.Preserved kept i (wrapInstance (registryOf elements) i) := by
  have hwalk : Walk.Ends (fun _ => True) (fun value =>
        ∀ field, kept i.typeName field →
          (Dict.get? value field).filter Value.isScalar = i.scalar? field)
      (Walk.ofInstance (registryOf elements) false Walk.keepAll
        (instanceDepth (registryOf elements) i) i) := by
    unfold Walk.ofInstance
    cases hfind : (registryOf elements).find? i.type.fullName with
    | none => exact .throw trivial
    | some o =>
      -- the type that the walk found is one that the elements declare
      obtain ⟨hmem, hname⟩ := Registry.find?_ofTypes hfind
      have hdeclared : Element.object o ∈ elements := by
        obtain ⟨e, he, hobject⟩ := List.mem_filterMap.mp hmem
        cases e with
        | object o' => exact Option.some.inj hobject ▸ he
        | inst i => exact absurd hobject nofun
      have htype : o.id.typeName = i.typeName :=
        congrArg ElementId.typeName (ElementId.fullName_injective hname)
      refine (Walk.fieldsWith_wraps (KeyTypes.lookup_fields o) (Walk.node_wraps _ _) _ _).bind
        fun r hr => .pure ?_
      obtain ⟨ws, rfl, hwraps⟩ := hr
      intro field hfield
      refine hwraps.get? ?_
      rintro ⟨item, hitem⟩
      exact h o hdeclared field (htype ▸ hfield) item hitem
  unfold wrapInstance
  split
  next value hvalue => exact ⟨⟨value, rfl⟩, (hwalk ()).1 value hvalue⟩
  · exact .refl kept i

theorem wrapElements_aligned {registry : Registry}
    (h : ∀ i, Instance.Preserved kept i (wrapInstance registry i)) (found : Dict Fields)
    (elements : List Element) :
    Forall₂ (Element.Aligned (Instance.Preserved kept)) elements
      (wrapElements registry found elements) := by
  induction elements generalizing found with
  | nil => exact .nil
  | cons e rest ih =>
    cases e with
    | inst i => exact .cons (.inst (h i)) (ih found)
    | object o =>
      unfold wrapElements
      split
      · exact .cons (.object rfl) (ih _)
      · exact .cons (.object rfl) (ih found)

theorem sortValue_sameScalar (sortBy : Option String) (v : Value) :
    Value.SameScalar v (sortValue sortBy v) := by
  cases v with
  | list items => exact ⟨nofun, fun _ => rfl⟩
  | _ => exact ⟨fun _ => rfl, fun h => h⟩

theorem sorted_preserved (rules : List UnorderedListRule) (elements : List Element) :
    Forall₂ (Element.Related (Instance.Preserved kept)) elements (sorted rules elements) := by
  refine Element.preserved_passes (fun elements rule _ => ⟨_, rfl, fun i => ?_⟩) elements
  split
  · exact .modify fun _ => sortValue_sameScalar rule.sortBy
  · exact .refl kept i

/-- Scalars stay in fields that are not declared as lists. -/
theorem canonical_aligned {elements coerced : List Element} (h : NoLists kept elements)
    {rules : List UnorderedListRule} (hcoerced : canonical rules elements = .ok coerced) :
    Forall₂ (Element.Aligned (Instance.Preserved kept)) elements coerced := by
  unfold canonical wrapped at hcoerced
  dsimp only at hcoerced
  cases hfound : allAnnotations (registryOf elements) (registryOf elements) with
  | error e =>
    rw [hfound] at hcoerced
    exact absurd hcoerced nofun
  | ok found =>
    rw [hfound] at hcoerced
    obtain rfl := Except.ok.inj hcoerced
    exact Element.aligned_trans (wrapElements_aligned (wrapInstance_preserved h) found elements)
      (Element.aligned_of_related (sorted_preserved rules _))

end Coercion

end AccountSync
