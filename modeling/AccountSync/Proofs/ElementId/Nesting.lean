/-
  AccountSync.Proofs.ElementId.Nesting
  ────────────────────────────────────
  **IDENTIFIERS LIE BELOW EACH OTHER AS THEY ARE NESTED.**

  Whether one identifier lies below another is read off their segments, where the kind of a
  place is a word among the names.  Going down from a type changes its kind, and only there
  does more lie below than can be reached by going down: the instances and fields of the type.
  Everywhere else what lies below is what is reached, whatever the names look like.

      ElementId.Extends              — one chain of segments is the other with more behind it
      ElementId.isAncestorOf_iff     — which identifiers lie below another
      ElementId.eq_topLevel_nest_iff — the enclosing element and the way down give a place back
-/
import AccountSync.Proofs.ElementId.Built

namespace AccountSync.ElementId

/-! ## §1. Segments. -/

/-- The segments of the second identifier are those of the first, and at least one more. -/
def Extends (a b : ElementId) : Prop :=
  ∃ more, more ≠ [] ∧ b.segments = a.segments ++ more

/-- To lie below means to have more segments. -/
theorem isAncestorOf_iff_extends {a b : ElementId} : a.isAncestorOf b = true ↔ a.Extends b := by
  unfold isAncestorOf Extends
  rw [Bool.and_eq_true, List.isPrefixOf_iff_prefix, decide_eq_true_eq]
  constructor
  · rintro ⟨⟨more, hmore⟩, hlength⟩
    refine ⟨more, ?_, hmore.symm⟩
    rintro rfl
    rw [← hmore, List.append_nil] at hlength
    exact absurd hlength (Nat.lt_irrefl _)
  · rintro ⟨more, hne, hmore⟩
    have hpos : 0 < more.length := List.length_pos_iff.mpr hne
    refine ⟨⟨more, hmore.symm⟩, ?_⟩
    rw [hmore, List.length_append]
    omega

theorem not_extends_self (a : ElementId) : ¬a.Extends a := by
  rintro ⟨more, hne, hmore⟩
  exact hne (List.self_eq_append_right.mp hmore)

theorem Extends.trans {a b c : ElementId} (hab : a.Extends b) (hbc : b.Extends c) :
    a.Extends c := by
  obtain ⟨more, hne, hmore⟩ := hab
  obtain ⟨further, -, hfurther⟩ := hbc
  refine ⟨more ++ further, List.append_ne_nil_of_left_ne_nil hne further, ?_⟩
  rw [hfurther, hmore, List.append_assoc]

/-- Going down from a place appends the names. -/
theorem segments_nest_within (adapter typeName : String) (kind : PlaceKind)
    (path parts : List String) :
    (nest ⟨adapter, typeName, .within kind path⟩ parts).segments
      = segments ⟨adapter, typeName, .within kind path⟩ ++ parts :=
  rfl

/-- Going down from a type appends the marker of annotations first. -/
theorem segments_nest_type (adapter typeName : String) (parts : List String) :
    (nest ⟨adapter, typeName, .type⟩ parts).segments
      = segments ⟨adapter, typeName, .type⟩ ++ PlaceKind.attr.marker :: parts :=
  rfl

/-! ## §2. What lies below. -/

/-- What is reached by going down lies below. -/
theorem extends_nest (a : ElementId) {parts : List String} (h : parts ≠ []) :
    a.Extends (a.nest parts) := by
  obtain ⟨adapter, typeName, place⟩ := a
  cases place with
  | type => exact ⟨_, List.cons_ne_nil _ _, segments_nest_type adapter typeName parts⟩
  | within kind path => exact ⟨parts, h, segments_nest_within adapter typeName kind path parts⟩

/-- Every place of a type lies below the type. -/
theorem type_extends_within (adapter typeName : String) (kind : PlaceKind) (path : List String) :
    Extends ⟨adapter, typeName, .type⟩ ⟨adapter, typeName, .within kind path⟩ :=
  ⟨kind.marker :: path, List.cons_ne_nil _ _, rfl⟩

/-- **What lies below an identifier** is what is reached by going down from it, and for a type also
all of its places. -/
theorem isAncestorOf_iff {a b : ElementId} :
    a.isAncestorOf b = true ↔
      (∃ parts, parts ≠ [] ∧ b = a.nest parts)
        ∨ (a.isType = true ∧ b.isType = false ∧ b.adapter = a.adapter
          ∧ b.typeName = a.typeName) := by
  rw [isAncestorOf_iff_extends]
  constructor
  · rintro ⟨more, hne, hmore⟩
    obtain ⟨adapter, typeName, place⟩ := a
    cases place with
    | within kind path =>
      -- the marker is among the common segments, so the kinds agree
      refine .inl ⟨more, hne, segments_injective ?_⟩
      rw [hmore, segments_nest_within]
    | type =>
      obtain ⟨adapter', typeName', place'⟩ := b
      cases place' with
      | type =>
        obtain ⟨-, -, rfl⟩ : adapter' = adapter ∧ typeName' = typeName ∧ [] = more := by
          simpa [segments] using hmore
        exact absurd rfl hne
      | within kind path =>
        obtain ⟨rfl, rfl, -⟩ : adapter' = adapter ∧ typeName' = typeName
            ∧ kind.marker :: path = more := by
          simpa [segments] using hmore
        exact .inr ⟨rfl, rfl, rfl, rfl⟩
  · rintro (⟨parts, hne, rfl⟩ | ⟨htype, hplace, hadapter, hname⟩)
    · exact extends_nest a hne
    · obtain ⟨adapter, typeName, place⟩ := a
      obtain ⟨adapter', typeName', place'⟩ := b
      obtain rfl : adapter' = adapter := hadapter
      obtain rfl : typeName' = typeName := hname
      obtain rfl : place = .type := of_decide_eq_true htype
      cases place' with
      | type => cases hplace
      | within kind path => exact type_extends_within adapter' typeName' kind path

/-! ## §3. The enclosing element. -/

theorem isTopLevel_topLevel (id : ElementId) : id.topLevel.1.isTopLevel = true := by
  obtain ⟨adapter, typeName, place⟩ := id
  match place with
  | .type | .within .field _ | .within .attr _ | .within .inst [] | .within .inst (_ :: _) => rfl

/-- **The enclosing element and the way down give an identifier back**, unless it is a field: below
a type the way down leads to annotations. -/
theorem eq_topLevel_nest_iff {id : ElementId} (h : id.HasPath) :
    id = (if id.isTopLevel then id.topLevel.1 else id.topLevel.1.nest id.topLevel.2)
      ↔ ∀ path, id.place ≠ .within .field path := by
  obtain ⟨adapter, typeName, place⟩ := id
  match place with
  | .type => exact iff_of_true rfl nofun
  | .within .attr path => exact iff_of_true rfl nofun
  | .within .inst [] => exact absurd rfl (h [] (.inl rfl))
  | .within .inst [name] => exact iff_of_true rfl nofun
  | .within .inst (name :: next :: rest) => exact iff_of_true rfl nofun
  | .within .field path => exact iff_of_false nofun fun hfield => hfield path rfl

/-- **How identifiers lie below each other.**  Of any two identifiers the second lies below the
first exactly if it is reached by going down over at least one name, or the first is a type and the
second one of its places.  Nothing lies below itself, and what lies below something below an
identifier lies below the identifier.  What encloses an identifier that can be built is an element;
an element is what encloses it, and any other identifier is reached from there on the way down,
unless it is a field. -/
theorem nesting_lawful :
    (∀ a b : ElementId, a.isAncestorOf b = true ↔
      (∃ parts, parts ≠ [] ∧ b = a.nest parts)
        ∨ (a.isType = true ∧ b.isType = false ∧ b.adapter = a.adapter
          ∧ b.typeName = a.typeName))
    ∧ (∀ a : ElementId, a.isAncestorOf a = false)
    ∧ (∀ a b c : ElementId, a.isAncestorOf b = true → b.isAncestorOf c = true →
        a.isAncestorOf c = true)
    ∧ ∀ id : ElementId, id.Built →
        id.topLevel.1.isTopLevel = true
        ∧ (id = (if id.isTopLevel then id.topLevel.1 else id.topLevel.1.nest id.topLevel.2)
          ↔ ∀ path, id.place ≠ .within .field path) := by
  refine ⟨fun _ _ => isAncestorOf_iff, fun a => ?_, fun a b c hab hbc => ?_, fun id hid => ?_⟩
  · rw [Bool.eq_false_iff, ne_eq, isAncestorOf_iff_extends]
    exact not_extends_self a
  · rw [isAncestorOf_iff_extends] at hab hbc ⊢
    exact hab.trans hbc
  · exact ⟨isTopLevel_topLevel id, eq_topLevel_nest_iff hid.hasPath⟩

/-- Names that look like markers: a type called like one, an annotation of it and an instance of it
with the same names further down. -/
theorem nesting_lawful_for_markers :
    let type := ElementId.ofType "z" "instance"
    let attr := (type.nest ["instance"]).nest ["attr"]
    let inst := (ElementId.ofInstance "z" "instance" "instance").nest ["attr"]
    type.isAncestorOf inst = true ∧ ¬(∃ parts, inst = type.nest parts)
      ∧ (type.nest ["instance"]).isAncestorOf attr = true
      ∧ (type.nest ["instance"]).isAncestorOf inst = false
      ∧ attr.Built ∧ attr = attr.topLevel.1.nest attr.topLevel.2
      ∧ inst.Built ∧ inst = inst.topLevel.1.nest inst.topLevel.2 := by
  intro type attr inst
  have hattr : attr.Built := .nest (.nest (.ofType "z" "instance") _) _
  have hinst : inst.Built := .nest (.ofInstance "z" "instance" "instance") _
  obtain ⟨hbelow, -, -, hrejoined⟩ := nesting_lawful
  -- going down from a type leads to annotations only
  have hkind : ¬∃ parts, inst = type.nest parts := by
    rintro ⟨parts, h⟩
    exact absurd (congrArg ElementId.place h) nofun
  refine ⟨(hbelow type inst).mpr (.inr ⟨rfl, rfl, rfl, rfl⟩), hkind,
    (hbelow _ attr).mpr (.inl ⟨["attr"], List.cons_ne_nil _ _, rfl⟩), by decide, hattr,
    (hrejoined attr hattr).2.mpr nofun, hinst, (hrejoined inst hinst).2.mpr nofun⟩

end AccountSync.ElementId
