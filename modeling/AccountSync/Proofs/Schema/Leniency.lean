/-
  AccountSync.Proofs.Schema.Leniency
  ──────────────────────────────────
  **WHAT A LENIENT WALK DOES AND A STRICT ONE DOES NOT.**

  A lenient walk goes on where a strict one fails.  So wherever the strict walk has a result the
  lenient one asks the visitor the same things and has the same result, whatever the visitor
  keeps in mind.  By itself a lenient walk only puts bare values into lists, and what it has
  put into lists it leaves alone from then on.

      Walk.traced                    — a visitor that writes down what it is asked
      Walk.strict_before_lenient     — where a strict walk has a result a lenient one has it too
      Walk.node_wraps                — a lenient walk by itself puts bare values into lists
      Walk.node_settled              — once they are in lists it changes nothing
      Walk.lenient_refines_strict    — all of this for the fields of an element
-/
import AccountSync.Proofs.Schema.Descent

namespace AccountSync

namespace Walk

variable {σ : Type} {registry : Registry}

/-! ## §1. What a visitor is asked. -/

/-- A visitor that also writes down, in order, about which node it is asked and what is there. -/
def traced (visitor : Visitor σ) : Visitor (σ × List (VisitedNode × Value)) :=
  fun place v s =>
    ((visitor place v s.1).1, (visitor place v s.1).2, s.2 ++ [(place, v)])

/-- The states of the two visitors agree if what is written down is left out. -/
def SameState (s : σ × List (VisitedNode × Value)) (t : σ) : Prop :=
  s.1 = t

/-- A walk does not depend on whether anything is written down. -/
theorem node_traced (registry : Registry) (strict : Bool) (visitor : Visitor σ) (depth : Nat)
    (type : Option FieldType) (field : Option Field) (path : ElementId) (v : Value) :
    Simulates SameState (fun _ => False)
      (node registry strict (traced visitor) depth type field path v)
      (node registry strict visitor depth type field path v) := by
  refine node_simulates (fun place v => ?_) (fun _ _ _ _ => .inl rfl) (.inl rfl) type field path v
  rintro s t rfl
  exact .inl ⟨rfl, rfl⟩

/-- A walk that comes to an end does the same if it is allowed to go deeper. -/
theorem node_deeper (registry : Registry) (strict : Bool) (visitor : Visitor σ) {depth deeper : Nat}
    (h : depth ≤ deeper) (type : Option FieldType) (field : Option Field) (path : ElementId)
    (v : Value) :
    Simulates Eq (· = .tooDeep) (node registry strict visitor depth type field path v)
      (node registry strict visitor deeper type field path v) := by
  refine node_simulates (fun place v => ?_) (fun _ _ _ _ => .inl rfl) ?_ type field path v
  · rintro s t rfl
    exact .inl ⟨rfl, rfl⟩
  · exact .inr ⟨h, rfl⟩

/-- **Unless it fails, a strict walk does what a lenient one does.** -/
theorem strict_before_lenient (registry : Registry) (visitor : Visitor σ) (depth : Nat)
    (type : Option FieldType) (field : Option Field) (path : ElementId) (v : Value) :
    Simulates Eq (fun _ => True) (node registry true visitor depth type field path v)
      (node registry false visitor depth type field path v) := by
  refine node_simulates (fun place v => ?_) (fun type field path v => ?_) (.inl rfl) type field
    path v
  · rintro s t rfl
    exact .inl ⟨rfl, rfl⟩
  · obtain ⟨d, hlenient, hstrict⟩ := descent_lenient registry type field path v
    rcases hstrict with hsame | ⟨expected, hmismatch⟩
    · exact .inl (hsame.trans hlenient.symm)
    · exact .inr ⟨_, hmismatch, trivial⟩

/-- A lenient walk only fails because it is not allowed to go deeper. -/
theorem node_lenient (registry : Registry) (visitor : Visitor σ) (depth : Nat)
    (type : Option FieldType) (field : Option Field) (path : ElementId) (v : Value) :
    Ends (· = .tooDeep) (fun _ => True) (node registry false visitor depth type field path v) := by
  induction depth generalizing type field path v with
  | zero => exact .throw rfl
  | succ depth ih =>
    rw [node_visited]
    refine Ends.bind (P := fun _ => True) (.visit fun _ => trivial) fun left _ => ?_
    cases left with
    | none => exact .pure trivial
    | some v =>
      show Ends (· = .tooDeep) (fun _ => True)
        (enter registry false visitor depth type field path v)
      obtain ⟨d, hdescent, -⟩ := descent_lenient registry type field path v
      unfold enter
      rw [hdescent]
      cases d with
      | stop v => exact .pure trivial
      | items vs type field =>
        exact (itemsWith_ends fun v _ path => ih type field path v).bind fun _ _ => .pure trivial
      | entries vs keys =>
        exact (fieldsWith_ends fun e _ field path => ih _ field path e.2).bind fun _ _ =>
          .pure trivial

/-! ## §2. Bare values in lists. -/

/-- What a lenient walk by itself makes of the entries of a map. -/
theorem fieldsWith_wraps {allowed : Failure → Prop} {node : NodeStep Unit} {keys : KeyTypes}
    {typeOf : String → Option FieldType} (hkeys : ∀ key, (keys.lookup key).1 = typeOf key)
    (hnode : ∀ type field path v, Ends allowed (fun r => ∃ w, r = some w ∧ Wraps registry type v w)
      (node type field path v)) (path : ElementId) (vs : Fields) :
    Ends allowed (fun r => ∃ ws, r = some ws ∧ WrapsEntries registry typeOf vs ws)
      (fieldsWith node keys path vs) := by
  have hentries : Ends allowed (WrapsEntries registry typeOf vs) (entries
      (fun key v => node (keys.lookup key).1 (keys.lookup key).2 (path.nest [key]) v) vs) := by
    refine entries_ends (Q := fun e r => ∃ w, r = some w ∧ Wraps registry (typeOf e.1) e.2 w) .nil
      ?kept ?dropped fun e _ => hkeys e.1 ▸ hnode _ _ _ e.2
    case kept =>
      rintro e rest v others ⟨w, hw, hwraps⟩ hothers
      obtain rfl := Option.some.inj hw
      exact .cons hwraps hothers
    case dropped =>
      rintro e rest others ⟨w, hw, -⟩
      exact absurd hw nofun
  refine hentries.bind fun kept hkept => .pure ⟨kept, ?_, hkept⟩
  -- there is an entry for each entry, so the map was not emptied
  cases hkept <;> rfl

/-- **A lenient walk by itself puts bare values into lists** where lists are declared, and that is
all it does. -/
theorem node_wraps (registry : Registry) (depth : Nat) (type : Option FieldType)
    (field : Option Field) (path : ElementId) (v : Value) :
    Ends (fun _ => True) (fun r => ∃ w, r = some w ∧ Wraps registry type v w)
      (node registry false keepAll depth type field path v) := by
  induction depth generalizing type field path v with
  | zero => exact .throw trivial
  | succ depth ih =>
    have hitems (type : Option FieldType) (field : Option Field) (vs : List Value) :
        Ends (fun _ => True) (WrapsItems registry type vs)
          (itemsWith (node registry false keepAll depth) type field path vs) := by
      refine items_ends (Q := fun v r => ∃ w, r = some w ∧ Wraps registry type v w) .nil
        ?kept ?dropped 0 fun n v _ => ih _ _ _ v
      case kept =>
        rintro v rest v' others ⟨w, hw, hwraps⟩ hothers
        obtain rfl := Option.some.inj hw
        exact .cons hwraps hothers
      case dropped =>
        rintro v rest others ⟨w, hw, -⟩
        exact absurd hw nofun
    obtain ⟨d, hdescent, -⟩ := descent_lenient registry type field path v
    rw [node_succ, hdescent]
    cases descent_enters hdescent with
    | stop hwraps => exact .pure ⟨v, rfl, hwraps⟩
    | items =>
      refine (hitems _ _ _).bind fun kept hkept => .pure ⟨_, rfl, ?_⟩
      exact .list hkept
    | item htype hbare =>
      refine (hitems _ _ _).bind fun kept hkept => .pure ⟨_, rfl, ?_⟩
      -- the list has the one item that the walk made of the bare value
      cases hkept with
      | cons hw hnil =>
        cases hnil
        exact htype ▸ .bare hbare hw
    | entries hlists hkeys =>
      refine (fieldsWith_wraps hkeys ih path _).bind fun r hr => .pure ?_
      obtain ⟨ws, rfl, hws⟩ := hr
      exact ⟨_, rfl, .map hlists hws⟩

end Walk

/-! ## §3. A second time. -/

section

variable {registry : Registry} {type : Option FieldType} {v : Value}

theorem WrapsItems.wrapped_of_mem {vs ws : List Value} (h : WrapsItems registry type vs ws)
    {w : Value} (hw : w ∈ ws) : ∃ v, Wraps registry type v w := by
  match h with
  | .nil => exact absurd hw List.not_mem_nil
  | .cons hfirst hrest =>
    rcases List.mem_cons.mp hw with rfl | hw
    · exact ⟨_, hfirst⟩
    · exact hrest.wrapped_of_mem hw

theorem WrapsEntries.wrapped_of_mem {typeOf : String → Option FieldType} {vs ws : Fields}
    (h : WrapsEntries registry typeOf vs ws) {e : String × Value} (he : e ∈ ws) :
    ∃ v, Wraps registry (typeOf e.1) v e.2 := by
  match h with
  | .nil => exact absurd he List.not_mem_nil
  | .cons hfirst hrest =>
    rcases List.mem_cons.mp he with rfl | he
    · exact ⟨_, hfirst⟩
    · exact hrest.wrapped_of_mem he

/-- Where a list is declared no bare value is left. -/
theorem Wraps.not_bare {item : FieldType} {w : Value} (h : Wraps registry (some (.list item)) v w) :
    w.isBare = false := by
  cases h with
  | bare _ _ | list _ => rfl
  | leaf _ _ hleaf => exact Bool.eq_false_iff.mpr fun hbare => hleaf ⟨⟨item, rfl⟩, hbare⟩
  | map hlists _ => exact absurd ⟨item, rfl⟩ hlists

/-- No bare value is left among the items of a list. -/
theorem Wraps.items {ws : List Value} (h : Wraps registry type v (.list ws)) {w : Value}
    (hw : w ∈ ws) : ∃ v, Wraps registry (itemType type) v w := by
  cases h with
  | bare _ hitem =>
    obtain rfl := List.mem_singleton.mp hw
    exact ⟨_, hitem⟩
  | leaf _ hlist _ => exact absurd hlist nofun
  | list hitems => exact hitems.wrapped_of_mem hw

/-- No bare value is left among the entries of a map. -/
theorem Wraps.entries {ws : Fields} (h : Wraps registry type v (.map ws)) {e : String × Value}
    (he : e ∈ ws) : ∃ v, Wraps registry (entryType registry type e.1) v e.2 := by
  cases h with
  | leaf hmap _ _ => exact absurd hmap nofun
  | map _ hentries => exact hentries.wrapped_of_mem he

end

namespace Walk

variable {registry : Registry}

/-- The entries of a map stay as they are if each of them does. -/
theorem fieldsWith_settled {allowed : Failure → Prop} {node : NodeStep Unit} {keys : KeyTypes}
    {path : ElementId} {vs : Fields}
    (h : ∀ e ∈ vs, ∀ field path,
      Ends allowed (· = some e.2) (node (keys.lookup e.1).1 field path e.2)) :
    Ends allowed (· = some vs) (fieldsWith node keys path vs) := by
  have hentries : Ends allowed (· = vs) (entries
      (fun key v => node (keys.lookup key).1 (keys.lookup key).2 (path.nest [key]) v) vs) := by
    refine entries_ends (Q := fun e r => r = some e.2) (P := fun vs kept => kept = vs) rfl ?kept
      ?dropped fun e he => h e he _ _
    case kept =>
      rintro e rest v others hv rfl
      obtain rfl := Option.some.inj hv
      rfl
    case dropped =>
      rintro e rest others hdropped -
      exact absurd hdropped nofun
  refine hentries.bind fun kept hkept => .pure ?_
  rw [hkept, unlessEmptied_self]

/-- The items of a list stay as they are if each of them does. -/
theorem itemsWith_settled {allowed : Failure → Prop} {node : NodeStep Unit}
    {type : Option FieldType} {field : Option Field} {path : ElementId} {vs : List Value}
    (h : ∀ v ∈ vs, ∀ path, Ends allowed (· = some v) (node type field path v)) :
    Ends allowed (· = vs) (itemsWith node type field path vs) := by
  refine items_ends (Q := fun v r => r = some v) (P := fun vs kept => kept = vs) rfl ?kept ?dropped
    0 fun _ v hv => h v hv _
  case kept =>
    rintro v rest v' others hv' rfl
    obtain rfl := Option.some.inj hv'
    rfl
  case dropped =>
    rintro v rest others hdropped -
    exact absurd hdropped nofun

/-- **What has been put into lists stays as it is** in a lenient walk by itself. -/
theorem node_settled (depth : Nat) {type : Option FieldType} {v w : Value}
    (h : Wraps registry type v w) (field : Option Field) (path : ElementId) :
    Ends (fun _ => True) (· = some w) (node registry false keepAll depth type field path w) := by
  induction depth generalizing type v w field path with
  | zero => exact .throw trivial
  | succ depth ih =>
    obtain ⟨d, hdescent, -⟩ := descent_lenient registry type field path w
    rw [node_succ, hdescent]
    cases descent_enters hdescent with
    | stop _ => exact .pure rfl
    | items =>
      refine (itemsWith_settled fun w hw path => ?_).bind fun kept hkept => .pure (hkept ▸ rfl)
      obtain ⟨v, hv⟩ := h.items hw
      exact ih hv _ path
    | item htype hbare =>
      subst htype
      exact absurd hbare (Bool.eq_false_iff.mp h.not_bare)
    | entries _ hkeys =>
      refine (fieldsWith_settled fun e he field path => ?_).bind fun kept hkept =>
        .pure (hkept ▸ rfl)
      obtain ⟨v, hv⟩ := h.entries he
      exact hkeys e.1 ▸ ih hv field path

/-! ## §4. Fields. -/

/-- The depth that walks are given is enough for every visitor that makes no node larger, as long as
list types do not stand deeper inside each other than the object type allows for. -/
theorem fieldsWith_deepEnough {σ : Type} {visitor : Visitor σ} (hvisitor : visitor.Shrinks)
    (strict : Bool) {o : ObjectType} {keys : KeyTypes}
    (hkeys : ∀ key, nestingOf (keys.lookup key).1 ≤ listNesting registry o) (path : ElementId)
    (vs : Fields) (extra : Nat) :
    Ends (· ≠ .tooDeep) (fun _ => True)
      (fieldsWith (node registry strict visitor (depthBound registry o vs + extra)) keys path vs) := by
  obtain ⟨hregistry, -⟩ := listNesting_bounds registry o
  refine fieldsWith_ends_within hregistry hvisitor strict hkeys ?_ path
  exact Nat.le_add_right_of_le (Nat.mul_le_mul_right _ (Nat.le_add_left _ 1))

theorem lookup_fields_nesting (registry : Registry) (o : ObjectType) (key : String) :
    nestingOf ((KeyTypes.fields o).lookup key).1 ≤ listNesting registry o := by
  rw [KeyTypes.lookup_fields]
  exact (listNesting_bounds registry o).2 key

theorem keepAll_shrinks : Visitor.Shrinks keepAll := by
  rintro place v s v' h
  obtain rfl := Option.some.inj h
  exact Nat.le_refl _

/-- A lenient walk over fields fails only because it is not allowed to go deeper. -/
theorem fields_lenient {σ : Type} (visitor : Visitor σ) (depth : Nat) (o : ObjectType)
    (path : ElementId) (vs : Fields) :
    Ends (· = .tooDeep) (fun _ => True) (fields registry false visitor depth o path vs) :=
  fieldsWith_ends fun e _ field path => node_lenient registry visitor depth _ field path e.2

/-- Wherever it may go deep enough, a lenient walk by itself has a result. -/
theorem fieldsWith_result {P : Option Fields → Prop} {o : ObjectType} {keys : KeyTypes}
    (hkeys : ∀ key, nestingOf (keys.lookup key).1 ≤ listNesting registry o) {path : ElementId}
    {vs : Fields} (extra : Nat) (h : Ends (fun _ => True) P
      (fieldsWith (node registry false keepAll (depthBound registry o vs + extra)) keys path vs)) :
    ∃ r, ((fieldsWith (node registry false keepAll (depthBound registry o vs + extra)) keys path
      vs).run ()).1 = .ok r ∧ P r := by
  have hends : Ends (· ≠ .tooDeep) (fun _ => True)
      (fieldsWith (node registry false keepAll (depthBound registry o vs + extra)) keys path vs) :=
    fieldsWith_deepEnough keepAll_shrinks false hkeys path vs extra
  have hlenient : Ends (· = .tooDeep) (fun _ => True)
      (fieldsWith (node registry false keepAll (depthBound registry o vs + extra)) keys path vs) :=
    fieldsWith_ends fun e _ field path => node_lenient registry keepAll _ _ field path e.2
  obtain ⟨r, hr, -, -⟩ := hlenient.result hends (fun e he h => h he) ()
  exact ⟨r, hr, (h ()).1 r hr⟩

theorem fields_result {P : Option Fields → Prop} {o : ObjectType} {path : ElementId} {vs : Fields}
    (extra : Nat) (h : Ends (fun _ => True) P
      (fields registry false keepAll (depthBound registry o vs + extra) o path vs)) :
    ∃ r, ((fields registry false keepAll (depthBound registry o vs + extra) o path vs).run ()).1
      = .ok r ∧ P r :=
  fieldsWith_result (lookup_fields_nesting registry o) extra h

/-- **Lenient walks over the fields of an element.**  For every visitor, also one with a state:
writing down what it is asked changes nothing, and a walk that comes to an end does the same
wherever it may go deeper.  A lenient walk fails in no other way than by going too deep.  If the
strict walk has a result, then in the lenient one the visitor is asked the same in the same order,
and result and state are the same.  By itself a lenient walk puts bare values into lists where
lists are declared, and changes nothing else; a second one changes nothing at all. -/
theorem lenient_refines_strict (registry : Registry) (o : ObjectType) (path : ElementId)
    (vs : Fields) :
    (∀ {σ : Type} (visitor : Visitor σ) (depth : Nat) (s : σ),
      (∀ strict,
        ((fields registry strict (traced visitor) depth o path vs).run (s, [])).1
            = ((fields registry strict visitor depth o path vs).run s).1
          ∧ ((fields registry strict (traced visitor) depth o path vs).run (s, [])).2.1
            = ((fields registry strict visitor depth o path vs).run s).2)
      ∧ (∀ strict deeper, depth ≤ deeper →
        ((fields registry strict visitor depth o path vs).run s).1 ≠ .error .tooDeep →
          (fields registry strict visitor deeper o path vs).run s
            = (fields registry strict visitor depth o path vs).run s)
      ∧ (∀ e, ((fields registry false visitor depth o path vs).run s).1 = .error e → e = .tooDeep)
      ∧ ∀ kept, ((fields registry true visitor depth o path vs).run s).1 = .ok kept →
        (fields registry false (traced visitor) depth o path vs).run (s, [])
          = (fields registry true (traced visitor) depth o path vs).run (s, []))
    ∧ ∃ ws, WrapsEntries registry o.typeOf? vs ws
      ∧ (∀ extra,
        ((fields registry false keepAll (depthBound registry o vs + extra) o path vs).run ()).1
          = .ok (some ws))
      ∧ ∀ extra,
        ((fields registry false keepAll (depthBound registry o ws + extra) o path ws).run ()).1
          = .ok (some ws) := by
  have hdeeper {σ : Type} (visitor : Visitor σ) (s : σ) (strict : Bool) {depth deeper : Nat}
      (h : depth ≤ deeper)
      (hend : ((fields registry strict visitor depth o path vs).run s).1 ≠ .error .tooDeep) :
      (fields registry strict visitor deeper o path vs).run s
        = (fields registry strict visitor depth o path vs).run s := by
    rcases fieldsWith_simulates (node_deeper registry strict visitor h) (.fields o) path vs s s
      rfl with ⟨hresult, hstate⟩ | ⟨e, he, rfl⟩
    · exact (Prod.ext hresult hstate).symm
    · exact absurd he hend
  have htraced {σ : Type} (visitor : Visitor σ) (depth : Nat) (s : σ) (strict : Bool) :
      ((fields registry strict (traced visitor) depth o path vs).run (s, [])).1
          = ((fields registry strict visitor depth o path vs).run s).1
        ∧ ((fields registry strict (traced visitor) depth o path vs).run (s, [])).2.1
          = ((fields registry strict visitor depth o path vs).run s).2 := by
    rcases fieldsWith_simulates (node_traced registry strict visitor depth) (.fields o) path
      vs (s, []) s rfl with hsame | ⟨e, -, hfalse⟩
    · exact hsame
    · exact hfalse.elim
  refine ⟨fun visitor depth s => ⟨htraced visitor depth s, fun strict deeper => hdeeper visitor s
    strict, (fields_lenient visitor depth o path vs s).2, fun kept hkept => ?strict⟩, ?wraps⟩
  case strict =>
    rcases fieldsWith_simulates (strict_before_lenient registry (traced visitor) depth)
      (.fields o) path vs (s, []) (s, []) rfl with ⟨hresult, hstate⟩ | ⟨e, he, -⟩
    · exact (Prod.ext hresult hstate).symm
    -- the strict walk did not fail, so neither did the one that is written down
    · have hfailed : Except.error e = Except.ok kept :=
        he.symm.trans ((htraced visitor depth s true).1.trans hkept)
      exact absurd hfailed nofun
  case wraps =>
    obtain ⟨r, hr, ws, rfl, hwraps⟩ := fields_result 0
      (fieldsWith_wraps (KeyTypes.lookup_fields o) (node_wraps registry _) path vs)
    refine ⟨ws, hwraps, fun extra => ?_, fun extra => ?_⟩
    · have hsame := hdeeper keepAll () false (Nat.le_add_right (depthBound registry o vs) extra)
        (fun he => absurd (he.symm.trans hr) nofun)
      rw [hsame]
      exact hr
    · have hsettled : Ends (fun _ => True) (· = some ws)
          (fields registry false keepAll (depthBound registry o ws + extra) o path ws) := by
        refine fieldsWith_settled fun e he field path => ?_
        obtain ⟨v, hv⟩ := hwraps.wrapped_of_mem he
        exact node_settled _ (KeyTypes.lookup_fields o e.1 ▸ hv) field path
      obtain ⟨r, hr, rfl⟩ := fields_result extra hsettled
      exact hr

/-- Rows of cells, and a visitor that counts the nodes and numbers the texts.  It comes to an end
three levels down.  A bare text instead of the rows is put into a list twice. -/
theorem lenient_refines_strict_for_rows :
    let table : ObjectType :=
      (ObjectType.mk (.ofType "z" "table") [] [] []).withField "rows"
        (.list (.list (.primitive .string)))
    let path : ElementId := .ofInstance "z" "table" "t"
    let numbered : Visitor Nat := fun _ v n =>
      (some (match v with
        | .string text => .string (text ++ (Number.int n).text)
        | v => v), n + 1)
    let rows (text : String) : Fields := [("rows", .list [.list [.string text]])]
    let bare : Fields := [("rows", .string "x")]
    let depth : Nat := depthBound [] table (rows "x") + 0
    ((fields [] true numbered 3 table path (rows "x")).run 0).1 = .ok (some (rows "x2"))
      ∧ (fields [] true numbered 9 table path (rows "x")).run 0
        = (fields [] true numbered 3 table path (rows "x")).run 0
      ∧ (fields [] false (traced numbered) 3 table path (rows "x")).run (0, [])
        = (fields [] true (traced numbered) 3 table path (rows "x")).run (0, [])
      ∧ (∃ e, ((fields [] false numbered 2 table path (rows "x")).run 0).1 = .error e
        ∧ e = .tooDeep)
      ∧ WrapsEntries [] table.typeOf? bare (rows "x")
      ∧ ((fields [] false keepAll depth table path (rows "x")).run ()).1
        = .ok (some (rows "x")) := by
  intro table path numbered rows bare depth
  obtain ⟨hruns, -⟩ := lenient_refines_strict [] table path (rows "x")
  have hstrict : ((fields [] true numbered 3 table path (rows "x")).run 0).1
      = .ok (some (rows "x2")) := by
    rfl
  have hfailed : ((fields [] false numbered 2 table path (rows "x")).run 0).1
      = .error .tooDeep := by
    rfl
  have hbare : ((fields [] false keepAll (depthBound [] table bare + 0) table path bare).run ()).1
      = .ok (some (rows "x")) := by
    rfl
  obtain ⟨-, hdeeper, -, hfollows⟩ := hruns numbered 3 0
  obtain ⟨-, ws, hwraps, hresult, hagain⟩ := lenient_refines_strict [] table path bare
  -- the walk over the bare text shows which fields these are
  obtain rfl : ws = rows "x" := by
    have hsame := (hresult 0).symm.trans hbare
    exact Option.some.inj (Except.ok.inj hsame)
  refine ⟨hstrict, hdeeper true 9 (by decide) fun h => absurd (h.symm.trans hstrict) nofun,
    hfollows _ hstrict, ⟨_, hfailed, (hruns numbered 2 0).2.2.1 _ hfailed⟩, hwraps, hagain 0⟩

end Walk

end AccountSync
