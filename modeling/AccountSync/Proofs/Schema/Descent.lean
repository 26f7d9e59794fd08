/-
  AccountSync.Proofs.Schema.Descent
  ─────────────────────────────────
  **WHAT A WALK DOES AT A NODE, AND HOW DEEP IT GOES.**

  A walk asks the visitor about a node and then goes on inside of what the visitor left: it
  stops there, enters a map or a list, or takes a bare value for the one item of a list.  All
  that is known of walks is put together from that.

      Walk.Ends             — what holds of every result of a walk, and of every failure
      Walk.Simulates        — two walks side by side
      Wraps                 — bare values where lists are declared, each in a list of its own
      Walk.descent_enters   — how a walk goes on with a node
      Walk.node_simulates   — two walks whose visitors do the same do the same
      Walk.node_ends        — a visitor that makes no node larger comes to an end
-/
import AccountSync.Proofs.Schema.Conformance
import AccountSync.Proofs.World

namespace AccountSync

variable {σ τ α β : Type}

namespace Walk

/-! ## §1. Results and failures. -/

/-- Every result of the walk satisfies the predicate, and every failure is an allowed one. -/
def Ends (allowed : Failure → Prop) (P : α → Prop) (x : WalkM σ α) : Prop :=
  ∀ s, (∀ a, (x.run s).1 = .ok a → P a) ∧ ∀ e, (x.run s).1 = .error e → allowed e

namespace Ends

variable {allowed : Failure → Prop} {P : α → Prop}

theorem pure {a : α} (h : P a) : Ends allowed P (Pure.pure a : WalkM σ α) := by
  refine fun s => ⟨?_, nofun⟩
  rintro a' ⟨⟩
  exact h

theorem throw {e : Failure} (h : allowed e) : Ends allowed P (throw e : WalkM σ α) := by
  refine fun s => ⟨nofun, ?_⟩
  rintro e' ⟨⟩
  exact h

theorem bind {x : WalkM σ α} {f : α → WalkM σ β} {Q : β → Prop} (hx : Ends allowed P x)
    (hf : ∀ a, P a → Ends allowed Q (f a)) : Ends allowed Q (x >>= f) := by
  intro s
  rw [run_bind]
  cases ha : (x.run s).1 with
  | ok a => exact hf a ((hx s).1 a ha) _
  | error e =>
    refine ⟨nofun, ?_⟩
    rintro e' ⟨⟩
    exact (hx s).2 e ha

theorem mono {x : WalkM σ α} {Q : α → Prop} (hx : Ends allowed P x) (h : ∀ a, P a → Q a) :
    Ends allowed Q x :=
  fun s => ⟨fun a ha => h a ((hx s).1 a ha), (hx s).2⟩

/-- A visitor does not fail. -/
theorem visit {visitor : Visitor σ} {place : VisitedNode} {v : Value} {P : Option Value → Prop}
    (h : ∀ s, P (visitor place v s).1) : Ends allowed P (Walk.visit visitor place v) := by
  refine fun s => ⟨?_, nofun⟩
  rintro r ⟨⟩
  exact h s

/-- A walk has a result if no failure is allowed for all that is known of it. -/
theorem result {x : WalkM σ α} {others : Failure → Prop} {Q : α → Prop} (hx : Ends allowed P x)
    (hothers : Ends others Q x) (h : ∀ e, allowed e → ¬others e) (s : σ) :
    ∃ a, (x.run s).1 = .ok a ∧ P a ∧ Q a := by
  cases ha : (x.run s).1 with
  | ok a => exact ⟨a, rfl, (hx s).1 a ha, (hothers s).1 a ha⟩
  | error e => exact absurd ((hothers s).2 e ha) (h e ((hx s).2 e ha))

end Ends

/-- From related states the two walks come to the same result, or to the same failure, and to
related states; unless the first one fails in a way that is excused. -/
def Simulates (S : σ → τ → Prop) (excused : Failure → Prop) (x : WalkM σ α) (y : WalkM τ α) :
    Prop :=
  ∀ s t, S s t → ((x.run s).1 = (y.run t).1 ∧ S (x.run s).2 (y.run t).2)
    ∨ ∃ e, (x.run s).1 = .error e ∧ excused e

namespace Simulates

variable {S : σ → τ → Prop} {excused : Failure → Prop}

theorem pure (a : α) :
    Simulates S excused (Pure.pure a : WalkM σ α) (Pure.pure a : WalkM τ α) :=
  fun _ _ h => .inl ⟨rfl, h⟩

theorem throw (e : Failure) :
    Simulates S excused (throw e : WalkM σ α) (throw e : WalkM τ α) :=
  fun _ _ h => .inl ⟨rfl, h⟩

theorem excuse {e : Failure} (h : excused e) (y : WalkM τ α) :
    Simulates S excused (MonadExcept.throw e : WalkM σ α) y :=
  fun _ _ _ => .inr ⟨e, rfl, h⟩

theorem bind {x : WalkM σ α} {y : WalkM τ α} {f : α → WalkM σ β} {g : α → WalkM τ β}
    (hx : Simulates S excused x y) (hf : ∀ a, Simulates S excused (f a) (g a)) :
    Simulates S excused (x >>= f) (y >>= g) := by
  intro s t hst
  rw [run_bind, run_bind]
  rcases hx s t hst with ⟨hsame, hstate⟩ | ⟨e, he, hexcused⟩
  · rw [← hsame]
    cases (x.run s).1 with
    | ok a => exact hf a _ _ hstate
    | error e => exact .inl ⟨rfl, hstate⟩
  · rw [he]
    exact .inr ⟨e, rfl, hexcused⟩

end Simulates

/-! ## §2. Entries and items. -/

section

variable {S : σ → τ → Prop} {excused : Failure → Prop} {node : NodeStep σ} {node' : NodeStep τ}

theorem entries_simulates {step : String → Value → WalkM σ (Option Value)}
    {step' : String → Value → WalkM τ (Option Value)}
    (h : ∀ key v, Simulates S excused (step key v) (step' key v)) (vs : Fields) :
    Simulates S excused (entries step vs) (entries step' vs) := by
  induction vs with
  | nil => exact .pure []
  | cons e rest ih => exact (h e.1 e.2).bind fun kept => ih.bind fun others => .pure _

theorem items_simulates {step : Nat → Value → WalkM σ (Option Value)}
    {step' : Nat → Value → WalkM τ (Option Value)}
    (h : ∀ n v, Simulates S excused (step n v) (step' n v)) (n : Nat) (vs : List Value) :
    Simulates S excused (items step n vs) (items step' n vs) := by
  induction vs generalizing n with
  | nil => exact .pure []
  | cons v rest ih => exact (h n v).bind fun kept => (ih (n + 1)).bind fun others => .pure _

theorem fieldsWith_simulates
    (h : ∀ type field path v, Simulates S excused (node type field path v)
      (node' type field path v)) (keys : KeyTypes) (path : ElementId) (vs : Fields) :
    Simulates S excused (fieldsWith node keys path vs) (fieldsWith node' keys path vs) :=
  (entries_simulates (fun _ v => h _ _ _ v) vs).bind fun _ => .pure _

theorem itemsWith_simulates
    (h : ∀ type field path v, Simulates S excused (node type field path v)
      (node' type field path v)) (type : Option FieldType) (field : Option Field)
    (path : ElementId) (vs : List Value) :
    Simulates S excused (itemsWith node type field path vs) (itemsWith node' type field path vs) :=
  items_simulates (fun _ v => h _ _ _ v) 0 vs

end

section

variable {allowed : Failure → Prop} {node : NodeStep σ}

/-- What holds of the entries that are left, put together entry by entry. -/
theorem entries_ends {step : String → Value → WalkM σ (Option Value)}
    {Q : String × Value → Option Value → Prop} {P : Fields → Fields → Prop} (hnil : P [] [])
    (hkept : ∀ e rest v others, Q e (some v) → P rest others → P (e :: rest) ((e.1, v) :: others))
    (hdropped : ∀ e rest others, Q e none → P rest others → P (e :: rest) others) {vs : Fields}
    (h : ∀ e ∈ vs, Ends allowed (Q e) (step e.1 e.2)) :
    Ends allowed (P vs) (entries step vs) := by
  induction vs with
  | nil => exact .pure hnil
  | cons e rest ih =>
    obtain ⟨he, hrest⟩ := List.forall_mem_cons.mp h
    refine he.bind fun kept hQ => (ih hrest).bind fun others hP => .pure ?_
    cases kept with
    | some v => exact hkept e rest v others hQ hP
    | none => exact hdropped e rest others hQ hP

/-- What holds of the items that are left, put together item by item. -/
theorem items_ends {step : Nat → Value → WalkM σ (Option Value)}
    {Q : Value → Option Value → Prop} {P : List Value → List Value → Prop} (hnil : P [] [])
    (hkept : ∀ v rest v' others, Q v (some v') → P rest others → P (v :: rest) (v' :: others))
    (hdropped : ∀ v rest others, Q v none → P rest others → P (v :: rest) others) (n : Nat)
    {vs : List Value} (h : ∀ n, ∀ v ∈ vs, Ends allowed (Q v) (step n v)) :
    Ends allowed (P vs) (items step n vs) := by
  induction vs generalizing n with
  | nil => exact .pure hnil
  | cons v rest ih =>
    refine (h n v List.mem_cons_self).bind fun kept hQ => ?_
    refine (ih (n + 1) fun n v hv => h n v (List.mem_cons_of_mem _ hv)).bind fun others hP => ?_
    refine .pure ?_
    cases kept with
    | some v' => exact hkept v rest v' others hQ hP
    | none => exact hdropped v rest others hQ hP

/-- Nothing but failures is known of a walk over the entries of a map. -/
theorem fieldsWith_ends {keys : KeyTypes} {path : ElementId} {vs : Fields}
    (h : ∀ e ∈ vs, ∀ field path,
      Ends allowed (fun _ => True) (node (keys.lookup e.1).1 field path e.2)) :
    Ends allowed (fun _ => True) (fieldsWith node keys path vs) :=
  (entries_ends (P := fun _ _ => True) trivial (fun _ _ _ _ _ _ => trivial)
    (fun _ _ _ _ _ => trivial) fun e he => h e he _ _).bind fun _ _ => .pure trivial

/-- Nothing but failures is known of a walk over the items of a list. -/
theorem itemsWith_ends {type : Option FieldType} {field : Option Field} {path : ElementId}
    {vs : List Value}
    (h : ∀ v ∈ vs, ∀ path, Ends allowed (fun _ => True) (node type field path v)) :
    Ends allowed (fun _ => True) (itemsWith node type field path vs) :=
  items_ends (P := fun _ _ => True) trivial (fun _ _ _ _ _ _ => trivial)
    (fun _ _ _ _ _ => trivial) 0 fun _ v hv => h v hv _

end

/-! ## §3. Nodes. -/

/-- What a walk makes of a node that the visitor left. -/
def enter (registry : Registry) (strict : Bool) (visitor : Visitor σ) (depth : Nat) :
    NodeStep σ := fun type field path v =>
  match descent registry strict type field path v with
  | .error e => throw e
  | .ok (.stop v) => pure (some v)
  | .ok (.items vs type field) => do
    let kept ← itemsWith (node registry strict visitor depth) type field path vs
    pure (some (.list kept))
  | .ok (.entries vs keys) => do
    let kept ← fieldsWith (node registry strict visitor depth) keys path vs
    pure (kept.map .map)

theorem node_visited (registry : Registry) (strict : Bool) (visitor : Visitor σ) (depth : Nat)
    (type : Option FieldType) (field : Option Field) (path : ElementId) (v : Value) :
    node registry strict visitor (depth + 1) type field path v
      = visit visitor ⟨path, field⟩ v >>= fun left =>
        match left with
        | none => pure none
        | some v => enter registry strict visitor depth type field path v :=
  rfl

/-- Two walks do the same if their visitors do, except for failures that are excused: those of the
first one where it does not go on like the second one, and where it is not to go deeper. -/
theorem node_simulates {S : σ → τ → Prop} {excused : Failure → Prop} {registry : Registry}
    {strict strict' : Bool} {visitor : Visitor σ} {visitor' : Visitor τ}
    (hvisit : ∀ place v, Simulates S excused (visit visitor place v) (visit visitor' place v))
    (hdescent : ∀ type field path v,
      descent registry strict type field path v = descent registry strict' type field path v
        ∨ ∃ e, descent registry strict type field path v = .error e ∧ excused e)
    {depth depth' : Nat} (hdepth : depth = depth' ∨ (depth ≤ depth' ∧ excused .tooDeep))
    (type : Option FieldType) (field : Option Field) (path : ElementId) (v : Value) :
    Simulates S excused (node registry strict visitor depth type field path v)
      (node registry strict' visitor' depth' type field path v) := by
  induction depth generalizing depth' type field path v with
  | zero =>
    rcases hdepth with rfl | ⟨-, hexcused⟩
    · exact .throw .tooDeep
    · exact .excuse hexcused _
  | succ depth ih =>
    obtain ⟨depth', rfl⟩ : ∃ d, depth' = d + 1 := ⟨depth' - 1, by omega⟩
    have hbelow : depth = depth' ∨ (depth ≤ depth' ∧ excused .tooDeep) :=
      hdepth.imp (by omega) (And.imp_left (by omega))
    rw [node_visited, node_visited]
    refine (hvisit _ v).bind fun left => ?_
    cases left with
    | none => exact .pure none
    | some v =>
      show Simulates S excused (enter registry strict visitor depth type field path v)
        (enter registry strict' visitor' depth' type field path v)
      unfold enter
      rcases hdescent type field path v with hsame | ⟨e, he, hexcused⟩
      · rw [← hsame]
        cases descent registry strict type field path v with
        | error e => exact .throw e
        | ok d =>
          cases d with
          | stop v => exact .pure _
          | items vs type field =>
            exact (itemsWith_simulates (ih hbelow) type field path vs).bind fun _ => .pure _
          | entries vs keys =>
            exact (fieldsWith_simulates (ih hbelow) keys path vs).bind fun _ => .pure _
      · rw [he]
        exact .excuse hexcused _

end Walk

/-! ## §4. Bare values. -/

/-- Everything but lists, nothing, references and templates: what stands for a list with one item
where a list is declared. -/
def Value.isBare : Value → Bool
  | .null | .list _ | .reference _ | .template _ => false
  | _ => true

/-- The type declares a list. -/
def DeclaresList (type : Option FieldType) : Prop :=
  ∃ item, type = some (.list item)

mutual

/-- The second tree is the first one with each bare value, where a list is declared, put into a
list of its own; everything else is as it was. -/
inductive Wraps (registry : Registry) : Option FieldType → Value → Value → Prop where
  | bare {item : FieldType} {v w : Value} : v.isBare = true → Wraps registry (some item) v w →
      Wraps registry (some (.list item)) v (.list [w])
  | leaf {type : Option FieldType} {v : Value} : v.map? = none → v.list? = none →
      ¬(DeclaresList type ∧ v.isBare = true) → Wraps registry type v v
  | list {type : Option FieldType} {vs ws : List Value} :
      WrapsItems registry (itemType type) vs ws → Wraps registry type (.list vs) (.list ws)
  | map {type : Option FieldType} {vs ws : Fields} : ¬DeclaresList type →
      WrapsEntries registry (entryType registry type) vs ws →
      Wraps registry type (.map vs) (.map ws)

/-- Item by item the second list is the first one with bare values put into lists. -/
inductive WrapsItems (registry : Registry) : Option FieldType → List Value → List Value → Prop where
  | nil {type : Option FieldType} : WrapsItems registry type [] []
  | cons {type : Option FieldType} {v w : Value} {vs ws : List Value} : Wraps registry type v w →
      WrapsItems registry type vs ws → WrapsItems registry type (v :: vs) (w :: ws)

/-- Entry by entry the second map is the first one with bare values put into lists. -/
inductive WrapsEntries (registry : Registry) :
    (String → Option FieldType) → Fields → Fields → Prop where
  | nil {typeOf : String → Option FieldType} : WrapsEntries registry typeOf [] []
  | cons {typeOf : String → Option FieldType} {key : String} {v w : Value} {vs ws : Fields} :
      Wraps registry (typeOf key) v w → WrapsEntries registry typeOf vs ws →
      WrapsEntries registry typeOf ((key, v) :: vs) ((key, w) :: ws)

end

section

variable {registry : Registry} {type : Option FieldType}

theorem wrapsItems_self {vs : List Value} (h : ∀ v ∈ vs, Wraps registry type v v) :
    WrapsItems registry type vs vs := by
  induction vs with
  | nil => exact .nil
  | cons v rest ih =>
    obtain ⟨hv, hrest⟩ := List.forall_mem_cons.mp h
    exact .cons hv (ih hrest)

theorem wrapsEntries_self {typeOf : String → Option FieldType} {vs : Fields}
    (h : ∀ e ∈ vs, Wraps registry (typeOf e.1) e.2 e.2) : WrapsEntries registry typeOf vs vs := by
  induction vs with
  | nil => exact .nil
  | cons e rest ih =>
    obtain ⟨hv, hrest⟩ := List.forall_mem_cons.mp h
    exact .cons hv (ih hrest)

theorem not_declaresList_none : ¬DeclaresList none := by
  rintro ⟨item, h⟩
  exact absurd h nofun

/-- Where nothing is declared nothing is put into lists. -/
theorem Wraps.undeclared (registry : Registry) (v : Value) : Wraps registry none v v := by
  induction v using Value.member_induction with
  | map vs ih => exact .map not_declaresList_none (wrapsEntries_self ih)
  | list vs ih => exact .list (wrapsItems_self ih)
  | leaf v hmap hlist => exact .leaf hmap hlist fun h => not_declaresList_none h.1

/-- A list stays as it is unless it is declared as one. -/
theorem Wraps.undeclaredList (h : itemType type = none) (vs : List Value) :
    Wraps registry type (.list vs) (.list vs) := by
  refine .list (wrapsItems_self fun v _ => ?_)
  rw [h]
  exact .undeclared registry v

namespace Walk

/-- How a walk goes on with a node: it stops there, it enters a map or a list, or, where a list is
declared, it takes a bare value for the one item of a list. -/
inductive Enters (registry : Registry) (type : Option FieldType) : Value → Descent → Prop where
  | stop {v : Value} : Wraps registry type v v → Enters registry type v (.stop v)
  | items {vs : List Value} {field : Option Field} :
      Enters registry type (.list vs) (.items vs (itemType type) field)
  | item {item : FieldType} {v : Value} {field : Option Field} : type = some (.list item) →
      v.isBare = true → Enters registry type v (.items [v] (some item) field)
  | entries {vs : Fields} {keys : KeyTypes} : ¬DeclaresList type →
      (∀ key, (keys.lookup key).1 = entryType registry type key) →
      Enters registry type (.map vs) (.entries vs keys)

/-- Where no list is declared, a node without children is where the walk stops. -/
theorem stop_enters (hlists : ¬DeclaresList type) {v : Value} (hmap : v.map? = none)
    (hlist : v.list? = none) : Enters registry type v (.stop v) :=
  .stop (.leaf hmap hlist fun h => hlists h.1)

/-- Everything below a node is entered as if it had no type, if it has none. -/
theorem untyped_enters (hlists : ¬DeclaresList type) (hitem : itemType type = none)
    (hentry : ∀ key, entryType registry type key = none) (v : Value) :
    Enters registry type v (untyped v) := by
  cases v with
  | map vs => exact .entries hlists fun key => (hentry key).symm
  | list vs =>
    show Enters registry type (.list vs) (.items vs none none)
    rw [← hitem]
    exact .items
  | _ => exact stop_enters hlists rfl rfl

/-- **A walk goes on with a node in one of these ways**, strictly or not. -/
theorem descent_enters {strict : Bool} {field : Option Field} {path : ElementId} {v : Value}
    {d : Descent} (h : descent registry strict type field path v = .ok d) :
    Enters registry type v d := by
  have hlists {t : FieldType} (ht : t.isList = false) : ¬DeclaresList (some t) := by
    rintro ⟨item, ⟨⟩⟩
    exact absurd ht nofun
  match type with
  | none =>
    have huntyped : Enters registry none v (untyped v) :=
      untyped_enters not_declaresList_none rfl (fun _ => rfl) v
    cases v <;> obtain rfl := Except.ok.inj h <;> exact huntyped
  | some (.primitive kind) =>
    have huntyped : Enters registry (some (.primitive kind)) v (untyped v) :=
      untyped_enters (hlists rfl) rfl (fun _ => rfl) v
    -- maps and lists are mismatches unless the kind is unknown
    cases kind <;> cases v <;> cases strict <;>
      first | (obtain rfl := Except.ok.inj h; exact huntyped) | cases h
  | some (.list item) =>
    cases v with
    | list vs =>
      obtain rfl := Except.ok.inj h
      exact .items
    | null | reference | template =>
      obtain rfl := Except.ok.inj h
      exact .stop (.leaf rfl rfl fun h => absurd h.2 nofun)
    | bool | number | string | map =>
      cases strict with
      | true => cases h
      | false =>
        obtain rfl := Except.ok.inj h
        exact .item rfl rfl
  | some (.map value) =>
    cases v with
    | map vs =>
      obtain rfl := Except.ok.inj h
      exact .entries (hlists rfl) fun _ => rfl
    | list vs =>
      cases strict with
      | true => cases h
      | false =>
        obtain rfl := Except.ok.inj h
        exact .stop (.undeclaredList rfl vs)
    | _ =>
      cases strict <;> first
        | (obtain rfl := Except.ok.inj h; exact stop_enters (hlists rfl) rfl rfl)
        | cases h
  | some (.object name) =>
    cases v with
    | map vs =>
      unfold descent at h
      cases hfind : registry.find? name with
      | none =>
        simp only [hfind] at h
        obtain rfl := Except.ok.inj h
        refine untyped_enters (hlists rfl) rfl (fun key => ?_) _
        simp only [entryType, hfind, Option.bind_none]
      | some o =>
        simp only [hfind] at h
        obtain rfl := Except.ok.inj h
        refine .entries (hlists rfl) fun key => ?_
        simp only [entryType, hfind, Option.bind_some, KeyTypes.lookup_fields]
    | list vs =>
      cases strict with
      | true => cases h
      | false =>
        obtain rfl := Except.ok.inj h
        exact .stop (.undeclaredList rfl vs)
    | _ =>
      cases strict <;> first
        | (obtain rfl := Except.ok.inj h; exact stop_enters (hlists rfl) rfl rfl)
        | cases h

/-- A lenient walk always goes on with a node.  A strict walk goes on in the same way, or it fails
because the node does not have the shape that its type asks for. -/
theorem descent_lenient (registry : Registry) (type : Option FieldType) (field : Option Field)
    (path : ElementId) (v : Value) :
    ∃ d, descent registry false type field path v = .ok d
      ∧ (descent registry true type field path v = .ok d
        ∨ ∃ expected, descent registry true type field path v
            = .error (.schemaMismatch path expected v.shape)) := by
  match type with
  | none => cases v <;> exact ⟨_, rfl, .inl rfl⟩
  | some (.primitive kind) =>
    cases kind <;> cases v <;> first | exact ⟨_, rfl, .inl rfl⟩ | exact ⟨_, rfl, .inr ⟨_, rfl⟩⟩
  | some (.list _) | some (.map _) =>
    cases v <;> first | exact ⟨_, rfl, .inl rfl⟩ | exact ⟨_, rfl, .inr ⟨_, rfl⟩⟩
  | some (.object name) =>
    cases v with
    | map vs =>
      -- a map fits an object type, whether it is registered or not
      obtain ⟨d, hd⟩ : ∃ d, ∀ strict,
          descent registry strict (some (.object name)) field path (.map vs) = .ok d := by
        cases hfind : registry.find? name with
        | none => exact ⟨untyped (.map vs), fun _ => by simp only [descent, hfind]⟩
        | some o => exact ⟨.entries vs (.fields o), fun _ => by simp only [descent, hfind]⟩
      exact ⟨d, hd false, .inl (hd true)⟩
    | _ => first | exact ⟨_, rfl, .inl rfl⟩ | exact ⟨_, rfl, .inr ⟨_, rfl⟩⟩

/-- A walk only fails at a node because that does not have the shape that its type asks for. -/
theorem descent_error {strict : Bool} {field : Option Field} {path : ElementId} {v : Value}
    {e : Failure} (h : descent registry strict type field path v = .error e) :
    strict = true ∧ ∃ expected, e = .schemaMismatch path expected v.shape := by
  obtain ⟨d, hlenient, hstrict⟩ := descent_lenient registry type field path v
  cases strict with
  | false => exact absurd (h.symm.trans hlenient) nofun
  | true =>
    rcases hstrict with hsame | ⟨expected, hmismatch⟩
    · exact absurd (h.symm.trans hsame) nofun
    · exact ⟨rfl, expected, Except.error.inj (h.symm.trans hmismatch)⟩

end Walk

end

/-! ## §5. Depth. -/

namespace FieldType

/-- How many list types a type begins with. -/
def leadingLists : FieldType → Nat
  | .list item => item.leadingLists + 1
  | _ => 0

/-- How many list types stand directly inside each other, at most, anywhere within a type. -/
def stackedLists : FieldType → Nat
  | .list item => max item.stackedLists (item.leadingLists + 1)
  | .map value => value.stackedLists
  | _ => 0

theorem leadingLists_le_stackedLists (t : FieldType) : t.leadingLists ≤ t.stackedLists := by
  cases t with
  | list item => exact Nat.le_max_right _ _
  | primitive _ | map _ | object _ => exact Nat.zero_le _

/-- Map types between list types only make the nesting larger. -/
theorem stackedLists_le_listNesting (t : FieldType) : t.stackedLists ≤ t.listNesting := by
  induction t with
  | list item ih =>
    have hleading : item.leadingLists ≤ item.listNesting :=
      Nat.le_trans item.leadingLists_le_stackedLists ih
    exact Nat.max_le.mpr ⟨Nat.le_succ_of_le ih, Nat.succ_le_succ hleading⟩
  | map value ih => exact ih
  | primitive _ | object _ => exact Nat.le_refl 0

end FieldType

/-- How many list types stand directly inside each other where a type is declared. -/
def nestingOf (type : Option FieldType) : Nat :=
  type.elim 0 FieldType.stackedLists

/-- How many list types a declared type begins with. -/
def leadingOf (type : Option FieldType) : Nat :=
  type.elim 0 FieldType.leadingLists

theorem leadingOf_le_nestingOf (type : Option FieldType) : leadingOf type ≤ nestingOf type := by
  cases type with
  | none => exact Nat.le_refl 0
  | some t => exact t.leadingLists_le_stackedLists

/-- In no field of a registered type do more list types stand directly inside each other. -/
def Registry.NestsWithin (registry : Registry) (bound : Nat) : Prop :=
  ∀ name o, registry.find? name = some o → ∀ key, nestingOf (o.typeOf? key) ≤ bound

theorem nestingOf_itemType (type : Option FieldType) :
    nestingOf (itemType type) ≤ nestingOf type := by
  match type with
  | some (.list item) => exact Nat.le_max_left _ _
  | none | some (.primitive _) | some (.map _) | some (.object _) => exact Nat.zero_le _

theorem nestingOf_entryType {registry : Registry} {bound : Nat}
    (hregistry : registry.NestsWithin bound) {type : Option FieldType}
    (htype : nestingOf type ≤ bound) (key : String) :
    nestingOf (entryType registry type key) ≤ bound := by
  match type with
  | some (.map value) => exact htype
  | some (.object name) =>
    show nestingOf ((registry.find? name).bind fun o => o.typeOf? key) ≤ bound
    cases hfind : registry.find? name with
    | none => exact Nat.zero_le _
    | some o => exact hregistry name o hfind key
  | none | some (.primitive _) | some (.list _) => exact Nat.zero_le _

/-- Counting up to the largest of some numbers comes to a bound of them. -/
theorem le_foldl_max {f : α → Nat} {a : α} {xs : List α} (n : Nat) (h : a ∈ xs) :
    f a ≤ xs.foldl (fun n x => max n (f x)) n := by
  have hstart (xs : List α) (n : Nat) : n ≤ xs.foldl (fun n x => max n (f x)) n := by
    induction xs generalizing n with
    | nil => exact Nat.le_refl n
    | cons x rest ih => exact Nat.le_trans (Nat.le_max_left n (f x)) (ih _)
  induction xs generalizing n with
  | nil => exact absurd h List.not_mem_nil
  | cons x rest ih =>
    rcases List.mem_cons.mp h with rfl | hrest
    · exact Nat.le_trans (Nat.le_max_right n (f a)) (hstart rest _)
    · exact ih _ hrest

/-- The largest of some numbers is within each bound of them. -/
theorem foldl_max_le {f : α → Nat} {xs : List α} {n bound : Nat} (hn : n ≤ bound)
    (h : ∀ a ∈ xs, f a ≤ bound) : xs.foldl (fun n x => max n (f x)) n ≤ bound := by
  induction xs generalizing n with
  | nil => exact hn
  | cons x rest ih =>
    obtain ⟨hx, hrest⟩ := List.forall_mem_cons.mp h
    exact ih (Nat.max_le.mpr ⟨hn, hx⟩) hrest

/-- How many list types stand directly inside each other, at most, in the fields of an object type
and of the types that are registered. -/
def Walk.fieldNesting (registry : Registry) (o : ObjectType) : Nat :=
  ((o :: registry.map (·.2)).flatMap fun o => o.fields.map (·.2.type)).foldl
    (fun n t => max n t.stackedLists) 0

/-- It is a bound for the fields of the object type and of all types that are registered. -/
theorem fieldNesting_bounds (registry : Registry) (o : ObjectType) :
    registry.NestsWithin (Walk.fieldNesting registry o)
      ∧ ∀ key, nestingOf (o.typeOf? key) ≤ Walk.fieldNesting registry o := by
  have hmember {o' : ObjectType} (ho' : o' ∈ o :: registry.map (·.2)) (key : String) :
      nestingOf (o'.typeOf? key) ≤ Walk.fieldNesting registry o := by
    cases hfield : o'.field? key with
    | none => simp only [ObjectType.typeOf?, hfield, Option.map_none]; exact Nat.zero_le _
    | some f =>
      simp only [ObjectType.typeOf?, hfield, Option.map_some]
      have hdeclared : f.type ∈ o'.fields.map (·.2.type) :=
        List.mem_map.mpr ⟨(key, f), Dict.mem_of_get? hfield, rfl⟩
      refine le_foldl_max (f := FieldType.stackedLists) 0 (List.mem_flatMap.mpr ⟨o', ho', ?_⟩)
      exact hdeclared
  refine ⟨fun name o' hfind => hmember (List.mem_cons_of_mem o ?_), hmember List.mem_cons_self⟩
  exact List.mem_map.mpr ⟨(name, o'), Dict.mem_of_get? hfind, rfl⟩

/-- The bound that a walk is given takes in more: map types between the list types, and the types
of annotations. -/
theorem fieldNesting_le_listNesting (registry : Registry) (o : ObjectType) :
    Walk.fieldNesting registry o ≤ Walk.listNesting registry o := by
  refine foldl_max_le (Nat.zero_le _) fun t ht => Nat.le_trans t.stackedLists_le_listNesting ?_
  obtain ⟨o', ho', hdeclared⟩ := List.mem_flatMap.mp ht
  exact le_foldl_max 0 (List.mem_flatMap.mpr ⟨o', ho', List.mem_append_left _ hdeclared⟩)

/-- The bound that a walk is given holds for the fields of the object type and of all types that
are registered. -/
theorem listNesting_bounds (registry : Registry) (o : ObjectType) :
    registry.NestsWithin (Walk.listNesting registry o)
      ∧ ∀ key, nestingOf (o.typeOf? key) ≤ Walk.listNesting registry o := by
  obtain ⟨hregistry, ho⟩ := fieldNesting_bounds registry o
  have hle := fieldNesting_le_listNesting registry o
  exact ⟨fun name o' hfind key => Nat.le_trans (hregistry name o' hfind key) hle,
    fun key => Nat.le_trans (ho key) hle⟩

/-- It holds for the annotations of the object type as well. -/
theorem listNesting_annotations (registry : Registry) (o : ObjectType) (key : String) :
    nestingOf (Dict.get? o.annotationTypes key) ≤ Walk.listNesting registry o := by
  cases htype : Dict.get? o.annotationTypes key with
  | none => exact Nat.zero_le _
  | some type =>
    have hdeclared : type ∈ o.annotationTypes.map (·.2) :=
      List.mem_map.mpr ⟨(key, type), Dict.mem_of_get? htype, rfl⟩
    refine Nat.le_trans type.stackedLists_le_listNesting ?_
    exact le_foldl_max 0
      (List.mem_flatMap.mpr ⟨o, List.mem_cons_self, List.mem_append_right _ hdeclared⟩)

/-- A visitor that makes no node larger. -/
def Visitor.Shrinks (visitor : Visitor σ) : Prop :=
  ∀ place v s v', (visitor place v s).1 = some v' → v'.nodeCount ≤ v.nodeCount

namespace Walk

/-- With a number of levels for each node there are enough for each tree with no more nodes. -/
theorem levels_lt {w : Value} {type : Option FieldType} {bound n : Nat} (hw : w.nodeCount ≤ n)
    (htype : nestingOf type ≤ bound) :
    (w.nodeCount - 1) * (1 + bound) + leadingOf type < n * (1 + bound) := by
  have hleading : leadingOf type ≤ bound := Nat.le_trans (leadingOf_le_nestingOf type) htype
  calc (w.nodeCount - 1) * (1 + bound) + leadingOf type
      < (w.nodeCount - 1) * (1 + bound) + (1 + bound) := by omega
    _ = w.nodeCount * (1 + bound) := by
      rw [← Nat.succ_mul, Nat.succ_eq_add_one, Nat.sub_add_cancel w.nodeCount_pos]
    _ ≤ n * (1 + bound) := Nat.mul_le_mul_right _ hw

/-- **A visitor that makes no node larger comes to an end.**  Each step down leaves the node behind,
or, where a bare value is taken for the item of a list, one list type. -/
theorem node_ends {registry : Registry} {bound : Nat} (hregistry : registry.NestsWithin bound)
    {visitor : Visitor σ} (hvisitor : visitor.Shrinks) (strict : Bool) {depth : Nat}
    {type : Option FieldType} (htype : nestingOf type ≤ bound) {v : Value}
    (hdepth : (v.nodeCount - 1) * (1 + bound) + leadingOf type < depth)
    (field : Option Field) (path : ElementId) :
    Ends (· ≠ .tooDeep) (fun _ => True) (node registry strict visitor depth type field path v) := by
  induction depth generalizing type v field path with
  | zero => exact absurd hdepth (Nat.not_lt_zero _)
  | succ depth ih =>
    rw [node_visited]
    have hvisit : Ends (· ≠ .tooDeep) (fun r => ∀ v', r = some v' → v'.nodeCount ≤ v.nodeCount)
        (visit visitor ⟨path, field⟩ v) :=
      .visit fun s v' => hvisitor _ v s v'
    refine hvisit.bind fun left hleft => ?_
    cases left with
    | none => exact .pure trivial
    | some v' =>
      have hsmaller : v'.nodeCount ≤ v.nodeCount := hleft v' rfl
      show Ends (· ≠ .tooDeep) (fun _ => True)
        (enter registry strict visitor depth type field path v')
      unfold enter
      -- what is inside of the node has fewer nodes than the node
      have hinside {w : Value} {t : Option FieldType} (hw : w.nodeCount < v'.nodeCount)
          (ht : nestingOf t ≤ bound) : (w.nodeCount - 1) * (1 + bound) + leadingOf t < depth := by
        have hlevels : (w.nodeCount - 1) * (1 + bound) + leadingOf t
            < (v.nodeCount - 1) * (1 + bound) := levels_lt (by omega) ht
        omega
      cases hdescent : descent registry strict type field path v' with
      | error e =>
        obtain ⟨-, expected, rfl⟩ := descent_error hdescent
        exact .throw nofun
      | ok d =>
        cases descent_enters hdescent with
        | stop _ => exact .pure trivial
        | items =>
          refine (itemsWith_ends fun w hw path => ?_).bind fun _ _ => .pure trivial
          have hcount := Value.nodeCount_le_itemCount hw
          have ht := Nat.le_trans (nestingOf_itemType type) htype
          exact ih ht (hinside (by simp only [Value.nodeCount]; omega) ht) _ path
        | @item item _ _ hlist _ =>
          refine (itemsWith_ends fun w hw path => ?_).bind fun _ _ => .pure trivial
          obtain rfl := List.mem_singleton.mp hw
          subst hlist
          have hnested : leadingOf (some (.list item)) = leadingOf (some item) + 1 := rfl
          have ht : nestingOf (some item) ≤ bound :=
            Nat.le_trans (nestingOf_itemType (some (.list item))) htype
          have hproduct : (w.nodeCount - 1) * (1 + bound) ≤ (v.nodeCount - 1) * (1 + bound) :=
            Nat.mul_le_mul_right _ (by omega)
          exact ih ht (by omega) _ path
        | entries _ hkeys =>
          refine (fieldsWith_ends fun e he field path => ?_).bind fun _ _ => .pure trivial
          have hcount := Value.nodeCount_le_entryCount he
          have ht := nestingOf_entryType hregistry htype e.1
          rw [hkeys]
          exact ih ht (hinside (by simp only [Value.nodeCount]; omega) ht) field path

/-- So does a walk over the entries of a map, within a number of levels for each node. -/
theorem fieldsWith_ends_within {registry : Registry} {bound : Nat}
    (hregistry : registry.NestsWithin bound) {visitor : Visitor σ} (hvisitor : visitor.Shrinks)
    (strict : Bool) {keys : KeyTypes} (hkeys : ∀ key, nestingOf (keys.lookup key).1 ≤ bound)
    {vs : Fields} {depth : Nat} (hdepth : Value.entryCount vs * (1 + bound) ≤ depth)
    (path : ElementId) :
    Ends (· ≠ .tooDeep) (fun _ => True)
      (fieldsWith (node registry strict visitor depth) keys path vs) := by
  refine fieldsWith_ends fun e he field path => ?_
  refine node_ends hregistry hvisitor strict (hkeys e.1) ?_ field path
  exact Nat.lt_of_lt_of_le (levels_lt (Value.nodeCount_le_entryCount he) (hkeys e.1)) hdepth

end Walk

end AccountSync
