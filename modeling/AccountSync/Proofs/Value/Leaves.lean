/-
  AccountSync.Proofs.Value.Leaves
  ───────────────────────────────
  **WHAT REPLACING THE LEAVES OF A PATH DOES, POSITION BY POSITION.**

  A path of keys leads to many positions, as it goes into every item of the lists on its
  way.  Replacing its leaves replaces what is at these positions; what is neither above nor
  below one of them stays.  Paths with different keys never lead to the same position, so
  one of them finds what it leads to whatever the other one has replaced.

      valueAt?          — the value at a position of keys and numbers of items
      Leads             — a path leads to a leaf at a position
      Leads.replaced    — the leaf is replaced
      Leads.spared      — another path spares it
      Clear             — a position that a path stays away from
      Clear.unchanged   — nothing changes there
      Clear.after       — and other paths stay away from it still
      replaceAll        — the leaves of several paths, path after path
-/
import AccountSync.Proofs.Value.Paths
import AccountSync.Value.Leaves

namespace AccountSync

/-! ## §1. Dictionaries with one value replaced. -/

namespace Dict

variable {α : Type}

theorem get?_modify_self (d : Dict α) (key : String) (f : α → α) :
    get? (modify d key f) key = (get? d key).map f := by
  induction d with
  | nil => rfl
  | cons e rest ih =>
    obtain ⟨k, v⟩ := e
    unfold modify
    split
    next heq => rw [heq, get?_cons_self, get?_cons_self, Option.map_some]
    next hne => rw [get?_cons_of_ne hne, get?_cons_of_ne hne, ih]

theorem get?_modify_of_ne (d : Dict α) {key other : String} (h : key ≠ other) (f : α → α) :
    get? (modify d key f) other = get? d other := by
  induction d with
  | nil => rfl
  | cons e rest ih =>
    obtain ⟨k, v⟩ := e
    unfold modify
    split
    next heq => rw [get?_cons_of_ne (heq ▸ h), get?_cons_of_ne (heq ▸ h)]
    · by_cases hk : k = other
      · rw [hk, get?_cons_self, get?_cons_self]
      · rw [get?_cons_of_ne hk, get?_cons_of_ne hk, ih]

/-- A value that is replaced by itself makes no difference. -/
theorem modify_of_get? {d : Dict α} {key : String} {f : α → α}
    (h : ∀ v, get? d key = some v → f v = v) : modify d key f = d := by
  induction d with
  | nil => rfl
  | cons e rest ih =>
    obtain ⟨k, v⟩ := e
    unfold modify
    split
    next heq =>
      subst heq
      rw [h v (get?_cons_self k v rest)]
    next hne =>
      rw [ih fun u hu => h u ((get?_cons_of_ne hne v rest).trans hu)]

/-- Where each key is there once, a value is replaced in one entry. -/
theorem Sorted.modify_eq_map {d : Dict α} (h : Sorted d) (key : String)
    (f : α → α) : modify d key f = d.map (fun e => (e.1, if e.1 = key then f e.2 else e.2)) := by
  induction d with
  | nil => rfl
  | cons e rest ih =>
    obtain ⟨k, v⟩ := e
    rw [List.map_cons, ← ih h.tail]
    show (if k = key then (k, f v) :: rest else (k, v) :: modify rest key f) = _
    by_cases hk : k = key
    · subst hk
      -- the key is not there a second time
      have hrest : modify rest k f = rest := by
        refine modify_of_get? fun u hu => ?_
        have hmem : k ∈ keys rest := List.mem_map_of_mem (mem_of_get? hu)
        exact absurd (h.lt_of_mem hmem) (String.lt_irrefl k)
      simp [hrest]
    · simp [hk]

end Dict

namespace Value

/-! ## §2. Positions. -/

/-- What selects a child of a tree: a key of a map, or the number of an item of a list. -/
inductive Selector where
  | key (name : String)
  | item (n : Nat)
deriving DecidableEq

/-- A selector as a component of an identifier. -/
def Selector.text : Selector → String
  | .key name => name
  | .item n => positionText n

/-- Selectors from the root of a tree downwards. -/
abbrev Position := List Selector

/-- The child that a selector selects. -/
def select? : Value → Selector → Option Value
  | .map entries, .key name => Dict.get? entries name
  | .list items, .item n => items[n]?
  | _, _ => none

/-- The value at a position. -/
def valueAt? : Value → Position → Option Value
  | v, [] => some v
  | v, s :: rest => (select? v s).bind (fun c => valueAt? c rest)

/-! ## §3. Trees with leaves replaced. -/

/-- Null, a truth value, a number or a text. -/
def isScalar : Value → Bool
  | .null => true
  | .bool _ => true
  | .number _ => true
  | .string _ => true
  | _ => false

/-- The function replaces nothing but scalars. -/
def OnScalars (f : Value → Value) : Prop :=
  ∀ v : Value, v.isScalar = false → f v = v

variable {f : Value → Value} {path : List String} {v leaf : Value}

theorem mapItemLeaves_eq_map (f : Value → Value) (path : List String) (items : List Value) :
    mapItemLeaves f path items = items.map (mapLeavesAt f path) := by
  induction items with
  | nil => rfl
  | cons v rest ih =>
    unfold mapItemLeaves
    rw [ih, List.map_cons]

theorem mapEntryLeaves_eq_modify (f : Value → Value) (key : String) (path : List String)
    (entries : Fields) :
    mapEntryLeaves f key path entries = Dict.modify entries key (mapLeavesAt f path) := by
  induction entries with
  | nil => rfl
  | cons e rest ih =>
    obtain ⟨k, v⟩ := e
    unfold mapEntryLeaves Dict.modify
    rw [ih]

theorem mapLeavesAt_list (f : Value → Value) (path : List String) (items : List Value) :
    mapLeavesAt f path (.list items) = .list (items.map (mapLeavesAt f path)) := by
  unfold mapLeavesAt
  rw [mapItemLeaves_eq_map]

theorem mapLeavesAt_map (f : Value → Value) (key : String) (path : List String)
    (entries : Fields) :
    mapLeavesAt f (key :: path) (.map entries)
      = .map (Dict.modify entries key (mapLeavesAt f path)) := by
  unfold mapLeavesAt
  rw [mapEntryLeaves_eq_modify]

theorem mapLeavesAt_nil (f : Value → Value) (h : v.list? = none) : mapLeavesAt f [] v = f v := by
  cases v with
  | list items => exact absurd h nofun
  | _ => rfl

/-- A path with a key ends at what is no map. -/
theorem mapLeavesAt_cons (f : Value → Value) (key : String) (path : List String)
    (hmap : v.map? = none) (hlist : v.list? = none) : mapLeavesAt f (key :: path) v = v := by
  cases v with
  | map entries => exact absurd hmap nofun
  | list items => exact absurd hlist nofun
  | _ => rfl

theorem leavesAt_list (path : List String) (items : List Value) :
    leavesAt path (.list items) = items.flatMap (leavesAt path) := by
  unfold leavesAt
  induction items with
  | nil => rfl
  | cons v rest ih =>
    unfold itemLeaves
    rw [ih, List.flatMap_cons]

theorem leavesAt_map (key : String) (path : List String) (entries : Fields) :
    leavesAt (key :: path) (.map entries)
      = ((Dict.get? entries key).map (leavesAt path)).getD [] := by
  unfold leavesAt
  induction entries with
  | nil => rfl
  | cons e rest ih =>
    obtain ⟨k, v⟩ := e
    unfold entryLeaves Dict.get?
    split
    · rfl
    · exact ih

/-- Leaves that are replaced by themselves make no difference. -/
theorem mapLeavesAt_of_fixed (h : ∀ leaf ∈ v.leavesAt path, f leaf = leaf) :
    mapLeavesAt f path v = v := by
  induction v using member_induction generalizing path with
  | map entries ih =>
    cases path with
    | nil => exact (mapLeavesAt_nil f rfl).trans (h _ (List.mem_singleton_self _))
    | cons key path =>
      rw [leavesAt_map] at h
      rw [mapLeavesAt_map, Dict.modify_of_get?]
      intro c hc
      rw [hc] at h
      exact ih (key, c) (Dict.mem_of_get? hc) h
  | list items ih =>
    rw [leavesAt_list] at h
    rw [mapLeavesAt_list]
    refine congrArg Value.list ((List.map_congr_left fun c hc => ?_).trans (List.map_id items))
    exact ih c hc fun leaf hleaf => h leaf (List.mem_flatMap_of_mem hc hleaf)
  | leaf v hmap hlist =>
    cases path with
    | cons key path => exact mapLeavesAt_cons f key path hmap hlist
    | nil =>
      rw [mapLeavesAt_nil f hlist]
      refine h v ?_
      cases v with
      | list items => exact absurd hlist nofun
      | _ => exact List.mem_singleton_self _

/-! ## §4. Where a path leads. -/

/-- Along the keys of a path, and into any item of each list on the way, one comes to a leaf at a
position. -/
inductive Leads : List String → Value → Position → Value → Prop
  | here {v : Value} : v.list? = none → Leads [] v [] v
  | item {path : List String} {position : Position} {items : List Value} {n : Nat}
      {v leaf : Value} :
      items[n]? = some v → Leads path v position leaf →
      Leads path (.list items) (.item n :: position) leaf
  | entry {path : List String} {position : Position} {entries : Fields} {key : String}
      {v leaf : Value} :
      Dict.get? entries key = some v → Leads path v position leaf →
      Leads (key :: path) (.map entries) (.key key :: position) leaf

variable {position : Position}

namespace Leads

/-- The leaf is what is at the position. -/
theorem valueAt? (h : Leads path v position leaf) : v.valueAt? position = some leaf := by
  induction h with
  | here => rfl
  | @item path position items n v leaf hchild _ ih =>
    show (items[n]?).bind _ = _
    rw [hchild]
    exact ih
  | @entry path position entries key v leaf hchild _ ih =>
    show (Dict.get? entries key).bind _ = _
    rw [hchild]
    exact ih

/-- The leaf is replaced, and unless it became a list the path leads to what it was replaced by. -/
theorem replaced (h : Leads path v position leaf) (hlist : (f leaf).list? = none) :
    Leads path (v.mapLeavesAt f path) position (f leaf) := by
  induction h with
  | here hv =>
    rw [mapLeavesAt_nil f hv]
    exact .here hlist
  | item hchild _ ih =>
    rw [mapLeavesAt_list]
    refine .item ?_ (ih hlist)
    rw [List.getElem?_map, hchild, Option.map_some]
  | entry hchild _ ih =>
    rw [mapLeavesAt_map]
    refine .entry ?_ (ih hlist)
    rw [Dict.get?_modify_self, hchild, Option.map_some]

/-- A path with other keys does not touch the leaf, unless it goes on inside. -/
theorem spared (h : Leads path v position leaf) (hmap : leaf.map? = none) (hf : OnScalars f)
    {other : List String} (hne : path ≠ other) :
    Leads path (v.mapLeavesAt f other) position leaf := by
  -- the other path goes along with this one for as long as they have the same keys
  induction h generalizing other with
  | @here v hv =>
    cases other with
    | nil => exact absurd rfl hne
    | cons key other =>
      rw [mapLeavesAt_cons f key other hmap hv]
      exact .here hv
  | item hchild _ ih =>
    rw [mapLeavesAt_list]
    refine .item ?_ (ih hmap hne)
    rw [List.getElem?_map, hchild, Option.map_some]
  | @entry path position entries key v leaf hchild hleads ih =>
    cases other with
    | nil =>
      rw [mapLeavesAt_nil f rfl, hf (.map entries) rfl]
      exact .entry hchild hleads
    | cons key' other =>
      rw [mapLeavesAt_map]
      by_cases hkey : key' = key
      · subst hkey
        refine .entry ?_ (ih hmap fun heq => hne (heq ▸ rfl))
        rw [Dict.get?_modify_self, hchild, Option.map_some]
      · refine .entry ?_ hleads
        rw [Dict.get?_modify_of_ne entries hkey, hchild]

end Leads

/-! ## §5. Positions that a path stays away from. -/

/-- The path leads to no scalar at the position, above it or below it. -/
def Clear (path : List String) (v : Value) (position : Position) : Prop :=
  ∀ other leaf, Leads path v other leaf → leaf.isScalar = true →
    ¬other <+: position ∧ ¬position <+: other

/-- Where there is no child, a path that stays away from a position leaves all as it is. -/
theorem mapLeavesAt_leaf (hf : OnScalars f) (h : Clear path v position) (hmap : v.map? = none)
    (hlist : v.list? = none) : mapLeavesAt f path v = v := by
  cases path with
  | cons key path => exact mapLeavesAt_cons f key path hmap hlist
  | nil =>
    rw [mapLeavesAt_nil f hlist]
    refine hf v (Bool.eq_false_iff.mpr fun hscalar => ?_)
    exact (h [] v (.here hlist) hscalar).1 List.nil_prefix

/-- A path that leads to no scalar leaves the tree as it is. -/
theorem mapLeavesAt_of_clear (hf : OnScalars f) (h : Clear path v []) :
    mapLeavesAt f path v = v := by
  induction v using member_induction generalizing path with
  | map entries ih =>
    cases path with
    | nil => exact (mapLeavesAt_nil f rfl).trans (hf (.map entries) rfl)
    | cons key path =>
      rw [mapLeavesAt_map, Dict.modify_of_get?]
      intro c hc
      refine ih (key, c) (Dict.mem_of_get? hc) fun other leaf hleads hscalar => ?_
      exact absurd List.nil_prefix (h (.key key :: other) leaf (.entry hc hleads) hscalar).2
  | list items ih =>
    rw [mapLeavesAt_list]
    refine congrArg Value.list ((List.map_congr_left fun c hc => ?_).trans (List.map_id items))
    obtain ⟨n, hn⟩ := List.mem_iff_getElem?.mp hc
    refine ih c hc fun other leaf hleads hscalar => ?_
    exact absurd List.nil_prefix (h (.item n :: other) leaf (.item hn hleads) hscalar).2
  | leaf v hmap hlist => exact mapLeavesAt_leaf hf h hmap hlist

/-- A path stays away from a position in a list if it stays away from it in the item. -/
theorem clear_list_iff {items : List Value} {s : Selector} :
    Clear path (.list items) (s :: position)
      ↔ ∀ c, select? (.list items) s = some c → Clear path c position := by
  constructor
  · intro h c hc other leaf hleads hscalar
    cases s with
    | key name => exact absurd hc nofun
    | item n =>
      have hapart := h (.item n :: other) leaf (.item hc hleads) hscalar
      rwa [List.prefix_cons_inj, List.prefix_cons_inj] at hapart
  · intro h other leaf hleads hscalar
    cases hleads with
    | here hlist => exact absurd hlist nofun
    | @item _ other _ n c _ hc hleads =>
      rw [List.cons_prefix_cons, List.cons_prefix_cons]
      by_cases hn : Selector.item n = s
      · subst hn
        obtain ⟨habove, hbelow⟩ := h c hc other leaf hleads hscalar
        exact ⟨fun hpre => habove hpre.2, fun hpre => hbelow hpre.2⟩
      · exact ⟨fun hpre => hn hpre.1, fun hpre => hn hpre.1.symm⟩

/-- In a map only the entry counts that the path names. -/
theorem clear_map_iff {entries : Fields} {key : String} {s : Selector} :
    Clear (key :: path) (.map entries) (s :: position)
      ↔ s = .key key → ∀ c, Dict.get? entries key = some c → Clear path c position := by
  constructor
  · rintro h rfl c hc other leaf hleads hscalar
    have hapart := h (.key key :: other) leaf (.entry hc hleads) hscalar
    rwa [List.prefix_cons_inj, List.prefix_cons_inj] at hapart
  · intro h other leaf hleads hscalar
    cases hleads with
    | @entry _ other _ _ c _ hc hleads =>
      rw [List.cons_prefix_cons, List.cons_prefix_cons]
      by_cases hkey : s = .key key
      · obtain ⟨habove, hbelow⟩ := h hkey c hc other leaf hleads hscalar
        exact ⟨fun hpre => habove hpre.2, fun hpre => hbelow hpre.2⟩
      · exact ⟨fun hpre => hkey hpre.1.symm, fun hpre => hkey hpre.1⟩

/-- A path that ends at a map leads to no scalar. -/
theorem clear_nil_map (entries : Fields) (position : Position) :
    Clear [] (.map entries) position := by
  intro other leaf hleads hscalar
  cases hleads with
  | here => exact absurd hscalar nofun

namespace Clear

/-- Nothing changes at a position that the path stays away from. -/
theorem unchanged (h : Clear path v position) (hf : OnScalars f) :
    (v.mapLeavesAt f path).valueAt? position = v.valueAt? position := by
  induction position generalizing path v with
  | nil => rw [mapLeavesAt_of_clear hf h]
  | cons s position ih =>
    cases v with
    | map entries =>
      cases path with
      | nil => rw [mapLeavesAt_nil f rfl, hf (.map entries) rfl]
      | cons key path =>
        rw [clear_map_iff] at h
        rw [mapLeavesAt_map]
        cases s with
        | item n => rfl
        | key name =>
          show (Dict.get? (Dict.modify entries key _) name).bind _ = (Dict.get? entries name).bind _
          by_cases hkey : key = name
          · subst hkey
            rw [Dict.get?_modify_self]
            cases hc : Dict.get? entries key with
            | none => rfl
            | some c => exact ih (h rfl c hc)
          · rw [Dict.get?_modify_of_ne entries hkey]
    | list items =>
      rw [clear_list_iff] at h
      rw [mapLeavesAt_list]
      cases s with
      | key name => rfl
      | item n =>
        show ((items.map _)[n]?).bind _ = (items[n]?).bind _
        rw [List.getElem?_map]
        cases hc : items[n]? with
        | none => rfl
        | some c => exact ih (h c hc)
    | _ => rw [mapLeavesAt_leaf hf h rfl rfl]

/-- Replacing leaves of another path that stays away from the position brings the path no nearer
to it. -/
theorem after {other : List String} (h : Clear path v position) (hother : Clear other v position)
    (hf : OnScalars f) : Clear path (v.mapLeavesAt f other) position := by
  induction position generalizing path other v with
  | nil => rwa [mapLeavesAt_of_clear hf hother]
  | cons s position ih =>
    cases v with
    | map entries =>
      cases other with
      | nil => rwa [mapLeavesAt_nil f rfl, hf (.map entries) rfl]
      | cons key' other =>
        rw [clear_map_iff] at hother
        rw [mapLeavesAt_map]
        cases path with
        | nil => exact clear_nil_map _ _
        | cons key path =>
          rw [clear_map_iff] at h ⊢
          intro hkey c hc
          by_cases hkeys : key' = key
          · subst hkeys
            rw [Dict.get?_modify_self] at hc
            obtain ⟨c₀, hc₀, rfl⟩ := Option.map_eq_some_iff.mp hc
            exact ih (h hkey c₀ hc₀) (hother hkey c₀ hc₀)
          · rw [Dict.get?_modify_of_ne entries hkeys] at hc
            exact h hkey c hc
    | list items =>
      rw [clear_list_iff] at hother
      rw [mapLeavesAt_list]
      rw [clear_list_iff] at h ⊢
      intro c hc
      cases s with
      | key name => exact absurd hc nofun
      | item n =>
        have hc' : (items.map (mapLeavesAt f other))[n]? = some c := hc
        rw [List.getElem?_map] at hc'
        obtain ⟨c₀, hc₀, rfl⟩ := Option.map_eq_some_iff.mp hc'
        exact ih (h c₀ hc₀) (hother c₀ hc₀)
    | _ => rwa [mapLeavesAt_leaf hf hother rfl rfl]

end Clear

/-! ## §6. Several paths, one after the other. -/

/-- What becomes of the leaves of a path. -/
structure Replacement where
  path : List String
  value : Value → Value

/-- The tree with the leaves of several paths replaced, path after path. -/
def replaceAll (steps : List Replacement) (v : Value) : Value :=
  steps.foldl (fun v step => v.mapLeavesAt step.value step.path) v

variable {steps : List Replacement}

/-- Other paths spare the leaf. -/
theorem Leads.spared_all (h : Leads path v position leaf) (hmap : leaf.map? = none)
    (hsteps : ∀ step ∈ steps, OnScalars step.value ∧ step.path ≠ path) :
    Leads path (v.replaceAll steps) position leaf := by
  induction steps generalizing v with
  | nil => exact h
  | cons step rest ih =>
    obtain ⟨⟨hf, hne⟩, hrest⟩ := List.forall_mem_cons.mp hsteps
    exact ih (h.spared hmap hf hne.symm) hrest

/-- At a position that all paths stay away from nothing changes. -/
theorem Clear.unchanged_all
    (h : ∀ step ∈ steps, OnScalars step.value ∧ Clear step.path v position) :
    (v.replaceAll steps).valueAt? position = v.valueAt? position := by
  induction steps generalizing v with
  | nil => rfl
  | cons step rest ih =>
    obtain ⟨⟨hf, hclear⟩, hrest⟩ := List.forall_mem_cons.mp h
    refine (ih fun other hother => ?_).trans (hclear.unchanged hf)
    obtain ⟨hf', hclear'⟩ := hrest other hother
    exact ⟨hf', hclear'.after hclear hf⟩

theorem replaceAll_append (first second : List Replacement) (v : Value) :
    v.replaceAll (first ++ second) = (v.replaceAll first).replaceAll second :=
  List.foldl_append

end Value

end AccountSync
