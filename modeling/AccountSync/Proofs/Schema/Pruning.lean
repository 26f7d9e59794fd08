/-
  AccountSync.Proofs.Schema.Pruning
  ─────────────────────────────────
  **A WALK THAT DROPS NODES DROPS NOTHING ELSE.**

  A visitor that keeps or drops each node, and changes none, is asked about every node that is
  not inside of a dropped one, once and in order.  The position of an item is the one that it
  has in the list as it was, whatever was dropped in front of it.  What comes out is the tree
  without the dropped nodes.

      Walk.sieve            — a visitor that keeps and drops, and writes down what it is asked
      Walk.Records          — what comes of a walk, and what is written down on it
      Walk.node_prunes      — what comes of a node
      Walk.prunes_exactly   — what comes of the fields of an element
-/
import AccountSync.Proofs.Change.Located
import AccountSync.Proofs.Schema.Descent
import AccountSync.Proofs.Value.Pruned

namespace AccountSync

open Value (Choice Position Selector positionText pruned prunedEntries prunedFields prunedItems
  visited visitedEntries visitedIn visitedItems)

namespace Walk

variable {α β : Type} {registry : Registry} {type : Option FieldType}
  {keep : ElementId → Value → Bool}

/-! ## §1. A visitor that keeps and drops. -/

/-- Keeps a node or drops it, and writes down about which node it is asked and what is there. -/
def sieve (keep : ElementId → Value → Bool) : Visitor (List (ElementId × Value)) :=
  fun place v log => (if keep place.path v then some v else none, log ++ [(place.path, v)])

/-- The walk has a result, and on it the visitor is asked about the given nodes. -/
def Records (x : WalkM (List (ElementId × Value)) α) (r : α)
    (asked : List (ElementId × Value)) : Prop :=
  ∀ log, x.run log = (.ok r, log ++ asked)

namespace Records

variable {x : WalkM (List (ElementId × Value)) α} {a : α} {b : β}
  {asked later : List (ElementId × Value)}

theorem pure (a : α) : Records (Pure.pure a : WalkM (List (ElementId × Value)) α) a [] := by
  intro log
  rw [List.append_nil]
  rfl

theorem bind {f : α → WalkM (List (ElementId × Value)) β} (hx : Records x a asked)
    (hf : Records (f a) b later) : Records (x >>= f) b (asked ++ later) := by
  intro log
  rw [run_bind, hx log, ← List.append_assoc]
  exact hf (log ++ asked)

theorem map (hx : Records x a asked) (f : α → β) :
    Records (x >>= fun a => Pure.pure (f a)) (f a) asked := by
  intro log
  rw [run_bind, hx log]
  rfl

end Records

theorem visit_records (keep : ElementId → Value → Bool) (place : VisitedNode) (v : Value) :
    Records (visit (sieve keep) place v) (if keep place.path v then some v else none)
      [(place.path, v)] :=
  fun _ => rfl

/-! ## §2. Entries and items. -/

/-- Which nodes are kept below a position, where it is decided by what is at which place. -/
def choice (keep : ElementId → Value → Bool) (root : ElementId) (here : Position) : Choice :=
  fun p v => keep (root.placeOf (here ++ p)) v

/-- What the visitor writes down about a node below a position. -/
def noted (root : ElementId) (here : Position) (n : Position × Value) : ElementId × Value :=
  (root.placeOf (here ++ n.1), n.2)

/-- The walk takes the tree at a position for the tree without the nodes that are dropped, and
asks about the nodes that are not inside of a dropped one. -/
def Prunes (keep : ElementId → Value → Bool) (root : ElementId) (here : Position) (v : Value)
    (x : WalkM (List (ElementId × Value)) (Option Value)) : Prop :=
  Records x (pruned (choice keep root here) v)
    ((visited (choice keep root here) v).map (noted root here))

variable {root : ElementId} {here : Position}

theorem choice_under (s : Selector) :
    (choice keep root here).under s = choice keep root (here ++ [s]) := by
  funext p v
  show keep (root.placeOf (here ++ s :: p)) v = keep (root.placeOf (here ++ [s] ++ p)) v
  rw [List.append_cons]

/-- What is written down about a child is written down about the node. -/
theorem Prunes.child {s : Selector} {v : Value}
    {x : WalkM (List (ElementId × Value)) (Option Value)} (h : Prunes keep root (here ++ [s]) v x) :
    Records x (pruned ((choice keep root here).under s) v)
      ((visitedIn (choice keep root here) (s, v)).map (noted root here)) := by
  have hnoted : noted root here ∘ s.over = noted root (here ++ [s]) := by
    funext n
    show (root.placeOf (here ++ s :: n.1), n.2) = (root.placeOf (here ++ [s] ++ n.1), n.2)
    rw [List.append_cons]
  unfold visitedIn
  rw [choice_under, List.map_map, hnoted]
  exact h

theorem entries_prunes
    {step : String → Value → WalkM (List (ElementId × Value)) (Option Value)} {vs : Fields}
    (h : ∀ e ∈ vs, Prunes keep root (here ++ [.key e.1]) e.2 (step e.1 e.2)) :
    Records (entries step vs) (prunedEntries (choice keep root here) vs)
      ((visitedEntries (choice keep root here) vs).map (noted root here)) := by
  induction vs with
  | nil => exact .pure []
  | cons e rest ih =>
    obtain ⟨key, v⟩ := e
    obtain ⟨hv, hrest⟩ := List.forall_mem_cons.mp h
    unfold entries visitedEntries prunedEntries
    rw [List.map_append]
    exact hv.child.bind ((ih hrest).map _)

theorem items_prunes
    {step : Nat → Value → WalkM (List (ElementId × Value)) (Option Value)} {vs : List Value}
    (n : Nat) (h : ∀ n, ∀ v ∈ vs, Prunes keep root (here ++ [.item n]) v (step n v)) :
    Records (items step n vs) (prunedItems (choice keep root here) n vs)
      ((visitedItems (choice keep root here) n vs).map (noted root here)) := by
  induction vs generalizing n with
  | nil => exact .pure []
  | cons v rest ih =>
    have hrest := ih (n + 1) fun n v hv => h n v (List.mem_cons_of_mem _ hv)
    unfold items visitedItems prunedItems
    rw [List.map_append]
    exact (h n v List.mem_cons_self).child.bind (hrest.map _)

theorem unlessEmptied_pruned (keeps : Choice) (vs : Fields) :
    unlessEmptied vs (prunedEntries keeps vs) = prunedFields keeps vs := by
  unfold unlessEmptied prunedFields
  dsimp only
  cases vs.isEmpty <;> cases (prunedEntries keeps vs).isEmpty <;> rfl

/-- The places of children are below the place of the node; the root may be a type, and then the
places of its children are those of annotations. -/
theorem fieldsWith_prunes {node : NodeStep (List (ElementId × Value))} {keys : KeyTypes}
    {path : ElementId} {vs : Fields}
    (hpath : ∀ s : Selector, path.nest [s.text] = root.placeOf (here ++ [s]))
    (h : ∀ e ∈ vs, ∀ field, Prunes keep root (here ++ [.key e.1]) e.2
      (node (keys.lookup e.1).1 field (root.placeOf (here ++ [.key e.1])) e.2)) :
    Records (fieldsWith node keys path vs) (prunedFields (choice keep root here) vs)
      ((visitedEntries (choice keep root here) vs).map (noted root here)) := by
  have hstep : ∀ e ∈ vs, Prunes keep root (here ++ [.key e.1]) e.2
      (node (keys.lookup e.1).1 (keys.lookup e.1).2 (path.nest [e.1]) e.2) := by
    intro e he
    have hplace : path.nest [e.1] = _ := hpath (.key e.1)
    rw [hplace]
    exact h e he _
  unfold fieldsWith
  rw [← unlessEmptied_pruned]
  exact (entries_prunes hstep).map _

theorem itemsWith_prunes {node : NodeStep (List (ElementId × Value))} {field : Option Field}
    {vs : List Value}
    (h : ∀ n, ∀ v ∈ vs, Prunes keep root (here ++ [.item n]) v
      (node type field (root.placeOf (here ++ [.item n])) v)) :
    Records (itemsWith node type field (root.placeOf here) vs)
      (prunedItems (choice keep root here) 0 vs)
      ((visitedItems (choice keep root here) 0 vs).map (noted root here)) := by
  refine items_prunes 0 fun n v hv => ?_
  have hitem := h n v hv
  rw [ElementId.placeOf_append] at hitem
  exact hitem

/-! ## §3. Nodes. -/

/-- What a strict walk goes on with a lenient walk goes on with. -/
theorem descent_of_strict {field : Option Field} {path : ElementId} {v : Value} {d : Descent}
    (h : descent registry true type field path v = .ok d) (strict : Bool) :
    descent registry strict type field path v = .ok d := by
  cases strict with
  | true => exact h
  | false =>
    obtain ⟨d', hlenient, hsame | ⟨expected, hmismatch⟩⟩ :=
      descent_lenient registry type field path v
    · exact hlenient.trans (hsame.symm.trans h)
    · exact absurd (hmismatch.symm.trans h) nofun

section

variable {strict : Bool} {depth : Nat} {field : Option Field} {v : Value}

theorem choice_here (keep : ElementId → Value → Bool) (root : ElementId) (here : Position)
    (v : Value) : choice keep root here [] v = keep (root.placeOf here) v := by
  unfold choice
  rw [List.append_nil]

/-- The visitor is asked about the node first.  If that is dropped nothing is left of it and nothing
else is asked about, and otherwise comes what the walk goes on with. -/
theorem node_of_enter
    (henter : keep (root.placeOf here) v = true →
      Records (enter registry strict (sieve keep) depth type field (root.placeOf here) v)
        (pruned (choice keep root here) v)
        ((visited (choice keep root here) v).tail.map (noted root here))) :
    Prunes keep root here v
      (node registry strict (sieve keep) (depth + 1) type field (root.placeOf here) v) := by
  have hvisit := visit_records keep ⟨root.placeOf here, field⟩ v
  -- whatever becomes of the node, it is what is asked about first
  have hfirst : (visited (choice keep root here) v).map (noted root here)
      = [(root.placeOf here, v)]
        ++ (visited (choice keep root here) v).tail.map (noted root here) := by
    rw [Value.visited_eq]
    show (root.placeOf (here ++ []), v) :: _ = _
    rw [List.append_nil]
    rfl
  unfold Prunes
  rw [node_visited, hfirst]
  cases hkeep : keep (root.placeOf here) v with
  | false =>
    have hchoice := (choice_here keep root here v).trans hkeep
    rw [hkeep] at hvisit
    rw [Value.pruned_of_dropped hchoice, Value.visited_of_dropped hchoice]
    exact hvisit.bind (.pure none)
  | true =>
    rw [hkeep] at hvisit
    exact hvisit.bind (henter hkeep)

end

/-- **A node comes out without what is dropped inside of it**, strictly or not, as long as the walk
may go down far enough. -/
theorem node_prunes (strict : Bool) {depth : Nat} {v : Value} (hdepth : v.nodeCount ≤ depth)
    (hv : Conforms registry type v) (field : Option Field) (here : Position) :
    Prunes keep root here v
      (node registry strict (sieve keep) depth type field (root.placeOf here) v) := by
  -- along items and entries; what is inside of a node has fewer nodes, and may be entered less deep
  induction v using Value.member_induction generalizing depth type field here with
  | map vs ih =>
    have hentries : 1 + Value.entryCount vs ≤ depth := hdepth
    obtain ⟨depth, rfl⟩ : ∃ d, depth = d + 1 := ⟨depth - 1, by omega⟩
    refine node_of_enter fun hkeep => ?_
    have hchoice := (choice_here keep root here _).trans hkeep
    -- the map conforms, so even a strict walk enters it
    obtain ⟨hfault, hconforms⟩ := (conforms_map_iff (root.placeOf here) vs).mp hv
    obtain ⟨keys, hstrict, hkeys⟩ := descent_map registry field hfault
    have hpath (s : Selector) : (root.placeOf here).nest [s.text] = root.placeOf (here ++ [s]) :=
      (root.placeOf_append here [s]).symm
    have hinside : Records
        (fieldsWith (node registry strict (sieve keep) depth) keys (root.placeOf here) vs)
        (prunedFields (choice keep root here) vs)
        ((visitedEntries (choice keep root here) vs).map (noted root here)) := by
      refine fieldsWith_prunes hpath fun e he field => ?_
      have := Value.nodeCount_le_entryCount he
      rw [hkeys]
      exact ih e he (by omega) (hconforms e he) field _
    unfold enter
    rw [descent_of_strict hstrict strict, Value.pruned_map hchoice, Value.visited_map hchoice]
    exact hinside.map _
  | list vs ih =>
    have hitems : 1 + Value.itemCount vs ≤ depth := hdepth
    obtain ⟨depth, rfl⟩ : ∃ d, depth = d + 1 := ⟨depth - 1, by omega⟩
    refine node_of_enter fun hkeep => ?_
    have hchoice := (choice_here keep root here _).trans hkeep
    obtain ⟨hfault, hconforms⟩ := (conforms_list_iff (root.placeOf here) vs).mp hv
    obtain ⟨itemField, hstrict⟩ := descent_list registry field hfault
    have hinside : Records
        (itemsWith (node registry strict (sieve keep) depth) (itemType type) itemField
          (root.placeOf here) vs)
        (prunedItems (choice keep root here) 0 vs)
        ((visitedItems (choice keep root here) 0 vs).map (noted root here)) := by
      refine itemsWith_prunes fun n v hv => ?_
      have := Value.nodeCount_le_itemCount hv
      exact ih v hv (by omega) (hconforms v hv) itemField _
    unfold enter
    rw [descent_of_strict hstrict strict, Value.pruned_list hchoice, Value.visited_list hchoice]
    exact hinside.map _
  | leaf v hmap hlist =>
    have hpos : 0 < v.nodeCount := v.nodeCount_pos
    obtain ⟨depth, rfl⟩ : ∃ d, depth = d + 1 := ⟨depth - 1, by omega⟩
    refine node_of_enter fun hkeep => ?_
    have hchoice := (choice_here keep root here v).trans hkeep
    have hfault := (conforms_leaf_iff (root.placeOf here) hmap hlist).mp hv
    have hstrict : descent registry true type field (root.placeOf here) v = .ok (.stop v) :=
      descent_leaf field hmap hlist hfault
    unfold enter
    rw [descent_of_strict hstrict strict, Value.pruned_leaf hchoice hmap hlist,
      Value.visited_leaf hmap hlist]
    exact .pure (some v)

/-! ## §4. The fields of an element. -/

/-- **A walk visits and prunes exactly.**  The fields conform, and the visitor keeps or drops each
node and changes none.  It is asked about each node below the root that is not inside of a dropped
one, once, parents before children, keys ascending and items by position; the place that it is told
is that of the node in the tree as it was.  What is inside of references and templates is no node.
What comes out is the tree without the dropped nodes: lists stay even if they get empty, and a map
that gets empty goes as well, up to the root, which then has no result. -/
theorem prunes_exactly {registry : Registry} {o : ObjectType} {vs : Fields}
    (hconforms : o.Admits registry vs) (hvs : (Value.map vs).WellFormed)
    (keep : ElementId → Value → Bool) (strict : Bool) (path : ElementId) (extra : Nat) :
    ∃ asked : List (Position × Value), asked.Pairwise Value.Earlier
      ∧ (∀ p v, (p, v) ∈ asked ↔ p ≠ [] ∧ (Value.map vs).valueAt? p = some v
        ∧ ∀ above u, above ≠ [] → above <+: p → above ≠ p →
          (Value.map vs).valueAt? above = some u → keep (path.placeOf above) u = true)
      ∧ (fields registry strict (sieve keep) (depthBound registry o vs + extra) o path vs).run []
        = (.ok (prunedFields (fun p v => keep (path.placeOf p) v) vs),
          asked.map fun n => (path.placeOf n.1, n.2)) := by
  let keeps : Choice := fun p v => keep (path.placeOf p) v
  refine ⟨visitedEntries keeps vs, Value.visitedEntries_sorted hvs keeps,
    fun p v => Value.mem_visitedEntries_iff hvs keeps, ?_⟩
  have hdepth : Value.entryCount vs ≤ depthBound registry o vs + extra :=
    Nat.le_trans (entryCount_le_depthBound registry o vs) (Nat.le_add_right _ _)
  have hwalk : Records
      (fields registry strict (sieve keep) (depthBound registry o vs + extra) o path vs)
      (prunedFields (choice keep path []) vs)
      ((visitedEntries (choice keep path []) vs).map (noted path [])) := by
    refine fieldsWith_prunes (fun _ => rfl) fun e he field => ?_
    have hnode := Nat.le_trans (Value.nodeCount_le_entryCount he) hdepth
    rw [KeyTypes.lookup_fields]
    exact node_prunes strict hnode (hconforms e he) field _
  exact hwalk []

/-- A map that gets empty, and a list from which an item in the middle is dropped. -/
theorem prunes_exactly_for_tags :
    let page : ObjectType :=
      (ObjectType.mk (.ofType "z" "page") [] [] []).withField "tags" (.list (.primitive .string))
    let path : ElementId := .ofInstance "z" "page" "p"
    let vs : Fields := [("notes", .map [("first", .string "-")]),
      ("tags", .list [.string "a", .string "-", .string "b"])]
    let keep : ElementId → Value → Bool := fun _ v => !v.same (.string "-")
    page.Admits [] vs ∧ (Value.map vs).WellFormed
      ∧ ∃ asked : List (Position × Value), asked.Pairwise Value.Earlier
        ∧ ([.key "tags", .item 2], .string "b") ∈ asked
        ∧ (fields [] true (sieve keep) (depthBound [] page vs + 0) page path vs).run []
          = (.ok (some [("tags", .list [.string "a", .string "b"])]),
            asked.map fun n => (path.placeOf n.1, n.2)) := by
  intro page path vs keep
  have hconforms : page.Admits [] vs := by
    rw [page.admits_iff path]
    have hnone : ∀ n ∈ page.nodes [] path vs, n.fault?.isNone := by
      decide +kernel
    exact fun n hn => Option.isNone_iff_eq_none.mp (hnone n hn)
  have hvs : (Value.map vs).WellFormed := by
    simp only [vs, Value.WellFormed, Value.EntriesWellFormed, Value.ItemsWellFormed, and_true]
    decide +kernel
  obtain ⟨asked, hsorted, hmem, hrun⟩ := prunes_exactly hconforms hvs keep true path 0
  refine ⟨hconforms, hvs, asked, hsorted, (hmem _ _).mpr ⟨List.cons_ne_nil _ _, rfl, ?_⟩, hrun⟩
  -- above the item there is only the list
  intro above u hne hprefix hproper hvalue
  obtain rfl | ⟨rest, rfl, hrest⟩ := List.prefix_cons_iff.mp hprefix
  · exact absurd rfl hne
  obtain rfl | ⟨rest', rfl, hrest'⟩ := List.prefix_cons_iff.mp hrest
  · obtain rfl := Option.some.inj hvalue
    rfl
  · obtain rfl := List.prefix_nil.mp hrest'
    exact absurd rfl hproper

end Walk

end AccountSync
