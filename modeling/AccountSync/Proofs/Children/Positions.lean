/-
  AccountSync.Proofs.Children.Positions
  ─────────────────────────────────────
  **A CHANGED LIST GIVES EVERY CHILD ITS PLACE, OR NONE.**

  The changes of the children are built from what the list remembers of them: each item has to
  refer to a whole element whose target is known and has an identifier.  If one does not, then
  none of the children is changed.  Else there is one change for each item, which compares
  nothing but identifier and position, so the positions that are sent count the list.

      Children.Refers           — what an item of a list has to be
      Children.Snapshot         — what is compared of a child
      Children.GivesPlace       — the change that an item leads to
      positions_complete        — all the changes that a list leads to
-/
import AccountSync.Proofs.Children.Lists
import AccountSync.Proofs.Children.Reorders
import AccountSync.Proofs.Filter.Handlers

namespace AccountSync

/-- A reference tells an identifier if it is one to a whole element whose target has it. -/
theorem Reference.targetId?_eq_some_iff {r : Reference} {id : Value} :
    r.targetId? = some id
      ↔ r.id.isTopLevel = true ∧ ∃ target, r.target = some target ∧ target.get? "id" = some id := by
  unfold Reference.targetId?
  by_cases htop : r.id.isTopLevel = true
  · simp [htop, Option.bind_eq_some_iff]
  · simp [htop]

namespace Children

variable {rule : ChildOrderRule} {parent : Instance}

/-! ## §1. The items of a list. -/

/-- The item refers to a whole element whose target is known and has an identifier. -/
structure Refers (item : Value) (r : Reference) (id : Value) : Prop where
  reference : item = .reference r
  topLevel : r.id.isTopLevel = true
  target : ∃ target, r.target = some target ∧ target.get? "id" = some id

theorem refers_iff {item : Value} {r : Reference} {id : Value} :
    Refers item r id ↔ item = .reference r ∧ r.targetId? = some id := by
  rw [Reference.targetId?_eq_some_iff]
  exact ⟨fun h => ⟨h.reference, h.topLevel, h.target⟩, fun h => ⟨h.1, h.2.1, h.2.2⟩⟩

/-- No list leads to changes that has another item. -/
theorem refers_of_positionChangesFrom {start : Nat} {items : List Value}
    {children : List InstanceChange}
    (h : positionChangesFrom rule parent start items = some children) :
    ∀ item ∈ items, ∃ r id, Refers item r id := by
  induction items generalizing start children with
  | nil =>
    intro item hitem
    exact absurd hitem List.not_mem_nil
  | cons first rest ih =>
    obtain ⟨change, hchange, h⟩ := Option.bind_eq_some_iff.mp h
    obtain ⟨others, hothers, -⟩ := Option.bind_eq_some_iff.mp h
    obtain ⟨r, hr, hchange⟩ := Option.bind_eq_some_iff.mp hchange
    obtain ⟨id, hid, -⟩ := Option.bind_eq_some_iff.mp hchange
    have hfirst : Refers first r id := refers_iff.mpr ⟨Value.reference?_eq_some_iff.mp hr, hid⟩
    intro item hitem
    rcases List.mem_cons.mp hitem with rfl | hitem
    · exact ⟨r, id, hfirst⟩
    · exact ih hothers item hitem

theorem positionChanges_eq_ok_iff {c : InstanceChange} {children : List InstanceChange} :
    positionChanges rule c = .ok children
      ↔ positionChangesFrom rule c.data 0 (listed rule c.data) = some children := by
  unfold positionChanges
  cases positionChangesFrom rule c.data 0 (listed rule c.data) <;> simp

/-- If all items of a list refer to elements, then it leads to changes, and these set the
positions of the children. -/
theorem positionChanges_of_refers {c : InstanceChange}
    (h : ∀ item ∈ listed rule c.data, ∃ r id, Refers item r id) :
    ∃ children, positionChanges rule c = .ok children
      ∧ SetsPositions rule c.data 0 (listed rule c.data) children := by
  have hitems : ∀ item ∈ listed rule c.data,
      ∃ r id, item = .reference r ∧ r.targetId? = some id := by
    intro item hitem
    obtain ⟨r, id, hitem⟩ := h item hitem
    exact ⟨r, id, refers_iff.mp hitem⟩
  obtain ⟨children, hchildren, hpositions⟩ := positionChangesFrom_positions rule c.data 0 hitems
  exact ⟨children, positionChanges_eq_ok_iff.mpr hchildren, hpositions⟩

/-- A list leads to changes exactly if all of its items refer to elements. -/
theorem positionChanges_ok_iff {c : InstanceChange} :
    (∃ children, positionChanges rule c = .ok children)
      ↔ ∀ item ∈ listed rule c.data, ∃ r id, Refers item r id := by
  constructor
  · intro ⟨children, hchildren⟩
    exact refers_of_positionChangesFrom (positionChanges_eq_ok_iff.mp hchildren)
  · intro h
    obtain ⟨children, hchildren, -⟩ := positionChanges_of_refers h
    exact ⟨children, hchildren⟩

/-- A list that leads to no changes leads to one message. -/
theorem positionChanges_eq_error {c : InstanceChange}
    (h : ¬∃ children, positionChanges rule c = .ok children) :
    positionChanges rule c = .error (notReferences rule c.data) := by
  unfold positionChanges at h ⊢
  cases hchanges : positionChangesFrom rule c.data 0 (listed rule c.data) with
  | none => rfl
  | some children =>
    refine absurd ⟨children, ?_⟩ h
    rw [hchanges]

/-! ## §2. What is compared of a child. -/

/-- The instance is the child that a reference is to, with certain fields and nothing else. -/
structure Snapshot (rule : ChildOrderRule) (parent : Instance) (r : Reference)
    (fields : List (String × Value)) (i : Instance) : Prop where
  id : i.id = r.id
  type : i.type = .ofType parent.id.adapter rule.childType
  annotations : i.annotations = []
  sorted : Dict.Sorted i.value
  fields : i.value.Perm fields

theorem snapshot_bare (rule : ChildOrderRule) (parent : Instance) (r : Reference) (id : Value) :
    Snapshot rule parent r [("id", id)] (child rule parent r id none) where
  id := rfl
  type := rfl
  annotations := rfl
  sorted := List.pairwise_singleton _ _
  fields := .refl _

theorem snapshot_placed (hfield : rule.positionField ≠ "id") (parent : Instance) (r : Reference)
    (id position : Value) :
    Snapshot rule parent r [(rule.positionField, position), ("id", id)]
      (child rule parent r id (some position)) where
  id := rfl
  type := rfl
  annotations := rfl
  sorted := (snapshot_bare rule parent r id).sorted.insert rule.positionField position
  fields := Dict.insert_perm (by simpa [Dict.keys] using hfield)

/-- The position that the target of a reference is known to have. -/
def Remembers (rule : ChildOrderRule) (r : Reference) (position : Value) : Prop :=
  position ≠ .null
    ∧ ∃ target, r.target = some target ∧ target.get? rule.positionField = some position

theorem storedPosition?_eq_some_iff {r : Reference} {position : Value} :
    storedPosition? rule r = some position ↔ Remembers rule r position := by
  have hnull : position.isNull = false ↔ position ≠ .null := by
    cases position <;> simp [Value.isNull]
  unfold storedPosition? Remembers
  rw [Option.filter_eq_some_iff, Option.bind_eq_some_iff, Bool.not_eq_true', hnull]
  exact and_comm

/-- The change gives the child that a reference is to a place: before it the child has the
position that is remembered, if any, and after it that place. -/
structure GivesPlace (rule : ChildOrderRule) (parent : Instance) (r : Reference) (id : Value)
    (place : Nat) (before after : Instance) : Prop where
  remembered : ∀ position, Remembers rule r position →
    Snapshot rule parent r [(rule.positionField, position), ("id", id)] before
  unknown : (∀ position, ¬Remembers rule r position) →
    Snapshot rule parent r [("id", id)] before
  placed :
    Snapshot rule parent r [(rule.positionField, .number (.int place)), ("id", id)] after

theorem givesPlace (hfield : rule.positionField ≠ "id") (parent : Instance) (r : Reference)
    (id : Value) (place : Nat) :
    GivesPlace rule parent r id place (child rule parent r id (storedPosition? rule r))
      (child rule parent r id (some (.number (.int place)))) where
  remembered := by
    intro position hposition
    rw [storedPosition?_eq_some_iff.mpr hposition]
    exact snapshot_placed hfield parent r id position
  unknown := by
    intro hnone
    have hstored : storedPosition? rule r = none := by
      refine Option.eq_none_iff_forall_ne_some.mpr fun position hposition => ?_
      exact hnone position (storedPosition?_eq_some_iff.mp hposition)
    rw [hstored]
    exact snapshot_bare rule parent r id
  placed := snapshot_placed hfield parent r id _

/-- The position that a child is given is the place. -/
theorem GivesPlace.position {r : Reference} {id : Value} {place : Nat} {before after : Instance}
    (h : GivesPlace rule parent r id place before after) :
    after.get? rule.positionField = some (.number (.int place)) := by
  refine Dict.get?_of_mem h.placed.sorted (h.placed.fields.mem_iff.mpr ?_)
  exact List.mem_cons_self

/-! ## §3. All the changes. -/

/-- **A list leads to changes exactly if all of its items refer to whole elements whose targets
are known and have identifiers**, and else to a message and to no change at all.  There is one
change for each item, in the order of the list: it modifies the child that the item refers to
from the position that is remembered of it, if any, to its place in the list, and it is about
nothing else but the identifier.  So the new positions count the items from zero. -/
theorem positions_complete (hfield : rule.positionField ≠ "id") (c : InstanceChange) :
    let items := listed rule c.data
    let result := positionChanges rule c
    ((∃ children, result = .ok children) ↔ ∀ item ∈ items, ∃ r id, Refers item r id)
      ∧ ((¬∀ item ∈ items, ∃ r id, Refers item r id) →
        result = .error (notReferences rule c.data))
      ∧ ∀ children, result = .ok children →
        children.length = items.length
          ∧ (∀ (place : Nat) (item : Value), items[place]? = some item →
            ∃ r id before after, Refers item r id
              ∧ children[place]? = some (.modification before after)
              ∧ GivesPlace rule c.data r id place before after)
          ∧ children.map (fun child => child.data.get? rule.positionField)
            = (List.range items.length).map (fun (place : Nat) => some (.number (.int place))) := by
  intro items result
  refine ⟨positionChanges_ok_iff, ?fails, ?succeeds⟩
  case fails =>
    intro h
    exact positionChanges_eq_error fun hok => h (positionChanges_ok_iff.mp hok)
  case succeeds =>
    intro children hchildren
    have hrefers := positionChanges_ok_iff.mp ⟨children, hchildren⟩
    obtain ⟨changes, hchanges, hpositions⟩ := positionChanges_of_refers hrefers
    obtain rfl := Except.ok.inj (hchildren.symm.trans hchanges)
    have heach : ∀ (place : Nat) (item : Value), items[place]? = some item →
        ∃ r id before after, Refers item r id
          ∧ children[place]? = some (.modification before after)
          ∧ GivesPlace rule c.data r id place before after := by
      intro place item hitem
      obtain ⟨r, id, hrefers⟩ := hrefers item (List.mem_of_getElem? hitem)
      obtain ⟨rfl, hid⟩ := refers_iff.mp hrefers
      have hchange := hpositions.each place r id hitem hid
      rw [Nat.zero_add] at hchange
      exact ⟨r, id, _, _, hrefers, hchange, givesPlace hfield c.data r id place⟩
    have hlength : children.length = items.length := hpositions.length
    refine ⟨hlength, heach, ?_⟩
    -- the position of a child is its place, whatever the item there is
    refine List.ext_getElem? fun place => ?_
    rw [List.getElem?_map, List.getElem?_map]
    by_cases hlt : place < items.length
    · obtain ⟨r, id, before, after, -, hchange, hgives⟩ :=
        heach place items[place] (List.getElem?_eq_getElem hlt)
      rw [hchange, List.getElem?_range hlt]
      exact congrArg some hgives.position
    · have hle : items.length ≤ place := by omega
      simp [hle, hlength]

/-- A reference to a section that remembers its identifier and its position. -/
def placedSection (name : String) (id : Int) (position : Value) : Value :=
  .reference (.to (.ofInstance "z" "section" name)
    (some (.map [("id", .number (.int id)), ("position", position)])))

/-- A category that gets two sections. -/
def placedSections : InstanceChange :=
  let category (sections : List Value) : Instance :=
    .named "c" (.ofType "z" "category") [("sections", .list sections)]
  .modification (category [])
    (category [placedSection "s" 1 (.number (.int 1)), placedSection "t" 2 .null])

/-- The sections get the positions 0 and 1, whatever is remembered of them. -/
theorem positions_complete_for_sections :
    ChildOrderRule.ofSections.positionField ≠ "id"
      ∧ ∃ children, positionChanges .ofSections placedSections = .ok children
        ∧ children.map (fun child => child.data.get? "position")
          = [some (.number (.int 0)), some (.number (.int 1))] := by
  have hfield : ChildOrderRule.ofSections.positionField ≠ "id" := by decide
  have hitems : ∀ item ∈ listed .ofSections placedSections.data, ∃ r id, Refers item r id := by
    show ∀ item ∈ [placedSection "s" 1 (.number (.int 1)), placedSection "t" 2 .null], _
    refine List.forall_mem_cons.mpr ⟨?_, List.forall_mem_singleton.mpr ?_⟩
    · exact ⟨_, .number (.int 1), rfl, rfl, _, rfl, rfl⟩
    · exact ⟨_, .number (.int 2), rfl, rfl, _, rfl, rfl⟩
  obtain ⟨hok, -, heach⟩ := positions_complete hfield placedSections
  obtain ⟨children, hchildren⟩ := hok.mpr hitems
  obtain ⟨-, -, hpositions⟩ := heach children hchildren
  exact ⟨hfield, children, hchildren, hpositions⟩

end Children

end AccountSync
