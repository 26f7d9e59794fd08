/-
  AccountSync.Proofs.Value.Cells
  ──────────────────────────────
  **READING AND WRITING AT A PATH.**

  A path leads to a cell exactly if there is a value at it, and the cell is the node with that
  value.  What is put into the cell is found at the path and below it.  A path that leaves the
  way to the cell finds what it found before, and the maps and lists on the way keep their keys
  and their lengths.

      Value.selector?               — what a path component stands for at a node
      Value.Diverges                — a path that leaves the way of another one
      Value.cell?_eq                — cells, and values at paths
      Value.getPath?_setPath_append — what is found where a value was put
      Value.getPath?_setPath_of_diverges — and everywhere else
      Value.setPath_outline         — the nodes on the way
      Value.position?_spelled       — the ways of writing a position
      Value.path_access_lawful      — all of it
-/
import AccountSync.Proofs.Value.Leaves
import AccountSync.Value.Cell

namespace AccountSync

theorem Dict.keys_modify {α : Type} (d : Dict α) (key : String) (f : α → α) :
    keys (modify d key f) = keys d := by
  induction d with
  | nil => rfl
  | cons e rest ih =>
    obtain ⟨k, v⟩ := e
    unfold modify
    split
    · rfl
    · exact congrArg (k :: ·) ih

namespace Value

variable {v w c : Value} {part part' : String} {p q : List String}

/-! ## §1. What a path component stands for. -/

/-- The selector that a path component stands for at a node: a key in a map, a position in a
list.  Other nodes have no children. -/
def selector? : Value → String → Option Selector
  | .map _, part => some (.key part)
  | .list _, part => (position? part).map .item
  | _, _ => none

/-- A component selects whatever its selector selects. -/
theorem child?_eq_select? (v : Value) (part : String) :
    v.child? part = (v.selector? part).bind v.select? := by
  cases v with
  | list items =>
    show (position? part).bind (fun i => items[i]?)
      = ((position? part).map Selector.item).bind (Value.list items).select?
    cases position? part <;> rfl
  | _ => rfl

/-- Components that stand for the same select the same child. -/
theorem child?_congr (h : v.selector? part = v.selector? part') :
    v.child? part = v.child? part' := by
  rw [child?_eq_select?, child?_eq_select?, h]

/-! ## §2. One child replaced. -/

/-- The child is the one that was put there. -/
theorem child?_setChild_self (h : v.child? part = some c) (w : Value) :
    (v.setChild part w).child? part = some w := by
  cases v with
  | map entries =>
    have hget : Dict.get? entries part = some c := h
    show Dict.get? (Dict.modify entries part fun _ => w) part = some w
    rw [Dict.get?_modify_self, hget]
    rfl
  | list items =>
    -- as there was a child before, the position is one of the list
    obtain ⟨i, hi, hitem⟩ := Option.bind_eq_some_iff.mp h
    obtain ⟨hlt, -⟩ := List.getElem?_eq_some_iff.mp hitem
    unfold setChild
    rw [hi]
    show (position? part).bind (fun i => _) = some w
    rw [hi]
    exact List.getElem?_set_self hlt
  | _ => exact absurd h nofun

/-- Components that stand for something else select what they did. -/
theorem child?_setChild_of_ne (h : v.selector? part' ≠ v.selector? part) (w : Value) :
    (v.setChild part w).child? part' = v.child? part' := by
  cases v with
  | map entries =>
    have hne : part ≠ part' := by
      rintro rfl
      exact h rfl
    exact Dict.get?_modify_of_ne entries hne _
  | list items =>
    unfold setChild
    cases hi : position? part with
    | none => rfl
    | some i =>
      show (position? part').bind (fun j => (items.set i w)[j]?)
        = (position? part').bind (fun j => items[j]?)
      cases hj : position? part' with
      | none => rfl
      | some j =>
        -- components may be written differently and still stand for one position
        have hne : i ≠ j := by
          rintro rfl
          have hsame : (position? part').map Selector.item = (position? part).map Selector.item :=
            congrArg _ (hj.trans hi.symm)
          exact h hsame
        exact List.getElem?_set_ne hne
  | _ => rfl

/-- Components that stand for the same have the same child replaced. -/
theorem setChild_congr (h : v.selector? part = v.selector? part') (w : Value) :
    v.setChild part w = v.setChild part' w := by
  cases v with
  | map entries =>
    obtain rfl : part = part' := Selector.key.inj (Option.some.inj h)
    rfl
  | list items =>
    have hpositions : position? part = position? part' :=
      Option.map_injective (fun _ _ => Selector.item.inj) h
    unfold setChild
    rw [hpositions]
  | _ => rfl

/-- A child replaced by itself makes no difference. -/
theorem setChild_child (h : v.child? part = some c) : v.setChild part c = v := by
  cases v with
  | map entries =>
    have hget : Dict.get? entries part = some c := h
    refine congrArg Value.map (Dict.modify_of_get? fun u hu => ?_)
    exact Option.some.inj (hget.symm.trans hu)
  | list items =>
    obtain ⟨i, hi, hitem⟩ := Option.bind_eq_some_iff.mp h
    obtain ⟨hlt, rfl⟩ := List.getElem?_eq_some_iff.mp hitem
    unfold setChild
    rw [hi]
    exact congrArg Value.list (List.set_getElem_self hlt)
  | _ => exact absurd h nofun

/-- Maps with the same keys, or lists of the same length. -/
inductive SameOutline : Value → Value → Prop
  | map {entries entries' : Fields} (h : Dict.keys entries' = Dict.keys entries) :
    SameOutline (.map entries) (.map entries')
  | list {items items' : List Value} (h : items'.length = items.length) :
    SameOutline (.list items) (.list items')

/-- A node keeps its keys or its length when a child of it is replaced. -/
theorem setChild_outline (h : v.child? part = some c) (w : Value) :
    SameOutline v (v.setChild part w) := by
  cases v with
  | map entries => exact .map (Dict.keys_modify entries part _)
  | list items =>
    unfold setChild
    cases position? part with
    | none => exact .list rfl
    | some i => exact .list List.length_set
  | _ => exact absurd h nofun

/-! ## §3. Paths. -/

/-- Where a value is found below a child, storing goes on there. -/
theorem setPath_cons (h : v.child? part = some c) (p : List String) (w : Value) :
    v.setPath (part :: p) w = v.setChild part (c.setPath p w) := by
  simp only [setPath, h]

theorem getPath?_cons (h : v.child? part = some c) (p : List String) :
    v.getPath? (part :: p) = c.getPath? p := by
  show (v.child? part).bind (fun c => c.getPath? p) = c.getPath? p
  rw [h]
  rfl

/-- A cell below a child is a cell of the tree; what is put into it changes the child. -/
theorem cell?_cons (v : Value) (part : String) (p : List String) :
    v.cell? (part :: p) = (v.child? part).bind (fun child => (child.cell? p).map (fun inner =>
      { inner with put := fun new => v.setChild part (inner.put new) })) := by
  cases v with
  | map entries =>
    show (Dict.get? entries part).bind _ = (Dict.get? entries part).bind _
    cases Dict.get? entries part with
    | none => rfl
    | some child => cases hinner : child.cell? p <;> simp [hinner, setChild]
  | list items =>
    show (position? part).bind _ = ((position? part).bind (fun i => items[i]?)).bind _
    cases hi : position? part with
    | none => rfl
    | some i =>
      show (items[i]?).bind _ = (items[i]?).bind _
      cases items[i]? with
      | none => rfl
      | some child => cases hinner : child.cell? p <;> simp [hinner, setChild, hi]
  | _ => rfl

/-- **There is a cell at a path exactly if there is a value**, and it is the node with that value;
putting something into the cell is storing it at the path. -/
theorem cell?_eq (v : Value) (p : List String) :
    v.cell? p = (v.getPath? p).map (fun node => { node, put := v.setPath p }) := by
  induction p generalizing v with
  | nil => cases v <;> rfl
  | cons part p ih =>
    rw [cell?_cons]
    cases hchild : v.child? part with
    | none =>
      unfold getPath?
      rw [hchild]
      rfl
    | some child =>
      rw [getPath?_cons hchild, Option.bind_some, ih, Option.map_map]
      have hput : (fun new => v.setChild part (child.setPath p new)) = v.setPath (part :: p) :=
        funext fun new => (setPath_cons hchild p new).symm
      rw [← hput]
      rfl

/-- What was put at a path is found at the path and below it. -/
theorem getPath?_setPath_append {node : Value} (h : v.getPath? p = some node) (w : Value)
    (q : List String) : (v.setPath p w).getPath? (p ++ q) = w.getPath? q := by
  induction p generalizing v with
  | nil => rfl
  | cons part p ih =>
    obtain ⟨c, hc, hrest⟩ := Option.bind_eq_some_iff.mp h
    rw [setPath_cons hc]
    exact (getPath?_cons (child?_setChild_self hc _) (p ++ q)).trans (ih hrest)

/-- At some node on the way along the first path, the second path selects another child, or none.
Whether it does is a matter of what the components stand for, not of how they are written. -/
inductive Diverges : Value → List String → List String → Prop
  | here {v : Value} {part part' : String} {p q : List String}
    (h : v.selector? part' ≠ v.selector? part) : Diverges v (part :: p) (part' :: q)
  | further {v c : Value} {part part' : String} {p q : List String}
    (hsame : v.selector? part' = v.selector? part) (hc : v.child? part = some c)
    (h : Diverges c p q) : Diverges v (part :: p) (part' :: q)

/-- A path that leaves the way finds what it found before. -/
theorem getPath?_setPath_of_diverges (hdiverges : Diverges v p q) {node : Value}
    (h : v.getPath? p = some node) (w : Value) : (v.setPath p w).getPath? q = v.getPath? q := by
  induction hdiverges with
  | @here v part part' p q hne =>
    obtain ⟨c, hc, -⟩ := Option.bind_eq_some_iff.mp h
    rw [setPath_cons hc]
    unfold getPath?
    rw [child?_setChild_of_ne hne]
  | @further v c part part' p q hsame hc _ ih =>
    rw [getPath?_cons hc] at h
    have hchild : v.child? part' = some c := (child?_congr hsame).trans hc
    rw [getPath?_cons hchild, setPath_cons hc]
    -- the child was replaced by one that differs from it below only
    have hset : (v.setChild part (c.setPath p w)).child? part' = some (c.setPath p w) := by
      have hput := child?_setChild_self hchild (c.setPath p w)
      rwa [setChild_congr hsame] at hput
    rw [getPath?_cons hset]
    exact ih h

/-- Every node on the way keeps its keys or its length. -/
theorem setPath_outline {before after : List String} (hne : after ≠ []) {node : Value}
    (h : v.getPath? (before ++ after) = some node) (w : Value) :
    ∃ a b, v.getPath? before = some a ∧ (v.setPath (before ++ after) w).getPath? before = some b
      ∧ SameOutline a b := by
  induction before generalizing v with
  | nil =>
    cases after with
    | nil => exact absurd rfl hne
    | cons part after =>
      obtain ⟨c, hc, -⟩ := Option.bind_eq_some_iff.mp h
      refine ⟨v, _, rfl, rfl, ?_⟩
      rw [List.nil_append, setPath_cons hc]
      exact setChild_outline hc _
  | cons part before ih =>
    obtain ⟨c, hc, hrest⟩ := Option.bind_eq_some_iff.mp h
    obtain ⟨a, b, ha, hb, houtline⟩ := ih hrest
    refine ⟨a, b, (getPath?_cons hc before).trans ha, ?_, houtline⟩
    rw [List.cons_append, setPath_cons hc, getPath?_cons (child?_setChild_self hc _)]
    exact hb

/-- Storing at a path that leads nowhere changes nothing. -/
theorem setPath_of_getPath?_eq_none (h : v.getPath? p = none) (w : Value) : v.setPath p w = v := by
  -- on the way as far as there is one, each child is replaced by itself
  induction p generalizing v with
  | nil => exact absurd h nofun
  | cons part p ih =>
    cases hc : v.child? part with
    | none =>
      unfold setPath
      rw [hc]
    | some c =>
      rw [getPath?_cons hc] at h
      rw [setPath_cons hc, ih h, setChild_child hc]

/-- Paths that go on alike after components that stand for the same lead to the same cell. -/
theorem cell?_congr {items : List Value} {before : List String}
    (hnode : v.getPath? before = some (.list items)) (h : position? part = position? part')
    (after : List String) : v.cell? (before ++ part :: after) = v.cell? (before ++ part' :: after) := by
  induction before generalizing v with
  | nil =>
    obtain rfl := Option.some.inj hnode
    have hsame : (Value.list items).selector? part = (Value.list items).selector? part' :=
      congrArg (Option.map Selector.item) h
    rw [List.nil_append, List.nil_append, cell?_cons, cell?_cons, child?_congr hsame]
    simp only [setChild_congr hsame]
  | cons first before ih =>
    obtain ⟨c, hc, hrest⟩ := Option.bind_eq_some_iff.mp hnode
    rw [List.cons_append, List.cons_append, cell?_cons, cell?_cons, hc, Option.bind_some,
      Option.bind_some, ih hrest]

/-! ## §4. Ways of writing a position. -/

/-- A position with a plus sign in front of it or not, and with zeros in front of its digits. -/
def spelled (plus : Bool) (zeros n : Nat) : String :=
  String.ofList ((if plus then ['+'] else [])
    ++ (List.replicate zeros '0' ++ (positionText n).toList))

/-- Zeros in front of digits make no difference. -/
theorem digitsValue_zeros (zeros : Nat) (digits : List Char) :
    Number.digitsValue (List.replicate zeros '0' ++ digits) = Number.digitsValue digits := by
  unfold Number.digitsValue
  rw [List.foldl_append]
  refine congrArg (List.foldl _ · digits) ?_
  induction zeros with
  | zero => rfl
  | succ zeros ih => exact ih

/-- A sign in front of digits makes no difference either. -/
theorem position?_plus {digits : List Char} (hne : digits ≠ [])
    (hdigits : ∀ c ∈ digits, c.isDigit = true) :
    position? (String.ofList ('+' :: digits)) = position? (String.ofList digits) := by
  have hlist : (String.ofList digits).toList = digits := String.toList_ofList
  have hread := position?_of_digits (hlist.symm ▸ hne) (hlist.symm ▸ hdigits)
  rw [hlist] at hread
  rw [hread]
  unfold position?
  rw [String.toList_ofList]
  exact if_pos ⟨hne, List.all_eq_true.mpr hdigits⟩

/-- All ways of writing a position are read as the position. -/
theorem position?_spelled (plus : Bool) (zeros : Nat) {n : Nat} (h : n < twoTo 64) :
    position? (spelled plus zeros n) = some n := by
  have hne : (positionText n).toList ≠ [] := by
    rw [positionText_toList]
    exact Nat.toDigits_ne_nil
  have hdigits : ∀ c ∈ List.replicate zeros '0' ++ (positionText n).toList,
      c.isDigit = true := by
    intro c hc
    rcases List.mem_append.mp hc with hc | hc
    · obtain rfl := List.eq_of_mem_replicate hc
      decide
    · rw [positionText_toList] at hc
      exact isDigit_of_mem_toDigits hc
  have hvalue : position? (String.ofList (List.replicate zeros '0' ++ (positionText n).toList))
      = position? (positionText n) := by
    rw [position?_of_digits hne fun c hc => hdigits c (List.mem_append_right _ hc),
      position?_of_digits (by simp [hne]) (by simpa using hdigits), String.toList_ofList,
      digitsValue_zeros]
  have hread : position? (positionText n) = some n := by
    rw [position?_text, if_pos h]
  unfold spelled
  cases plus with
  | false => exact hvalue.trans hread
  | true => exact (position?_plus (by simp [hne]) hdigits).trans (hvalue.trans hread)

/-! ## §5. All of it. -/

/-- **Access by paths is lawful.**  There is a cell at a path exactly if there is a value at it, and
it is the node with that value.  When something is put into the cell, it is found at the path, and
what is below it below the path; a path that leaves the way to the cell finds what it found before,
and the maps and lists on the way keep their keys and lengths.  Without a cell nothing changes.  It
does not matter how a position is written. -/
theorem path_access_lawful (v : Value) (p : List String) (w : Value) :
    (v.cell? p).map Cell.node = v.getPath? p
      ∧ (∀ cell, v.cell? p = some cell → v.setPath p w = cell.put w
        ∧ (∀ q, (cell.put w).getPath? (p ++ q) = w.getPath? q)
        ∧ (∀ q, Diverges v p q → (cell.put w).getPath? q = v.getPath? q)
        ∧ ∀ before after, p = before ++ after → after ≠ [] →
          ∃ a b, v.getPath? before = some a ∧ (cell.put w).getPath? before = some b
            ∧ SameOutline a b)
      ∧ (v.cell? p = none → v.setPath p w = v)
      ∧ (∀ before part part' after items, v.getPath? before = some (.list items) →
        position? part = position? part' →
        v.cell? (before ++ part :: after) = v.cell? (before ++ part' :: after))
      ∧ ∀ plus zeros n, n < twoTo 64 → position? (spelled plus zeros n) = some n := by
  refine ⟨?_, ?_, ?_, ?_, ?_⟩
  · rw [cell?_eq, Option.map_map]
    exact Option.map_id_apply
  · intro cell hcell
    rw [cell?_eq] at hcell
    obtain ⟨node, hnode, rfl⟩ := Option.map_eq_some_iff.mp hcell
    refine ⟨rfl, getPath?_setPath_append hnode w, ?_, ?_⟩
    · exact fun q hdiverges => getPath?_setPath_of_diverges hdiverges hnode w
    · rintro before after rfl hne
      exact setPath_outline hne hnode w
  · intro hcell
    rw [cell?_eq, Option.map_eq_none_iff] at hcell
    exact setPath_of_getPath?_eq_none hcell w
  · exact fun before part part' after items hnode h => cell?_congr hnode h after
  · exact fun plus zeros n h => position?_spelled plus zeros h

/-- Into a map in a list a value is put.  What is at another position, however that is written,
stays. -/
theorem path_access_lawful_for_switch :
    let v : Value := .map [("ids", .list [.number (.int 7), .map [("on", .bool true)]])]
    let w : Value := .map [("since", .null)]
    let p := ["ids", "+01", "on"]
    v.getPath? p = some (.bool true) ∧ v.getPath? ["ids", "1", "on"] = some (.bool true)
      ∧ Diverges v p ["ids", "00"]
      ∧ (v.setPath p w).getPath? (p ++ ["since"]) = some .null
      ∧ (v.setPath p w).getPath? ["ids", "00"] = some (.number (.int 7))
      ∧ ∃ node node', v.getPath? ["ids", "+01"] = some node
        ∧ (v.setPath p w).getPath? ["ids", "+01"] = some node' ∧ SameOutline node node' := by
  intro v w p
  have hread : v.getPath? p = some (.bool true) := rfl
  obtain ⟨hcells, hstored, -, hspelled, hposition⟩ := path_access_lawful v p w
  obtain ⟨cell, hcell, -⟩ := Option.map_eq_some_iff.mp (hcells.trans hread)
  obtain ⟨hput, hbelow, hapart, houtline⟩ := hstored cell hcell
  have hdiverges : Diverges v p ["ids", "00"] :=
    .further rfl rfl (.here (by decide))
  have hplain : v.cell? p = v.cell? ["ids", "1", "on"] :=
    hspelled ["ids"] "+01" "1" ["on"] _ rfl
      ((hposition true 1 1 (by decide)).trans (hposition false 0 1 (by decide)).symm)
  obtain ⟨node, node', hnode, hnode', hsame⟩ := houtline ["ids", "+01"] ["on"] rfl (by decide)
  rw [← hput] at hbelow hapart hnode'
  have hplainRead : v.getPath? ["ids", "1", "on"] = some (.bool true) := by
    rw [← (path_access_lawful v ["ids", "1", "on"] w).1, ← hplain]
    exact hcells.trans hread
  exact ⟨hread, hplainRead, hdiverges, hbelow ["since"], hapart _ hdiverges, node, node', hnode,
    hnode', hsame⟩

end Value

end AccountSync
