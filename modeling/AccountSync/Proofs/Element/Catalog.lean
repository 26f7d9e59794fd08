/-
  AccountSync.Proofs.Element.Catalog
  ──────────────────────────────────
  **A STORE OF ELEMENTS IS A MAP BY IDENTIFIERS.**

  A catalog knows its elements by full names, which are texts.  From outside it cannot be told
  from a map by identifiers: whatever was done to it before, under an identifier is the element
  that was last set there and not removed since.

      LastSet               — what should be under an identifier after some calls
      Answers               — what a map by identifiers answers after some calls
      Catalog.Holds         — a catalog holds what the calls before left
      Catalog.holds_perform — one more call keeps it so
      Catalog.runs_as_map   — a catalog answers as the map does
-/
import AccountSync.Element.Catalog
import AccountSync.Proofs.Dict
import AccountSync.Proofs.ElementId.FullName
import Mathlib.Data.List.Forall2

namespace AccountSync

open List (Forall₂)

/-! ## §1. What a store is asked, and what it should answer. -/

/-- What a store can be asked to do. -/
inductive CatalogCall where
  | set (e : Element)
  | remove (id : ElementId)
  | get (id : ElementId)
  | list
  | all

/-- What comes back from a store. -/
inductive CatalogAnswer where
  | done
  | found (e : Option Element)
  | listed (ids : List ElementId)
  | elements (elements : List Element)

/-- The call decides what is under the identifier. -/
def CatalogCall.Decides (id : ElementId) : CatalogCall → Prop
  | .set e => e.id = id
  | .remove other => other = id
  | _ => False

/-- The element was set under the identifier, and since then the identifier was neither set
again nor removed. -/
def LastSet (calls : List CatalogCall) (id : ElementId) (e : Element) : Prop :=
  e.id = id ∧ ∃ earlier later, calls = earlier ++ .set e :: later
    ∧ ∀ call ∈ later, ¬call.Decides id

/-- What a map by identifiers answers, given all calls before. -/
inductive Answers (calls : List CatalogCall) : CatalogCall → CatalogAnswer → Prop
  | set (e : Element) : Answers calls (.set e) .done
  | get {id : ElementId} {found : Option Element} :
      (∀ e, found = some e ↔ LastSet calls id e) → Answers calls (.get id) (.found found)
  | remove {id : ElementId} {found : Option Element} :
      (∀ e, found = some e ↔ LastSet calls id e) → Answers calls (.remove id) (.found found)
  | list {ids : List ElementId} : ids.Nodup → ids.Pairwise (fun a b => a.fullName < b.fullName) →
      (∀ id, id ∈ ids ↔ ∃ e, LastSet calls id e) → Answers calls .list (.listed ids)
  /-- All elements are those that are got one by one for the identifiers that are listed. -/
  | all {ids : List ElementId} {elements : List Element} : Answers calls .list (.listed ids) →
      Forall₂ (fun id e => Answers calls (.get id) (.found (some e))) ids elements →
      Answers calls .all (.elements elements)

/-- What is under an identifier is decided by the last call, or else by those before it. -/
theorem lastSet_concat {calls : List CatalogCall} {call : CatalogCall} {id : ElementId}
    {e : Element} :
    LastSet (calls ++ [call]) id e
      ↔ (call = .set e ∧ e.id = id) ∨ (¬call.Decides id ∧ LastSet calls id e) := by
  constructor
  · rintro ⟨hid, earlier, later, hcalls, hlater⟩
    rcases List.eq_nil_or_concat' later with rfl | ⟨later, last, rfl⟩
    · obtain ⟨-, hcall⟩ := List.append_inj' hcalls rfl
      exact .inl ⟨List.singleton_inj.mp hcall, hid⟩
    · rw [← List.cons_append, ← List.append_assoc] at hcalls
      obtain ⟨hfront, hcall⟩ := List.append_inj' hcalls rfl
      obtain rfl := List.singleton_inj.mp hcall
      obtain ⟨hlater, hlast⟩ := List.forall_mem_append.mp hlater
      refine .inr ⟨hlast call (List.mem_singleton_self call), hid, earlier, later, hfront, hlater⟩
  · rintro (⟨rfl, hid⟩ | ⟨hcall, hid, earlier, later, rfl, hlater⟩)
    · exact ⟨hid, calls, [], rfl, List.forall_mem_nil _⟩
    · refine ⟨hid, earlier, later ++ [call], by simp, ?_⟩
      exact List.forall_mem_append.mpr ⟨hlater, List.forall_mem_singleton.mpr hcall⟩

namespace Catalog

/-! ## §2. Calls on a catalog. -/

/-- A call on a catalog: the answer, and the catalog after it. -/
def perform (c : Catalog) : CatalogCall → CatalogAnswer × Catalog
  | .set e => (.done, c.set e)
  | .remove id => (.found (c.find? id), c.erase id)
  | .get id => (.found (c.find? id), c)
  | .list => (.listed c.ids, c)
  | .all => (.elements c.all, c)

/-- Calls in a row: their answers, and the catalog in the end. -/
def run (c : Catalog) : List CatalogCall → List CatalogAnswer × Catalog
  | [] => ([], c)
  | call :: rest =>
    let after := run (c.perform call).2 rest
    ((c.perform call).1 :: after.1, after.2)

theorem find?_set (c : Catalog) (e : Element) (id : ElementId) :
    (c.set e).find? id = if e.id = id then some e else c.find? id := by
  unfold set find?
  split
  next hid => rw [hid, Dict.get?_insert_self]
  next hid => exact Dict.get?_insert_of_ne c (fun h => hid (ElementId.fullName_injective h)) e

theorem find?_erase {c : Catalog} (h : c.Sorted) (id other : ElementId) :
    (c.erase id).find? other = if id = other then none else c.find? other := by
  unfold erase find?
  split
  next hid => rw [hid, h.get?_erase_self]
  next hid => exact Dict.get?_erase_of_ne c (fun h => hid (ElementId.fullName_injective h))

/-- Each element is under its own full name. -/
def Keyed (c : Catalog) : Prop :=
  ∀ entry ∈ c, entry.1 = entry.2.id.fullName

/-! ## §3. What a catalog holds. -/

/-- The catalog is in order and holds what the calls left. -/
structure Holds (calls : List CatalogCall) (c : Catalog) : Prop where
  sorted : c.Sorted
  keyed : c.Keyed
  current : ∀ id e, c.find? id = some e ↔ LastSet calls id e

section

variable {calls : List CatalogCall} {c : Catalog}

theorem holds_nil : Holds [] [] where
  sorted := .nil
  keyed := List.forall_mem_nil _
  current := by
    intro id e
    refine iff_of_false nofun ?_
    rintro ⟨-, earlier, later, hcalls, -⟩
    exact absurd hcalls (by simp)

theorem holds_set (h : Holds calls c) (e : Element) : Holds (calls ++ [.set e]) (c.set e) where
  sorted := h.sorted.insert _ _
  keyed := by
    intro entry hentry
    rcases Dict.mem_of_mem_insert hentry with rfl | hentry
    · rfl
    · exact h.keyed entry hentry
  current := by
    intro id e'
    rw [find?_set, lastSet_concat, ← h.current id e']
    unfold CatalogCall.Decides
    split
    next hid =>
      have hset : some e = some e' ↔ CatalogCall.set e = .set e' ∧ e'.id = id := by
        simp only [Option.some.injEq, CatalogCall.set.injEq]
        exact ⟨fun heq => ⟨heq, heq ▸ hid⟩, And.left⟩
      rw [hset]
      exact ⟨.inl, fun h => h.resolve_right fun h => h.1 hid⟩
    next hid =>
      have hother : ¬(CatalogCall.set e = .set e' ∧ e'.id = id) := by
        rintro ⟨heq, hid'⟩
        obtain rfl := CatalogCall.set.inj heq
        exact hid hid'
      rw [or_iff_right hother, and_iff_right hid]

theorem holds_erase (h : Holds calls c) (id : ElementId) :
    Holds (calls ++ [.remove id]) (c.erase id) where
  sorted := h.sorted.erase _
  keyed := by
    unfold erase
    rw [h.sorted.erase_eq_filter]
    exact fun entry hentry => h.keyed entry (List.mem_of_mem_filter hentry)
  current := by
    intro other e
    rw [find?_erase h.sorted, lastSet_concat, ← h.current other e]
    unfold CatalogCall.Decides
    split
    next hid => simp [hid]
    next hid => simp [hid]

/-- Calls that decide nothing make no difference. -/
theorem holds_unchanged (h : Holds calls c) {call : CatalogCall} (hcall : ∀ id, ¬call.Decides id) :
    Holds (calls ++ [call]) c where
  sorted := h.sorted
  keyed := h.keyed
  current := by
    intro id e
    rw [lastSet_concat, ← h.current id e]
    refine (or_iff_right ?_).trans (and_iff_right (hcall id)) |>.symm
    rintro ⟨rfl, hid⟩
    exact hcall id hid

/-- **A call is put behind those that the catalog knows of.** -/
theorem holds_perform (h : Holds calls c) (call : CatalogCall) :
    Holds (calls ++ [call]) (c.perform call).2 := by
  cases call with
  | set e => exact holds_set h e
  | remove id => exact holds_erase h id
  | get id => exact holds_unchanged h fun _ => not_false
  | list => exact holds_unchanged h fun _ => not_false
  | all => exact holds_unchanged h fun _ => not_false

theorem holds_run (h : Holds calls c) (more : List CatalogCall) :
    Holds (calls ++ more) (c.run more).2 := by
  induction more generalizing calls c with
  | nil => rwa [List.append_nil]
  | cons call rest ih =>
    have hrest := ih (holds_perform h call)
    rwa [List.append_assoc] at hrest

theorem holds_ofElements (elements : List Element) :
    Holds (elements.map .set) (ofElements elements) := by
  have hset (c : Catalog) : (c.run (elements.map .set)).2 = elements.foldl set c := by
    induction elements generalizing c with
    | nil => rfl
    | cons e rest ih => exact ih (c.set e)
  unfold ofElements
  rw [← hset]
  exact holds_run holds_nil (elements.map .set)

/-! ## §4. What a catalog answers. -/

/-- The catalog lists the identifiers under which something is found. -/
theorem Holds.mem_ids_iff (h : Holds calls c) (id : ElementId) :
    id ∈ c.ids ↔ ∃ e, c.find? id = some e := by
  unfold ids
  rw [List.mem_map]
  constructor
  · rintro ⟨entry, hentry, rfl⟩
    refine ⟨entry.2, ?_⟩
    unfold find?
    rw [← h.keyed entry hentry]
    exact Dict.get?_of_mem h.sorted hentry
  · rintro ⟨e, he⟩
    exact ⟨(id.fullName, e), Dict.mem_of_get? he, ((h.current id e).mp he).1⟩

theorem Holds.ids_pairwise (h : Holds calls c) :
    c.ids.Pairwise (fun a b => a.fullName < b.fullName) := by
  have hkeys : c.ids.map ElementId.fullName = Dict.keys c := by
    unfold ids Dict.keys
    rw [List.map_map]
    exact List.map_congr_left fun entry hentry => (h.keyed entry hentry).symm
  have hsorted : (c.ids.map ElementId.fullName).Pairwise (· < ·) := hkeys ▸ h.sorted
  exact List.pairwise_map.mp hsorted

theorem Holds.ids_nodup (h : Holds calls c) : c.ids.Nodup :=
  h.ids_pairwise.imp fun {a b} hlt (heq : a = b) => String.lt_irrefl b.fullName (heq ▸ hlt)

/-- What is under the identifier of a listed element is that element. -/
theorem Holds.find?_entry (h : Holds calls c) {entry : String × Element} (hentry : entry ∈ c) :
    c.find? entry.2.id = some entry.2 := by
  unfold find?
  rw [← h.keyed entry hentry]
  exact Dict.get?_of_mem h.sorted hentry

/-- It makes no difference whether all elements are read off or looked up one by one. -/
theorem Holds.all_eq (h : Holds calls c) : c.all = c.allByLookup := by
  unfold allByLookup all ids
  rw [List.filterMap_map, ← List.filterMap_eq_map]
  exact List.filterMap_congr fun entry hentry => (h.find?_entry hentry).symm

/-- Removing leaves all other elements, in order. -/
theorem Holds.all_erase (h : Holds calls c) (id : ElementId) :
    (c.erase id).all = c.all.filter fun e => e.id ≠ id := by
  unfold all erase
  rw [h.sorted.erase_eq_filter, List.filter_map]
  refine congrArg _ (List.filter_congr fun entry hentry => ?_)
  have hkey : entry.1 = id.fullName ↔ entry.2.id = id := by
    rw [h.keyed entry hentry]
    exact ⟨fun heq => ElementId.fullName_injective heq, fun heq => heq ▸ rfl⟩
  simp [hkey]

theorem Holds.answers (h : Holds calls c) (call : CatalogCall) :
    Answers calls call (c.perform call).1 := by
  have hlist : Answers calls .list (.listed c.ids) := by
    refine .list h.ids_nodup h.ids_pairwise fun id => ?_
    simp only [h.mem_ids_iff, h.current]
  cases call with
  | set e => exact .set e
  | remove id => exact .remove (h.current id)
  | get id => exact .get (h.current id)
  | list => exact hlist
  | all =>
    refine .all hlist ?_
    unfold ids all
    rw [List.forall₂_map_left_iff, List.forall₂_map_right_iff]
    refine List.forall₂_same.mpr fun entry hentry => ?_
    rw [← h.find?_entry hentry]
    exact .get (h.current entry.2.id)

end

theorem run_append (c : Catalog) (calls more : List CatalogCall) :
    c.run (calls ++ more)
      = ((c.run calls).1 ++ ((c.run calls).2.run more).1, ((c.run calls).2.run more).2) := by
  induction calls generalizing c with
  | nil => rfl
  | cons call rest ih =>
    simp only [List.cons_append, run, ih]

theorem run_length (c : Catalog) (calls : List CatalogCall) :
    (c.run calls).1.length = calls.length := by
  induction calls generalizing c with
  | nil => rfl
  | cons call rest ih => exact congrArg (· + 1) (ih _)

/-- **A store of elements is a map by identifiers.**  In every run, whatever it starts from, each
call is answered as the first elements and the calls before it demand.  All elements are those
that are looked up one by one, and a removal takes out what it returns and nothing else. -/
theorem runs_as_map (initial : List Element) (earlier later : List CatalogCall)
    (call : CatalogCall) :
    let before := ((ofElements initial).run earlier).2
    let answers := ((ofElements initial).run (earlier ++ call :: later)).1
    (∃ answer, answers[earlier.length]? = some answer
        ∧ Answers (initial.map .set ++ earlier) call answer)
      ∧ answers.length = earlier.length + 1 + later.length
      ∧ before.all = before.allByLookup
      ∧ ∀ id,
        let left := (before.perform (.remove id)).2
        left.all = before.all.filter (fun e => e.id ≠ id)
          ∧ ∀ other, left.find? other = if id = other then none else before.find? other := by
  intro before answers
  have hbefore : Holds (initial.map .set ++ earlier) before :=
    holds_run (holds_ofElements initial) earlier
  have hanswers : answers = ((ofElements initial).run earlier).1
      ++ (before.perform call).1 :: ((before.perform call).2.run later).1 := by
    show ((ofElements initial).run (earlier ++ call :: later)).1 = _
    rw [run_append]
    rfl
  refine ⟨⟨_, ?_, hbefore.answers call⟩, ?_, hbefore.all_eq, fun id => ?_⟩
  · have hlength := run_length (ofElements initial) earlier
    rw [hanswers, List.getElem?_append_right (Nat.le_of_eq hlength), hlength, Nat.sub_self]
    rfl
  · rw [run_length, List.length_append, List.length_cons]
    omega
  · exact ⟨hbefore.all_erase id, find?_erase hbefore.sorted id⟩

end Catalog

end AccountSync
