/-
  AccountSync.Proofs.Sorting
  ──────────────────────────
  **WHAT IS SORTED IS IN ORDER.**

  Sorting by a comparison that is transitive permutes the items and puts them in order, and it
  leaves items in their order that compare equal.  These three facts determine the result.  So
  sorting a second time changes nothing, sorting by one comparison and then by another is
  sorting by both at once, and where no two items compare equal the order in which they came
  does not matter.

  Comparing keys that may be absent is transitive if comparing keys is, and so is comparing
  first by one key and then by another.

      Sorting.sortedBy_perm       — nothing is lost and nothing added
      Sorting.sortedBy_pairwise   — no item comes after one that it is below
      Sorting.sortedBy_tied       — what compares equal stays in order
      Sorting.eq_of_tied          — there is one such list
      Sorting.sortedBy_sortedBy   — one comparison after the other
      Sorting.sortedBy_of_perm    — items that came in another order
      Children.sorted_positions   — children are in the order of their positions
-/
import AccountSync.Children.Sorted
import Mathlib.Data.List.Pairwise

namespace AccountSync

open Std (OrientedCmp TransCmp LawfulEqCmp)

namespace Sorting

variable {α κ : Type} {cmp : κ → κ → Ordering}

/-! ## §1. In order. -/

theorem sortedBy_perm (cmp : α → α → Ordering) (items : List α) :
    (sortedBy cmp items).Perm items :=
  List.mergeSort_perm items _

/-- What the sort asks of two items. -/
theorem bne_gt_eq_isLE (cmp : α → α → Ordering) (a b : α) :
    (cmp a b != .gt) = (cmp a b).isLE := by
  cases cmp a b <;> rfl

section Order

variable (cmp : α → α → Ordering) [TransCmp cmp]

theorem bne_gt_trans (a b c : α) (hab : (cmp a b != .gt) = true) (hbc : (cmp b c != .gt) = true) :
    (cmp a c != .gt) = true := by
  rw [bne_gt_eq_isLE] at hab hbc ⊢
  exact TransCmp.isLE_trans hab hbc

theorem bne_gt_total (a b : α) : (cmp a b != .gt || cmp b a != .gt) = true := by
  have hswap : cmp b a = (cmp a b).swap := OrientedCmp.eq_swap
  rw [hswap]
  cases cmp a b <;> rfl

/-- Of two items of which neither is above the other, neither is below. -/
theorem eq_of_ne_gt {a b : α} (hab : cmp a b ≠ .gt) (hba : cmp b a ≠ .gt) : cmp a b = .eq := by
  have hswap : cmp b a = (cmp a b).swap := OrientedCmp.eq_swap
  rw [hswap] at hba
  cases h : cmp a b with
  | eq => rfl
  | gt => exact absurd h hab
  | lt => simp [h] at hba

/-- No item comes after one that it is below. -/
theorem sortedBy_pairwise (items : List α) :
    (sortedBy cmp items).Pairwise (fun a b => cmp a b ≠ .gt) := by
  have hsorted : (sortedBy cmp items).Pairwise (fun a b => (cmp a b != .gt) = true) :=
    List.pairwise_mergeSort (bne_gt_trans cmp) (bne_gt_total cmp) items
  exact hsorted.imp fun h => bne_iff_ne.mp h

omit [TransCmp cmp] in
/-- What is in order stays as it is. -/
theorem sortedBy_of_pairwise {items : List α} (h : items.Pairwise (fun a b => cmp a b ≠ .gt)) :
    sortedBy cmp items = items :=
  List.mergeSort_of_pairwise (h.imp fun hab => bne_iff_ne.mpr hab)

/-! ## §2. Items that compare equal. -/

/-- The items that compare equal to one of them, in order. -/
def tiedWith (a : α) (items : List α) : List α :=
  items.filter (fun b => cmp a b = .eq)

/-- What compares equal stays in order. -/
theorem sortedBy_tied (a : α) (items : List α) :
    tiedWith cmp a (sortedBy cmp items) = tiedWith cmp a items := by
  -- two items that are both tied with a third one are tied with each other
  have hpair : (tiedWith cmp a items).Pairwise (fun x y => (cmp x y != .gt) = true) := by
    refine List.pairwise_of_forall_mem_list fun x hx y hy => ?_
    have hax : cmp a x = .eq := of_decide_eq_true (List.mem_filter.mp hx).2
    have hay : cmp a y = .eq := of_decide_eq_true (List.mem_filter.mp hy).2
    have hxy : cmp x y = .eq := by rw [← TransCmp.congr_left hax, hay]
    simp [hxy]
  -- so they are found in the sorted list in the same order, and no others are
  have hsub : (tiedWith cmp a items).Sublist (sortedBy cmp items) :=
    List.sublist_mergeSort (bne_gt_trans cmp) (bne_gt_total cmp) hpair List.filter_sublist
  have htied : (tiedWith cmp a items).Sublist (tiedWith cmp a (sortedBy cmp items)) := by
    have hfilter := hsub.filter (fun b => decide (cmp a b = .eq))
    unfold tiedWith at hfilter ⊢
    simpa using hfilter
  have hlength : (tiedWith cmp a items).length = (tiedWith cmp a (sortedBy cmp items)).length :=
    ((sortedBy_perm cmp items).filter _).length_eq.symm
  exact (htied.eq_of_length hlength).symm

theorem mem_of_tiedWith_eq {items items' : List α}
    (h : ∀ a, tiedWith cmp a items = tiedWith cmp a items') {a : α} (ha : a ∈ items) :
    a ∈ items' := by
  have hself : a ∈ tiedWith cmp a items := by
    refine List.mem_filter.mpr ⟨ha, ?_⟩
    simp [Std.ReflCmp.compare_self]
  rw [h a] at hself
  exact (List.mem_filter.mp hself).1

/-- **Order and ties determine a list**: two lists in order are the same if they have the same
items tied with each item, in the same order. -/
theorem eq_of_tied {items items' : List α} (hitems : items.Pairwise (fun a b => cmp a b ≠ .gt))
    (hitems' : items'.Pairwise (fun a b => cmp a b ≠ .gt))
    (h : ∀ a, tiedWith cmp a items = tiedWith cmp a items') : items = items' := by
  induction items generalizing items' with
  | nil =>
    cases items' with
    | nil => rfl
    | cons b rest' =>
      have hmem := mem_of_tiedWith_eq cmp (fun a => (h a).symm) List.mem_cons_self
      exact absurd hmem List.not_mem_nil
  | cons a rest ih =>
    cases items' with
    | nil =>
      have hmem := mem_of_tiedWith_eq cmp h List.mem_cons_self
      exact absurd hmem List.not_mem_nil
    | cons b rest' =>
      have ha : a ∈ b :: rest' := mem_of_tiedWith_eq cmp h List.mem_cons_self
      have hb : b ∈ a :: rest := mem_of_tiedWith_eq cmp (fun x => (h x).symm) List.mem_cons_self
      have hself (x : α) : cmp x x ≠ .gt := by simp [Std.ReflCmp.compare_self]
      obtain ⟨hfirst, hrest⟩ := List.pairwise_cons.mp hitems
      obtain ⟨hfirst', hrest'⟩ := List.pairwise_cons.mp hitems'
      -- each of the two first items is nowhere above the other, so they are tied
      have hab : cmp a b ≠ .gt := by
        rcases List.mem_cons.mp hb with rfl | hb
        · exact hself b
        · exact hfirst b hb
      have hba : cmp b a ≠ .gt := by
        rcases List.mem_cons.mp ha with rfl | ha
        · exact hself a
        · exact hfirst' a ha
      have htied : cmp a b = .eq := eq_of_ne_gt cmp hab hba
      -- then each is the first one that is tied with `a`
      have hheads := h a
      unfold tiedWith at hheads
      rw [List.filter_cons_of_pos (by simp [Std.ReflCmp.compare_self]),
        List.filter_cons_of_pos (by simp [htied])] at hheads
      obtain ⟨rfl, -⟩ := List.cons.inj hheads
      refine congrArg (a :: ·) (ih hrest hrest' fun x => ?_)
      have hx := h x
      unfold tiedWith at hx ⊢
      by_cases hxa : cmp x a = .eq
      · rw [List.filter_cons_of_pos (by simpa using hxa),
          List.filter_cons_of_pos (by simpa using hxa)] at hx
        exact (List.cons.inj hx).2
      · rw [List.filter_cons_of_neg (by simpa using hxa),
          List.filter_cons_of_neg (by simpa using hxa)] at hx
        exact hx

/-- Sorting by one comparison and then by another is sorting by both, the last one first. -/
theorem sortedBy_sortedBy (cmp' : α → α → Ordering) [TransCmp cmp'] (items : List α) :
    sortedBy cmp' (sortedBy cmp items) = sortedBy (compareLex cmp' cmp) items := by
  have hboth (a b : α) : compareLex cmp' cmp a b = .eq ↔ cmp' a b = .eq ∧ cmp a b = .eq := by
    simp [compareLex, Ordering.then_eq_eq]
  -- what is tied by both is what is tied by one among what is tied by the other
  have hties (a : α) (l : List α) :
      tiedWith (compareLex cmp' cmp) a l = tiedWith cmp a (tiedWith cmp' a l) := by
    unfold tiedWith
    rw [List.filter_filter]
    refine List.filter_congr fun b _ => ?_
    simp [hboth, and_comm]
  have hcomm (a : α) (l : List α) :
      tiedWith cmp a (tiedWith cmp' a l) = tiedWith cmp' a (tiedWith cmp a l) := by
    simp [tiedWith, List.filter_filter, Bool.and_comm]
  refine eq_of_tied (compareLex cmp' cmp) ?_ (sortedBy_pairwise _ items) fun a => ?_
  · refine List.pairwise_iff_forall_sublist.mpr fun {a b} hab => ?_
    have hab' : cmp' a b ≠ .gt :=
      List.pairwise_iff_forall_sublist.mp (sortedBy_pairwise cmp' (sortedBy cmp items)) hab
    unfold compareLex
    cases hcase : cmp' a b with
    | lt => simp
    | gt => exact absurd hcase hab'
    | eq =>
      -- tied by the last comparison, the two are in the order that the first sort left
      have hkept : [a, b].Sublist (tiedWith cmp' a (sortedBy cmp' (sortedBy cmp items))) := by
        have hfilter := hab.filter (fun x => decide (cmp' a x = .eq))
        simpa [tiedWith, Std.ReflCmp.compare_self, hcase] using hfilter
      rw [sortedBy_tied] at hkept
      have hfirst : [a, b].Sublist (sortedBy cmp items) := hkept.trans List.filter_sublist
      exact List.pairwise_iff_forall_sublist.mp (sortedBy_pairwise cmp items) hfirst
  · calc tiedWith (compareLex cmp' cmp) a (sortedBy cmp' (sortedBy cmp items))
      _ = tiedWith cmp a (tiedWith cmp' a (sortedBy cmp items)) := by rw [hties, sortedBy_tied]
      _ = tiedWith cmp' a (tiedWith cmp a items) := by rw [hcomm, sortedBy_tied]
      _ = tiedWith (compareLex cmp' cmp) a (sortedBy (compareLex cmp' cmp) items) := by
        rw [sortedBy_tied, hties, hcomm]

/-- **Where no two items compare equal the order in which they came does not matter.** -/
theorem sortedBy_of_perm {items items' : List α} (hperm : items.Perm items')
    (hdistinct : items.Pairwise (fun a b => cmp a b ≠ .eq)) :
    sortedBy cmp items = sortedBy cmp items' := by
  have hsame : (sortedBy cmp items).Perm (sortedBy cmp items') :=
    ((sortedBy_perm cmp items).trans hperm).trans (sortedBy_perm cmp items').symm
  have hsymm : Std.Symm fun a b : α => cmp a b ≠ .eq :=
    ⟨fun a b hab hba => hab (OrientedCmp.eq_symm hba)⟩
  refine hsame.eq_of_pairwise (fun a b ha hb hab hba => ?_) (sortedBy_pairwise cmp items)
    (sortedBy_pairwise cmp items')
  have ha' : a ∈ items := (sortedBy_perm cmp items).mem_iff.mp ha
  have hb' : b ∈ items :=
    hperm.mem_iff.mpr ((sortedBy_perm cmp items').mem_iff.mp hb)
  by_contra hne
  exact hdistinct.forall ha' hb' hne (eq_of_ne_gt cmp hab hba)

end Order

/-! ## §3. Comparing keys. -/

/-- An absent key is above all others. -/
instance [OrientedCmp cmp] : OrientedCmp (lastIfAbsent cmp) where
  eq_swap {a b} := by
    match a, b with
    | none, none | none, some _ | some _, none => rfl
    | some a, some b =>
      show cmp a b = (cmp b a).swap
      exact OrientedCmp.eq_swap

instance [TransCmp cmp] : TransCmp (lastIfAbsent cmp) where
  isLE_trans {a b c} hab hbc := by
    match a, b, c with
    | none, none, none | some _, none, none | some _, some _, none => rfl
    | none, some _, _ => exact absurd hab nofun
    | _, none, some _ => exact absurd hbc nofun
    | some a, some b, some c =>
      have hac : (cmp a c).isLE := TransCmp.isLE_trans hab hbc
      exact hac

instance [TransCmp cmp] : TransCmp (descending cmp) :=
  inferInstanceAs (TransCmp fun a b => cmp b a)

/-- Different keys compare different, also where one of them is absent. -/
instance [LawfulEqCmp cmp] : LawfulEqCmp (lastIfAbsent cmp) where
  compare_self {a} := by
    cases a with
    | none => rfl
    | some a =>
      have hself : cmp a a = .eq := Std.ReflCmp.compare_self
      exact hself
  eq_of_compare {a b} h := by
    match a, b with
    | none, none => rfl
    | none, some _ | some _, none => exact absurd h nofun
    | some a, some b =>
      have hab : cmp a b = .eq := h
      exact congrArg some (LawfulEqCmp.eq_of_compare hab)

instance [LawfulEqCmp cmp] : LawfulEqCmp (descending cmp) where
  compare_self {a} := by
    show cmp a a = .eq
    exact Std.ReflCmp.compare_self
  eq_of_compare {a b} h := by
    have hba : cmp b a = .eq := h
    exact (LawfulEqCmp.eq_of_compare hba).symm

/-- Items may be compared by their keys. -/
theorem transCmp_comap (cmp : κ → κ → Ordering) [TransCmp cmp] (key : α → κ) :
    TransCmp fun a b => cmp (key a) (key b) where
  eq_swap := OrientedCmp.eq_swap
  isLE_trans := TransCmp.isLE_trans

end Sorting

instance : TransCmp Instant.order :=
  have := Sorting.transCmp_comap (compare : Int → Int → Ordering) Instant.second
  have := Sorting.transCmp_comap (compare : Nat → Nat → Ordering) Instant.nanosecond
  inferInstanceAs (TransCmp (compareLex
    (fun a b : Instant => compare a.second b.second)
    (fun a b : Instant => compare a.nanosecond b.nanosecond)))

instance : LawfulEqCmp Instant.order where
  compare_self := Std.ReflCmp.compare_self
  eq_of_compare {a b} h := by
    obtain ⟨hsecond, hnanosecond⟩ := Ordering.then_eq_eq.mp h
    obtain ⟨second, nanosecond⟩ := a
    simp only [Std.LawfulEqCmp.compare_eq_iff_eq] at hsecond hnanosecond
    subst hsecond hnanosecond
    rfl

namespace Children

instance (read : String → Option Instant) (positionField createdAtField : String) :
    TransCmp (order read positionField createdAtField) :=
  have := Sorting.transCmp_comap (Sorting.lastIfAbsent compare) (position? positionField)
  have := Sorting.transCmp_comap (Sorting.lastIfAbsent (Sorting.descending Instant.order))
    (created? read createdAtField)
  inferInstanceAs (TransCmp (compareLex
    (fun a b => Sorting.lastIfAbsent compare (position? positionField a)
      (position? positionField b))
    (fun a b => Sorting.lastIfAbsent (Sorting.descending Instant.order)
      (created? read createdAtField a) (created? read createdAtField b))))

/-- A child does not come after one with a greater position. -/
theorem sorted_positions (positionField createdAtField : String) (children : List Instance) :
    (sorted positionField createdAtField children).Pairwise fun a b =>
      Sorting.lastIfAbsent compare (position? positionField a) (position? positionField b)
        ≠ .gt := by
  have hsorted := Sorting.sortedBy_pairwise (order Instant.read? positionField createdAtField)
    children
  refine hsorted.imp ?_
  intro a b hab hgt
  refine hab ?_
  unfold order
  rw [hgt]
  rfl

end Children

end AccountSync
