/-
  AccountSync.Proofs.Children.Sorted
  ──────────────────────────────────
  **THE ORDER OF CHILDREN IS THEIRS, NOT THAT OF THE ANSWER THEY CAME IN.**

  What children are compared by may be absent in two places: a position that is no integer, a
  time that cannot be read.  An absent one comes last in both, although positions ascend and
  times descend, and that is what keeps the comparison transitive.  So it makes sense to sort by
  it, and children that all differ in position or time come out in one order, in whatever order
  they were fetched.  None of this depends on how times are written, only on that a text stands
  for one time or for none.

      Children.MayPrecede      — when a child may stand in front of another, said by itself
      order_ne_gt_iff          — that is what the comparison finds out
      order_eq_iff             — children that compare equal have equal keys
      children_in_order        — the comparison, and what sorting by it comes to
-/
import AccountSync.Proofs.Sorting

namespace AccountSync.Children

open Sorting (lastIfAbsent descending tiedWith)

/-! ## §1. Which child comes first. -/

/-- The first position is lower; an absent one is above all others. -/
def LowerPosition : Option Int → Option Int → Prop
  | some p, some q => p < q
  | some _, none => True
  | none, _ => False

/-- The first time is the second one or a newer one; an unknown one is older than all others. -/
def NotOlder : Option Instant → Option Instant → Prop
  | some s, some t =>
    t.second < s.second ∨ (t.second = s.second ∧ t.nanosecond ≤ s.nanosecond)
  | _, none => True
  | none, some _ => False

section

variable (read : String → Option Instant) (positionField createdAtField : String)

/-- What children are compared by, where `read` says which time a text stands for. -/
def orderKey (child : Instance) : Option Int × Option Instant :=
  (position? positionField child, created? read createdAtField child)

/-- One child may stand in front of another if its position is lower, or if the positions are the
same and it is not older. -/
def MayPrecede (a b : Instance) : Prop :=
  LowerPosition (position? positionField a) (position? positionField b)
    ∨ (position? positionField a = position? positionField b
      ∧ NotOlder (created? read createdAtField a) (created? read createdAtField b))

end

/-! ## §2. What the comparison finds out. -/

theorem lastIfAbsent_eq_lt_iff (p q : Option Int) :
    lastIfAbsent compare p q = .lt ↔ LowerPosition p q := by
  match p, q with
  | none, none | none, some _ => simp [lastIfAbsent, LowerPosition]
  | some p, none => simp [lastIfAbsent, LowerPosition]
  | some p, some q => simp [lastIfAbsent, LowerPosition, Std.compare_eq_lt]

theorem lastIfAbsent_descending_ne_gt_iff (s t : Option Instant) :
    lastIfAbsent (descending Instant.order) s t ≠ .gt ↔ NotOlder s t := by
  match s, t with
  | none, none | none, some _ => simp [lastIfAbsent, NotOlder]
  | some s, none => simp [lastIfAbsent, NotOlder]
  | some s, some t =>
    -- the newer instant comes first, so the comparison is made the other way round
    simp only [lastIfAbsent, descending, NotOlder, Instant.order]
    rcases Int.lt_trichotomy t.second s.second with hlt | heq | hgt
    · simp [Std.compare_eq_lt.mpr hlt, hlt]
    · simp [heq, Std.compare_eq_gt]
    · have hne : t.second ≠ s.second := by omega
      have hnot : ¬t.second < s.second := by omega
      simp [Std.compare_eq_gt.mpr hgt, hne, hnot]

variable {read : String → Option Instant} {positionField createdAtField : String}
  {a b : Instance}

/-- Children compare equal if they have the same position and the same time. -/
theorem order_eq_iff :
    order read positionField createdAtField a b = .eq
      ↔ orderKey read positionField createdAtField a
        = orderKey read positionField createdAtField b := by
  unfold order orderKey
  rw [Ordering.then_eq_eq, Std.LawfulEqCmp.compare_eq_iff_eq, Std.LawfulEqCmp.compare_eq_iff_eq,
    Prod.mk.injEq]

/-- The comparison finds out whether a child may stand in front of another. -/
theorem order_ne_gt_iff :
    order read positionField createdAtField a b ≠ .gt
      ↔ MayPrecede read positionField createdAtField a b := by
  have hposition :
      lastIfAbsent compare (position? positionField a) (position? positionField b) = .eq
        ↔ position? positionField a = position? positionField b :=
    Std.LawfulEqCmp.compare_eq_iff_eq
  unfold order MayPrecede
  rw [← lastIfAbsent_eq_lt_iff, ← lastIfAbsent_descending_ne_gt_iff, ← hposition]
  cases lastIfAbsent compare (position? positionField a) (position? positionField b) <;> simp

/-! ## §3. Sorted children. -/

section

variable (read positionField createdAtField) (children : List Instance)

theorem sortedBy_mayPrecede :
    (sortedBy read positionField createdAtField children).Pairwise
      (MayPrecede read positionField createdAtField) := by
  have hsorted := Sorting.sortedBy_pairwise (order read positionField createdAtField) children
  exact hsorted.imp fun h => order_ne_gt_iff.mp h

/-- Children with the same position and the same time stay in their order. -/
theorem sortedBy_ties (a : Instance) :
    let tied := fun b => decide
      (orderKey read positionField createdAtField a = orderKey read positionField createdAtField b)
    (sortedBy read positionField createdAtField children).filter tied = children.filter tied := by
  intro tied
  have hties : ∀ l, tiedWith (order read positionField createdAtField) a l = l.filter tied := by
    intro l
    refine List.filter_congr fun b _ => ?_
    simp [tied, order_eq_iff]
  rw [← hties, ← hties]
  exact Sorting.sortedBy_tied (order read positionField createdAtField) a children

end

/-- Children that all differ in position or time come out in one order. -/
theorem sortedBy_of_perm {children children' : List Instance}
    (hdistinct : (children.map (orderKey read positionField createdAtField)).Nodup)
    (hperm : children'.Perm children) :
    sortedBy read positionField createdAtField children'
      = sortedBy read positionField createdAtField children := by
  have hapart : children.Pairwise
      (fun a b => order read positionField createdAtField a b ≠ .eq) :=
    (List.pairwise_map.mp hdistinct).imp fun hne heq => hne (order_eq_iff.mp heq)
  exact (Sorting.sortedBy_of_perm _ hperm.symm hapart).symm

/-- **The order of children is a total preorder, and sorted children are in that order.**  The
comparison agrees with itself when it is made the other way round, and it is transitive.  It says
whether a child may stand in front of another: the one with the lower position may, and of two
with one position the newer one; a child without an integer as its position comes after those
that have one, and one without a readable time after those of its position.  Sorting permutes
children into that order and leaves those in their order that agree in both.  If none do, then
whichever order they come in makes no difference. -/
theorem children_in_order (read : String → Option Instant) (positionField createdAtField : String) :
    let cmp := order read positionField createdAtField
    let key := orderKey read positionField createdAtField
    (∀ a, cmp a a = .eq)
      ∧ (∀ a b, cmp b a = (cmp a b).swap)
      ∧ (∀ a b c, cmp a b ≠ .gt → cmp b c ≠ .gt → cmp a c ≠ .gt)
      ∧ (∀ a b, cmp a b ≠ .gt ↔ MayPrecede read positionField createdAtField a b)
      ∧ (∀ a b, cmp a b = .eq ↔ key a = key b)
      ∧ ∀ children, let result := sortedBy read positionField createdAtField children
        result.Perm children
          ∧ result.Pairwise (MayPrecede read positionField createdAtField)
          ∧ (∀ a, result.filter (fun b => key a = key b) = children.filter (fun b => key a = key b))
          ∧ ((children.map key).Nodup → ∀ children', children'.Perm children →
            sortedBy read positionField createdAtField children' = result) := by
  intro cmp key
  refine ⟨?reflexive, ?oriented, ?transitive, fun a b => order_ne_gt_iff,
    fun a b => order_eq_iff, ?result⟩
  case reflexive =>
    intro a
    exact Std.ReflCmp.compare_self
  case oriented =>
    intro a b
    exact Std.OrientedCmp.eq_swap
  case transitive =>
    intro a b c hab hbc
    have hac := Sorting.bne_gt_trans cmp a b c (bne_iff_ne.mpr hab) (bne_iff_ne.mpr hbc)
    exact bne_iff_ne.mp hac
  case result =>
    intro children result
    refine ⟨Sorting.sortedBy_perm cmp children, sortedBy_mayPrecede _ _ _ children, fun a => ?_, ?_⟩
    · exact sortedBy_ties read positionField createdAtField children a
    · intro hdistinct children' hperm
      exact sortedBy_of_perm hdistinct hperm

/-- A section, with what was fetched as its position and as the time of its creation. -/
def fetchedSection (name : String) (position created : Value) : Instance :=
  .named name (.ofType "z" "section") [("created_at", created), ("position", position)]

/-- Five sections come out in one order, in whatever order they were fetched: the time of the
second one cannot be read, those of the next two are of different places, and the last one has
no position. -/
theorem children_in_order_for_sections :
    let children := [
      fetchedSection "a" (.number (.int 0)) (.string "2024-06-01T09:00:00Z"),
      fetchedSection "b" (.number (.int 0)) (.string "yesterday"),
      fetchedSection "c" (.number (.int 1)) (.string "2024-06-01T11:00:00Z"),
      fetchedSection "d" (.number (.int 1)) (.string "2024-06-01T12:30:00+02:00"),
      fetchedSection "e" .null (.string "2024-06-01T12:00:00Z")]
    (children.map (orderKey Instant.read? "position" "created_at")).Nodup
      ∧ ∀ children', children'.Perm children →
        sorted "position" "created_at" children' = children := by
  intro children
  let cmp := order Instant.read? "position" "created_at"
  have hdistinct : (children.map (orderKey Instant.read? "position" "created_at")).Nodup := by
    decide +kernel
  have hinOrder : children.Pairwise (fun a b => cmp a b ≠ .gt) := by decide +kernel
  refine ⟨hdistinct, fun children' hperm => ?_⟩
  obtain ⟨-, -, -, -, -, hsorted⟩ := children_in_order Instant.read? "position" "created_at"
  obtain ⟨-, -, -, hsame⟩ := hsorted children
  have hsorted' : sorted "position" "created_at" children' = Sorting.sortedBy cmp children :=
    hsame hdistinct children' hperm
  exact hsorted'.trans (Sorting.sortedBy_of_pairwise cmp hinOrder)

end AccountSync.Children
