/-
  AccountSync.Proofs.Element.Parents
  ──────────────────────────────────
  **PARENTS ARE ADDED BEHIND THOSE ALREADY LISTED.**

  The parents of an instance are the references in the list of one of its annotations.  Where
  the annotation is a bare reference, that is read as the one parent too, but it is no list to
  add to: the next parent takes its place.  From then on there is a list, and nothing is lost.

      Instance.loneParent?         — the bare reference, if there is one
      Instance.parents_withParent  — one more parent, behind the others
      Instance.parents_withParents — parents added one after the other
      parents_added_iff            — when none is lost
-/
import AccountSync.Element.Basic
import AccountSync.Proofs.Dict

namespace AccountSync

namespace Instance

/-! ## §1. One parent. -/

/-- The reference that stands for the parents by itself, outside of any list. -/
def loneParent? (i : Instance) : Option Reference :=
  (Dict.get? i.annotations parentKey).bind Value.reference?

theorem parents_of_loneParent? {i : Instance} {r : Reference} (h : i.loneParent? = some r) :
    i.parents = [r] := by
  obtain ⟨v, hv, href⟩ := Option.bind_eq_some_iff.mp h
  unfold parents
  rw [hv]
  cases v with
  | reference r' => exact congrArg (fun r => [r]) (Option.some.inj href)
  | _ => exact absurd href nofun

/-- The annotation is a list from the first added parent on. -/
theorem loneParent?_withParent (i : Instance) (r : Reference) :
    (i.withParent r).loneParent? = none := by
  unfold loneParent? withParent annotate
  rw [Dict.get?_insert_self]
  rfl

/-- The references of a list with one more at its end. -/
theorem referencesIn_append (items : List Value) (r : Reference) :
    referencesIn (items ++ [.reference r]) = referencesIn items ++ [r] :=
  List.filterMap_append

/-- **One more parent comes behind the others**, whatever else the annotation holds, unless a bare
reference is there. -/
theorem parents_withParent {i : Instance} (h : i.loneParent? = none) (r : Reference) :
    (i.withParent r).parents = i.parents ++ [r] := by
  unfold parents withParent annotate
  rw [Dict.get?_insert_self]
  unfold loneParent? at h
  cases hv : Dict.get? i.annotations parentKey with
  | none => rfl
  | some v =>
    rw [hv] at h
    cases v with
    | list items => exact referencesIn_append items r
    | reference r' => exact absurd h nofun
    | _ => rfl

/-- A bare reference makes way for the parent that is added. -/
theorem parents_withParent_of_lone {i : Instance} {p : Reference} (h : i.loneParent? = some p)
    (r : Reference) : (i.withParent r).parents = [r] := by
  obtain ⟨v, hv, href⟩ := Option.bind_eq_some_iff.mp h
  unfold parents withParent annotate
  rw [Dict.get?_insert_self, hv]
  cases v with
  | reference r' => rfl
  | _ => exact absurd href nofun

/-! ## §2. One parent after the other. -/

/-- The instance with several more parents, added in order. -/
def withParents (i : Instance) (rs : List Reference) : Instance :=
  rs.foldl withParent i

/-- Added parents come behind the others, in order. -/
theorem parents_withParents {i : Instance} (h : i.loneParent? = none) (rs : List Reference) :
    (i.withParents rs).parents = i.parents ++ rs := by
  induction rs generalizing i with
  | nil => exact (List.append_nil i.parents).symm
  | cons r rest ih =>
    show ((i.withParent r).withParents rest).parents = i.parents ++ r :: rest
    rw [ih (loneParent?_withParent i r), parents_withParent h, List.append_assoc]
    rfl

/-- Only the bare reference is lost. -/
theorem parents_withParents_of_lone {i : Instance} {p : Reference} (h : i.loneParent? = some p)
    {rs : List Reference} (hne : rs ≠ []) : (i.withParents rs).parents = rs := by
  cases rs with
  | nil => exact absurd rfl hne
  | cons r rest =>
    show ((i.withParent r).withParents rest).parents = r :: rest
    rw [parents_withParents (loneParent?_withParent i r), parents_withParent_of_lone h]
    rfl

/-- The two instances differ at most in the annotation that lists the parents. -/
structure SameButParents (i j : Instance) : Prop where
  id : j.id = i.id
  type : j.type = i.type
  value : j.value = i.value
  annotations : ∀ name, name ≠ parentKey →
    Dict.get? j.annotations name = Dict.get? i.annotations name

theorem withParents_same (i : Instance) (rs : List Reference) :
    i.SameButParents (i.withParents rs) := by
  induction rs generalizing i with
  | nil => exact ⟨rfl, rfl, rfl, fun _ _ => rfl⟩
  | cons r rest ih =>
    have hrest : (i.withParent r).SameButParents ((i.withParent r).withParents rest) := ih _
    refine ⟨hrest.id, hrest.type, hrest.value, fun name hname => ?_⟩
    exact (hrest.annotations name hname).trans (Dict.get?_insert_of_ne _ hname.symm _)

end Instance

/-- **When parents are only ever added.**  After any parents have been added one after the other,
the parents of an instance are those it had, followed by the added ones in order, exactly if none
was added or its one parent was not given as a bare reference.  Such a reference is read as a
parent and then lost, and the added ones are all that is left.  Nothing but the annotation that
lists the parents is touched. -/
theorem parents_added_iff (i : Instance) (rs : List Reference) :
    ((i.withParents rs).parents = i.parents ++ rs ↔ i.loneParent? = none ∨ rs = [])
    ∧ (∀ r, i.loneParent? = some r →
        i.parents = [r] ∧ (rs ≠ [] → (i.withParents rs).parents = rs))
    ∧ i.SameButParents (i.withParents rs) := by
  refine ⟨⟨fun hadded => ?_, ?_⟩, fun r hlone => ?_, i.withParents_same rs⟩
  · cases hlone : i.loneParent? with
    | none => exact .inl rfl
    | some r =>
      refine .inr (Decidable.byContradiction fun hne => ?_)
      -- the lost reference is missing from the count
      rw [Instance.parents_withParents_of_lone hlone hne,
        Instance.parents_of_loneParent? hlone] at hadded
      exact absurd (congrArg List.length hadded) (Nat.ne_of_lt (Nat.lt_succ_self _))
  · rintro (hlone | rfl)
    · exact Instance.parents_withParents hlone rs
    · exact (List.append_nil i.parents).symm
  · exact ⟨Instance.parents_of_loneParent? hlone, Instance.parents_withParents_of_lone hlone⟩

/-- A list with other things among the parents is added to; so is a text that stands in the place
of a list, which lists no parents. -/
theorem parents_added_for_mixed_list :
    let a : Reference := .to (.ofInstance "z" "category" "a") none
    let b : Reference := .to (.ofInstance "z" "category" "b") (some .null)
    let listing (v : Value) : Instance :=
      { id := .ofInstance "z" "section" "s", type := .ofType "z" "section",
        annotations := [(Instance.parentKey, v)] }
    let mixed := listing (.list [.null, .reference a, .string "x"])
    let odd := listing (.string "x")
    (mixed.withParents [b, a]).parents = [a, b, a] ∧ (odd.withParents [b, a]).parents = [b, a] := by
  intro a b listing mixed odd
  exact ⟨(parents_added_iff mixed [b, a]).1.mpr (.inl rfl),
    (parents_added_iff odd [b, a]).1.mpr (.inl rfl)⟩

/-- A section whose one parent is a bare reference loses it to the parent that is added. -/
theorem lone_parent_lost :
    let a : Reference := .to (.ofInstance "z" "category" "a") none
    let b : Reference := .to (.ofInstance "z" "category" "b") none
    let child : Instance :=
      { id := .ofInstance "z" "section" "s", type := .ofType "z" "section",
        annotations := [(Instance.parentKey, .reference a)] }
    child.parents = [a] ∧ (child.withParents [b]).parents = [b]
      ∧ (child.withParents [b]).parents ≠ child.parents ++ [b] := by
  intro a b child
  have hlost : (child.withParents [b]).parents = [b] := by
    rfl
  refine ⟨rfl, hlost, fun hadded => ?_⟩
  rw [hlost] at hadded
  exact absurd (congrArg List.length hadded) (by decide)

end AccountSync
