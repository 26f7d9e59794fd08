/-
  AccountSync.Proofs.Lookup.Placeholders
  ──────────────────────────────────────
  **WHICH PLACEHOLDERS ARE TOLD APART.**

  A placeholder is named for the identifier that it stands for, but in a name an underscore
  takes the place of every character that may not stand there.  So identifiers that differ in
  such characters only have one placeholder, and a change from the one to the other is not
  seen; all other changes between unknown identifiers are.

      Instance.Blurred               — characters that an underscore stands for
      Instance.sanitize_eq_iff       — texts that make one name
      Instance.placeholder_id_eq_iff — identifiers that have one placeholder
      placeholders_told_apart_iff    — what follows for values and their differences
      placeholder_shared             — two identifiers with one placeholder
-/
import AccountSync.Proofs.Change.Located
import AccountSync.Proofs.Lookup.Resolution
import Mathlib.Data.List.Forall2

namespace AccountSync

open List (Forall₂)
open Value (Position)

/-! ## §1. Names. -/

namespace Instance

variable {c d : Char} {raw raw' : String}

/-- In a name an underscore stands for the character: it is neither a letter or a digit of ASCII
nor a hyphen.  The underscore itself is one of these. -/
def Blurred (c : Char) : Prop :=
  c.isAlphanum = false ∧ c ≠ '-'

instance (c : Char) : Decidable (Blurred c) :=
  inferInstanceAs (Decidable (_ ∧ _))

theorem nameChar_of_blurred (h : Blurred c) : nameChar c = '_' := by
  unfold nameChar
  by_cases hc : c = '_'
  · simp [hc]
  · simp [h.1, h.2, hc]

theorem nameChar_of_not_blurred (h : ¬Blurred c) : nameChar c = c := by
  unfold nameChar Blurred at *
  by_cases hc : c.isAlphanum = true
  · simp [hc]
  · -- so it is the hyphen
    have hhyphen : c = '-' := by simpa [hc] using h
    simp [hhyphen]

/-- Names do not tell the characters apart. -/
def Indistinct (c d : Char) : Prop :=
  c = d ∨ Blurred c ∧ Blurred d

theorem nameChar_eq_iff : nameChar c = nameChar d ↔ Indistinct c d := by
  have hunderscore : Blurred '_' := by decide
  constructor
  · intro h
    by_cases hc : Blurred c
    · rw [nameChar_of_blurred hc] at h
      refine .inr ⟨hc, ?_⟩
      by_cases hd : Blurred d
      · exact hd
      · rw [nameChar_of_not_blurred hd] at h
        exact h ▸ hunderscore
    · rw [nameChar_of_not_blurred hc] at h
      by_cases hd : Blurred d
      · rw [nameChar_of_blurred hd] at h
        exact absurd (h ▸ hunderscore) hc
      · rw [nameChar_of_not_blurred hd] at h
        exact .inl h
  · rintro (rfl | ⟨hc, hd⟩)
    · rfl
    · rw [nameChar_of_blurred hc, nameChar_of_blurred hd]

/-- Texts make one name exactly if names do not tell their characters apart, one by one. -/
theorem sanitize_eq_iff :
    sanitize raw = sanitize raw' ↔ Forall₂ Indistinct raw.toList raw'.toList := by
  unfold sanitize
  rw [String.ofList_inj, ← List.forall₂_eq_eq_eq, List.forall₂_map_left_iff,
    List.forall₂_map_right_iff]
  constructor
  · intro h
    exact h.imp fun _ _ => nameChar_eq_iff.mp
  · intro h
    exact h.imp fun _ _ => nameChar_eq_iff.mpr

/-- Identifiers have one placeholder exactly if they make one name. -/
theorem placeholder_id_eq_iff (adapter typeName raw raw' : String) :
    (placeholder adapter typeName raw).id = (placeholder adapter typeName raw').id
      ↔ Forall₂ Indistinct raw.toList raw'.toList := by
  rw [← sanitize_eq_iff]
  constructor
  · intro h
    have hname := congrArg ElementId.name h
    exact (String.append_right_inj Reference.placeholderStem).mp hname
  · intro h
    unfold placeholder
    rw [h]
    rfl

end Instance

/-! ## §2. What is seen of a change. -/

/-- References are equal exactly if they point at the same. -/
theorem Value.same_reference (m m' : Reference) :
    (Value.reference m).same (.reference m') = decide (m.id = m'.id) := by
  obtain ⟨id, target⟩ := m
  obtain ⟨id', target'⟩ := m'
  rfl

/-- An identifier that no table knows is resolved to its placeholder. -/
theorem Resolver.resolve_placeholder {r : Resolver} (hplaceholders : r.placeholders = true)
    {raw : String} (hunknown : ∀ t ∈ r.tables, t.find? raw = none) (targetType : String) :
    r.resolve raw targetType
      = .missing (Instance.placeholder r.adapter targetType raw).reference :=
  (r.answers_iff raw targetType _).mp (.missing hunknown hplaceholders)

/-- **Two unknown identifiers have one placeholder exactly if they differ in nothing but characters
that an underscore stands for.**  If they have two, then fields that hold the references at the
same position are different, and their comparison shows the change from the one to the other.  If
they have one, then fields that differ in nothing else are equal, and there is no difference. -/
theorem placeholders_told_apart_iff {r : Resolver} (hplaceholders : r.placeholders = true)
    {raw raw' : String} (hunknown : ∀ t ∈ r.tables, t.find? raw = none)
    (hunknown' : ∀ t ∈ r.tables, t.find? raw' = none) (targetType : String) :
    ∃ m m', r.resolve raw targetType = .missing m ∧ r.resolve raw' targetType = .missing m'
      ∧ (m.id = m'.id ↔ Forall₂ Instance.Indistinct raw.toList raw'.toList)
      ∧ (m.id ≠ m'.id → ∀ (root : ElementId) (before after : Fields) (p : Position),
          (Value.map before).WellFormed → (Value.map after).WellFormed →
          (Value.map before).valueAt? p = some (.reference m) →
          (Value.map after).valueAt? p = some (.reference m') →
          (Value.map before).same (.map after) = false
            ∧ ∃ d ∈ Difference.ofFields root before after,
              d.Shows root p (.reference m) (.reference m'))
      ∧ (m.id = m'.id → ∀ (fields before after : Fields) (path : List String),
          (Value.map fields).setPath path (.reference m) = .map before →
          (Value.map fields).setPath path (.reference m') = .map after →
          (Value.map before).same (.map after) = true
            ∧ ∀ root, Difference.ofFields root before after = []) := by
  refine ⟨_, _, Resolver.resolve_placeholder hplaceholders hunknown targetType,
    Resolver.resolve_placeholder hplaceholders hunknown' targetType,
    Instance.placeholder_id_eq_iff r.adapter targetType raw raw', ?_, ?_⟩
  · intro hne root before after p hwf hwf' hbefore hafter
    have hdiffer := (Value.same_reference _ _).trans (decide_eq_false hne)
    constructor
    · refine Bool.eq_false_iff.mpr fun hsame => ?_
      rw [Value.same_of_valueAt? hwf hwf' hsame hbefore hafter] at hdiffer
      exact absurd hdiffer nofun
    · exact Difference.ofFields_shows root hwf hwf' rfl rfl hdiffer hbefore hafter
  · intro heq fields before after path hbefore hafter
    have hsame := (Value.same_reference _ _).trans (decide_eq_true heq)
    have hfields := Value.same_setPath hsame (.map fields) path
    rw [hbefore, hafter] at hfields
    exact ⟨hfields, fun root => Difference.ofFields_of_same root hfields⟩

/-- A resolver that knows nothing. -/
def Resolver.ofNothing : Resolver where
  adapter := "z"
  placeholders := true

/-- Two numbers have two placeholders, so a field that goes from one to the other has changed. -/
theorem placeholders_told_apart_for_numbers :
    let r := Resolver.ofNothing
    r.placeholders = true ∧ (∀ t ∈ r.tables, t.find? "12" = none)
      ∧ (∀ t ∈ r.tables, t.find? "13" = none)
      ∧ ¬Forall₂ Instance.Indistinct "12".toList "13".toList
      ∧ ∃ m m', r.resolve "12" "group" = .missing m ∧ r.resolve "13" "group" = .missing m'
        ∧ m.id ≠ m'.id
        ∧ (Value.map [("group", .reference m)]).same (.map [("group", .reference m')]) = false := by
  intro r
  have hunknown (raw : String) : ∀ t ∈ r.tables, t.find? raw = none :=
    fun t ht => absurd ht List.not_mem_nil
  have hdistinct : ¬Forall₂ Instance.Indistinct "12".toList "13".toList := by
    rw [← Instance.sanitize_eq_iff]
    decide
  obtain ⟨m, m', hm, hm', hiff, hseen, -⟩ :=
    placeholders_told_apart_iff (r := r) rfl (hunknown "12") (hunknown "13") "group"
  have hne : m.id ≠ m'.id := mt hiff.mp hdistinct
  have hwf (m : Reference) : (Value.map [("group", .reference m)]).WellFormed := by
    simp [Value.WellFormed, Value.EntriesWellFormed, Dict.Sorted, Dict.keys]
  refine ⟨rfl, hunknown "12", hunknown "13", hdistinct, m, m', hm, hm', hne, ?_⟩
  exact (hseen hne (.ofInstance "z" "macro" "x") _ _ [.key "group"] (hwf m) (hwf m') rfl rfl).1

/-- A blank and an underscore make one name.  So different identifiers that no table knows are
resolved to references to one placeholder, which are equal values, and a field that goes from one
to the other does not differ. -/
theorem placeholder_shared :
    let r := Resolver.ofNothing
    ("a b" : String) ≠ "a_b" ∧ (∀ t ∈ r.tables, t.find? "a b" = none ∧ t.find? "a_b" = none)
      ∧ ∃ m m', r.resolve "a b" "group" = .missing m ∧ r.resolve "a_b" "group" = .missing m'
        ∧ m.id = m'.id ∧ (Value.reference m).same (.reference m') = true
        ∧ Difference.ofFields (.ofInstance "z" "macro" "x") [("group", .reference m)]
            [("group", .reference m')] = [] := by
  intro r
  exact ⟨by decide, fun t ht => absurd ht List.not_mem_nil, _, _, rfl, rfl, by decide,
    by decide, Difference.ofFields_of_same _ (by decide)⟩

end AccountSync
