/-
  AccountSync.Proofs.Text.Separator
  ─────────────────────────────────
  **WHERE A TEXT IS CUT.**

  Two texts joined by a separator can only be told apart again if it is known which of the
  separators is the one between them: how many there are before it, for instance, or that it is
  the first.

      Text.cut_inj_of_count_eq  — two cuts after equally many separators
      Text.cut_inj_of_not_mem   — two cuts at the first separator
      Text.not_mem_or_cut       — there is a first separator, or none
-/
import Mathlib.Data.List.Basic

namespace AccountSync.Text

variable {α : Type} {sep : α} {as bs as' bs' : List α}

/-- Two texts are determined by what they are joined to, if it is known how many separators the
first one has. -/
theorem cut_inj_of_count_eq [BEq α] [LawfulBEq α] (h : as ++ sep :: bs = as' ++ sep :: bs')
    (hcount : as.count sep = as'.count sep) : as = as' ∧ bs = bs' := by
  induction as generalizing as' with
  | nil =>
    cases as' with
    | nil => exact ⟨rfl, List.tail_eq_of_cons_eq h⟩
    | cons a rest' =>
      obtain rfl : sep = a := List.head_eq_of_cons_eq h
      rw [List.count_nil, List.count_cons_self] at hcount
      exact nomatch hcount
  | cons a rest ih =>
    cases as' with
    | nil =>
      obtain rfl : a = sep := List.head_eq_of_cons_eq h
      rw [List.count_nil, List.count_cons_self] at hcount
      exact nomatch hcount
    | cons a' rest' =>
      obtain rfl : a = a' := List.head_eq_of_cons_eq h
      rw [List.count_cons, List.count_cons] at hcount
      obtain ⟨rfl, rfl⟩ := ih (List.tail_eq_of_cons_eq h) (Nat.add_right_cancel hcount)
      exact ⟨rfl, rfl⟩

/-- In particular if neither has any. -/
theorem cut_inj_of_not_mem [BEq α] [LawfulBEq α] (has : sep ∉ as) (has' : sep ∉ as')
    (h : as ++ sep :: bs = as' ++ sep :: bs') : as = as' ∧ bs = bs' :=
  cut_inj_of_count_eq h ((List.count_eq_zero.mpr has).trans (List.count_eq_zero.mpr has').symm)

/-- A text has no separator, or it is cut at the first one. -/
theorem not_mem_or_cut (sep : α) (text : List α) :
    sep ∉ text ∨ ∃ before after, text = before ++ sep :: after ∧ sep ∉ before := by
  by_cases h : sep ∈ text
  · obtain ⟨before, after, htext, hbefore⟩ := List.eq_append_cons_of_mem h
    exact .inr ⟨before, after, htext, hbefore⟩
  · exact .inl h

end AccountSync.Text
