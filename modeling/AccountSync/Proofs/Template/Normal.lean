/-
  AccountSync.Proofs.Template.Normal
  ──────────────────────────────────
  **THE NORMAL FORM OF TEMPLATES.**

  Parts are in normal form if no piece of text is empty and no two stand side by side.
  Bringing parts into normal form gives such parts, and leaves them alone if they are.

      Template.IsNormal       — what the normal form is
      Template.normal_isNormal, normal_of_isNormal
      Template.normal_barePart — copies of targets play no part in it
      Template.pushed, Template.normal_eq_foldl — it grows by one part after the other
-/
import AccountSync.Template.Basic

namespace AccountSync.Template

/-- Whether the first part is a piece of text. -/
def startsWithText : List Part → Bool
  | .literal _ :: _ => true
  | _ => false

/-- No piece of text is empty, and no two stand side by side. -/
def IsNormal : List Part → Prop
  | [] => True
  | .literal text :: rest => text ≠ "" ∧ startsWithText rest = false ∧ IsNormal rest
  | .reference _ :: rest => IsNormal rest

/-- Text that is put in front is a part of its own unless there is text already. -/
theorem consText_of_not_startsWithText {text : String} (hne : text ≠ "") {parts : List Part}
    (h : startsWithText parts = false) : consText text parts = .literal text :: parts := by
  cases parts with
  | nil => exact if_neg hne
  | cons p rest =>
    cases p with
    | literal next => exact absurd h nofun
    | reference r => exact if_neg hne

theorem consText_empty (parts : List Part) : consText "" parts = parts := by
  cases parts with
  | nil => rfl
  | cons p rest =>
    cases p with
    | literal next =>
      show .literal ("" ++ next) :: rest = _
      rw [String.empty_append]
    | reference r => rfl

theorem consText_isNormal (text : String) {parts : List Part} (h : IsNormal parts) :
    IsNormal (consText text parts) := by
  by_cases hempty : text = ""
  · rw [hempty, consText_empty]
    exact h
  · cases parts with
    | nil =>
      rw [consText_of_not_startsWithText hempty rfl]
      exact ⟨hempty, rfl, h⟩
    | cons p rest =>
      cases p with
      | literal next =>
        refine ⟨fun happend => hempty ?_, h.2⟩
        exact (String.append_eq_empty_iff.mp happend).1
      | reference r =>
        rw [consText_of_not_startsWithText hempty rfl]
        exact ⟨hempty, rfl, h⟩

/-- What comes out is in normal form. -/
theorem normal_isNormal (parts : List Part) : IsNormal (normal parts) := by
  induction parts with
  | nil => trivial
  | cons p rest ih =>
    cases p with
    | literal text => exact consText_isNormal text ih
    | reference r => exact ih

/-- Parts in normal form stay as they are. -/
theorem normal_of_isNormal {parts : List Part} (h : IsNormal parts) : normal parts = parts := by
  induction parts with
  | nil => rfl
  | cons p rest ih =>
    cases p with
    | literal text =>
      obtain ⟨hne, hstart, hrest⟩ := h
      show consText text (normal rest) = _
      rw [ih hrest, consText_of_not_startsWithText hne hstart]
    | reference r =>
      show .reference r :: normal rest = _
      rw [ih h]

theorem consText_barePart (text : String) (parts : List Part) :
    consText text (parts.map Value.barePart) = (consText text parts).map Value.barePart := by
  cases parts with
  | nil =>
    show (if text = "" then [] else [.literal text])
      = (if text = "" then [] else [.literal text] : List Part).map Value.barePart
    split <;> rfl
  | cons p rest =>
    cases p with
    | literal next => rfl
    | reference r =>
      show (if text = "" then _ else _ : List Part)
        = (if text = "" then .reference r :: rest
            else .literal text :: .reference r :: rest : List Part).map Value.barePart
      split <;> rfl

/-- Copies that references carry play no part in the normal form. -/
theorem normal_barePart (parts : List Part) :
    normal (parts.map Value.barePart) = (normal parts).map Value.barePart := by
  induction parts with
  | nil => rfl
  | cons p rest ih =>
    cases p with
    | literal text =>
      show consText text (normal (rest.map Value.barePart)) = _
      rw [ih, consText_barePart]
      rfl
    | reference r =>
      show .reference _ :: normal (rest.map Value.barePart) = _
      rw [ih]
      rfl

/-! ## The normal form, one part after the other. -/

/-- Adds a part to parts in normal form: text is added to the text at the end if there is some. -/
def pushed (merged : List Part) : Part → List Part
  | .literal text =>
    if text = "" then merged
    else match merged.getLast? with
      | some (.literal last) => merged.dropLast ++ [.literal (last ++ text)]
      | _ => merged ++ [.literal text]
  | .reference r => merged ++ [.reference r]

/-- What is in front of the last part is not touched. -/
theorem pushed_cons (p : Part) {merged : List Part} (h : merged ≠ []) (new : Part) :
    pushed (p :: merged) new = p :: pushed merged new := by
  cases new with
  | reference r => rfl
  | literal text =>
    have hlast : (p :: merged).getLast? = merged.getLast? := List.getLast?_cons_of_ne_nil h
    have hfront : (p :: merged).dropLast = p :: merged.dropLast := List.dropLast_cons_of_ne_nil h
    unfold pushed
    dsimp only
    rw [hlast, hfront]
    split
    · rfl
    · split <;> rfl

/-- A reference is not touched either, as text is not added to it. -/
theorem pushed_reference_cons (r : Reference) (merged : List Part) (new : Part) :
    pushed (.reference r :: merged) new = .reference r :: pushed merged new := by
  by_cases h : merged = []
  · subst h
    cases new with
    | reference r' => rfl
    | literal text =>
      show (if text = "" then _ else _ : List Part) = .reference r :: (if text = "" then _ else _)
      split <;> rfl
  · exact pushed_cons _ h new

theorem pushed_literal_singleton (last text : String) :
    pushed [.literal last] (.literal text) = [.literal (last ++ text)] := by
  by_cases hempty : text = ""
  · rw [hempty, String.append_empty]
    rfl
  · exact if_neg hempty

/-- It makes no difference whether text is put in front first or a part is added first. -/
theorem consText_pushed (text : String) (merged : List Part) (new : Part) :
    consText text (pushed merged new) = pushed (consText text merged) new := by
  by_cases hempty : text = ""
  · rw [hempty, consText_empty, consText_empty]
  · cases merged with
    | nil =>
      have htext : consText text [] = [.literal text] :=
        consText_of_not_startsWithText hempty rfl
      rw [htext]
      cases new with
      | reference r => exact consText_of_not_startsWithText hempty rfl
      | literal next =>
        rw [pushed_literal_singleton]
        show consText text (if next = "" then [] else [.literal next]) = _
        split
        next hnext => rw [htext, hnext, String.append_empty]
        · rfl
    | cons p rest =>
      cases p with
      | reference r =>
        rw [pushed_reference_cons, consText_of_not_startsWithText hempty rfl,
          consText_of_not_startsWithText hempty rfl, pushed_cons _ (List.cons_ne_nil _ _),
          pushed_reference_cons]
      | literal next =>
        by_cases hrest : rest = []
        · subst hrest
          cases new with
          | reference r => rfl
          | literal new =>
            show consText text (pushed [.literal next] (.literal new))
              = pushed [.literal (text ++ next)] (.literal new)
            rw [pushed_literal_singleton, pushed_literal_singleton, String.append_assoc]
            rfl
        · -- what is added is added behind the text that is there already
          show consText text (pushed (.literal next :: rest) new)
            = pushed (.literal (text ++ next) :: rest) new
          rw [pushed_cons _ hrest, pushed_cons _ hrest]
          rfl

/-- **The normal form is what adding part after part comes to.** -/
theorem normal_eq_foldl (parts : List Part) : normal parts = parts.foldl pushed [] := by
  have hsnoc (front : List Part) (new : Part) :
      normal (front ++ [new]) = pushed (normal front) new := by
    induction front with
    | nil => cases new <;> rfl
    | cons p rest ih =>
      cases p with
      | literal text =>
        show consText text (normal (rest ++ [new])) = pushed (consText text (normal rest)) new
        rw [ih, consText_pushed]
      | reference r =>
        show .reference r :: normal (rest ++ [new]) = pushed (.reference r :: normal rest) new
        rw [ih, pushed_reference_cons]
  have hfrom (front : List Part) :
      normal (front ++ parts) = parts.foldl pushed (normal front) := by
    induction parts generalizing front with
    | nil => rw [List.append_nil, List.foldl_nil]
    | cons p rest ih => rw [List.append_cons, ih, hsnoc, List.foldl_cons]
  exact hfrom []

end AccountSync.Template
