/-
  AccountSync.Proofs.Text.Span
  ────────────────────────────
  **NO TEXT IS LOST IN CUTTING.**

  A text is cut around stretches that are found in it.  As long as these are in order and apart
  from each other, the pieces are the text again when they are put together, and none of them
  is empty; what was looked for makes no difference.

      Text.InOrder             — stretches in order and apart from each other
      Text.cutAround_flatten   — the pieces of what is cut
      Text.segments_text       — put together they are the text
      Text.segments_ne_empty
-/
import AccountSync.Text.Span
import Mathlib.Data.List.Basic

namespace AccountSync

namespace Text

/-! ## §1. Stretches. -/

/-- The stretches lie in the text, and each of them ends before the next one starts. -/
structure InOrder (cs : List Char) (spans : List Span) : Prop where
  inside : ∀ found ∈ spans, found.start ≤ found.stop ∧ found.stop ≤ cs.length
  apart : spans.Pairwise (fun a b => a.stop ≤ b.start)

theorem InOrder.tail {cs : List Char} {found : Span} {rest : List Span}
    (h : InOrder cs (found :: rest)) : InOrder cs rest where
  inside := (List.forall_mem_cons.mp h.inside).2
  apart := (List.pairwise_cons.mp h.apart).2

/-- A stretch and what comes after it are what there is from its start on. -/
theorem slice_append_drop (cs : List Char) {start stop : Nat} (h : start ≤ stop) :
    slice cs start stop ++ cs.drop stop = cs.drop start := by
  have hrest : cs.drop stop = (cs.drop start).drop (stop - start) := by
    rw [List.drop_drop, Nat.add_sub_cancel' h]
  rw [hrest]
  exact List.take_append_drop _ _

/-! ## §2. Pieces. -/

theorem nonEmpty_flatten (piece : List Char) : (nonEmpty piece).flatten = piece := by
  unfold nonEmpty
  split
  next hempty => exact hempty.symm
  · exact List.append_nil piece

theorem nonEmpty_ne_nil (piece : List Char) : ∀ found ∈ nonEmpty piece, found ≠ [] := by
  unfold nonEmpty
  split
  · exact nofun
  next hne => exact List.forall_mem_singleton.mpr hne

/-- The pieces of a text from a position on are the text from there on. -/
theorem cutAround_flatten {cs : List Char} {spans : List Span} (h : InOrder cs spans) {done : Nat}
    (hdone : ∀ found ∈ spans, done ≤ found.start) :
    (cutAround cs done spans).flatten = cs.drop done := by
  induction spans generalizing done with
  | nil => exact nonEmpty_flatten _
  | cons found rest ih =>
    have hrest : (cutAround cs found.stop rest).flatten = cs.drop found.stop :=
      ih h.tail (List.pairwise_cons.mp h.apart).1
    have hfound : found.start ≤ found.stop := (h.inside found List.mem_cons_self).1
    unfold cutAround
    rw [List.flatten_append, List.flatten_append, nonEmpty_flatten, nonEmpty_flatten, hrest,
      List.append_assoc, slice_append_drop cs hfound,
      slice_append_drop cs (hdone found List.mem_cons_self)]

/-- No piece is empty, wherever the stretches are. -/
theorem cutAround_ne_nil (cs : List Char) (done : Nat) (spans : List Span) :
    ∀ piece ∈ cutAround cs done spans, piece ≠ [] := by
  induction spans generalizing done with
  | nil => exact nonEmpty_ne_nil _
  | cons found rest ih =>
    exact List.forall_mem_append.mpr
      ⟨List.forall_mem_append.mpr ⟨nonEmpty_ne_nil _, nonEmpty_ne_nil _⟩, ih found.stop⟩

/-- The pieces of a text are the text, one after the other. -/
theorem segments_text {find : Finder} {text : String} (h : InOrder text.toList (find text.toList)) :
    String.join (segments find text) = text := by
  refine String.toList_injective ?_
  unfold segments
  rw [String.toList_join, List.flatMap_map]
  simp only [String.toList_ofList, List.flatMap_id']
  exact cutAround_flatten h fun _ _ => Nat.zero_le _

theorem segments_ne_empty (find : Finder) (text : String) :
    ∀ piece ∈ segments find text, piece ≠ "" := by
  refine List.forall_mem_map.mpr fun piece hpiece hempty => ?_
  exact cutAround_ne_nil _ _ _ piece hpiece (String.ofList_eq_empty_iff.mp hempty)

end Text

/-- Whatever the text is, what is found in it is in order. -/
def Finder.InOrder (find : Finder) : Prop :=
  ∀ cs, Text.InOrder cs (find cs)

end AccountSync
