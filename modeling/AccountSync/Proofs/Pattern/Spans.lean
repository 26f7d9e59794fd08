/-
  AccountSync.Proofs.Pattern.Spans
  ────────────────────────────────
  **WHAT A PATTERN FINDS IN A TEXT.**

  A pattern takes a stretch from the front of a text and leaves the rest.  What it finds in a
  text are such stretches, in order and apart from each other, whatever the pattern is.

      Pattern.rests_suffix    — what is left is the end of the text
      Pattern.spans_taken     — what is found is the preferred stretch where it starts
      Pattern.spans_inOrder   — stretches are in order
-/
import AccountSync.Pattern.Basic
import AccountSync.Proofs.Text.Span

namespace AccountSync.Pattern

/-! ## §1. What is left of a text. -/

/-- Steps that leave ends of texts leave ends of texts when they are repeated. -/
theorem manyRests_suffix {step : List Char → List (List Char)}
    (hstep : ∀ cs, ∀ rest ∈ step cs, rest <:+ cs) {text : List Char} (fuel : Nat)
    {cs : List Char} (hcs : cs <:+ text) {others : List (List Char)}
    (hothers : ∀ rest ∈ others, rest <:+ text) :
    ∀ rest ∈ manyRests step fuel cs others, rest <:+ text := by
  -- on the number of steps, and within one step on the rests that it leaves
  induction fuel generalizing cs others with
  | zero => exact List.forall_mem_cons.mpr ⟨hcs, hothers⟩
  | succ fuel ih =>
    unfold manyRests
    have hkept : ∀ rest ∈ (step cs).filter (fun rest => rest.length < cs.length), rest <:+ text :=
      fun rest hrest => (hstep cs rest (List.mem_of_mem_filter hrest)).trans hcs
    generalize (step cs).filter (fun rest => rest.length < cs.length) = kept at hkept ⊢
    induction kept with
    | nil => exact List.forall_mem_cons.mpr ⟨hcs, hothers⟩
    | cons first more ihmore =>
      obtain ⟨hfirst, hmore⟩ := List.forall_mem_cons.mp hkept
      exact ih hfirst (ihmore hmore)

/-- What may be left after a stretch is the end of the text. -/
theorem rests_suffix (p : Pattern) (cs : List Char) : ∀ rest ∈ p.rests cs, rest <:+ cs := by
  induction p generalizing cs with
  | empty => exact List.forall_mem_singleton.mpr (List.suffix_refl cs)
  | char set =>
    cases cs with
    | nil => exact nofun
    | cons c cs =>
      unfold rests
      split
      · exact List.forall_mem_singleton.mpr (List.suffix_cons c cs)
      · exact nofun
  | seq first second ihfirst ihsecond =>
    intro rest hrest
    obtain ⟨middle, hmiddle, hrest⟩ := List.mem_flatMap.mp hrest
    exact (ihsecond middle rest hrest).trans (ihfirst cs middle hmiddle)
  | either first second ihfirst ihsecond =>
    exact List.forall_mem_append.mpr ⟨ihfirst cs, ihsecond cs⟩
  | many body ih => exact manyRests_suffix ih cs.length (List.suffix_refl cs) nofun

theorem first?_suffix {p : Pattern} {cs rest : List Char} (h : p.first? cs = some rest) :
    rest <:+ cs :=
  rests_suffix p cs rest (List.mem_of_head? h)

/-! ## §2. What is found. -/

/-- What is found in the rest of a text is the stretch that the pattern prefers at its start. -/
theorem spansFrom_taken (p : Pattern) (free : Bool) (text : List Char) {done : Nat} {cs : List Char}
    (hcs : text.drop done = cs) :
    ∀ found ∈ spansFrom p free done cs,
      p.first? (text.drop found.start) = some (text.drop found.stop) := by
  have hnext {done : Nat} {c : Char} {cs : List Char} (hcs : text.drop done = c :: cs) :
      text.drop (done + 1) = cs := by
    rw [← List.drop_drop, hcs]
    rfl
  fun_induction spansFrom p free done cs with
  | case1 free done h =>
    refine List.forall_mem_singleton.mpr ?_
    obtain ⟨rest, hrest⟩ := Option.isSome_iff_exists.mp (Bool.and_eq_true_iff.mp h).2
    obtain rfl := List.suffix_nil.mp (first?_suffix hrest)
    rw [hcs]
    exact hrest
  | case2 => exact nofun
  | case3 free done c cs hnone ih => exact ih (hnext hcs)
  | case4 free done c cs rest hrest hlt stop ih =>
    -- what is left is the end of the text, so it is what comes after the stretch
    have hleft : text.drop stop = rest := by
      have hsuffix := List.suffix_iff_eq_drop.mp (first?_suffix hrest)
      rw [← List.drop_drop, hcs]
      exact hsuffix.symm
    refine List.forall_mem_cons.mpr ⟨?_, ih hleft⟩
    rw [hcs, hleft]
    exact hrest
  | case5 done c cs rest hrest hge ih =>
    refine List.forall_mem_cons.mpr ⟨?_, ih (hnext hcs)⟩
    have hall := (first?_suffix hrest).eq_of_length_le (Nat.not_lt.mp hge)
    rw [hcs, hrest, hall]
  | case6 free done c cs rest hrest hge hfree ih => exact ih (hnext hcs)

/-- What a pattern finds are stretches that it takes. -/
theorem spans_taken (p : Pattern) (text : List Char) :
    ∀ found ∈ p.spans text, p.first? (text.drop found.start) = some (text.drop found.stop) :=
  spansFrom_taken p true text rfl

/-- What is found in the rest of a text lies there, in order. -/
theorem spansFrom_inOrder (p : Pattern) (free : Bool) (done : Nat) (cs : List Char) :
    (∀ found ∈ spansFrom p free done cs,
      done ≤ found.start ∧ found.start ≤ found.stop ∧ found.stop ≤ done + cs.length)
    ∧ (spansFrom p free done cs).Pairwise (fun a b => a.stop ≤ b.start) := by
  fun_induction spansFrom p free done cs with
  | case1 free done h => exact ⟨by simp, List.pairwise_singleton _ _⟩
  | case2 => exact ⟨nofun, .nil⟩
  | case3 free done c cs hnone ih =>
    refine ⟨fun found hfound => ?_, ih.2⟩
    have := ih.1 found hfound
    simp only [List.length_cons]
    omega
  | case4 free done c cs rest hrest hlt stop ih =>
    refine ⟨List.forall_mem_cons.mpr ⟨?_, fun found hfound => ?_⟩,
      List.pairwise_cons.mpr ⟨fun found hfound => (ih.1 found hfound).1, ih.2⟩⟩
    · show done ≤ done ∧ done ≤ stop ∧ stop ≤ done + (c :: cs).length
      omega
    · have := ih.1 found hfound
      omega
  | case5 done c cs rest hrest hge ih =>
    refine ⟨List.forall_mem_cons.mpr ⟨?_, fun found hfound => ?_⟩,
      List.pairwise_cons.mpr ⟨fun found hfound => ?_, ih.2⟩⟩
    · show done ≤ done ∧ done ≤ done ∧ done ≤ done + (c :: cs).length
      omega
    · have := ih.1 found hfound
      simp only [List.length_cons]
      omega
    · have := ih.1 found hfound
      show done ≤ found.start
      omega
  | case6 free done c cs rest hrest hge hfree ih =>
    refine ⟨fun found hfound => ?_, ih.2⟩
    have := ih.1 found hfound
    simp only [List.length_cons]
    omega

/-- **What a pattern finds is in order.** -/
theorem spans_inOrder (p : Pattern) : p.spans.InOrder := by
  intro text
  obtain ⟨hinside, hapart⟩ := spansFrom_inOrder p true 0 text
  refine ⟨fun found hfound => ?_, hapart⟩
  have := hinside found hfound
  omega

end AccountSync.Pattern
