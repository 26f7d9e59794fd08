/-
  AccountSync.Proofs.Template.Extraction
  ──────────────────────────────────────
  **EXTRACTION KEEPS THE TEXT.**

  A text is cut by one finder after the other, and a callback turns each piece into parts of a
  template.  The callback may remember the pieces before.  Every piece goes to it once and in
  order, so what the callback is given is the text, whole and nothing twice; and if its parts
  always read as the piece, what comes out reads as the text.

      Template.noting          — the callback, with a record of its calls
      Template.mapM_calls      — it is called for each piece in order
      Template.cutBy_ne_empty  — no piece is empty
      Template.extraction_partitions_text
-/
import AccountSync.Proofs.Template.Writing

namespace AccountSync.Template

variable {σ : Type}

/-! ## §1. The calls. -/

/-- The callback, which also notes in order which pieces it is called for and what parts it
gives for them. -/
def noting (toParts : String → StateM σ (List Part)) :
    String → StateM (σ × List (String × List Part)) (List Part) := fun piece s =>
  (((toParts piece).run s.1).1, ((toParts piece).run s.1).2,
    s.2 ++ [(piece, ((toParts piece).run s.1).1)])

theorem mapM_cons_run {ρ : Type} (f : String → StateM ρ (List Part)) {piece : String}
    {s s' : ρ} {parts : List Part} (hpiece : (f piece).run s = (parts, s')) (rest : List String) :
    ((piece :: rest).mapM f).run s
      = (parts :: ((rest.mapM f).run s').1, ((rest.mapM f).run s').2) := by
  rw [List.mapM_cons]
  show ((rest.mapM f >>= fun more => pure (((f piece).run s).1 :: more)).run ((f piece).run s).2)
    = _
  rw [hpiece]
  rfl

/-- The callback is called for each piece, once and in order.  That the calls are noted makes no
difference. -/
theorem mapM_calls (toParts : String → StateM σ (List Part)) (pieces : List String) (s : σ)
    (noted : List (String × List Part)) :
    ∃ calls s', calls.map Prod.fst = pieces
      ∧ (pieces.mapM toParts).run s = (calls.map Prod.snd, s')
      ∧ (pieces.mapM (noting toParts)).run (s, noted) = (calls.map Prod.snd, s', noted ++ calls) := by
  induction pieces generalizing s noted with
  | nil => exact ⟨[], s, rfl, rfl, by rw [List.append_nil]; rfl⟩
  | cons piece rest ih =>
    obtain ⟨parts, s', hpiece⟩ : ∃ parts s', (toParts piece).run s = (parts, s') := ⟨_, _, rfl⟩
    have hnoting : (noting toParts piece).run (s, noted) = (parts, s', noted ++ [(piece, parts)]) := by
      show (((toParts piece).run s).1, ((toParts piece).run s).2, _ ++ [(_, _)]) = _
      rw [hpiece]
    -- the other calls start from what this one left behind
    obtain ⟨calls, s'', hpieces, hrun, hnoted⟩ := ih s' (noted ++ [(piece, parts)])
    refine ⟨(piece, parts) :: calls, s'', congrArg (piece :: ·) hpieces, ?_, ?_⟩
    · rw [mapM_cons_run toParts hpiece, hrun]
      rfl
    · rw [mapM_cons_run (noting toParts) hnoting, hnoted, List.append_assoc]
      rfl

/-! ## §2. The pieces. -/

/-- As soon as something is looked for, no piece is empty. -/
theorem cutBy_ne_empty {finders : List Finder} (h : finders ≠ []) (text : String) :
    ∀ piece ∈ cutBy finders text, piece ≠ "" := by
  -- whatever was cut before, the last finder leaves no empty piece
  obtain hnone | ⟨front, find, rfl⟩ := List.eq_nil_or_concat finders
  · exact absurd hnone h
  · intro piece hpiece
    unfold cutBy at hpiece
    rw [List.concat_eq_append, List.foldl_append] at hpiece
    obtain ⟨whole, _, hcut⟩ := List.mem_flatMap.mp hpiece
    exact Text.segments_ne_empty find whole piece hcut

/-! ## §3. The value. -/

theorem references_append (front rest : List Part) :
    references (front ++ rest) = references front ++ references rest := by
  induction front with
  | nil => rfl
  | cons p more ih =>
    cases p with
    | literal text => exact ih
    | reference r => exact congrArg (r :: ·) ih

/-- There is no reference among the parts exactly if no call gave one. -/
theorem references_flatten_eq_nil_iff {calls : List (String × List Part)} :
    references (calls.map Prod.snd).flatten = [] ↔ ∀ call ∈ calls, references call.2 = [] := by
  induction calls with
  | nil => exact iff_of_true rfl nofun
  | cons call rest ih =>
    rw [List.map_cons, List.flatten_cons, references_append, List.append_eq_nil_iff, ih,
      List.forall_mem_cons]

/-- Parts that read as a text become that text, or a template that reads as it if there is a
reference among them. -/
theorem build_of_rendered {parts : List Part} {text : String} (h : rendered parts = .ok text) :
    (references parts = [] ∧ build parts = .string text)
      ∨ (references parts ≠ [] ∧ ∃ t, build parts = .template t ∧ rendered t = .ok text) := by
  have hreads := textOf?_build h
  obtain ⟨hnone, hbuild⟩ | ⟨hsome, hbuild⟩ := build_cases parts
  · rw [hbuild] at hreads
    exact .inl ⟨hnone, hbuild.trans (congrArg Value.string (Option.some.inj hreads))⟩
  · rw [hbuild] at hreads
    exact .inr ⟨hsome, normal parts, hbuild, textOf?_template_iff.mp hreads⟩

/-- **Extraction partitions the text.**  Whatever the finders look for and whatever the callback
does, the pieces it is called for are the text when they are put together in order, and as soon as
there is a finder none of them is empty.  If the parts that the callback gives for each piece read
as the piece, the text comes out unchanged: as plain text if there is no reference among the parts,
and else as a template that reads as it. -/
theorem extraction_partitions_text {finders : List Finder}
    (hfinders : ∀ find ∈ finders, find.InOrder) (toParts : String → StateM σ (List Part))
    (text : String) (s : σ) :
    ∃ calls v s', (extractBy finders toParts text).run s = (v, s')
      ∧ (extractBy finders (noting toParts) text).run (s, []) = (v, s', calls)
      ∧ String.join (calls.map Prod.fst) = text
      ∧ (finders ≠ [] → ∀ call ∈ calls, call.1 ≠ "")
      ∧ ((∀ call ∈ calls, rendered call.2 = .ok call.1) →
        ((∀ call ∈ calls, references call.2 = []) ∧ v = .string text)
        ∨ ((∃ call ∈ calls, references call.2 ≠ [])
          ∧ ∃ parts, v = .template parts ∧ rendered parts = .ok text)) := by
  obtain ⟨calls, s', hpieces, hrun, hnoted⟩ := mapM_calls toParts (cutBy finders text) s []
  have htext : String.join (calls.map Prod.fst) = text := by rw [hpieces, cutBy_text hfinders]
  refine ⟨calls, build (calls.map Prod.snd).flatten, s', ?_, ?_, htext, ?_, ?_⟩
  · show (build ((List.mapM toParts _).run s).1.flatten, ((List.mapM toParts _).run s).2) = _
    rw [hrun]
  · show (build ((List.mapM (noting toParts) _).run (s, [])).1.flatten,
      ((List.mapM (noting toParts) _).run (s, [])).2) = _
    rw [hnoted, List.nil_append]
  · intro hsome call hcall
    refine cutBy_ne_empty hsome text call.1 ?_
    rw [← hpieces]
    exact List.mem_map_of_mem hcall
  · intro hreads
    have hparts := rendered_flatten hreads
    rw [htext] at hparts
    obtain ⟨hnone, hbuild⟩ | ⟨hsome, hbuild⟩ := build_of_rendered hparts
    · exact .inl ⟨references_flatten_eq_nil_iff.mp hnone, hbuild⟩
    · have hcall : ∃ call ∈ calls, references call.2 ≠ [] := by
        simpa only [not_forall, exists_prop] using mt references_flatten_eq_nil_iff.mpr hsome
      exact .inr ⟨hcall, hbuild⟩

/-- A reference to what stands for the number 12. -/
def ticketNumber : Reference :=
  .to ⟨"zendesk", "ticket", .within .inst ["first", "id"]⟩ (some (.string "12"))

/-- Turns the number 12 into a reference, and counts how often it is called. -/
def numbersToParts (piece : String) : StateM Nat (List Part) := fun n =>
  (if piece = "12" then [.reference ticketNumber] else [.literal piece], n + 1)

/-- The pattern also stands for no digits at all, so there are empty stretches in front of the
letters and at the end. -/
theorem extraction_partitions_text_for_number :
    (∀ find ∈ [Pattern.digits.spans], Finder.InOrder find)
      ∧ ∃ parts, (extractBy [Pattern.digits.spans] numbersToParts "no12,").run 0
          = (.template parts, 4)
        ∧ rendered parts = .ok "no12," := by
  have hfinders : ∀ find ∈ [Pattern.digits.spans], Finder.InOrder find :=
    List.forall_mem_singleton.mpr Pattern.digits.spans_inOrder
  have hpieces : cutBy [Pattern.digits.spans] "no12," = ["n", "o", "12", ","] := by
    decide +kernel
  have hcalls : (extractBy [Pattern.digits.spans] (noting numbersToParts) "no12,").run (0, [])
      = (build [.literal "n", .literal "o", .reference ticketNumber, .literal ","], 4,
        [("n", [.literal "n"]), ("o", [.literal "o"]), ("12", [.reference ticketNumber]),
          (",", [.literal ","])]) := by
    unfold extractBy
    rw [hpieces]
    rfl
  obtain ⟨calls, v, s', hrun, hnoted, -, -, hvalue⟩ :=
    extraction_partitions_text hfinders numbersToParts "no12," 0
  cases hcalls.symm.trans hnoted
  have hread : ∀ call ∈ [("n", [Part.literal "n"]), ("o", [.literal "o"]),
      ("12", [.reference ticketNumber]), (",", [.literal ","])], rendered call.2 = .ok call.1 := by
    simp only [List.forall_mem_cons]
    exact ⟨rfl, rfl, rfl, rfl, nofun⟩
  obtain ⟨hnone, -⟩ | ⟨-, parts, hparts, hreads⟩ := hvalue hread
  · exact absurd (hnone ("12", [.reference ticketNumber]) (by simp)) (List.cons_ne_nil _ _)
  · exact ⟨hfinders, parts, hrun.trans (by rw [hparts]), hreads⟩


end AccountSync.Template
