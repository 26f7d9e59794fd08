/-
  AccountSync.Proofs.Template.Rendered
  ────────────────────────────────────
  **WHAT TEMPLATES READ AS.**

  Bringing parts into normal form changes nothing about their text, in whatever way references
  are written.  So if every piece of a text is turned into parts that read as the piece, then
  the whole reads as the text.

      Reference.rendered_topLevel, Reference.rendered_inside — references alone
      Template.joined_append   — parts one after the other
      Template.joined_normal   — the normal form reads the same, or fails the same
      Template.textOf?         — the text of a value, if it has one
      Template.cutBy_text      — the pieces of a text are the text
      Template.extractFrom_text, Template.extract_text — so is what they are turned into
-/
import AccountSync.Proofs.Pattern.Spans
import AccountSync.Template.Extract

namespace AccountSync

/-! ## §1. References. -/

namespace Reference

/-- A reference to a top-level element reads as the identifier that the element has. -/
theorem rendered_topLevel {id : ElementId} (h : id.isTopLevel = true) (target : Value) :
    (Reference.to id (some target)).rendered
      = match (target.get? "id").bind Value.keyText? with
        | some text => .ok text
        | none => .error (.invalidTemplateValue id noTargetId) :=
  if_pos h

/-- A reference to a text inside an element reads as that text. -/
theorem rendered_inside {id : ElementId} (h : id.isTopLevel = false) (text : String) :
    (Reference.to id (some (.string text))).rendered = .ok text :=
  if_neg (Bool.eq_false_iff.mp h)

end Reference

namespace Template

/-! ## §2. Parts one after the other. -/

section

variable {m : Type → Type} [Monad m]

/-- The text of one part, where `write` says how a reference is written. -/
def written (write : Reference → m String) : Part → m String
  | .literal text => pure text
  | .reference r => write r

variable [LawfulMonad m] (write : Reference → m String)

/-- The first part is written first. -/
theorem joined_cons (p : Part) (rest : List Part) :
    joined write (p :: rest)
      = written write p >>= fun text => (text ++ ·) <$> joined write rest := by
  cases p with
  | literal text =>
    show (joined write rest >>= fun tail => pure (text ++ tail))
      = (pure text >>= fun text => (text ++ ·) <$> joined write rest)
    rw [pure_bind, bind_pure_comp]
  | reference r =>
    show (write r >>= fun text => joined write rest >>= fun tail => pure (text ++ tail))
      = (write r >>= fun text => (text ++ ·) <$> joined write rest)
    exact bind_congr fun text => bind_pure_comp _ _

theorem joined_literal_cons (text : String) (rest : List Part) :
    joined write (.literal text :: rest) = (text ++ ·) <$> joined write rest :=
  bind_pure_comp _ _

/-- Parts in a row are written one after the other; the first one that cannot be decides the
failure. -/
theorem joined_append (front rest : List Part) :
    joined write (front ++ rest)
      = joined write front >>= fun text => (text ++ ·) <$> joined write rest := by
  induction front with
  | nil =>
    show joined write rest = (pure "" >>= fun text => (text ++ ·) <$> joined write rest)
    rw [pure_bind]
    simp only [String.empty_append, id_map']
  | cons p more ih =>
    rw [List.cons_append, joined_cons, ih, joined_cons]
    simp only [map_bind, bind_assoc, bind_map_left, Functor.map_map, String.append_assoc]

/-! ## §3. The normal form. -/

/-- Text that is put in front is written in front. -/
theorem joined_consText (text : String) (parts : List Part) :
    joined write (consText text parts) = (text ++ ·) <$> joined write parts := by
  have hkept (hempty : text = "") : joined write parts = (text ++ ·) <$> joined write parts := by
    subst hempty
    simp only [String.empty_append, id_map']
  cases parts with
  | nil =>
    show joined write (if text = "" then [] else [.literal text]) = _
    split
    next hempty => exact hkept hempty
    · exact joined_literal_cons write text []
  | cons p rest =>
    cases p with
    | literal next =>
      -- it joins the text that is there already
      show joined write (.literal (text ++ next) :: rest) = _
      simp only [joined_literal_cons, Functor.map_map, String.append_assoc]
    | reference r =>
      show joined write (if text = "" then .reference r :: rest
        else .literal text :: .reference r :: rest) = _
      split
      next hempty => exact hkept hempty
      · exact joined_literal_cons write text _

/-- The normal form is written the same, whatever happens on the way. -/
theorem joined_normal (parts : List Part) : joined write (normal parts) = joined write parts := by
  induction parts with
  | nil => rfl
  | cons p rest ih =>
    cases p with
    | literal text =>
      show joined write (consText text (normal rest)) = _
      rw [joined_consText, ih, joined_literal_cons]
    | reference r =>
      show joined write (.reference r :: normal rest) = _
      rw [joined_cons, ih, joined_cons]

end

theorem references_consText (text : String) (parts : List Part) :
    references (consText text parts) = references parts := by
  cases parts with
  | nil =>
    show references (if text = "" then [] else [.literal text]) = []
    split <;> rfl
  | cons p rest =>
    cases p with
    | literal next => rfl
    | reference r =>
      show references (if text = "" then .reference r :: rest
        else .literal text :: .reference r :: rest) = r :: references rest
      split <;> rfl

/-- The normal form has the same references. -/
theorem references_normal (parts : List Part) : references (normal parts) = references parts := by
  induction parts with
  | nil => rfl
  | cons p rest ih =>
    cases p with
    | literal text => exact (references_consText text (normal rest)).trans ih
    | reference r => exact congrArg (r :: ·) ih

/-- Without references there is nothing to write but text. -/
theorem joined_of_no_references {m : Type → Type} [Monad m] [LawfulMonad m]
    (write : Reference → m String) {parts : List Part} (h : references parts = []) :
    joined write parts = pure (literalText parts) := by
  induction parts with
  | nil => rfl
  | cons p rest ih =>
    cases p with
    | literal text =>
      rw [joined_literal_cons, ih h, map_pure]
      rfl
    | reference r => exact absurd h (List.cons_ne_nil r _)

/-! ## §4. What values read as. -/

theorem rendered_literal_cons (text : String) {rest : List Part} {tail : String}
    (h : rendered rest = .ok tail) : rendered (.literal text :: rest) = .ok (text ++ tail) := by
  unfold rendered at h ⊢
  rw [joined_literal_cons, h]
  rfl

theorem rendered_singleton {r : Reference} {text : String} (h : r.rendered = .ok text) :
    rendered [.reference r] = .ok text := by
  unfold rendered
  rw [joined_cons]
  show (r.rendered >>= _) = _
  rw [h]
  exact congrArg Except.ok String.append_empty

/-- What a value reads as: a text is itself, and a template is its text as long as that can be
written. -/
def textOf? : Value → Option String
  | .string text => some text
  | .template parts => (rendered parts).toOption
  | _ => none

theorem textOf?_template_iff {parts : List Part} {text : String} :
    textOf? (.template parts) = some text ↔ rendered parts = .ok text := by
  unfold textOf?
  dsimp only
  cases rendered parts with
  | error e => exact ⟨nofun, nofun⟩
  | ok written => exact ⟨fun h => congrArg Except.ok (Option.some.inj h), congrArg Except.toOption⟩

/-- Parts that can be written stand for a value with that text. -/
theorem textOf?_build {parts : List Part} {text : String} (h : rendered parts = .ok text) :
    textOf? (build parts) = some text := by
  have hnormal : rendered (normal parts) = .ok text := (joined_normal _ parts).trans h
  unfold build
  dsimp only
  split
  next hnone =>
    -- it is plain text, and there is nothing to write but text
    have hplain := joined_of_no_references Reference.rendered (List.isEmpty_iff.mp hnone)
    exact congrArg some (Except.ok.inj (hplain.symm.trans hnormal))
  · exact textOf?_template_iff.mpr hnormal

/-- The pieces of a text that is cut around what is found in it, by one finder after the other, are
the text. -/
theorem cutBy_text {finders : List Finder} (hfinders : ∀ find ∈ finders, find.InOrder)
    (text : String) : String.join (cutBy finders text) = text := by
  have hcut {find : Finder} (hfind : find.InOrder) (found : List String) :
      String.join (found.flatMap (Text.segments find)) = String.join found := by
    induction found with
    | nil => rfl
    | cons piece rest ih =>
      rw [List.flatMap_cons, String.join_append, Text.segments_text (hfind _), ih,
        String.join_cons]
  -- each finder cuts what the ones before left, and the whole stays the same
  have hall (found : List String) :
      String.join (finders.foldl (fun found find => found.flatMap (Text.segments find)) found)
        = String.join found := by
    induction finders generalizing found with
    | nil => rfl
    | cons find rest ih =>
      obtain ⟨hfind, hrest⟩ := List.forall_mem_cons.mp hfinders
      rw [List.foldl_cons, ih hrest, hcut hfind]
  unfold cutBy
  rw [hall, String.join_cons]
  exact String.append_empty

/-- Parts for pieces that each read as their piece together read as all of them. -/
theorem rendered_flatten {calls : List (String × List Part)}
    (h : ∀ call ∈ calls, rendered call.2 = .ok call.1) :
    rendered (calls.map Prod.snd).flatten = .ok (String.join (calls.map Prod.fst)) := by
  induction calls with
  | nil => rfl
  | cons call rest ih =>
    obtain ⟨hcall, hrest⟩ := List.forall_mem_cons.mp h
    rw [List.map_cons, List.flatten_cons, List.map_cons, String.join_cons]
    unfold rendered at hcall ih ⊢
    rw [joined_append, hcall, ih hrest]
    rfl

/-- What is extracted from a text are the parts of its pieces. -/
theorem extractFrom_eq (finders : List Finder) (toParts : String → List Part) (text : String) :
    extractFrom finders toParts text = build ((cutBy finders text).flatMap toParts) := by
  unfold extractFrom extractBy
  rw [List.mapM_pure, pure_bind, List.flatMap_def]
  rfl

/-- What is extracted from a text reads as the text, if the parts of each piece do. -/
theorem extractFrom_text {finders : List Finder} (hfinders : ∀ find ∈ finders, find.InOrder)
    {toParts : String → List Part} {text : String}
    (h : ∀ piece ∈ cutBy finders text, rendered (toParts piece) = .ok piece) :
    textOf? (extractFrom finders toParts text) = some text := by
  have hcalls : ∀ call ∈ (cutBy finders text).map (fun piece => (piece, toParts piece)),
      rendered call.2 = .ok call.1 := List.forall_mem_map.mpr h
  have hparts := rendered_flatten hcalls
  have hpieces : ((cutBy finders text).map (fun piece => (piece, toParts piece))).map Prod.fst
      = cutBy finders text := by
    rw [List.map_map]
    exact List.map_id _
  rw [hpieces, cutBy_text hfinders, List.map_map] at hparts
  rw [extractFrom_eq, List.flatMap_def]
  exact textOf?_build hparts

/-- So does what is extracted by patterns. -/
theorem extract_text {patterns : List Pattern} {toParts : String → List Part} {text : String}
    (h : ∀ piece ∈ pieces patterns text, rendered (toParts piece) = .ok piece) :
    textOf? (extract patterns toParts text) = some text :=
  extractFrom_text (List.forall_mem_map.mpr fun p _ => p.spans_inOrder) h

end Template

end AccountSync
