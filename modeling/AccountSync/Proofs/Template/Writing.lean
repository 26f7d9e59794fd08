/-
  AccountSync.Proofs.Template.Writing
  ───────────────────────────────────
  **THE NORMAL FORM MEANS WHAT THE PARTS MEAN.**

  A template is written by asking a renderer for the text of each reference.  The renderer may
  fail, and it may keep something in mind from one reference to the next, so it matters which
  references it is asked for and in which order.  Bringing parts into normal form changes
  nothing about that.  Which normal form parts have depends on nothing but their references
  and the text between these.

      Renderer                 — a way to write references
      Template.WrittenAs       — what comes of writing parts with a renderer
      Template.written_noted   — a template is written in this way
      Template.layout          — the references and the text between them
      Template.normal_eq_normal_iff, sameParts_normal_iff — the layout decides the normal form
      Template.normal_form_keeps_meaning — all of this for the normal form of any parts
-/
import AccountSync.Proofs.Template.Normal
import AccountSync.Proofs.Template.Rendered
import AccountSync.Proofs.World
import Mathlib.Data.List.Basic
import Mathlib.Data.Prod.Basic

namespace AccountSync

variable {σ α : Type}

/-! ## §1. Renderers. -/

/-- Writes references as text.  It may fail, and it may keep something in mind. -/
abbrev Renderer (σ : Type) := Reference → ExceptT Failure (StateM σ) String

/-- The renderer, which also notes in order which references it is asked for. -/
def Renderer.noted (write : Renderer σ) : Renderer (σ × List Reference) := fun r s =>
  (((write r).run s.1).1, ((write r).run s.1).2, s.2 ++ [r])

/-- Asked for references one after the other, the renderer writes each of them. -/
inductive Renderer.Writes (write : Renderer σ) : List Reference → σ → List String → σ → Prop
  | nil (s : σ) : Writes write [] s [] s
  | cons {r : Reference} {refs : List Reference} {s s' s'' : σ} {text : String}
      {texts : List String} :
      (write r).run s = (.ok text, s') → Writes write refs s' texts s'' →
      Writes write (r :: refs) s (text :: texts) s''

namespace Template

/-- The text of parts in which the references are written as the given texts, one for each. -/
def filled : List Part → List String → String
  | .literal text :: rest, texts => text ++ filled rest texts
  | .reference _ :: rest, text :: texts => text ++ filled rest texts
  | _, _ => ""

/-- What comes of writing parts: the result, the references that were asked for, and what the
renderer keeps in mind.  Either all references are written, or the first one that cannot be
decides, and it is the last one that is asked for. -/
inductive WrittenAs (write : Renderer σ) (parts : List Part) (s : σ) :
    Except Failure String → List Reference → σ → Prop
  | all {texts : List String} {s' : σ} : write.Writes (references parts) s texts s' →
      WrittenAs write parts s (.ok (filled parts texts)) (references parts) s'
  | failed {before after : List Reference} {r : Reference} {texts : List String} {e : Failure}
      {s' s'' : σ} : references parts = before ++ r :: after → write.Writes before s texts s' →
      (write r).run s' = (.error e, s'') →
      WrittenAs write parts s (.error e) (before ++ [r]) s''

section

variable {write : Renderer σ} {rest : List Part} {s s' s'' : σ} {result : Except Failure String}
  {refs : List Reference}

theorem WrittenAs.literal_cons (h : WrittenAs write rest s result refs s') (text : String) :
    WrittenAs write (.literal text :: rest) s (result.map (text ++ ·)) refs s' := by
  cases h with
  | all hall => exact .all hall
  | failed hrefs hbefore hr => exact .failed hrefs hbefore hr

theorem WrittenAs.reference_cons {r : Reference} {text : String}
    (hr : (write r).run s = (.ok text, s')) (h : WrittenAs write rest s' result refs s'') :
    WrittenAs write (.reference r :: rest) s (result.map (text ++ ·)) (r :: refs) s'' := by
  cases h with
  | all hall =>
    have hwrites : write.Writes (references (.reference r :: rest)) s _ s'' := .cons hr hall
    exact WrittenAs.all hwrites
  | failed hrefs hbefore hfail =>
    have hsplit : references (.reference r :: rest) = (r :: _) ++ _ :: _ :=
      congrArg (r :: ·) hrefs
    exact WrittenAs.failed hsplit (.cons hr hbefore) hfail

/-! ## §2. What comes of writing parts. -/

theorem run_literal_cons (write : Renderer σ) (text : String) (rest : List Part) (s : σ) :
    (joined write (.literal text :: rest)).run s
      = (((joined write rest).run s).1.map (text ++ ·), ((joined write rest).run s).2) := by
  show (joined write rest >>= fun tail => pure (text ++ tail)).run s = _
  rw [run_bind]
  cases ((joined write rest).run s).1 <;> rfl

theorem run_reference_cons {r : Reference} {text : String} (hr : (write r).run s = (.ok text, s'))
    (rest : List Part) :
    (joined write (.reference r :: rest)).run s
      = (((joined write rest).run s').1.map (text ++ ·), ((joined write rest).run s').2) := by
  show (write r >>= fun text => joined write rest >>= fun tail => pure (text ++ tail)).run s = _
  rw [run_bind, hr]
  exact run_literal_cons write text rest s'

theorem run_reference_error {r : Reference} {e : Failure} (hr : (write r).run s = (.error e, s'))
    (rest : List Part) : (joined write (.reference r :: rest)).run s = (.error e, s') := by
  show (write r >>= fun text => joined write rest >>= fun tail => pure (text ++ tail)).run s = _
  rw [run_bind, hr]

/-- What is noted makes no difference to what a renderer does. -/
theorem noted_run {r : Reference} {answer : Except Failure String}
    (hr : (write r).run s = (answer, s')) (asked : List Reference) :
    (write.noted r).run (s, asked) = (answer, s', asked ++ [r]) := by
  show (((write r).run s).1, ((write r).run s).2, asked ++ [r]) = _
  rw [hr]

/-- **Parts are written reference by reference**, and the renderer is asked for no other ones. -/
theorem written_noted (write : Renderer σ) (parts : List Part) (s : σ) (asked : List Reference) :
    ∃ result refs s', WrittenAs write parts s result refs s'
      ∧ (joined write parts).run s = (result, s')
      ∧ (joined write.noted parts).run (s, asked) = (result, s', asked ++ refs) := by
  induction parts generalizing s asked with
  | nil => exact ⟨.ok "", [], s, .all (.nil s), rfl, by rw [List.append_nil]; rfl⟩
  | cons p rest ih =>
    cases p with
    | literal text =>
      obtain ⟨result, refs, s', hwritten, hrun, hnoted⟩ := ih s asked
      refine ⟨_, refs, s', hwritten.literal_cons text, ?_, ?_⟩
      · rw [run_literal_cons, hrun]
      · rw [run_literal_cons, hnoted]
    | reference r =>
      obtain ⟨answer, s', hr⟩ : ∃ answer s', (write r).run s = (answer, s') := ⟨_, _, rfl⟩
      have hnote := noted_run hr asked
      cases answer with
      | error e =>
        -- the first reference decides, and nothing comes after it
        have hsplit : references (.reference r :: rest) = [] ++ r :: references rest := rfl
        refine ⟨.error e, [r], s', .failed hsplit (.nil s) hr, ?_, ?_⟩
        · exact run_reference_error hr rest
        · exact run_reference_error hnote rest
      | ok text =>
        obtain ⟨result, refs, s'', hwritten, hrun, hnoted⟩ := ih s' (asked ++ [r])
        refine ⟨_, r :: refs, s'', hwritten.reference_cons hr, ?_, ?_⟩
        · rw [run_reference_cons hr, hrun]
        · rw [run_reference_cons hnote, hnoted, List.append_assoc]
          rfl

end

/-! ## §3. Which normal form parts have. -/

/-- The text in front of the first reference, and each reference with the text behind it, up to the
next one.  References are told apart by `key`. -/
def layout (key : Reference → α) : List Part → String × List (α × String)
  | [] => ("", [])
  | .literal text :: rest => (text ++ (layout key rest).1, (layout key rest).2)
  | .reference r :: rest => ("", (key r, (layout key rest).1) :: (layout key rest).2)

/-- A piece of text as a part, unless it is empty. -/
def textPart (text : String) : List Part :=
  if text = "" then [] else [.literal text]

/-- Parts in normal form with a given layout. -/
def laidOut (l : String × List (Reference × String)) : List Part :=
  textPart l.1 ++ l.2.flatMap (fun e => .reference e.1 :: textPart e.2)

theorem layout_consText (key : Reference → α) (text : String) (parts : List Part) :
    layout key (consText text parts) = (text ++ (layout key parts).1, (layout key parts).2) := by
  have hempty (h : text = "") :
      layout key parts = (text ++ (layout key parts).1, (layout key parts).2) := by
    rw [h, String.empty_append]
  cases parts with
  | nil =>
    show layout key (if text = "" then [] else [.literal text]) = _
    split
    next h => exact hempty h
    · rfl
  | cons p rest =>
    cases p with
    | literal next => exact congrArg (·, (layout key rest).2) String.append_assoc
    | reference r =>
      show layout key (if text = "" then .reference r :: rest
        else .literal text :: .reference r :: rest) = _
      split
      next h => exact hempty h
      · rfl

/-- The normal form has the same layout. -/
theorem layout_normal (key : Reference → α) (parts : List Part) :
    layout key (normal parts) = layout key parts := by
  induction parts with
  | nil => rfl
  | cons p rest ih =>
    cases p with
    | literal text =>
      show layout key (consText text (normal rest)) = _
      rw [layout_consText, ih]
      rfl
    | reference r =>
      show (("", (key r, (layout key (normal rest)).1) :: (layout key (normal rest)).2)
        : String × List (α × String)) = _
      rw [ih]
      rfl

theorem consText_laidOut (text : String) (l : String × List (Reference × String)) :
    consText text (laidOut l) = laidOut (text ++ l.1, l.2) := by
  obtain ⟨front, refs⟩ := l
  unfold laidOut textPart
  by_cases hfront : front = ""
  · -- behind the new text comes a reference, or nothing at all
    subst hfront
    rw [if_pos rfl, List.nil_append, String.append_empty]
    cases refs with
    | nil =>
      show (if text = "" then [] else [Part.literal text]) = _
      exact (List.append_nil _).symm
    | cons e rest =>
      show (if text = "" then _ else _ :: _)
        = (if text = "" then [] else [Part.literal text]) ++ _
      split <;> rfl
  · have hboth : text ++ front ≠ "" := fun h => hfront (String.append_eq_empty_iff.mp h).2
    rw [if_neg hfront, if_neg hboth]
    rfl

/-- The normal form is made of the layout. -/
theorem normal_eq_laidOut (parts : List Part) :
    normal parts = laidOut (layout (fun r => r) parts) := by
  induction parts with
  | nil => rfl
  | cons p rest ih =>
    cases p with
    | literal text =>
      show consText text (normal rest) = _
      rw [ih, consText_laidOut]
      rfl
    | reference r =>
      show .reference r :: normal rest = _
      rw [ih]
      rfl

/-- Parts have the same normal form exactly if they have the same layout. -/
theorem normal_eq_normal_iff {parts others : List Part} :
    normal parts = normal others
      ↔ layout (fun r => r) parts = layout (fun r => r) others := by
  constructor
  · intro h
    rw [← layout_normal, h, layout_normal]
  · intro h
    rw [normal_eq_laidOut, h, normal_eq_laidOut]

/-- Templates are equal exactly if they are the same up to the copies that references carry. -/
theorem sameParts_iff {parts others : List Part} :
    Value.sameParts parts others = true
      ↔ parts.map Value.barePart = others.map Value.barePart := by
  induction parts generalizing others with
  | nil =>
    cases others with
    | nil => exact iff_of_true rfl rfl
    | cons q others => exact iff_of_false Bool.false_ne_true (List.cons_ne_nil _ _).symm
  | cons p rest ih =>
    cases others with
    | nil =>
      rcases p with text | ⟨id, target⟩ <;>
        exact iff_of_false Bool.false_ne_true (List.cons_ne_nil _ _)
    | cons q others =>
      -- only parts of one kind can be the same
      cases p with
      | literal text => cases q <;> simp [Value.sameParts, Value.barePart, ih]
      | reference r =>
        obtain ⟨id, target⟩ := r
        rcases q with text | ⟨id', target'⟩ <;>
          simp [Value.sameParts, Value.barePart, Reference.id, ih]

theorem layout_comp {β : Type} (g : α → β) (key : Reference → α) (parts : List Part) :
    layout (fun r => g (key r)) parts
      = ((layout key parts).1, (layout key parts).2.map (Prod.map g id)) := by
  induction parts with
  | nil => rfl
  | cons p rest ih =>
    cases p <;> simp [layout, ih]

theorem layout_barePart (parts : List Part) :
    layout (fun r => r) (parts.map Value.barePart)
      = layout (fun r => Reference.to r.id none) parts := by
  induction parts with
  | nil => rfl
  | cons p rest ih =>
    cases p <;> simp [layout, Value.barePart, ih]

/-- The normal forms of parts are equal templates exactly if references to the same elements stand
in the same order, with the same text between them. -/
theorem sameParts_normal_iff {parts others : List Part} :
    Value.sameParts (normal parts) (normal others) = true
      ↔ layout Reference.id parts = layout Reference.id others := by
  have hinjective : Function.Injective (fun id => Reference.to id none) := by
    intro id id' h
    injection h
  have hmap : Function.Injective (List.map (Prod.map (fun id => Reference.to id none)
      (id : String → String))) :=
    List.map_injective_iff.mpr (hinjective.prodMap Function.injective_id)
  rw [sameParts_iff, ← normal_barePart, ← normal_barePart, normal_eq_normal_iff, layout_barePart,
    layout_barePart, layout_comp (fun id => Reference.to id none) Reference.id parts,
    layout_comp (fun id => Reference.to id none) Reference.id others, Prod.mk.injEq,
    hmap.eq_iff, ← Prod.ext_iff]

/-! ## §4. The normal form and what it stands for. -/

/-- Without references the text of parts is their text in order. -/
theorem filled_nil {parts : List Part} (h : references parts = []) :
    filled parts [] = literalText parts := by
  induction parts with
  | nil => rfl
  | cons p rest ih =>
    cases p with
    | literal text => exact congrArg (text ++ ·) (ih h)
    | reference r => exact absurd h (List.cons_ne_nil r _)

/-- Parts without a reference stand for their text, and others for the template in normal form. -/
theorem build_cases (parts : List Part) :
    (references parts = [] ∧ build parts = .string (filled parts []))
      ∨ (references parts ≠ [] ∧ build parts = .template (normal parts)) := by
  have hbuild : build parts = if (references parts).isEmpty then
      .string (literalText (normal parts)) else .template (normal parts) := by
    show (if (references (normal parts)).isEmpty then _ else _) = _
    rw [references_normal]
  rw [hbuild]
  cases hrefs : references parts with
  | cons r rest => exact .inr ⟨List.cons_ne_nil r rest, rfl⟩
  | nil =>
    refine .inl ⟨rfl, congrArg Value.string ?_⟩
    have hwritten := joined_normal Reference.rendered parts
    rw [joined_of_no_references _ hrefs,
      joined_of_no_references _ ((references_normal parts).trans hrefs)] at hwritten
    exact (Except.ok.inj hwritten).trans (filled_nil hrefs).symm

/-- **The normal form keeps the meaning of parts.**  Whatever renderer writes it, the result is the
text of the parts as they were given, with each reference as the renderer wrote it; or it is the
first failure, and the renderer was asked for each reference up to that one, in order and once.  No
piece of text is left empty or beside another one, a second time changes nothing, and the normal
form depends on nothing but the references and the text between them.  A plain text comes of parts
exactly if there is no reference among them. -/
theorem normal_form_keeps_meaning (parts : List Part) :
    (∀ {σ : Type} (write : Renderer σ) (s : σ),
      ∃ result refs s', WrittenAs write parts s result refs s'
        ∧ (joined write (normal parts)).run s = (result, s')
        ∧ (joined write.noted (normal parts)).run (s, []) = (result, s', refs))
    ∧ IsNormal (normal parts) ∧ normal (normal parts) = normal parts
    ∧ (∀ others,
      (normal parts = normal others
        ↔ layout (fun r => r) parts = layout (fun r => r) others)
      ∧ (Value.sameParts (normal parts) (normal others) = true
        ↔ layout Reference.id parts = layout Reference.id others))
    ∧ ((references parts = [] ∧ build parts = .string (filled parts []))
      ∨ (references parts ≠ [] ∧ build parts = .template (normal parts))) := by
  refine ⟨fun write s => ?_, normal_isNormal parts, normal_of_isNormal (normal_isNormal parts),
    fun others => ⟨normal_eq_normal_iff, sameParts_normal_iff⟩, build_cases parts⟩
  -- the normal form is written as the parts are, whatever the renderer does on the way
  rw [joined_normal, joined_normal]
  exact written_noted write parts s []

end Template

end AccountSync
