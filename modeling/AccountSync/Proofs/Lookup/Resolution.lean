/-
  AccountSync.Proofs.Lookup.Resolution
  ────────────────────────────────────
  **AN IDENTIFIER READS THE SAME AFTER IT WAS RESOLVED.**

  The first table that knows an identifier decides what it stands for, and a table knows the
  last instance that has it.  So if instances are looked up by their own identifiers, then
  whatever an identifier is resolved to reads as that identifier in a template, whether an
  instance was found, a placeholder was made up or nothing was done.

      LookupTable.LastUnder       — what a table of instances holds under a key
      Resolver.Answers            — what tables and mode say of an identifier
      Resolver.answers_iff        — it is what the identifier is resolved to
      Instance.placeholder_spec   — what a placeholder shows of the identifier
      resolution_lossless         — all of it together
-/
import AccountSync.Proofs.Lookup.Tables
import AccountSync.Proofs.Template.Rendered

namespace AccountSync

/-! ## §1. Tables of instances. -/

namespace LookupTable

/-- Under the key is the last instance that has it, or nothing if none has it. -/
inductive LastUnder (key? : Instance → Option String) (instances : List Instance) (key : String) :
    Option LookupTarget → Prop
  | last {before after : List Instance} {i : Instance} : instances = before ++ i :: after →
      key? i = some key → (∀ j ∈ after, key? j ≠ some key) →
      LastUnder key? instances key (some (.element i.reference))
  | nothing : (∀ i ∈ instances, key? i ≠ some key) → LastUnder key? instances key none

/-- Of the instances with one key the table holds the last. -/
theorem lastUnder_ofInstances (name : String) (key? : Instance → Option String)
    (instances : List Instance) (key : String) :
    LastUnder key? instances key ((ofInstances name key? instances).find? key) := by
  rw [find?_ofInstances]
  cases hfound : instances.reverse.find? (fun i => key? i = some key) with
  | none =>
    refine .nothing fun i hi hkey => ?_
    have hnone := List.find?_eq_none.mp hfound i (List.mem_reverse.mpr hi)
    exact hnone (decide_eq_true hkey)
  | some i =>
    -- from the end, what comes before the one that is found has other keys
    obtain ⟨hkey, after, before, hsplit, hafter⟩ := List.find?_eq_some_iff_append.mp hfound
    have hsplit' : instances = before.reverse ++ i :: after.reverse := by
      rw [← List.reverse_reverse instances, hsplit, List.reverse_append, List.reverse_cons,
        List.append_assoc]
      rfl
    refine .last hsplit' (of_decide_eq_true hkey) fun j hj hkey' => ?_
    have hother := hafter j (List.mem_reverse.mp hj)
    rw [decide_eq_true hkey'] at hother
    exact absurd hother nofun

/-- The table holds instances by their identifiers, and all of them are whole elements. -/
def ByIdentifier (t : LookupTable) : Prop :=
  ∃ name instances, (∀ i ∈ instances, i.id.isTopLevel = true)
    ∧ t = ofInstances name (fieldKey? "id") instances

/-- What it finds has the identifier. -/
theorem ByIdentifier.finds {t : LookupTable} (h : t.ByIdentifier) {raw : String}
    {target : LookupTarget} (hfind : t.find? raw = some target) :
    ∃ i : Instance, i.id.isTopLevel = true ∧ fieldKey? "id" i = some raw
      ∧ target = .element i.reference := by
  obtain ⟨name, instances, htop, rfl⟩ := h
  have hlast := lastUnder_ofInstances name (fieldKey? "id") instances raw
  rw [hfind] at hlast
  cases hlast with
  | @last before after i hsplit hkey _ =>
    refine ⟨i, htop i ?_, hkey, rfl⟩
    rw [hsplit]
    exact List.mem_append_right before List.mem_cons_self

end LookupTable

/-! ## §2. Which table decides. -/

/-- What comes out if a table knows the identifier. -/
def LookupTarget.resolution : LookupTarget → Resolution
  | .element r => .reference r
  | .literal v => .literal v

namespace Resolver

/-- The first table that knows the identifier decides.  If none does, a placeholder stands for it,
or nothing does where there are no placeholders. -/
inductive Answers (r : Resolver) (raw targetType : String) : Resolution → Prop
  | known {before after : List LookupTable} {t : LookupTable} {target : LookupTarget} :
      r.tables = before ++ t :: after → (∀ other ∈ before, other.find? raw = none) →
      t.find? raw = some target → Answers r raw targetType target.resolution
  | missing : (∀ t ∈ r.tables, t.find? raw = none) → r.placeholders = true →
      Answers r raw targetType
        (.missing (Instance.placeholder r.adapter targetType raw).reference)
  | unresolved : (∀ t ∈ r.tables, t.find? raw = none) → r.placeholders = false →
      Answers r raw targetType (.unresolved raw)

variable {r : Resolver} {raw targetType : String}

theorem resolve_of_known {target : LookupTarget}
    (h : r.tables.findSome? (fun t => t.find? raw) = some target) :
    r.resolve raw targetType = target.resolution := by
  unfold resolve
  rw [h]
  cases target <;> rfl

theorem resolve_of_unknown (h : r.tables.findSome? (fun t => t.find? raw) = none) :
    r.resolve raw targetType = if r.placeholders
      then .missing (Instance.placeholder r.adapter targetType raw).reference
      else .unresolved raw := by
  unfold resolve
  rw [h]

/-- No table knows the identifier. -/
theorem findSome?_eq_none_of (h : ∀ t ∈ r.tables, t.find? raw = none) :
    r.tables.findSome? (fun t => t.find? raw) = none :=
  List.findSome?_eq_none_iff.mpr h

/-- An identifier is resolved to what tables and mode say of it, and to nothing else. -/
theorem answers_iff (r : Resolver) (raw targetType : String) (answer : Resolution) :
    r.Answers raw targetType answer ↔ r.resolve raw targetType = answer := by
  constructor
  · intro h
    cases h with
    | known hsplit hbefore hfind =>
      refine resolve_of_known ?_
      rw [hsplit, List.findSome?_append, List.findSome?_eq_none_iff.mpr hbefore, Option.none_or,
        List.findSome?_cons, hfind]
    | missing hnone hplaceholders =>
      rw [resolve_of_unknown (findSome?_eq_none_of hnone), if_pos hplaceholders]
    | unresolved hnone hplaceholders =>
      rw [resolve_of_unknown (findSome?_eq_none_of hnone),
        if_neg (Bool.eq_false_iff.mp hplaceholders)]
  · rintro rfl
    cases hfound : r.tables.findSome? (fun t => t.find? raw) with
    | some target =>
      obtain ⟨before, t, after, hsplit, hfind, hbefore⟩ := List.findSome?_eq_some_iff.mp hfound
      rw [resolve_of_known hfound]
      exact .known hsplit hbefore hfind
    | none =>
      have hnone := List.findSome?_eq_none_iff.mp hfound
      rw [resolve_of_unknown hfound]
      split
      next hplaceholders => exact .missing hnone hplaceholders
      next hplaceholders => exact .unresolved hnone (Bool.eq_false_iff.mpr hplaceholders)

end Resolver

/-! ## §3. Placeholders. -/

theorem Text.afterStem?_append (stem rest : List Char) :
    afterStem? stem (stem ++ rest) = some rest := by
  induction stem with
  | nil => rfl
  | cons c stem ih => exact (if_pos rfl).trans ih

namespace Instance

/-- A reference to a placeholder is known for one by its name, and the identifier that it stands
for can be taken from it unchanged. -/
theorem placeholder_spec (adapter typeName raw : String) :
    let m := (placeholder adapter typeName raw).reference
    m.isMissing = true ∧ m.id.adapter = adapter ∧ m.id.typeName = typeName
      ∧ m.targetId? = some (.string raw) := by
  refine ⟨?_, rfl, rfl, rfl⟩
  show (Text.afterStem? Reference.placeholderStem.toList
    (Reference.placeholderStem ++ sanitize raw).toList).isSome = true
  rw [String.toList_append, Text.afterStem?_append]
  rfl

end Instance

/-! ## §4. Reading back. -/

/-- A reference to a whole instance reads as the identifier that the instance has. -/
theorem Instance.reference_rendered {i : Instance} (htop : i.id.isTopLevel = true) {raw : String}
    (hid : LookupTable.fieldKey? "id" i = some raw) : i.reference.rendered = .ok raw := by
  have hid' : ((Value.map i.value).get? "id").bind Value.keyText? = some raw := hid
  unfold Instance.reference
  rw [Reference.rendered_topLevel htop, hid']

/-- The only reference that is missing is the one to the placeholder. -/
theorem Resolver.Answers.eq_placeholder {r : Resolver} {raw targetType : String} {m : Reference}
    (h : r.Answers raw targetType (.missing m)) :
    m = (Instance.placeholder r.adapter targetType raw).reference := by
  generalize hanswer : Resolution.missing m = answer at h
  cases h with
  | @known _ _ _ target => cases target <;> exact absurd hanswer nofun
  | missing => exact Resolution.missing.inj hanswer
  | unresolved => exact absurd hanswer nofun

/-- What an identifier is resolved to is an instance, a placeholder or nothing, if all tables hold
instances by identifier, and in each case it reads as the identifier. -/
theorem Resolver.Answers.reads {r : Resolver} {raw targetType : String} {answer : Resolution}
    (h : r.Answers raw targetType answer) (htables : ∀ t ∈ r.tables, t.ByIdentifier) :
    (∀ v, answer ≠ .literal v) ∧ Template.rendered [answer.part] = .ok raw := by
  cases h with
  | @known before after t target hsplit _ hfind =>
    have ht : t ∈ r.tables := hsplit ▸ List.mem_append_right before List.mem_cons_self
    obtain ⟨i, htop, hid, rfl⟩ := (htables t ht).finds hfind
    exact ⟨nofun, Template.rendered_singleton (Instance.reference_rendered htop hid)⟩
  | missing =>
    exact ⟨nofun, Template.rendered_singleton (Instance.reference_rendered rfl rfl)⟩
  | unresolved =>
    exact ⟨nofun, congrArg Except.ok String.append_empty⟩

/-- **The first table that knows an identifier decides what it stands for**, and a table of
instances knows the last one under each key.  What no table knows becomes a placeholder, which is
known for one and tells the adapter, the type and the identifier, or it stays unresolved.  If
instances are looked up by their identifiers, then what came out reads as the identifier in a
template, in all three cases. -/
theorem resolution_lossless (r : Resolver) (raw targetType : String) :
    (∀ answer, r.Answers raw targetType answer ↔ r.resolve raw targetType = answer)
    ∧ (∀ name key? instances key, LookupTable.LastUnder key? instances key
        ((LookupTable.ofInstances name key? instances).find? key))
    ∧ (∀ m, r.resolve raw targetType = .missing m →
        m.isMissing = true ∧ m.id.adapter = r.adapter ∧ m.id.typeName = targetType
          ∧ m.targetId? = some (.string raw))
    ∧ ((∀ t ∈ r.tables, t.ByIdentifier) →
        (∀ v, r.resolve raw targetType ≠ .literal v)
          ∧ Template.rendered (Template.normal [(r.resolve raw targetType).part]) = .ok raw) := by
  have hanswers := (r.answers_iff raw targetType _).mpr rfl
  refine ⟨r.answers_iff raw targetType, LookupTable.lastUnder_ofInstances, ?_, fun htables => ?_⟩
  · intro m hm
    rw [hm] at hanswers
    rw [hanswers.eq_placeholder]
    exact Instance.placeholder_spec r.adapter targetType raw
  · obtain ⟨hnoliteral, hreads⟩ := hanswers.reads htables
    exact ⟨hnoliteral, (Template.joined_normal _ _).trans hreads⟩

/-- Two groups with one identifier, and a category that has it as well. -/
def Resolver.ofGroups : Resolver where
  adapter := "z"
  placeholders := true
  tables :=
    let named (type name : String) (id : Value) : Instance :=
      .named name (.ofType "z" type) [("id", id)]
    [.ofInstances "group_by_id" (LookupTable.fieldKey? "id")
        [named "group" "a" (.number (.int 12)), named "group" "b" (.string "12")],
      .ofInstances "category_by_id" (LookupTable.fieldKey? "id")
        [named "category" "c" (.number (.int 12))]]

/-- The identifier stands for the last group that has it, and one that is in no table stands for a
placeholder although it is no name.  Either reads as it was. -/
theorem resolution_lossless_for_groups :
    let r := Resolver.ofGroups
    let text (raw : String) := Template.rendered (Template.normal [(r.resolve raw "group").part])
    (∀ t ∈ r.tables, t.ByIdentifier)
      ∧ (r.resolve "12" "group").name = "reference"
      ∧ ((r.resolve "12" "group").value.reference?.map Reference.id)
        = some (.ofInstance "z" "group" "b")
      ∧ text "12" = .ok "12"
      ∧ (r.resolve "1.2 é" "group").name = "missing"
      ∧ ((r.resolve "1.2 é" "group").value.reference?.map Reference.id)
        = some (.ofInstance "z" "group" "missing_1_2__")
      ∧ text "1.2 é" = .ok "1.2 é" := by
  intro r text
  have htables : ∀ t ∈ r.tables, t.ByIdentifier := by
    intro t ht
    rcases List.mem_cons.mp ht with rfl | ht
    · exact ⟨_, _, by decide +kernel, rfl⟩
    · obtain rfl := List.mem_singleton.mp ht
      exact ⟨_, _, by decide +kernel, rfl⟩
  refine ⟨htables, by decide +kernel, by decide +kernel, ?_, by decide +kernel,
    by decide +kernel, ?_⟩
  · exact ((resolution_lossless r "12" "group").2.2.2 htables).2
  · exact ((resolution_lossless r "1.2 é" "group").2.2.2 htables).2

end AccountSync
