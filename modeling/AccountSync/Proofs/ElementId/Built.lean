/-
  AccountSync.Proofs.ElementId.Built
  ──────────────────────────────────
  **FULL NAMES ARE A CODE FOR IDENTIFIERS.**

  Identifiers come about by naming a type, an instance or a field, by reading a full name,
  and by going further down from another identifier.  Each of them is read back from its
  full name, whatever characters its names are made of, with two exceptions: a type that
  lacks a name, and the annotation of a type that is not named.

      ElementId.Built           — how identifiers come about
      ElementId.Unnamed         — the exceptions
      ElementId.parse?_fullName — what is read from the full name of any identifier
-/
import AccountSync.Proofs.ElementId.FullName

namespace AccountSync.ElementId

/-! ## §1. Identifiers that can be built. -/

/-- The identifiers that come about by naming a type, an instance or a field, by reading a full
name, and by going further down. -/
inductive Built : ElementId → Prop where
  | ofType (adapter typeName : String) : Built (.ofType adapter typeName)
  | ofInstance (adapter typeName name : String) : Built (.ofInstance adapter typeName name)
  | ofField (adapter typeName name : String) : Built (.ofField adapter typeName name)
  | parsed {text : String} {id : ElementId} : parse? text = some id → Built id
  | nest {id : ElementId} : Built id → ∀ parts : List String, Built (id.nest parts)

/-- A type without a name, or of an adapter without a name; or an annotation without a name. -/
def Unnamed (id : ElementId) : Prop :=
  match id.place with
  | .type => id.adapter = "" ∨ id.typeName = ""
  | .within .attr path => path = []
  | .within _ _ => False

instance : (id : ElementId) → Decidable id.Unnamed
  | ⟨adapter, typeName, .type⟩ => inferInstanceAs (Decidable (adapter = "" ∨ typeName = ""))
  | ⟨_, _, .within .attr path⟩ => inferInstanceAs (Decidable (path = []))
  | ⟨_, _, .within .inst _⟩ => inferInstanceAs (Decidable False)
  | ⟨_, _, .within .field _⟩ => inferInstanceAs (Decidable False)

/-- Instances and fields, and what is inside them, have a path. -/
def HasPath (id : ElementId) : Prop :=
  ∀ path, id.place = .within .inst path ∨ id.place = .within .field path → path ≠ []

theorem HasPath.nest {id : ElementId} (h : id.HasPath) (parts : List String) :
    (id.nest parts).HasPath := by
  obtain ⟨adapter, typeName, place⟩ := id
  intro path hplace
  cases place with
  | type => rcases hplace with hplace | hplace <;> exact absurd hplace nofun
  | within kind above =>
    -- going down keeps the kind, and the path only grows
    have habove : kind = .inst ∨ kind = .field → above ≠ [] := by
      rintro (rfl | rfl)
      · exact h above (.inl rfl)
      · exact h above (.inr rfl)
    rcases hplace with hplace | hplace <;> obtain ⟨rfl, rfl⟩ := Place.within.inj hplace
    · exact List.append_ne_nil_of_left_ne_nil (habove (.inl rfl)) parts
    · exact List.append_ne_nil_of_left_ne_nil (habove (.inr rfl)) parts

/-- A full name in which something follows the marker gives a path that is not empty. -/
theorem HasPath.of_parse? {text : String} {id : ElementId} (h : parse? text = some id) :
    id.HasPath := by
  unfold parse? at h
  split at h
  · -- a type has no path at all
    split at h
    · exact absurd h nofun
    · obtain ⟨a, -, h⟩ := Option.bind_eq_some_iff.mp h
      obtain ⟨t, -, h⟩ := Option.bind_eq_some_iff.mp h
      obtain rfl := Option.some.inj h
      rintro path (hplace | hplace) <;> exact absurd hplace nofun
  next first rest _ =>
    obtain ⟨kind, -, h⟩ := Option.bind_eq_some_iff.mp h
    obtain ⟨path, hpath, h⟩ := Option.bind_eq_some_iff.mp h
    obtain ⟨a, -, h⟩ := Option.bind_eq_some_iff.mp h
    obtain ⟨t, -, h⟩ := Option.bind_eq_some_iff.mp h
    obtain rfl := Option.some.inj h
    have hne : path ≠ [] := by
      rw [List.mapM_cons] at hpath
      obtain ⟨s, -, hpath⟩ := Option.bind_eq_some_iff.mp hpath
      obtain ⟨others, -, hpath⟩ := Option.bind_eq_some_iff.mp hpath
      obtain rfl := Option.some.inj hpath
      exact List.cons_ne_nil s others
    rintro path' (hplace | hplace) <;> obtain ⟨-, rfl⟩ := Place.within.inj hplace <;> exact hne
  · exact absurd h nofun

theorem Built.hasPath {id : ElementId} (h : id.Built) : id.HasPath := by
  induction h with
  | ofType => rintro path (hplace | hplace) <;> exact absurd hplace nofun
  | ofInstance | ofField =>
    rintro path (hplace | hplace) <;> obtain ⟨-, rfl⟩ := Place.within.inj hplace <;>
      exact List.cons_ne_nil _ _
  | parsed h => exact .of_parse? h
  | nest _ parts ih => exact ih.nest parts

/-! ## §2. Reading what was written. -/

theorem segment?_written (s : String) : segment? (written s) = some s := by
  unfold segment? written
  rw [unescape?_escape, Option.map_some, String.ofList_toList]

theorem mapM_segment?_written (path : List String) :
    (path.map written).mapM segment? = some path := by
  induction path with
  | nil => rfl
  | cons s rest ih =>
    rw [List.map_cons, List.mapM_cons, segment?_written, ih]
    rfl

/-- Only the empty segment is written as nothing. -/
theorem written_eq_nil_iff {s : String} : written s = [] ↔ s = "" :=
  ⟨fun h => written_injective (h.trans (by decide : [] = written "")), fun h => h ▸ by decide⟩

theorem ofMarker?_written (kind : PlaceKind) :
    PlaceKind.ofMarker? (String.ofList (written kind.marker)) = some kind := by
  cases kind <;> decide

/-- A type is read back unless a name is missing. -/
theorem parse?_fullName_type (adapter typeName : String) :
    parse? (fullName ⟨adapter, typeName, .type⟩)
      = if adapter = "" ∨ typeName = "" then none else some ⟨adapter, typeName, .type⟩ := by
  unfold parse?
  rw [splitAt_fullName]
  simp only [segments, List.map_cons, List.map_nil, written_eq_nil_iff, segment?_written]
  rfl

/-- A place is read back if it has a path. -/
theorem parse?_fullName_within (adapter typeName : String) (kind : PlaceKind)
    (path : List String) :
    parse? (fullName ⟨adapter, typeName, .within kind path⟩)
      = if path = [] then none else some ⟨adapter, typeName, .within kind path⟩ := by
  unfold parse?
  rw [splitAt_fullName]
  cases path with
  | nil => rfl
  | cons first rest =>
    have hpath := mapM_segment?_written (first :: rest)
    rw [List.map_cons] at hpath
    simp only [segments, List.map_cons, ofMarker?_written, hpath, segment?_written]
    rfl

/-- An identifier with a path where it needs one is read back unless it is one of the
exceptions. -/
theorem parse?_fullName {id : ElementId} (h : id.HasPath) :
    parse? id.fullName = if id.Unnamed then none else some id := by
  obtain ⟨adapter, typeName, place⟩ := id
  cases place with
  | type => exact parse?_fullName_type adapter typeName
  | within kind path =>
    rw [parse?_fullName_within]
    cases kind with
    | attr => rfl
    | inst =>
      rw [if_neg (h path (.inl rfl))]
      exact (if_neg not_false).symm
    | field =>
      rw [if_neg (h path (.inr rfl))]
      exact (if_neg not_false).symm

/-- **Full names are a code for identifiers.**  What reads as an identifier is its full name;
every identifier that can be built is read back from its full name, except exactly those that
lack a name; and different ones have different full names. -/
theorem fullName_faithful :
    (∀ (text : String) (id : ElementId), parse? text = some id → id.fullName = text)
    ∧ (∀ id : ElementId, id.Built → parse? id.fullName = if id.Unnamed then none else some id)
    ∧ ∀ a b : ElementId, a.Built → b.Built → a.fullName = b.fullName → a = b :=
  ⟨fun _ _ => fullName_of_parse?, fun _ h => parse?_fullName h.hasPath,
    fun _ _ _ _ => fullName_injective⟩

/-- The annotation of a type, with a point, an empty name and an at sign further down; and the
annotations of that type without a name, which are not read back. -/
theorem fullName_faithful_for_points :
    let type := ElementId.ofType "z" "a@v"
    let id := (type.nest ["1.2", ""]).nest ["@"]
    id.Built ∧ id.fullName = "z.a@@v.attr.1@v2..@@" ∧ parse? id.fullName = some id
      ∧ (type.nest []).Built ∧ parse? (type.nest []).fullName = none := by
  intro type id
  have hid : id.Built := .nest (.nest (.ofType "z" "a@v") _) _
  have hempty : (type.nest []).Built := .nest (.ofType "z" "a@v") []
  refine ⟨hid, by decide +kernel, ?_, hempty, ?_⟩
  · rw [fullName_faithful.2.1 id hid, if_neg (by decide)]
  · rw [fullName_faithful.2.1 _ hempty, if_pos (by decide)]

end AccountSync.ElementId
