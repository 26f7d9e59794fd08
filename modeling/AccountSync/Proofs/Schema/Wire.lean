/-
  AccountSync.Proofs.Schema.Wire
  ──────────────────────────────
  **TYPES SURVIVE THEIR SERIALIZED FORM.**

  A record is read by the names of its entries, so neither their order nor other entries
  matter, and what was left out because it was empty is read as empty.  All that can be lost
  of an object type are the values of annotations, its own and those of its fields.

      Dict.Shows             — what a record holds under some names
      Dict.decodeOr_unlessEmpty — what was left out where there was nothing
      Fields.Survives        — values that come back without the copies of targets
      FieldType.decode_encode   — types come back
      ObjectType.decode_eq_bare_iff — object types do if the values in them do
-/
import AccountSync.Proofs.Dict
import AccountSync.Proofs.Value.Wire
import AccountSync.Schema.Wire

namespace AccountSync

variable {α : Type}

/-! ## §1. Records. -/

/-- Under each of the names the dictionary holds what is among the entries. -/
def Dict.Shows (names : List String) (entries d : Dict α) : Prop :=
  ∀ key ∈ names, Dict.get? d key = Dict.get? entries key

/-- An object is read by the names that it may have. -/
theorem Json.recordFields?_object {names : List String} {entries d : Dict Json}
    (h : Dict.Shows names entries d) :
    ∃ fields, recordFields? names (.object d) = some fields ∧ Dict.Shows names entries fields := by
  refine ⟨_, rfl, fun key hkey => ?_⟩
  rw [Dict.get?_filter_keys (p := names.contains) (List.contains_iff_mem.mpr hkey) d]
  exact h key hkey

/-- An object of entries with different keys holds these entries. -/
theorem Dict.shows_ofList {entries : List (String × α)} (h : (Dict.keys entries).Nodup)
    (names : List String) : Dict.Shows names entries (Dict.ofList entries) :=
  fun key _ => Dict.get?_ofList_of_nodup h key

/-- What is left out because it is empty is not found. -/
theorem Dict.get?_encodeUnlessEmpty (key : String) (entries : Dict α) (f : Dict α → Json) :
    Dict.get? (encodeUnlessEmpty key entries f) key
      = if entries.isEmpty then none else some (f entries) := by
  unfold encodeUnlessEmpty
  split
  · rfl
  · exact get?_cons_self key (f entries) []

theorem Dict.get?_encodeUnlessEmpty_of_ne {key other : String} (h : key ≠ other) (entries : Dict α)
    (f : Dict α → Json) : Dict.get? (encodeUnlessEmpty key entries f) other = none := by
  unfold encodeUnlessEmpty
  split
  · rfl
  · exact get?_cons_of_ne h (f entries) []

/-- Entries that are left out when they are empty are read as if they were always there. -/
theorem Dict.decodeOr_unlessEmpty {fields : Dict Json} {key : String} {entries : Dict α}
    {f : Dict α → Json} {g : Json → Option (Dict α)} (hempty : g (f []) = some [])
    (h : Dict.get? fields key = if entries.isEmpty then none else some (f entries)) :
    decodeOr fields key [] g = g (f entries) := by
  unfold decodeOr
  rw [h]
  cases entries with
  | nil => exact hempty.symm
  | cons e rest => rfl

/-- Entries come back one by one. -/
theorem Dict.decodeWith_mapValues_iff {f : α → Json} {g : Json → Option α} {h : α → α}
    {d : Dict α} :
    decodeWith g (.object (mapValues f d)) = some (mapValues h d)
      ↔ ∀ e ∈ d, g (f e.2) = some (h e.2) := by
  show (mapValues f d).mapM (fun e => (g e.2).map fun v => (e.1, v)) = some (mapValues h d) ↔ _
  induction d with
  | nil => exact iff_of_true rfl fun e he => absurd he List.not_mem_nil
  | cons e rest ih =>
    obtain ⟨k, a⟩ := e
    rw [List.forall_mem_cons, ← ih]
    simp only [mapValues, List.map_cons, List.mapM_cons]
    cases g (f a) with
    | none => simp
    | some b =>
      cases (List.map (fun e => (e.1, f e.2)) rest).mapM (fun e => (g e.2).map fun v => (e.1, v)) with
      | none => simp
      | some others => simp

/-! ## §2. Values of fields. -/

/-- Each of the values comes back from its serialized form without the copies of targets. -/
def Fields.Survives (fs : Fields) : Prop :=
  ∀ e ∈ fs, Value.decode e.2.encode = .ok e.2.bare

theorem Fields.decodeEntries_encode_iff {fs : Fields} :
    Value.decodeEntries (Value.encodeEntries fs) = .ok (Value.bareEntries fs) ↔ fs.Survives := by
  unfold Survives
  induction fs with
  | nil => exact iff_of_true rfl fun e he => absurd he List.not_mem_nil
  | cons e rest ih =>
    obtain ⟨k, v⟩ := e
    rw [List.forall_mem_cons, ← ih]
    constructor
    · intro h
      obtain ⟨w, ws, hfirst, hrest, heq⟩ := Value.decodeEntries_cons h
      obtain ⟨hhead, rfl⟩ := List.cons.inj heq
      obtain ⟨-, rfl⟩ := Prod.mk.inj hhead
      exact ⟨hfirst, hrest⟩
    · rintro ⟨hfirst, hrest⟩
      unfold Value.encodeEntries Value.decodeEntries
      rw [hfirst, hrest]
      rfl

/-- Fields come back if their values do. -/
theorem Fields.decode?_encode_iff {fs : Fields} :
    Fields.decode? (Fields.encode fs) = some (Value.bareEntries fs) ↔ fs.Survives := by
  rw [← decodeEntries_encode_iff]
  show (Value.decodeEntries (Value.encodeEntries fs)).toOption = _ ↔ _
  cases Value.decodeEntries (Value.encodeEntries fs) with
  | error e => exact iff_of_false nofun nofun
  | ok ws => exact ⟨fun h => congrArg Except.ok (Option.some.inj h),
      fun h => congrArg some (Except.ok.inj h)⟩

/-- The identifier is read back from its full name. -/
theorem ElementId.decode_fullName {id : ElementId} (h : parse? id.fullName = some id) :
    decode (.string id.fullName) = some id :=
  h

/-! ## §3. Types. -/

theorem Primitive.ofName?_name (kind : Primitive) : ofName? kind.name = some kind := by
  cases kind <;> rfl

/-- Types come back, on their own and inside of elements. -/
theorem FieldType.decode_encode (isNothing : Json → Bool) (t : FieldType) :
    decodeWith isNothing t.encode = some t := by
  induction t with
  | primitive kind =>
    show (Primitive.ofName? kind.name).map FieldType.primitive = _
    rw [Primitive.ofName?_name]
    rfl
  | list item ih =>
    show (decodeWith isNothing item.encode).map FieldType.list = _
    rw [ih]
    rfl
  | map value ih =>
    show (decodeWith isNothing value.encode).map FieldType.map = _
    rw [ih]
    rfl
  | object name => rfl

/-- Types under their names come back. -/
theorem FieldType.decode_encode_all (types : Dict FieldType) :
    Dict.decodeWith decodeInside (.object (Dict.mapValues encode types)) = some types := by
  have hall := (Dict.decodeWith_mapValues_iff (h := fun t => t) (d := types)).mpr
    fun e _ => FieldType.decode_encode Json.isVoid e.2
  rwa [show Dict.mapValues (fun t : FieldType => t) types = types from List.map_id' types] at hall

/-! ## §4. Fields. -/

namespace Field

/-- The identifier of the type that the field belongs to is read back. -/
def Readable (f : Field) : Prop :=
  ElementId.parse? f.parent.fullName = some f.parent

/-- The field without the copies of targets. -/
def bare (f : Field) : Field :=
  { f with annotations := Value.bareEntries f.annotations }

/-- The entries of a serialized field. -/
def encodeEntries (f : Field) : List (String × Json) :=
  [("name", .string f.name), ("parent", .string f.parent.fullName), ("type_ref", f.type.encode)]
    ++ Dict.encodeUnlessEmpty "annotations" f.annotations Fields.encode

theorem encodeEntries_nodup (f : Field) : (Dict.keys f.encodeEntries).Nodup := by
  unfold encodeEntries Dict.encodeUnlessEmpty
  split
  · exact (by decide : ["name", "parent", "type_ref"].Nodup)
  · exact (by decide : ["name", "parent", "type_ref", "annotations"].Nodup)

/-- All of a field is read but what its annotations lose. -/
theorem decode_encode {f : Field} (h : f.Readable) :
    decode f.encode = (Fields.decode? (Fields.encode f.annotations)).map
      fun annotations => { f with annotations } := by
  obtain ⟨fields, hfields, hshows⟩ := Json.recordFields?_object
    (Dict.shows_ofList f.encodeEntries_nodup ["name", "parent", "type_ref", "annotations"])
  have hname : Dict.get? fields "name" = some (.string f.name) := hshows _ (by simp)
  have hparent : Dict.get? fields "parent" = some (.string f.parent.fullName) := hshows _ (by simp)
  have htype : Dict.get? fields "type_ref" = some f.type.encode := hshows _ (by simp)
  have hannotations : Dict.decodeOr fields "annotations" [] Fields.decode?
      = Fields.decode? (Fields.encode f.annotations) :=
    Dict.decodeOr_unlessEmpty rfl
      ((hshows _ (by simp)).trans (Dict.get?_encodeUnlessEmpty _ f.annotations Fields.encode))
  unfold decode
  show (Json.recordFields? _ (.object (Dict.ofList f.encodeEntries)) >>= _) = _
  rw [hfields]
  simp only [Option.bind_eq_bind, Option.bind_some, hname, hparent, htype, hannotations]
  rw [show FieldType.decodeInside f.type.encode = some f.type from FieldType.decode_encode _ f.type,
    ElementId.decode_fullName h]
  cases Fields.decode? (Fields.encode f.annotations) <;> rfl

/-- A field comes back if its annotations do. -/
theorem decode_eq_bare_iff {f : Field} (h : f.Readable) :
    decode f.encode = some f.bare ↔ f.annotations.Survives := by
  rw [decode_encode h, Option.map_eq_some_iff, ← Fields.decode?_encode_iff]
  constructor
  · rintro ⟨annotations, hread, heq⟩
    rw [hread]
    exact congrArg (fun f : Field => some f.annotations) heq
  · exact fun hread => ⟨_, hread, rfl⟩

end Field

/-! ## §5. Object types. -/

namespace ObjectType

/-- The names that a serialized object type is read by. -/
def recordNames : List String :=
  ["elem_id", "fields", "annotation_ref_types", "annotations"]

/-- The identifiers of the type and of its fields' types are read back. -/
def Readable (o : ObjectType) : Prop :=
  ElementId.parse? o.id.fullName = some o.id ∧ ∀ e ∈ o.fields, e.2.Readable

/-- The object type without the copies of targets. -/
def bare (o : ObjectType) : ObjectType :=
  { o with
    fields := Dict.mapValues Field.bare o.fields
    annotations := Value.bareEntries o.annotations }

/-- The trees of values in an object type: its annotations, and those of its fields. -/
def trees (o : ObjectType) : List Fields :=
  o.annotations :: o.fields.map fun e => e.2.annotations

theorem keys_encodeEntries (o : ObjectType) : (Dict.keys o.encodeEntries).Sublist recordNames := by
  unfold encodeEntries Dict.encodeUnlessEmpty
  split <;> split
  · exact (by decide : ["elem_id", "fields"].Sublist recordNames)
  · exact (by decide : ["elem_id", "fields", "annotations"].Sublist recordNames)
  · exact (by decide : ["elem_id", "fields", "annotation_ref_types"].Sublist recordNames)
  · exact .refl recordNames

theorem get?_annotationTypes (o : ObjectType) :
    Dict.get? o.encodeEntries "annotation_ref_types"
      = if o.annotationTypes.isEmpty then none
        else some (.object (Dict.mapValues FieldType.encode o.annotationTypes)) := by
  unfold encodeEntries
  rw [Dict.get?_append, Dict.get?_append, Dict.get?_encodeUnlessEmpty,
    Dict.get?_encodeUnlessEmpty_of_ne (by decide), Option.or_none]
  rfl

theorem get?_annotations (o : ObjectType) :
    Dict.get? o.encodeEntries "annotations"
      = if o.annotations.isEmpty then none else some (Fields.encode o.annotations) := by
  unfold encodeEntries
  rw [Dict.get?_append, Dict.get?_append, Dict.get?_encodeUnlessEmpty,
    Dict.get?_encodeUnlessEmpty_of_ne (by decide), Option.or_none]
  rfl

/-- All of an object type is read but what its fields and annotations lose, from any record that
holds its entries. -/
theorem decode_object {o : ObjectType} (h : ElementId.parse? o.id.fullName = some o.id)
    {d : Dict Json} (hshows : Dict.Shows recordNames o.encodeEntries d) :
    decode (.object d)
      = (Dict.decodeWith Field.decode (.object (Dict.mapValues Field.encode o.fields))).bind
        fun fields => (Fields.decode? (Fields.encode o.annotations)).map
          fun annotations => { o with fields, annotations } := by
  obtain ⟨fields, hfields, hshows⟩ := Json.recordFields?_object hshows
  have hid : Dict.get? fields "elem_id" = some (.string o.id.fullName) :=
    hshows _ (by simp [recordNames])
  have hdeclared : Dict.decodeOr fields "fields" [] (Dict.decodeWith Field.decode)
      = Dict.decodeWith Field.decode (.object (Dict.mapValues Field.encode o.fields)) := by
    have hget : Dict.get? fields "fields"
        = some (.object (Dict.mapValues Field.encode o.fields)) := hshows _ (by simp [recordNames])
    rw [Dict.decodeOr, hget]
  have htypes : Dict.decodeOr fields "annotation_ref_types" []
      (Dict.decodeWith FieldType.decodeInside) = some o.annotationTypes := by
    rw [← FieldType.decode_encode_all o.annotationTypes]
    refine Dict.decodeOr_unlessEmpty (f := fun types => .object (Dict.mapValues FieldType.encode types))
      rfl ?_
    exact (hshows _ (by simp [recordNames])).trans o.get?_annotationTypes
  have hannotations : Dict.decodeOr fields "annotations" [] Fields.decode?
      = Fields.decode? (Fields.encode o.annotations) :=
    Dict.decodeOr_unlessEmpty rfl ((hshows _ (by simp [recordNames])).trans o.get?_annotations)
  unfold decode
  show (Json.recordFields? recordNames (.object d) >>= _) = _
  rw [hfields]
  simp only [Option.bind_eq_bind, Option.bind_some, hid, hdeclared, htypes, hannotations,
    ElementId.decode_fullName h]
  cases Dict.decodeWith Field.decode (.object (Dict.mapValues Field.encode o.fields)) with
  | none => rfl
  | some fields => cases Fields.decode? (Fields.encode o.annotations) <;> rfl

/-- An object type comes back if all trees of values in it do. -/
theorem decode_eq_bare_iff {o : ObjectType} (h : o.Readable) {d : Dict Json}
    (hshows : Dict.Shows recordNames o.encodeEntries d) :
    decode (.object d) = some o.bare ↔ ∀ tree ∈ o.trees, tree.Survives := by
  have hfields : Dict.decodeWith Field.decode (.object (Dict.mapValues Field.encode o.fields))
        = some (Dict.mapValues Field.bare o.fields)
      ↔ ∀ e ∈ o.fields, e.2.annotations.Survives := by
    rw [Dict.decodeWith_mapValues_iff]
    exact forall₂_congr fun e he => Field.decode_eq_bare_iff (h.2 e he)
  unfold trees
  rw [decode_object h.1 hshows, List.forall_mem_cons, List.forall_mem_map, ← hfields,
    ← Fields.decode?_encode_iff, Option.bind_eq_some_iff]
  constructor
  · rintro ⟨fields, hread, hrest⟩
    obtain ⟨annotations, hannotations, heq⟩ := Option.map_eq_some_iff.mp hrest
    rw [hread, hannotations]
    exact ⟨congrArg (fun o : ObjectType => some o.annotations) heq,
      congrArg (fun o : ObjectType => some o.fields) heq⟩
  · rintro ⟨hannotations, hread⟩
    exact ⟨_, hread, Option.map_eq_some_iff.mpr ⟨_, hannotations, rfl⟩⟩

end ObjectType

end AccountSync
