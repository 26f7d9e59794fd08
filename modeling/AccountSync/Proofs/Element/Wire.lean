/-
  AccountSync.Proofs.Element.Wire
  ───────────────────────────────
  **ELEMENTS AND CHANGES SURVIVE THEIR SERIALIZED FORM.**

  An element says of which kind it is under a key beside its own, a change under a key of its
  own with the snapshots inside of another.  Neither gets in the way of what it is put around:
  the keys of values are never looked at.  So an element comes back, without the copies of
  targets, if the trees of values in it do, and a change if its snapshots do.

      Element.Readable, bare, trees   — what is asked of an element, and what comes back
      Element.decode_eq_bare_iff      — when an element comes back
      Change.decode_eq_map_iff        — when a change comes back
      elements_survive_wire           — elements, and changes of instances
-/
import AccountSync.Element.Wire
import AccountSync.Proofs.Change.Snapshots
import AccountSync.Proofs.Schema.Wire

namespace AccountSync

/-- A case of a type with a single argument is read where its argument is. -/
theorem map_eq_some_apply {α β : Type} {f : α → β} (hf : ∀ a b, f a = f b → a = b) {x : Option α}
    {a : α} : x.map f = some (f a) ↔ x = some a :=
  (Option.map_inj_right hf : x.map f = (some a).map f ↔ x = some a)

/-! ## §1. Instances. -/

namespace Instance

/-- The names that a serialized instance is read by. -/
def recordNames : List String :=
  ["elem_id", "ref_type", "value", "annotations"]

/-- The identifiers of the instance and of its type are read back. -/
def Readable (i : Instance) : Prop :=
  ElementId.parse? i.id.fullName = some i.id ∧ ElementId.parse? i.type.fullName = some i.type

/-- The instance without the copies of targets. -/
def bare (i : Instance) : Instance :=
  { i with value := Value.bareEntries i.value, annotations := Value.bareEntries i.annotations }

/-- The trees of values in an instance: its value and its annotations. -/
def trees (i : Instance) : List Fields :=
  [i.value, i.annotations]

theorem keys_encodeEntries (i : Instance) : (Dict.keys i.encodeEntries).Sublist recordNames := by
  unfold encodeEntries Dict.encodeUnlessEmpty
  split
  · exact (by decide : ["elem_id", "ref_type", "value"].Sublist recordNames)
  · exact .refl recordNames

/-- All of an instance is read but what its values lose, from any record that holds its entries. -/
theorem decode_object {i : Instance} (h : i.Readable) {d : Dict Json}
    (hshows : Dict.Shows recordNames i.encodeEntries d) :
    decode (.object d) = (Fields.decode? (Fields.encode i.value)).bind
      fun value => (Fields.decode? (Fields.encode i.annotations)).map
        fun annotations => { i with value, annotations } := by
  obtain ⟨fields, hfields, hshows⟩ := Json.recordFields?_object hshows
  have hid : Dict.get? fields "elem_id" = some (.string i.id.fullName) :=
    hshows _ (by simp [recordNames])
  have htype : Dict.get? fields "ref_type" = some (.string i.type.fullName) :=
    hshows _ (by simp [recordNames])
  have hvalue : Dict.decodeOr fields "value" [] Fields.decode?
      = Fields.decode? (Fields.encode i.value) := by
    have hget : Dict.get? fields "value" = some (Fields.encode i.value) :=
      hshows _ (by simp [recordNames])
    rw [Dict.decodeOr, hget]
  have hannotations : Dict.decodeOr fields "annotations" [] Fields.decode?
      = Fields.decode? (Fields.encode i.annotations) :=
    Dict.decodeOr_unlessEmpty rfl ((hshows _ (by simp [recordNames])).trans
      (Dict.get?_encodeUnlessEmpty _ i.annotations Fields.encode))
  unfold decode
  show (Json.recordFields? recordNames (.object d) >>= _) = _
  rw [hfields]
  simp only [Option.bind_eq_bind, Option.bind_some, hid, htype, hvalue, hannotations,
    ElementId.decode_fullName h.1, ElementId.decode_fullName h.2]
  cases Fields.decode? (Fields.encode i.value) with
  | none => rfl
  | some value => cases Fields.decode? (Fields.encode i.annotations) <;> rfl

/-- An instance comes back if both trees of values in it do. -/
theorem decode_eq_bare_iff {i : Instance} (h : i.Readable) {d : Dict Json}
    (hshows : Dict.Shows recordNames i.encodeEntries d) :
    decode (.object d) = some i.bare ↔ ∀ tree ∈ i.trees, tree.Survives := by
  unfold trees
  rw [decode_object h hshows, List.forall_mem_cons, List.forall_mem_singleton,
    ← Fields.decode?_encode_iff, ← Fields.decode?_encode_iff, Option.bind_eq_some_iff]
  constructor
  · rintro ⟨value, hvalue, hrest⟩
    obtain ⟨annotations, hannotations, heq⟩ := Option.map_eq_some_iff.mp hrest
    rw [hvalue, hannotations]
    exact ⟨congrArg (fun i : Instance => some i.value) heq,
      congrArg (fun i : Instance => some i.annotations) heq⟩
  · rintro ⟨hvalue, hannotations⟩
    exact ⟨_, hvalue, Option.map_eq_some_iff.mpr ⟨_, hannotations, rfl⟩⟩

/-- The same for an instance on its own. -/
theorem decode_encode_iff {i : Instance} (h : i.Readable) :
    decode i.encode = some i.bare ↔ ∀ tree ∈ i.trees, tree.Survives :=
  decode_eq_bare_iff h
    (Dict.shows_ofList (i.keys_encodeEntries.nodup (by decide)) recordNames)

end Instance

/-! ## §2. Elements. -/

namespace Element

/-- All identifiers in the element are read back. -/
def Readable : Element → Prop
  | .object o => o.Readable
  | .inst i => i.Readable

/-- The element without the copies of targets. -/
def bare : Element → Element
  | .object o => .object o.bare
  | .inst i => .inst i.bare

/-- The trees of values in an element. -/
def trees : Element → List Fields
  | .object o => o.trees
  | .inst i => i.trees

/-- The kind of an element is found, and the record beside it is what it would be alone. -/
theorem decode_tagged (kind : String) {entries : List (String × Json)} {names : List String}
    (hkeys : (Dict.keys entries).Sublist names) (hnames : ("kind" :: names).Nodup) :
    ∃ d, Dict.Shows names entries d
      ∧ decode (Json.ofEntries (("kind", .string kind) :: entries)) = decodeAs kind (.object d) := by
  have hnodup : (Dict.keys (("kind", Json.string kind) :: entries)).Nodup :=
    (hkeys.cons_cons "kind").nodup hnames
  refine ⟨Dict.erase (Dict.ofList (("kind", .string kind) :: entries)) "kind", fun key hkey => ?_, ?_⟩
  · have hne : "kind" ≠ key := fun heq => (List.nodup_cons.mp hnames).1 (heq ▸ hkey)
    rw [Dict.get?_erase_of_ne _ hne, Dict.get?_ofList_of_nodup hnodup, Dict.get?_cons_of_ne hne]
  · have hkind : Dict.get? (Dict.ofList (("kind", Json.string kind) :: entries)) "kind"
        = some (.string kind) := by
      rw [Dict.get?_ofList_of_nodup hnodup, Dict.get?_cons_self]
    simp only [Json.ofEntries, decode, hkind]

/-- **An element comes back if all trees of values in it do.** -/
theorem decode_eq_bare_iff {e : Element} (h : e.Readable) :
    decode e.encode = some e.bare ↔ ∀ tree ∈ e.trees, tree.Survives := by
  cases e with
  | object o =>
    obtain ⟨d, hshows, hdecode⟩ := decode_tagged "object" o.keys_encodeEntries (by decide)
    show decode (Json.ofEntries _) = _ ↔ _
    rw [hdecode]
    show (ObjectType.decode (.object d)).map Element.object = some (.object o.bare) ↔ _
    rw [map_eq_some_apply fun _ _ => Element.object.inj]
    exact ObjectType.decode_eq_bare_iff h hshows
  | inst i =>
    obtain ⟨d, hshows, hdecode⟩ := decode_tagged "instance" i.keys_encodeEntries (by decide)
    show decode (Json.ofEntries _) = _ ↔ _
    rw [hdecode]
    show (Instance.decode (.object d)).map Element.inst = some (.inst i.bare) ↔ _
    rw [map_eq_some_apply fun _ _ => Element.inst.inj]
    exact Instance.decode_eq_bare_iff h hshows

end Element

/-! ## §3. Changes. -/

namespace Change

variable {α : Type}

/-- A change is read by its action and its data. -/
theorem decodeWith_ofEntries (g : Json → Option α) (action : String) (data : Json) :
    decodeWith g (Json.ofEntries [("action", .string action), ("data", data)])
      = decodeAs g action data := by
  have hnodup : (Dict.keys [("action", Json.string action), ("data", data)]).Nodup :=
    (by decide : ["action", "data"].Nodup)
  have haction : Dict.get? (Dict.ofList [("action", Json.string action), ("data", data)]) "action"
      = some (.string action) := Dict.get?_ofList_of_nodup hnodup "action"
  have hdata : Dict.get? (Dict.ofList [("action", Json.string action), ("data", data)]) "data"
      = some data := Dict.get?_ofList_of_nodup hnodup "data"
  simp only [Json.ofEntries, decodeWith, haction, hdata]
  rfl

/-- What is serialized under a key of the data is a snapshot. -/
theorem snapshot_ofEntries (g : Json → Option α) {entries : List (String × Json)}
    (h : (Dict.keys entries).Nodup) (key : String) :
    ((Json.ofEntries entries).object?.bind fun d => (Dict.get? d key).bind g)
      = (Dict.get? entries key).bind g :=
  congrArg (·.bind g) (Dict.get?_ofList_of_nodup h key)

/-- **A change comes back if its snapshots do.** -/
theorem decode_eq_map_iff (f : α → Json) (g : Json → Option α) (h : α → α) (c : Change α) :
    decodeWith g (encodeWith f c) = some (c.map h) ↔ ∀ a ∈ c.snapshots, g (f a) = some (h a) := by
  unfold encodeWith
  rw [decodeWith_ofEntries]
  cases c with
  | addition after =>
    show (((Json.ofEntries [("after", f after)]).object?.bind
      fun d => (Dict.get? d "after").bind g).map Change.addition) = _ ↔ ∀ a ∈ [after], _
    rw [List.forall_mem_singleton]
    exact map_eq_some_apply fun _ _ => Change.addition.inj
  | removal before =>
    show (((Json.ofEntries [("before", f before)]).object?.bind
      fun d => (Dict.get? d "before").bind g).map Change.removal) = _ ↔ ∀ a ∈ [before], _
    rw [List.forall_mem_singleton]
    exact map_eq_some_apply fun _ _ => Change.removal.inj
  | modification before after =>
    have hnodup : (Dict.keys [("before", f before), ("after", f after)]).Nodup :=
      (by decide : ["before", "after"].Nodup)
    show decodeAs g "modify" (Json.ofEntries [("before", f before), ("after", f after)]) = _
      ↔ ∀ a ∈ [before, after], _
    rw [List.forall_mem_cons, List.forall_mem_singleton]
    simp only [decodeAs, String.reduceEq, if_false, if_true, snapshot_ofEntries g hnodup]
    show ((g (f before)).bind fun b => (g (f after)).bind fun a => some (modification b a))
      = some (modification (h before) (h after)) ↔ _
    cases g (f before) <;> cases g (f after) <;> simp

end Change

/-- **Elements and changes survive their serialized form.**  All identifiers in them are read back
from their full names.  Then an element, be it an object type or an instance, comes back without
the copies of targets exactly if each value in it does by itself, and so does a change of instances,
whatever it does.  Neither what is empty and left out nor what keys the values have makes a
difference. -/
theorem elements_survive_wire :
    (∀ e : Element, e.Readable →
      (Element.decode e.encode = some e.bare ↔ ∀ tree ∈ e.trees, tree.Survives))
    ∧ ∀ c : InstanceChange, (∀ i ∈ c.snapshots, i.Readable) →
      (InstanceChange.decode c.encode = some (c.map Instance.bare)
        ↔ ∀ i ∈ c.snapshots, ∀ tree ∈ i.trees, tree.Survives) := by
  refine ⟨fun e he => Element.decode_eq_bare_iff he, fun c hc => ?_⟩
  show Change.decodeWith Instance.decode (Change.encodeWith Instance.encode c) = _ ↔ _
  rw [Change.decode_eq_map_iff]
  exact forall₂_congr fun i hi => Instance.decode_encode_iff (hc i hi)

/-- Keys that look like those around them: a field and a value called like the kind of an element,
and values called like the parts of a change. -/
theorem elements_survive_wire_for_lookalikes :
    let page := ElementId.ofType "z" "page"
    let link : Value := .reference (.to (.ofInstance "z" "brand" "b.c") (some .null))
    let type : ObjectType :=
      { id := page, annotationTypes := [("data", .object page.fullName)],
        fields := [("kind", ⟨"kind", page, .list (.map (.primitive .unknown)), [("action", link)]⟩)] }
    let full : Instance :=
      { id := .ofInstance "z" "page" "p", type := page,
        value := [("action", .string "add"), ("data", .map [("kind", .string "object")])],
        annotations := [("kind", link)] }
    let empty : Instance := { full with value := [], annotations := [] }
    let change : InstanceChange := .modification full empty
    (Element.object type).Readable ∧ full.Readable
      ∧ Element.decode (Element.object type).encode = some (.object type.bare)
      ∧ Element.decode (Element.inst full).encode = some (.inst full.bare)
      ∧ InstanceChange.decode change.encode = some (.modification full.bare empty) := by
  intro page link type full empty change
  have hpage : ElementId.parse? page.fullName = some page := by
    decide +kernel
  have htype : (Element.object type).Readable :=
    ⟨hpage, List.forall_mem_singleton.mpr hpage⟩
  have hfull : full.Readable := by
    refine ⟨?_, hpage⟩
    decide +kernel
  have hlink : Value.decode link.encode = .ok link.bare := by
    refine Value.decode_encode link ?_ trivial
    show ElementId.parse? _ = _
    decide +kernel
  have hnone : Fields.Survives [] := nofun
  have hvalue : full.value.Survives :=
    List.forall_mem_cons.mpr ⟨rfl, List.forall_mem_singleton.mpr rfl⟩
  have htrees : ∀ tree ∈ full.trees, tree.Survives :=
    List.forall_mem_cons.mpr ⟨hvalue, List.forall_mem_singleton.mpr
      (List.forall_mem_singleton.mpr hlink)⟩
  obtain ⟨helements, hchanges⟩ := elements_survive_wire
  refine ⟨htype, hfull, (helements (.object type) htype).mpr ?_,
    (helements (.inst full) hfull).mpr htrees, (hchanges change ?_).mpr ?_⟩
  · exact List.forall_mem_cons.mpr ⟨hnone, List.forall_mem_singleton.mpr
      (List.forall_mem_singleton.mpr hlink)⟩
  · exact List.forall_mem_cons.mpr ⟨hfull, List.forall_mem_singleton.mpr hfull⟩
  · refine List.forall_mem_cons.mpr ⟨htrees, List.forall_mem_singleton.mpr ?_⟩
    exact List.forall_mem_cons.mpr ⟨hnone, List.forall_mem_singleton.mpr hnone⟩

end AccountSync
