/-
  AccountSync.Proofs.Value.Wire
  ─────────────────────────────
  **WHEN A VALUE SURVIVES ITS SERIALIZED FORM.**

  References and templates are written as ordinary objects with one marked key.  A map
  that looks like one of these is taken for it when it is read, and that is all that can go
  wrong: a value comes back, without the copies of targets, if and only if it holds no such
  map.  What was read is always safe to write.

      Value.Readable       — the identifiers in a value can be read back
      Value.Unmarked       — no map in it looks like a reference or a template
      Value.decode_encode  — then it comes back
      Value.unmarked_of_decode_encode  — and only then
      Value.decode_spec    — what was read can be read back
-/
import AccountSync.Proofs.ElementId.FullName
import AccountSync.Proofs.Template.Normal
import AccountSync.Proofs.Value.Same
import AccountSync.Value.Wire

namespace AccountSync

/-! ## §1. Readings that succeed. -/

section Readings

variable {ε α β : Type} {x : Except ε α}

/-- Two readings in a row succeed only if both do. -/
theorem ok_of_bind {f : α → Except ε β} {b : β} (h : x >>= f = .ok b) :
    ∃ a, x = .ok a ∧ f a = .ok b := by
  cases x with
  | error e => exact absurd h nofun
  | ok a => exact ⟨a, rfl, h⟩

theorem ok_of_map {f : α → β} {b : β} (h : x.map f = .ok b) : ∃ a, x = .ok a ∧ f a = b := by
  cases x with
  | error e => exact absurd h nofun
  | ok a => exact ⟨a, rfl, Except.ok.inj h⟩

end Readings

/-! ## §2. References, and parts of templates. -/

namespace Reference

/-- The identifier is read back from its full name. -/
def Readable (r : Reference) : Prop :=
  ElementId.parse? r.id.fullName = some r.id

theorem decodeName_fullName {r : Reference} (h : r.Readable) :
    decodeName (.string r.id.fullName) = .ok (.to r.id none) := by
  unfold Readable at h
  simp only [decodeName, h]

/-- What is read as a reference can be read back, and carries no copy of its target. -/
theorem decodeName_spec {j : Json} {r : Reference} (h : decodeName j = .ok r) :
    r.Readable ∧ Reference.to r.id none = r := by
  unfold decodeName at h
  split at h
  next text =>
    split at h
    next id hid =>
      obtain rfl := Except.ok.inj h
      exact ⟨ElementId.parse?_fullName_of_parse? hid, rfl⟩
    · exact absurd h nofun
  · exact absurd h nofun

end Reference

namespace Part

/-- The identifier, if there is one, is read back from its full name. -/
def Readable : Part → Prop
  | .literal _ => True
  | .reference r => r.Readable

theorem decode_encode {p : Part} (h : p.Readable) : decode p.encode = .ok (Value.barePart p) := by
  cases p with
  | literal text => rfl
  | reference r =>
    show (Reference.decodeName (.string r.id.fullName)).map Part.reference = _
    rw [Reference.decodeName_fullName h]
    rfl

theorem decode_spec {j : Json} {p : Part} (h : decode j = .ok p) :
    p.Readable ∧ Value.barePart p = p := by
  unfold decode at h
  split at h
  next text =>
    obtain rfl := Except.ok.inj h
    exact ⟨trivial, rfl⟩
  next key target =>
    split at h
    · obtain ⟨r, hname, rfl⟩ := ok_of_map h
      obtain ⟨hread, hbare⟩ := Reference.decodeName_spec hname
      exact ⟨hread, congrArg Part.reference hbare⟩
    · exact absurd h nofun
  · exact absurd h nofun

theorem mapM_decode_encode {parts : List Part} (h : ∀ p ∈ parts, p.Readable) :
    (parts.map encode).mapM decode = .ok (parts.map Value.barePart) := by
  induction parts with
  | nil => rfl
  | cons p rest ih =>
    rw [List.map_cons, List.mapM_cons, decode_encode (h p List.mem_cons_self),
      ih fun q hq => h q (List.mem_cons_of_mem p hq)]
    rfl

theorem mapM_decode_spec {js : List Json} {parts : List Part} (h : js.mapM decode = .ok parts) :
    (∀ p ∈ parts, p.Readable) ∧ parts.map Value.barePart = parts := by
  induction js generalizing parts with
  | nil =>
    obtain rfl := Except.ok.inj h
    exact ⟨nofun, rfl⟩
  | cons j rest ih =>
    rw [List.mapM_cons] at h
    obtain ⟨p, hfirst, h⟩ := ok_of_bind h
    obtain ⟨ps, hrest, h⟩ := ok_of_bind h
    obtain rfl := Except.ok.inj h
    obtain ⟨hread, hbare⟩ := decode_spec hfirst
    obtain ⟨hreads, hbares⟩ := ih hrest
    exact ⟨List.forall_mem_cons.mpr ⟨hread, hreads⟩, by rw [List.map_cons, hbare, hbares]⟩

end Part

namespace Template

/-- Parts in normal form are made of parts that were there, or of their texts. -/
theorem readable_normal {parts : List Part} (h : ∀ p ∈ parts, p.Readable) :
    ∀ p ∈ normal parts, p.Readable := by
  induction parts with
  | nil => exact h
  | cons p rest ih =>
    have ih := ih fun q hq => h q (List.mem_cons_of_mem p hq)
    cases p with
    | reference r => exact List.forall_mem_cons.mpr ⟨h _ List.mem_cons_self, ih⟩
    | literal text =>
      show ∀ p ∈ consText text (normal rest), p.Readable
      unfold consText
      split
      next next tail heq =>
        rw [heq] at ih
        exact List.forall_mem_cons.mpr ⟨trivial, fun q hq => ih q (List.mem_cons_of_mem _ hq)⟩
      · split
        · exact ih
        · exact List.forall_mem_cons.mpr ⟨trivial, ih⟩

end Template

namespace Value

/-! ## §3. Values that come back. -/

mutual

/-- Every identifier in the value is read back from its full name, and its templates are in the
form that templates are built in. -/
def Readable : Value → Prop
  | .list items => ItemsReadable items
  | .map entries => EntriesReadable entries
  | .reference r => r.Readable
  | .template parts => (∀ p ∈ parts, p.Readable) ∧ ∃ built, parts = Template.normal built
  | _ => True

/-- The items are readable. -/
def ItemsReadable : List Value → Prop
  | [] => True
  | v :: rest => v.Readable ∧ ItemsReadable rest

/-- The values of the entries are readable. -/
def EntriesReadable : List (String × Value) → Prop
  | [] => True
  | (_, v) :: rest => v.Readable ∧ EntriesReadable rest

end

/-- The map has one entry that marks a reference, or one with a list that marks a template. -/
def MarkedForm (entries : List (String × Value)) : Prop :=
  ∃ key v, entries = [(key, v)]
    ∧ (key = Reference.marker ∨ key = Template.marker ∧ v.list?.isSome)

mutual

/-- No map in the value, below lists and maps, looks like a reference or a template. -/
def Unmarked : Value → Prop
  | .list items => ItemsUnmarked items
  | .map entries => ¬MarkedForm entries ∧ EntriesUnmarked entries
  | _ => True

/-- The items are unmarked. -/
def ItemsUnmarked : List Value → Prop
  | [] => True
  | v :: rest => v.Unmarked ∧ ItemsUnmarked rest

/-- The values of the entries are unmarked. -/
def EntriesUnmarked : List (String × Value) → Prop
  | [] => True
  | (_, v) :: rest => v.Unmarked ∧ EntriesUnmarked rest

end

/-! ## §4. Marked objects. -/

/-- Only lists are written as arrays. -/
theorem list?_of_encode {v : Value} {js : List Json} (h : v.encode = .array js) :
    v.list?.isSome := by
  cases v with
  | list items => rfl
  | _ => exact absurd h nofun

/-- An object that is taken for a reference or a template is read as one, which can be read back
and carries no copies of targets. -/
theorem decodeMarked?_spec {js : List (String × Json)} {u : Value}
    (h : decodeMarked? js = some (.ok u)) :
    (∃ r, u = .reference r ∧ r.Readable ∧ Reference.to r.id none = r)
    ∨ ∃ parts, u = .template (Template.normal parts) ∧ (∀ p ∈ parts, p.Readable)
      ∧ parts.map barePart = parts := by
  unfold decodeMarked? at h
  split at h
  next key content =>
    split at h
    · -- the key marks a reference
      obtain ⟨r, hname, rfl⟩ := ok_of_map (Option.some.inj h)
      obtain ⟨hread, hbare⟩ := Reference.decodeName_spec hname
      exact .inl ⟨r, rfl, hread, hbare⟩
    · split at h
      · split at h
        next js =>
          -- the key marks a template, and there are parts
          obtain ⟨parts, hparts, rfl⟩ := ok_of_map (Option.some.inj h)
          obtain ⟨hread, hbare⟩ := Part.mapM_decode_spec hparts
          exact .inr ⟨parts, rfl, hread, hbare⟩
        · exact absurd h nofun
      · exact absurd h nofun
  · exact absurd h nofun

/-- An object is read as what it is taken for, or else entry by entry. -/
theorem decode_object {js : List (String × Json)} {u : Value} (h : decode (.object js) = .ok u) :
    decodeMarked? js = some (.ok u)
    ∨ decodeMarked? js = none ∧ ∃ entries, decodeEntries js = .ok entries ∧ u = .map entries := by
  unfold decode at h
  cases hmarked : decodeMarked? js with
  | some result =>
    rw [hmarked] at h
    exact .inl (congrArg some h)
  | none =>
    rw [hmarked] at h
    obtain ⟨entries, hentries, rfl⟩ := ok_of_map h
    exact .inr ⟨rfl, entries, hentries, rfl⟩

theorem decode_array {js : List Json} {u : Value} (h : decode (.array js) = .ok u) :
    ∃ items, decodeItems js = .ok items ∧ u = .list items := by
  unfold decode at h
  obtain ⟨items, hitems, rfl⟩ := ok_of_map h
  exact ⟨items, hitems, rfl⟩

/-- Only arrays are read as lists. -/
theorem array_of_decode {j : Json} {items : List Value} (h : decode j = .ok (.list items)) :
    ∃ js, j = .array js := by
  cases j with
  | array js => exact ⟨js, rfl⟩
  | object js =>
    rcases decode_object h with hmarked | ⟨_, entries, _, hmap⟩
    · rcases decodeMarked?_spec hmarked with ⟨r, hr, _⟩ | ⟨parts, hparts, _⟩
      · exact absurd hr nofun
      · exact absurd hparts nofun
    · exact absurd hmap nofun
  | _ => exact absurd h nofun

/-- An object is taken for a reference or a template by its one key; for a template there has to
be an array. -/
theorem decodeMarked?_eq_none_iff {js : List (String × Json)} :
    decodeMarked? js = none ↔ ∀ key content, js = [(key, content)] →
      key ≠ Reference.marker ∧ ¬(key = Template.marker ∧ ∃ parts, content = .array parts) := by
  unfold decodeMarked?
  split
  next key content =>
    constructor
    · intro h key' content' heq
      obtain ⟨rfl, rfl⟩ := Prod.mk.inj (List.cons.inj heq).1
      split at h
      · exact absurd h nofun
      next href =>
        refine ⟨href, ?_⟩
        rintro ⟨rfl, parts, rfl⟩
        rw [if_pos rfl] at h
        exact absurd h nofun
    · intro h
      obtain ⟨href, htemplate⟩ := h key content rfl
      rw [if_neg href]
      split
      next hkey =>
        split
        next parts => exact absurd ⟨hkey, parts, rfl⟩ htemplate
        · rfl
      · rfl
  next hsingle =>
    exact ⟨fun _ key content heq => absurd heq (hsingle key content), fun _ => rfl⟩

/-- What is written for a map is taken for something else exactly if the map looks like it. -/
theorem decodeMarked?_encodeEntries {entries : List (String × Value)} :
    decodeMarked? (encodeEntries entries) = none ↔ ¬MarkedForm entries := by
  rw [decodeMarked?_eq_none_iff]
  constructor
  · rintro h ⟨key, v, rfl, hmarked⟩
    obtain ⟨href, htemplate⟩ := h key v.encode rfl
    rcases hmarked with hkey | ⟨hkey, hlist⟩
    · exact href hkey
    · cases v with
      | list items => exact htemplate ⟨hkey, _, rfl⟩
      | _ => exact absurd hlist nofun
  · intro h key content heq
    match entries, heq with
    | [(k, v)], heq =>
      obtain ⟨rfl, rfl⟩ := Prod.mk.inj (List.cons.inj heq).1
      refine ⟨fun hkey => h ⟨k, v, rfl, .inl hkey⟩, ?_⟩
      rintro ⟨hkey, parts, hparts⟩
      exact h ⟨k, v, rfl, .inr ⟨hkey, list?_of_encode hparts⟩⟩

/-- An array is read item by item. -/
theorem decodeItems_cons {j : Json} {rest : List Json} {items : List Value}
    (h : decodeItems (j :: rest) = .ok items) :
    ∃ v vs, decode j = .ok v ∧ decodeItems rest = .ok vs ∧ items = v :: vs := by
  unfold decodeItems at h
  obtain ⟨v, hfirst, h⟩ := ok_of_bind h
  obtain ⟨vs, hrest, h⟩ := ok_of_bind h
  exact ⟨v, vs, hfirst, hrest, (Except.ok.inj h).symm⟩

/-- An object is read entry by entry. -/
theorem decodeEntries_cons {key : String} {j : Json} {rest : List (String × Json)}
    {entries : List (String × Value)} (h : decodeEntries ((key, j) :: rest) = .ok entries) :
    ∃ v vs, decode j = .ok v ∧ decodeEntries rest = .ok vs ∧ entries = (key, v) :: vs := by
  unfold decodeEntries at h
  obtain ⟨v, hfirst, h⟩ := ok_of_bind h
  obtain ⟨vs, hrest, h⟩ := ok_of_bind h
  exact ⟨v, vs, hfirst, hrest, (Except.ok.inj h).symm⟩

/-- An object that is not taken for something else is read as a map that does not look like it
either. -/
theorem not_markedForm_of_decodeEntries {js : List (String × Json)}
    {entries : List (String × Value)} (hmarked : decodeMarked? js = none)
    (h : decodeEntries js = .ok entries) : ¬MarkedForm entries := by
  rintro ⟨key, v, rfl, hform⟩
  match js, h with
  | [], h => exact absurd (Except.ok.inj h) nofun
  | (k, j) :: rest, h =>
    obtain ⟨v', vs, hfirst, hrest, heq⟩ := decodeEntries_cons h
    obtain ⟨hhead, rfl⟩ := List.cons.inj heq
    obtain ⟨rfl, rfl⟩ := Prod.mk.inj hhead
    -- one entry is read from one entry
    have hnone : rest = [] := by
      match rest, hrest with
      | [], _ => rfl
      | (_, _) :: _, hrest =>
        obtain ⟨_, _, _, _, hcons⟩ := decodeEntries_cons hrest
        exact absurd hcons nofun
    subst hnone
    obtain ⟨href, htemplate⟩ := decodeMarked?_eq_none_iff.mp hmarked key j rfl
    rcases hform with hkey | ⟨hkey, hlist⟩
    · exact href hkey
    · cases v with
      | list items => exact htemplate ⟨hkey, array_of_decode hfirst⟩
      | _ => exact absurd hlist nofun

/-! ## §5. There and back. -/

mutual

/-- A readable value without marked maps comes back, without the copies of targets. -/
theorem decode_encode : ∀ v : Value, v.Readable → v.Unmarked → decode v.encode = .ok v.bare
  | .null, _, _ => rfl
  | .bool _, _, _ => rfl
  | .number _, _, _ => rfl
  | .string _, _, _ => rfl
  | .list items, hread, hplain => by
    have hitems := decodeItems_encode items hread hplain
    show (decodeItems (encodeItems items)).map Value.list = _
    rw [hitems]
    rfl
  | .map entries, hread, hplain => by
    unfold Unmarked at hplain
    have hentries := decodeEntries_encode entries hread hplain.2
    have hmarked := decodeMarked?_encodeEntries.mpr hplain.1
    unfold encode decode
    rw [hmarked, hentries]
    rfl
  | .reference (.to id _), hread, _ => by
    have hname : Reference.decodeName (.string id.fullName) = .ok (.to id none) :=
      Reference.decodeName_fullName (r := .to id none) hread
    show (Reference.decodeName (.string id.fullName)).map Value.reference = _
    rw [hname]
    rfl
  | .template parts, hread, _ => by
    unfold Readable at hread
    obtain ⟨hparts, built, rfl⟩ := hread
    -- templates are built again from the parts that are read, which changes nothing
    show (((Template.normal built).map Part.encode).mapM Part.decode).map
      (fun ps => Value.template (Template.normal ps)) = _
    rw [Part.mapM_decode_encode hparts]
    show Except.ok (Value.template (Template.normal ((Template.normal built).map barePart))) = _
    rw [Template.normal_barePart,
      Template.normal_of_isNormal (Template.normal_isNormal built)]
    rfl

theorem decodeItems_encode : ∀ items : List Value, ItemsReadable items → ItemsUnmarked items →
    decodeItems (encodeItems items) = .ok (bareItems items)
  | [], _, _ => rfl
  | v :: rest, hread, hplain => by
    unfold ItemsReadable at hread
    unfold ItemsUnmarked at hplain
    unfold encodeItems decodeItems
    rw [decode_encode v hread.1 hplain.1, decodeItems_encode rest hread.2 hplain.2]
    rfl

theorem decodeEntries_encode : ∀ entries : List (String × Value), EntriesReadable entries →
    EntriesUnmarked entries → decodeEntries (encodeEntries entries) = .ok (bareEntries entries)
  | [], _, _ => rfl
  | (k, v) :: rest, hread, hplain => by
    unfold EntriesReadable at hread
    unfold EntriesUnmarked at hplain
    unfold encodeEntries decodeEntries
    rw [decode_encode v hread.1 hplain.1, decodeEntries_encode rest hread.2 hplain.2]
    rfl

end

mutual

/-- A value that comes back holds no marked map. -/
theorem unmarked_of_decode_encode : ∀ v w : Value, decode v.encode = .ok w →
    w.same v.bare = true → v.Unmarked
  | .null, _, _, _ => trivial
  | .bool _, _, _, _ => trivial
  | .number _, _, _, _ => trivial
  | .string _, _, _, _ => trivial
  | .reference _, _, _, _ => trivial
  | .template _, _, _, _ => trivial
  | .list items, w, h, hsame => by
    have harray : decode (.array (encodeItems items)) = .ok w := h
    obtain ⟨ws, hws, rfl⟩ := decode_array harray
    exact itemsUnmarked_of_decode_encode items ws hws hsame
  | .map entries, w, h, hsame => by
    have hobject : decode (.object (encodeEntries entries)) = .ok w := h
    rcases decode_object hobject with hmarked | ⟨hmarked, ws, hws, rfl⟩
    · -- it was taken for something else, which is not equal to a map
      rcases decodeMarked?_spec hmarked with ⟨⟨id, target⟩, rfl, _⟩ | ⟨parts, rfl, _⟩
      · exact absurd hsame nofun
      · exact absurd hsame nofun
    · exact ⟨decodeMarked?_encodeEntries.mp hmarked,
        entriesUnmarked_of_decode_encode entries ws hws hsame⟩

theorem itemsUnmarked_of_decode_encode : ∀ items ws : List Value,
    decodeItems (encodeItems items) = .ok ws → sameItems ws (bareItems items) = true →
      ItemsUnmarked items
  | [], _, _, _ => trivial
  | v :: rest, ws, h, hsame => by
    obtain ⟨w, ws', hfirst, hrest, rfl⟩ := decodeItems_cons h
    unfold bareItems sameItems at hsame
    rw [Bool.and_eq_true] at hsame
    exact ⟨unmarked_of_decode_encode v w hfirst hsame.1,
      itemsUnmarked_of_decode_encode rest ws' hrest hsame.2⟩

theorem entriesUnmarked_of_decode_encode : ∀ entries ws : List (String × Value),
    decodeEntries (encodeEntries entries) = .ok ws → sameEntries ws (bareEntries entries) = true →
      EntriesUnmarked entries
  | [], _, _, _ => trivial
  | (k, v) :: rest, ws, h, hsame => by
    obtain ⟨w, ws', hfirst, hrest, rfl⟩ := decodeEntries_cons h
    unfold bareEntries sameEntries at hsame
    rw [Bool.and_eq_true, Bool.and_eq_true] at hsame
    exact ⟨unmarked_of_decode_encode v w hfirst hsame.1.2,
      entriesUnmarked_of_decode_encode rest ws' hrest hsame.2⟩

end

/-! ## §6. Back and there. -/

mutual

/-- What was read can be read back: it is readable, holds no marked maps and carries no copies of
targets. -/
theorem decode_spec : ∀ (j : Json) (u : Value), decode j = .ok u →
    u.Readable ∧ u.Unmarked ∧ u.bare = u
  | .null, u, h => by
    obtain rfl := Except.ok.inj h
    exact ⟨trivial, trivial, rfl⟩
  | .bool _, u, h => by
    obtain rfl := Except.ok.inj h
    exact ⟨trivial, trivial, rfl⟩
  | .number _, u, h => by
    obtain rfl := Except.ok.inj h
    exact ⟨trivial, trivial, rfl⟩
  | .string _, u, h => by
    obtain rfl := Except.ok.inj h
    exact ⟨trivial, trivial, rfl⟩
  | .array js, u, h => by
    obtain ⟨items, hitems, rfl⟩ := decode_array h
    obtain ⟨hread, hplain, hbare⟩ := decodeItems_spec js items hitems
    exact ⟨hread, hplain, congrArg Value.list hbare⟩
  | .object js, u, h => by
    rcases decode_object h with hmarked | ⟨hmarked, entries, hentries, rfl⟩
    · rcases decodeMarked?_spec hmarked with ⟨⟨id, target⟩, rfl, hread, hbare⟩
        | ⟨parts, rfl, hread, hbare⟩
      · exact ⟨hread, trivial, congrArg Value.reference hbare⟩
      · refine ⟨⟨Template.readable_normal hread, parts, rfl⟩, trivial, ?_⟩
        show Value.template ((Template.normal parts).map barePart) = _
        rw [← Template.normal_barePart, hbare]
    · obtain ⟨hread, hplain, hbare⟩ := decodeEntries_spec js entries hentries
      exact ⟨hread, ⟨not_markedForm_of_decodeEntries hmarked hentries, hplain⟩,
        congrArg Value.map hbare⟩

theorem decodeItems_spec : ∀ (js : List Json) (items : List Value), decodeItems js = .ok items →
    ItemsReadable items ∧ ItemsUnmarked items ∧ bareItems items = items
  | [], items, h => by
    obtain rfl := Except.ok.inj h
    exact ⟨trivial, trivial, rfl⟩
  | j :: rest, items, h => by
    obtain ⟨v, vs, hfirst, hrest, rfl⟩ := decodeItems_cons h
    obtain ⟨hread, hplain, hbare⟩ := decode_spec j v hfirst
    obtain ⟨hreads, hplains, hbares⟩ := decodeItems_spec rest vs hrest
    refine ⟨⟨hread, hreads⟩, ⟨hplain, hplains⟩, ?_⟩
    rw [bareItems, hbare, hbares]

theorem decodeEntries_spec : ∀ (js : List (String × Json)) (entries : List (String × Value)),
    decodeEntries js = .ok entries →
      EntriesReadable entries ∧ EntriesUnmarked entries ∧ bareEntries entries = entries
  | [], entries, h => by
    obtain rfl := Except.ok.inj h
    exact ⟨trivial, trivial, rfl⟩
  | (k, j) :: rest, entries, h => by
    obtain ⟨v, vs, hfirst, hrest, rfl⟩ := decodeEntries_cons h
    obtain ⟨hread, hplain, hbare⟩ := decode_spec j v hfirst
    obtain ⟨hreads, hplains, hbares⟩ := decodeEntries_spec rest vs hrest
    refine ⟨⟨hread, hreads⟩, ⟨hplain, hplains⟩, ?_⟩
    rw [bareEntries, hbare, hbares]

end

end Value

/-- **A value survives its serialized form exactly if nothing in it looks like a reference or a
template**: then it comes back without the copies of targets, and otherwise nothing equal to it
does.  What was read from any text survives. -/
theorem value_survives_wire :
    (∀ v : Value, v.Readable →
      ((∃ w, Value.decode v.encode = .ok w ∧ w.same v.bare = true) ↔ v.Unmarked)
      ∧ (v.Unmarked → Value.decode v.encode = .ok v.bare))
    ∧ ∀ (j : Json) (u : Value), Value.decode j = .ok u → Value.decode u.encode = .ok u := by
  refine ⟨fun v hread => ⟨⟨?_, ?_⟩, Value.decode_encode v hread⟩, ?_⟩
  · rintro ⟨w, hdecode, hsame⟩
    exact Value.unmarked_of_decode_encode v w hdecode hsame
  · intro hplain
    exact ⟨v.bare, Value.decode_encode v hread hplain, Value.same_refl v.bare⟩
  · intro j u h
    obtain ⟨hread, hplain, hbare⟩ := Value.decode_spec j u h
    have hback := Value.decode_encode u hread hplain
    rwa [hbare] at hback

/-- A template, a reference and a map with a marked key but no list come back, and a map that
looks like a reference does not. -/
theorem value_survives_wire_for_lookalikes :
    let r : Reference := .to (.ofInstance "z" "t" "i") (some .null)
    let v : Value := .list [.reference r, .template [.literal "x", .reference r],
      .map [(Template.marker, .string "x")]]
    let w : Value := .list [.map [(Reference.marker, .string "z.t")]]
    v.Readable ∧ w.Readable ∧ Value.decode v.encode = .ok v.bare
      ∧ ¬∃ u, Value.decode w.encode = .ok u ∧ u.same w.bare = true := by
  intro r v w
  have hr : r.Readable := by
    unfold Reference.Readable
    decide +kernel
  have hv : v.Readable :=
    ⟨hr, ⟨List.forall_mem_cons.mpr ⟨trivial, List.forall_mem_singleton.mpr hr⟩,
      [.literal "x", .reference r], rfl⟩, ⟨trivial, trivial⟩, trivial⟩
  have hw : w.Readable := ⟨⟨trivial, trivial⟩, trivial⟩
  have hplain : v.Unmarked := by
    refine ⟨trivial, trivial, ⟨?_, trivial, trivial⟩, trivial⟩
    rintro ⟨key, u, heq, hmarked⟩
    obtain ⟨rfl, rfl⟩ := Prod.mk.inj (List.cons.inj heq).1
    exact absurd hmarked (by decide)
  refine ⟨hv, hw, (value_survives_wire.1 v hv).2 hplain, ?_⟩
  rw [(value_survives_wire.1 w hw).1]
  exact fun hplain => hplain.1.1 ⟨_, _, rfl, .inl rfl⟩

end AccountSync
