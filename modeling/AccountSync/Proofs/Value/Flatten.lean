/-
  AccountSync.Proofs.Value.Flatten
  ────────────────────────────────
  **WHAT VALUES ARE WRITTEN OUT AS.**

  A scalar is written out as itself, and a reference to a whole instance as the identifier of
  the instance.  So a reference that was looked up by an identifier is written out as a scalar
  with the same text.

      Value.flatten_reference   — a reference to a whole instance
      Value.KeepsKey            — what is written out as a scalar with a given text
-/
import AccountSync.Element.Basic
import AccountSync.Proofs.Value.Leaves
import AccountSync.Value.Flatten

namespace AccountSync.Value

/-- A scalar is neither a map nor a list. -/
theorem shape_of_isScalar {v : Value} (h : v.isScalar = true) :
    v.map? = none ∧ v.list? = none := by
  cases v with
  | map | list => exact absurd h nofun
  | _ => exact ⟨rfl, rfl⟩

/-- Only a scalar has a text under which it is looked up. -/
theorem isScalar_of_keyText? {v : Value} {key : String} (h : v.keyText? = some key) :
    v.isScalar = true := by
  cases v with
  | string | number | bool => rfl
  | null | list | map | reference | template => exact absurd h nofun

/-- A scalar is written out as itself. -/
theorem flatten_scalar {v : Value} (h : v.isScalar = true) :
    ∃ j, v.flatten = .ok j ∧ ofJson j = v := by
  cases v with
  | null => exact ⟨.null, rfl, rfl⟩
  | bool b => exact ⟨.bool b, rfl, rfl⟩
  | number n => exact ⟨.number n, rfl, rfl⟩
  | string s => exact ⟨.string s, rfl, rfl⟩
  | list | map | reference | template => exact absurd h nofun

/-- Of a map what is under the key is written out, if anything is. -/
theorem flattenUnder_eq (key : String) (entries : Fields) :
    flattenUnder key entries = (Dict.get? entries key).map flatten := by
  induction entries with
  | nil => rfl
  | cons e rest ih =>
    obtain ⟨k, v⟩ := e
    unfold flattenUnder Dict.get?
    split
    · rfl
    · exact ih

/-- A reference to a whole instance is written out as the identifier that the instance has. -/
theorem flatten_reference {i : Instance} (h : i.id.isTopLevel = true) :
    (Value.reference i.reference).flatten
      = ((i.get? "id").map flatten).getD
        (.error (.invalidTemplateValue i.id Reference.noTargetId)) := by
  show flattenReference (.to i.id (some (.map i.value))) = _
  unfold flattenReference Instance.get?
  rw [if_pos h]
  dsimp only
  rw [flattenUnder_eq]
  cases Dict.get? i.value "id" <;> rfl

/-- Of an instance inside another one all values are written out, which make no text. -/
theorem flatten_reference_ne_string {i : Instance} (h : i.id.isTopLevel = false) (text : String) :
    (Value.reference i.reference).flatten ≠ .ok (.string text) := by
  show flattenReference (.to i.id (some (.map i.value))) ≠ _
  unfold flattenReference
  rw [if_neg (Bool.eq_false_iff.mp h)]
  show (flattenEntries i.value).map Json.object ≠ _
  cases flattenEntries i.value with
  | error e => exact nofun
  | ok entries => exact nofun

/-- The second value is written out as a scalar that has the text of the first one. -/
def KeepsKey (v w : Value) : Prop :=
  ∃ j, w.flatten = .ok j ∧ (ofJson j).isScalar = true ∧ (ofJson j).keyText? = v.keyText?

/-- Neither a map nor a list is written out as a scalar. -/
theorem KeepsKey.shape {v w : Value} (h : KeepsKey v w) : w.map? = none ∧ w.list? = none := by
  obtain ⟨j, hflat, hscalar, -⟩ := h
  cases w with
  | map entries =>
    have hmap : (flattenEntries entries).map Json.object = .ok j := hflat
    cases hentries : flattenEntries entries with
    | error e =>
      rw [hentries] at hmap
      exact absurd hmap nofun
    | ok js =>
      rw [hentries] at hmap
      obtain rfl := Except.ok.inj hmap
      exact absurd hscalar nofun
  | list items =>
    have hmap : (flattenItems items).map Json.array = .ok j := hflat
    cases hitems : flattenItems items with
    | error e =>
      rw [hitems] at hmap
      exact absurd hmap nofun
    | ok js =>
      rw [hitems] at hmap
      obtain rfl := Except.ok.inj hmap
      exact absurd hscalar nofun
  | _ => exact ⟨rfl, rfl⟩

/-- Every scalar with the same text will do. -/
theorem KeepsKey.of_scalar {v w : Value} (hscalar : w.isScalar = true)
    (hkey : w.keyText? = v.keyText?) : KeepsKey v w := by
  obtain ⟨j, hflat, hj⟩ := flatten_scalar hscalar
  exact ⟨j, hflat, hj ▸ hscalar, hj ▸ hkey⟩

/-- A reference to an instance that has the value as its identifier will do as well. -/
theorem KeepsKey.of_reference {v : Value} {i : Instance} (htop : i.id.isTopLevel = true)
    {key : String} (hid : (i.get? "id").bind keyText? = some key) (hkey : v.keyText? = some key) :
    KeepsKey v (.reference i.reference) := by
  obtain ⟨id, hget, hidKey⟩ := Option.bind_eq_some_iff.mp hid
  obtain ⟨j, hflat, hj⟩ := flatten_scalar (isScalar_of_keyText? hidKey)
  refine ⟨j, ?_, hj ▸ isScalar_of_keyText? hidKey, hj ▸ hidKey.trans hkey.symm⟩
  rw [flatten_reference htop, hget]
  exact hflat

end AccountSync.Value
