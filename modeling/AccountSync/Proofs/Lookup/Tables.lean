/-
  AccountSync.Proofs.Lookup.Tables
  ────────────────────────────────
  **THE LAST ENTRY OF A KEY STAYS.**

  Dictionaries and tables are filled one entry after the other.  What is found under a key in
  the end is the entry of the last item that has the key, and items without a key leave no
  trace.

      Dict.get?_foldl_insert       — any items with keys and values
      Dict.get?_ofList             — pairs of keys and values
      find?_reverse_of_nodup       — items whose keys are all different
      LookupTable.find?_ofInstances — instances, by whatever they are looked up
-/
import AccountSync.Lookup.Identifiers
import AccountSync.Proofs.Dict
import AccountSync.Users.Exchange
import Mathlib.Data.List.Induction
import Mathlib.Data.List.Nodup

namespace AccountSync

variable {α β : Type}

namespace Dict

theorem get?_foldl_insert (key? : β → Option String) (value : β → α) (items : List β)
    (key : String) :
    get? (items.foldl
      (fun d b => match key? b with
        | some k => insert d k (value b)
        | none => d) []) key
      = (items.reverse.find? (fun b => key? b = some key)).map value := by
  -- from the end, as the last item decides
  induction items using List.reverseRecOn with
  | nil => rfl
  | append_singleton items b ih =>
    rw [List.foldl_append, List.foldl_cons, List.foldl_nil, List.reverse_concat, List.find?_cons]
    cases hb : key? b with
    | none => exact ih
    | some k =>
      by_cases hk : k = key
      · subst hk
        simp [get?_insert_self]
      · simp [get?_insert_of_ne _ hk, hk, ih]

/-- Of the pairs with one key the last one stays. -/
theorem get?_ofList (entries : List (String × α)) (key : String) :
    get? (ofList entries) key = (entries.reverse.find? (fun e => e.1 = key)).map (·.2) := by
  have h := get?_foldl_insert (fun e : String × α => some e.1) (·.2) entries key
  simp only [Option.some.injEq] at h
  exact h

end Dict

/-- Where keys are all different, the last item with a key is the one that has it. -/
theorem find?_reverse_of_nodup [DecidableEq α] {key : β → α} {items : List β}
    (hkeys : (items.map key).Nodup) {b : β} (hb : b ∈ items) :
    items.reverse.find? (fun other => key other = key b) = some b := by
  cases hother : items.reverse.find? (fun other => key other = key b) with
  | none =>
    have hnone := List.find?_eq_none.mp hother b (List.mem_reverse.mpr hb)
    exact absurd (decide_eq_true rfl) hnone
  | some other =>
    have hmem : other ∈ items := List.mem_reverse.mp (List.mem_of_find?_eq_some hother)
    have hkey := List.find?_some hother
    rw [List.inj_on_of_nodup_map hkeys hmem hb (of_decide_eq_true hkey)]

namespace LookupTable

theorem find?_insert_entries (key? : β → Option String) (target : β → LookupTarget)
    (name : String) (items : List β) (raw : String) :
    (items.foldl
      (fun t b => match key? b with
        | some key => t.insert key (target b)
        | none => t) ({ name } : LookupTable)).find? raw
      = (items.reverse.find? (fun b => key? b = some raw)).map target := by
  rw [← Dict.get?_foldl_insert key? target items raw]
  unfold find?
  refine congrArg (Dict.get? · raw) (List.foldl_hom LookupTable.entries fun t b => ?_).symm
  cases key? b <;> rfl

/-- An identifier stands for the last instance that has it. -/
theorem find?_ofInstances (name : String) (key? : Instance → Option String)
    (instances : List Instance) (raw : String) :
    (ofInstances name key? instances).find? raw
      = (instances.reverse.find? (fun i => key? i = some raw)).map
        (fun i => .element i.reference) :=
  find?_insert_entries key? _ name instances raw

end LookupTable

/-- An identifier of users stands for the address of the last user that has it. -/
theorem Identifiers.find?_userTable (users : List User) (raw : String) :
    (userTable users).find? raw
      = (users.reverse.find? (fun user => user.id.keyText? = some raw)).map
        (fun user => .literal (.string user.email)) :=
  LookupTable.find?_insert_entries (fun user : User => user.id.keyText?) _ _ users raw

/-- An address stands for the identifier of the last user that has it. -/
theorem UserIds.get?_ofUsers (users : List User) (email : String) :
    Dict.get? (ofUsers users) email
      = (users.reverse.find? (fun user => user.email = email)).map User.id := by
  unfold ofUsers
  rw [Dict.get?_ofList, ← List.map_reverse, List.find?_map, Option.map_map]
  rfl

end AccountSync
