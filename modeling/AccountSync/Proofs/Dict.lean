/-
  AccountSync.Proofs.Dict
  ───────────────────────
  **LOOKUPS IN DICTIONARIES.**

  What is under a key is what was put there last, and nothing else touches it.  Dictionaries
  in key order that have the same under every key are the same.

      Dict.get?_insert_self, Dict.get?_insert_of_ne  — putting a value under a key
      Dict.get?_erase_of_ne                          — forgetting a key
      Dict.Sorted.erase_eq_filter                    — what is left when a key is forgotten
      Dict.insert_perm                               — a new key adds one entry
      Dict.Sorted.insert                             — the key order is kept
      Dict.Sorted.ext                                — lookups determine a dictionary
      Dict.insert_insert, Dict.insert_of_get?        — when putting a value makes no difference
      Dict.get?_ofList_of_nodup                      — entries whose keys are all different
-/
import AccountSync.Dict

namespace AccountSync.Dict

variable {α : Type}

instance (d : Dict α) : Decidable (Sorted d) :=
  inferInstanceAs (Decidable ((keys d).Pairwise (· < ·)))

theorem mem_of_get? {d : Dict α} {key : String} {v : α} (h : get? d key = some v) :
    (key, v) ∈ d := by
  induction d with
  | nil => exact absurd h nofun
  | cons e rest ih =>
    obtain ⟨k, u⟩ := e
    unfold get? at h
    by_cases hk : k = key
    · rw [if_pos hk, Option.some.injEq] at h
      subst hk h
      exact List.mem_cons_self
    · rw [if_neg hk] at h
      exact List.mem_cons_of_mem _ (ih h)

theorem get?_cons_self (key : String) (v : α) (d : Dict α) :
    get? ((key, v) :: d) key = some v :=
  if_pos rfl

theorem get?_cons_of_ne {k key : String} (h : k ≠ key) (v : α) (d : Dict α) :
    get? ((k, v) :: d) key = get? d key :=
  if_neg h

/-- A key is found exactly if it is there. -/
theorem get?_eq_none_iff {d : Dict α} {key : String} : get? d key = none ↔ key ∉ keys d := by
  induction d with
  | nil => simp [get?, keys]
  | cons e rest ih =>
    obtain ⟨k, u⟩ := e
    by_cases hk : k = key
    · simp [get?, keys, hk]
    · rw [get?_cons_of_ne hk, ih]
      simp [keys, Ne.symm hk]

/-- A key below all others is not there. -/
theorem get?_of_forall_lt {d : Dict α} {key : String} (h : ∀ k ∈ keys d, key < k) :
    get? d key = none :=
  get?_eq_none_iff.mpr fun hmem => String.lt_irrefl key (h key hmem)

theorem get?_of_mem {d : Dict α} (h : Sorted d) {key : String} {v : α} (hmem : (key, v) ∈ d) :
    get? d key = some v := by
  induction d with
  | nil => exact absurd hmem List.not_mem_nil
  | cons e rest ih =>
    obtain ⟨k, u⟩ := e
    obtain ⟨hfirst, hrest⟩ := List.pairwise_cons.mp h
    rcases List.mem_cons.mp hmem with heq | hmem
    · obtain ⟨rfl, rfl⟩ := Prod.mk.inj heq
      exact get?_cons_self key v rest
    · -- in a later entry the key is above the first one
      have hlt : k < key := hfirst key (List.mem_map_of_mem hmem)
      rw [get?_cons_of_ne (String.ne_of_lt hlt), ih hrest hmem]

theorem Sorted.tail {e : String × α} {d : Dict α} (h : Sorted (e :: d)) : Sorted d :=
  (List.pairwise_cons.mp h).2

/-- The first key is below the others. -/
theorem Sorted.lt_of_mem {k : String} {v : α} {d : Dict α} (h : Sorted ((k, v) :: d)) {key : String}
    (hkey : key ∈ keys d) : k < key :=
  (List.pairwise_cons.mp h).1 key hkey

/-- A key below the first one is not there. -/
theorem Sorted.get?_of_lt {k : String} {v : α} {d : Dict α} (h : Sorted ((k, v) :: d))
    {key : String} (hlt : key < k) : get? ((k, v) :: d) key = none := by
  refine get?_of_forall_lt fun other hother => ?_
  rcases List.mem_cons.mp hother with rfl | hother
  · exact hlt
  · exact String.lt_trans hlt (h.lt_of_mem hother)

/-- What was put under a key is there. -/
theorem get?_insert_self (d : Dict α) (key : String) (v : α) :
    get? (insert d key v) key = some v := by
  induction d with
  | nil => exact get?_cons_self key v []
  | cons e rest ih =>
    obtain ⟨k, u⟩ := e
    unfold insert
    split
    · exact get?_cons_self key v rest
    next hne =>
      split
      · exact get?_cons_self key v ((k, u) :: rest)
      · rw [get?_cons_of_ne (Ne.symm hne), ih]

/-- Nothing changes under other keys. -/
theorem get?_insert_of_ne (d : Dict α) {key other : String} (h : key ≠ other) (v : α) :
    get? (insert d key v) other = get? d other := by
  induction d with
  | nil => exact get?_cons_of_ne h v []
  | cons e rest ih =>
    obtain ⟨k, u⟩ := e
    unfold insert
    split
    next heq => rw [get?_cons_of_ne h, get?_cons_of_ne (heq ▸ h)]
    · split
      · exact get?_cons_of_ne h v ((k, u) :: rest)
      · by_cases hk : k = other
        · rw [hk, get?_cons_self, get?_cons_self]
        · rw [get?_cons_of_ne hk, get?_cons_of_ne hk, ih]

theorem mem_keys_insert {d : Dict α} {key other : String} {v : α}
    (h : other ∈ keys (insert d key v)) : other = key ∨ other ∈ keys d := by
  rw [← Decidable.not_not (p := other ∈ keys (insert d key v)), ← get?_eq_none_iff] at h
  by_cases hother : key = other
  · exact .inl hother.symm
  · rw [get?_insert_of_ne d hother, get?_eq_none_iff, Decidable.not_not] at h
    exact .inr h

/-- Putting a value under a key adds no other entry. -/
theorem mem_of_mem_insert {d : Dict α} {key : String} {v : α} {e : String × α}
    (h : e ∈ insert d key v) : e = (key, v) ∨ e ∈ d := by
  induction d with
  | nil => exact .inl (List.mem_singleton.mp h)
  | cons first rest ih =>
    unfold insert at h
    split at h
    · exact (List.mem_cons.mp h).imp_right (List.mem_cons_of_mem first)
    · split at h
      · exact List.mem_cons.mp h
      · rcases List.mem_cons.mp h with rfl | h
        · exact .inr List.mem_cons_self
        · exact (ih h).imp_right (List.mem_cons_of_mem first)

/-- Putting a value under a new key adds one entry. -/
theorem insert_perm {d : Dict α} {key : String} {v : α} (h : key ∉ keys d) :
    (insert d key v).Perm ((key, v) :: d) := by
  induction d with
  | nil => exact .refl _
  | cons first rest ih =>
    obtain ⟨hne, hrest⟩ : key ≠ first.1 ∧ key ∉ keys rest := by simpa [keys] using h
    unfold insert
    rw [if_neg hne]
    split
    · exact .refl _
    · exact ((ih hrest).cons first).trans (.swap _ _ _)

/-- Dictionaries stay in key order. -/
theorem Sorted.insert {d : Dict α} (h : Sorted d) (key : String) (v : α) :
    Sorted (Dict.insert d key v) := by
  induction d with
  | nil => exact List.pairwise_singleton _ key
  | cons e rest ih =>
    obtain ⟨k, u⟩ := e
    unfold Dict.insert
    split
    next heq =>
      subst heq
      exact h
    next hne =>
      split
      next hlt =>
        -- the new key is below the first one, and that one below the others
        refine List.pairwise_cons.mpr ⟨?_, h⟩
        intro other hother
        rcases List.mem_cons.mp hother with rfl | hother
        · exact hlt
        · exact String.lt_trans hlt (h.lt_of_mem hother)
      next hle =>
        have hlt : k < key := Decidable.not_not.mp fun hge =>
          hne (String.le_antisymm (String.not_lt.mp hge) (String.not_lt.mp hle))
        refine List.pairwise_cons.mpr ⟨?_, ih h.tail⟩
        intro other hother
        rcases mem_keys_insert hother with rfl | hother
        · exact hlt
        · exact h.lt_of_mem hother

/-- Forgetting a key changes nothing under other keys. -/
theorem get?_erase_of_ne (d : Dict α) {key other : String} (h : key ≠ other) :
    get? (erase d key) other = get? d other := by
  induction d with
  | nil => rfl
  | cons e rest ih =>
    obtain ⟨k, u⟩ := e
    unfold erase
    split
    next heq => rw [get?_cons_of_ne (heq ▸ h)]
    · by_cases hk : k = other
      · rw [hk, get?_cons_self, get?_cons_self]
      · rw [get?_cons_of_ne hk, get?_cons_of_ne hk, ih]

/-- Forgetting a key leaves all entries with other keys. -/
theorem Sorted.erase_eq_filter {d : Dict α} (h : Sorted d) (key : String) :
    Dict.erase d key = d.filter (fun e => e.1 ≠ key) := by
  induction d with
  | nil => rfl
  | cons e rest ih =>
    obtain ⟨k, u⟩ := e
    unfold Dict.erase
    by_cases hk : k = key
    · -- the key is not there a second time
      subst hk
      have hrest : ∀ e ∈ rest, decide (e.1 ≠ k) = true := fun e he =>
        decide_eq_true (String.ne_of_lt (h.lt_of_mem (List.mem_map_of_mem he))).symm
      rw [if_pos rfl, List.filter_cons_of_neg (by simp), List.filter_eq_self.mpr hrest]
    · rw [if_neg hk, ih h.tail, List.filter_cons_of_pos (by simpa using hk)]

theorem Sorted.erase {d : Dict α} (h : Sorted d) (key : String) : Sorted (Dict.erase d key) := by
  rw [h.erase_eq_filter]
  exact h.sublist (List.filter_sublist.map _)

/-- Under a key that was forgotten nothing is left. -/
theorem Sorted.get?_erase_self {d : Dict α} (h : Sorted d) (key : String) :
    get? (Dict.erase d key) key = none := by
  rw [h.erase_eq_filter, get?_eq_none_iff]
  intro hmem
  obtain ⟨e, he, hkey⟩ := List.mem_map.mp hmem
  simpa [hkey] using (List.mem_filter.mp he).2

/-- Dictionaries in key order that have the same under every key are the same. -/
theorem Sorted.ext {a b : Dict α} (ha : Sorted a) (hb : Sorted b)
    (h : ∀ key, get? a key = get? b key) : a = b := by
  induction a generalizing b with
  | nil =>
    cases b with
    | nil => rfl
    | cons e rest =>
      have hfirst := h e.1
      rw [get?_cons_self] at hfirst
      exact absurd hfirst nofun
  | cons e as ih =>
    obtain ⟨k, u⟩ := e
    cases b with
    | nil =>
      have hfirst := h k
      rw [get?_cons_self] at hfirst
      exact absurd hfirst nofun
    | cons e bs =>
      obtain ⟨k', u'⟩ := e
      -- of two different first keys, the lower one is not there in the other dictionary
      have hkey : k = k' := by
        refine String.le_antisymm (String.not_lt.mp fun hlt => ?_) (String.not_lt.mp fun hlt => ?_)
        · have hfirst := h k'
          rw [get?_cons_self, ha.get?_of_lt hlt] at hfirst
          exact absurd hfirst nofun
        · have hfirst := h k
          rw [get?_cons_self, hb.get?_of_lt hlt] at hfirst
          exact absurd hfirst nofun
      subst hkey
      have hvalue := h k
      rw [get?_cons_self, get?_cons_self] at hvalue
      obtain rfl := Option.some.inj hvalue
      refine congrArg ((k, u) :: ·) (ih ha.tail hb.tail fun key => ?_)
      by_cases hk : k = key
      · subst hk
        rw [get?_of_forall_lt fun other => ha.lt_of_mem,
          get?_of_forall_lt fun other => hb.lt_of_mem]
      · have hrest := h key
        rw [get?_cons_of_ne hk, get?_cons_of_ne hk] at hrest
        exact hrest

/-- Of two values that are put under one key the second one counts. -/
theorem insert_insert (d : Dict α) (key : String) (v v' : α) :
    insert (insert d key v) key v' = insert d key v' := by
  induction d with
  | nil => exact if_pos rfl
  | cons e rest ih =>
    obtain ⟨k, u⟩ := e
    simp only [insert]
    split
    · exact if_pos rfl
    next hne =>
      split
      · exact if_pos rfl
      next hle =>
        show (if key = k then _ else if key < k then _
          else (k, u) :: insert (insert rest key v) key v') = _
        rw [if_neg hne, if_neg hle, ih]

/-- A value that is there already makes no difference. -/
theorem insert_of_get? {d : Dict α} (hsorted : Sorted d) {key : String} {v : α}
    (h : get? d key = some v) : insert d key v = d := by
  refine (hsorted.insert key v).ext hsorted fun other => ?_
  by_cases hother : key = other
  · rw [← hother, get?_insert_self, h]
  · exact get?_insert_of_ne d hother v

theorem get?_append (a b : Dict α) (key : String) :
    get? (a ++ b) key = (get? a key).or (get? b key) := by
  induction a with
  | nil => rfl
  | cons e rest ih =>
    obtain ⟨k, v⟩ := e
    rw [List.cons_append]
    by_cases hk : k = key
    · subst hk
      rw [get?_cons_self, get?_cons_self]
      rfl
    · rw [get?_cons_of_ne hk, get?_cons_of_ne hk, ih]

/-- Entries whose keys are all different are found again, whatever their order. -/
theorem get?_ofList_of_nodup {entries : List (String × α)} (h : (keys entries).Nodup)
    (key : String) : get? (ofList entries) key = get? entries key := by
  -- what the dictionary held before counts where the entries do not have the key
  have hfrom (d : Dict α) : get? (entries.foldl (fun d e => insert d e.1 e.2) d) key
      = (get? entries key).or (get? d key) := by
    induction entries generalizing d with
    | nil => rfl
    | cons e rest ih =>
      obtain ⟨k, v⟩ := e
      obtain ⟨hnew, hrest⟩ := List.nodup_cons.mp h
      rw [List.foldl_cons, ih hrest]
      by_cases hk : k = key
      · subst hk
        rw [get?_eq_none_iff.mpr hnew, get?_insert_self, get?_cons_self]
        rfl
      · rw [get?_insert_of_ne d hk, get?_cons_of_ne hk]
  exact (hfrom []).trans (Option.or_none)

/-- Leaving out entries with other keys changes nothing under a key that stays. -/
theorem get?_filter_keys {p : String → Bool} {key : String} (h : p key = true) (d : Dict α) :
    get? (d.filter (fun e => p e.1)) key = get? d key := by
  induction d with
  | nil => rfl
  | cons e rest ih =>
    obtain ⟨k, v⟩ := e
    by_cases hk : k = key
    · subst hk
      rw [List.filter_cons, if_pos h, get?_cons_self, get?_cons_self]
    · rw [get?_cons_of_ne hk, ← ih, List.filter_cons]
      split
      · exact get?_cons_of_ne hk v _
      · rfl

end AccountSync.Dict
