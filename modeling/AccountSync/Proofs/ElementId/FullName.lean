/-
  AccountSync.Proofs.ElementId.FullName
  ─────────────────────────────────────
  **FULL NAMES NAME ONE IDENTIFIER.**

  A full name is cut where it was joined, because no written segment holds the
  separator, and the segments of an identifier tell what it is.  So different
  identifiers have different full names, and what reads as an identifier is the full
  name of that identifier and of no other.

      Text.splitAt_joinWith        — pieces without a separator are cut where they were joined
      ElementId.fullName_injective — different identifiers, different full names
      ElementId.fullName_of_parse? — reading inverts writing
-/
import AccountSync.ElementId.FullName

namespace AccountSync

/-! ## §1. Cutting what was joined. -/

namespace Text

theorem splitAt_of_not_mem {sep : Char} {piece : List Char} (h : sep ∉ piece) :
    splitAt sep piece = [piece] := by
  induction piece with
  | nil => rfl
  | cons c rest ih =>
    have hne : c ≠ sep := fun heq => h (heq ▸ List.mem_cons_self)
    unfold splitAt
    rw [if_neg hne, ih fun hmem => h (List.mem_cons_of_mem c hmem)]

/-- Cutting stops at the first separator, whatever follows it. -/
theorem splitAt_append {sep : Char} {piece : List Char} (h : sep ∉ piece) (rest : List Char) :
    splitAt sep (piece ++ sep :: rest) = piece :: splitAt sep rest := by
  induction piece with
  | nil =>
    show splitAt sep (sep :: rest) = _
    rw [splitAt, if_pos rfl]
  | cons c piece ih =>
    have hne : c ≠ sep := fun heq => h (heq ▸ List.mem_cons_self)
    show splitAt sep (c :: (piece ++ sep :: rest)) = _
    rw [splitAt, if_neg hne, ih fun hmem => h (List.mem_cons_of_mem c hmem)]

/-- Pieces that hold no separator are cut where they were joined. -/
theorem splitAt_joinWith {sep : Char} {pieces : List (List Char)} (hne : pieces ≠ [])
    (h : ∀ piece ∈ pieces, sep ∉ piece) : splitAt sep (joinWith sep pieces) = pieces := by
  induction pieces with
  | nil => exact absurd rfl hne
  | cons piece pieces ih =>
    have hpiece := h piece List.mem_cons_self
    cases pieces with
    | nil => exact splitAt_of_not_mem hpiece
    | cons next pieces =>
      show splitAt sep (piece ++ sep :: joinWith sep (next :: pieces)) = _
      rw [splitAt_append hpiece, ih (List.cons_ne_nil next pieces)
        fun p hp => h p (List.mem_cons_of_mem piece hp)]

/-- What is between separators holds none. -/
theorem not_mem_of_mem_splitAt {sep : Char} {cs piece : List Char}
    (h : piece ∈ splitAt sep cs) : sep ∉ piece := by
  induction cs generalizing piece with
  | nil =>
    rw [splitAt, List.mem_singleton] at h
    subst h
    exact List.not_mem_nil
  | cons c rest ih =>
    unfold splitAt at h
    by_cases hc : c = sep
    · rw [if_pos hc, List.mem_cons] at h
      rcases h with rfl | h
      · exact List.not_mem_nil
      · exact ih h
    · rw [if_neg hc] at h
      cases hpieces : splitAt sep rest with
      | nil => exact absurd hpieces (splitAt_ne_nil sep rest)
      | cons first pieces =>
        rw [hpieces] at h ih
        rcases List.mem_cons.mp h with rfl | h
        · -- the first piece, which the character belongs to
          intro hmem
          rcases List.mem_cons.mp hmem with heq | hmem
          · exact hc heq.symm
          · exact ih List.mem_cons_self hmem
        · exact ih (List.mem_cons_of_mem first h)

end Text

namespace ElementId

/-! ## §2. Written segments. -/

theorem separator_not_mem_escape (cs : List Char) : separator ∉ escape cs := by
  induction cs with
  | nil => exact List.not_mem_nil
  | cons c rest ih =>
    unfold escape
    split
    · simp [separator] at ih ⊢
      exact ih
    · split
      · simp [separator] at ih ⊢
        exact ih
      next hsep =>
        intro hmem
        rcases List.mem_cons.mp hmem with heq | hmem
        · exact hsep heq.symm
        · exact ih hmem

/-- A segment that reads as a text and holds no separator is how that text is written. -/
theorem escape_of_unescape? {cs ds : List Char} (hsep : separator ∉ cs)
    (h : unescape? cs = some ds) : escape ds = cs := by
  fun_induction unescape? cs generalizing ds with
  | case1 =>
    obtain rfl := Option.some.inj h
    rfl
  | case2 rest ih =>
    obtain ⟨ds, hds, rfl⟩ := Option.map_eq_some_iff.mp h
    rw [escape, if_pos rfl, ih (by simp_all) hds]
  | case3 rest ih =>
    obtain ⟨ds, hds, rfl⟩ := Option.map_eq_some_iff.mp h
    rw [escape, if_neg (by decide), if_pos rfl, ih (by simp_all) hds]
  | case4 => cases h
  | case5 c rest _ _ hat ih =>
    obtain ⟨ds, hds, rfl⟩ := Option.map_eq_some_iff.mp h
    have hc : c ≠ separator := fun heq => hsep (heq ▸ List.mem_cons_self)
    rw [escape, if_neg hat, if_neg hc, ih (by simp_all) hds]

/-- A segment as it is written in a full name. -/
def written (s : String) : List Char :=
  escape s.toList

theorem written_injective {s t : String} (h : written s = written t) : s = t := by
  have hread := congrArg unescape? h
  unfold written at hread
  rw [unescape?_escape, unescape?_escape] at hread
  exact String.toList_inj.mp (Option.some.inj hread)

theorem written_of_segment? {cs : List Char} {s : String} (hsep : separator ∉ cs)
    (h : segment? cs = some s) : written s = cs := by
  obtain ⟨ds, hds, rfl⟩ := Option.map_eq_some_iff.mp h
  unfold written
  rw [String.toList_ofList]
  exact escape_of_unescape? hsep hds

/-! ## §3. Full names. -/

/-- A full name is cut into the written segments of its identifier. -/
theorem splitAt_fullName (id : ElementId) :
    Text.splitAt separator id.fullName.toList = id.segments.map written := by
  have hne : id.segments.map written ≠ [] := by
    unfold segments
    cases id.place <;> exact List.cons_ne_nil _ _
  unfold fullName
  rw [String.toList_ofList]
  refine Text.splitAt_joinWith hne ?_
  intro piece hpiece
  obtain ⟨s, _, rfl⟩ := List.mem_map.mp hpiece
  exact separator_not_mem_escape s.toList

theorem marker_injective {j k : PlaceKind} (h : j.marker = k.marker) : j = k := by
  revert h
  cases j <;> cases k <;> decide

/-- The segments of an identifier tell what it is. -/
theorem segments_injective {a b : ElementId} (h : a.segments = b.segments) : a = b := by
  obtain ⟨adapter, typeName, place⟩ := a
  obtain ⟨adapter', typeName', place'⟩ := b
  unfold segments at h
  cases place with
  | type =>
    cases place' with
    | type =>
      simp only [List.cons.injEq, and_true] at h
      obtain ⟨rfl, rfl⟩ := h
      rfl
    | within kind' path' => simp at h
  | within kind path =>
    cases place' with
    | type => simp at h
    | within kind' path' =>
      simp only [List.cons.injEq] at h
      obtain ⟨rfl, rfl, hmarker, rfl⟩ := h
      obtain rfl := marker_injective hmarker
      rfl

/-- **Different identifiers have different full names.** -/
theorem fullName_injective {a b : ElementId} (h : a.fullName = b.fullName) : a = b := by
  have hcut := splitAt_fullName a
  rw [h, splitAt_fullName b] at hcut
  exact segments_injective ((List.map_inj_right fun _ _ => written_injective).mp hcut.symm)

/-! ## §4. Reading full names. -/

/-- A marker is written as it is. -/
theorem written_marker {cs : List Char} {kind : PlaceKind}
    (h : PlaceKind.ofMarker? (String.ofList cs) = some kind) : written kind.marker = cs := by
  have hcs : String.ofList cs = kind.marker := by
    unfold PlaceKind.ofMarker? at h
    split at h
    all_goals first
      | (obtain rfl := Option.some.inj h; assumption)
      | exact absurd h nofun
  have hplain : written kind.marker = kind.marker.toList := by
    cases kind <;> decide
  rw [hplain, ← hcs, String.toList_ofList]

theorem written_path {pieces : List (List Char)} {path : List String}
    (hsep : ∀ piece ∈ pieces, separator ∉ piece) (h : pieces.mapM segment? = some path) :
    path.map written = pieces := by
  induction pieces generalizing path with
  | nil =>
    obtain rfl := Option.some.inj h
    rfl
  | cons piece pieces ih =>
    rw [List.mapM_cons] at h
    obtain ⟨first, hfirst, h⟩ := Option.bind_eq_some_iff.mp h
    obtain ⟨rest, hrest, h⟩ := Option.bind_eq_some_iff.mp h
    obtain rfl := Option.some.inj h
    rw [List.map_cons, written_of_segment? (hsep piece List.mem_cons_self) hfirst,
      ih (fun p hp => hsep p (List.mem_cons_of_mem piece hp)) hrest]

/-- **What reads as an identifier is its full name.** -/
theorem fullName_of_parse? {text : String} {id : ElementId} (h : parse? text = some id) :
    id.fullName = text := by
  have hsep : ∀ piece ∈ Text.splitAt separator text.toList, separator ∉ piece :=
    fun piece => Text.not_mem_of_mem_splitAt
  -- pieces are joined as they were cut, so it is enough that the identifier is made of them
  suffices hcut : id.segments.map written = Text.splitAt separator text.toList by
    show String.ofList (Text.joinWith separator (id.segments.map written)) = text
    rw [hcut, Text.joinWith_splitAt, String.ofList_toList]
  unfold parse? at h
  split at h
  next adapter typeName hpieces =>
    -- two pieces name a type
    rw [hpieces] at hsep ⊢
    split at h
    · exact absurd h nofun
    · obtain ⟨a, ha, h⟩ := Option.bind_eq_some_iff.mp h
      obtain ⟨t, ht, h⟩ := Option.bind_eq_some_iff.mp h
      obtain rfl := Option.some.inj h
      show [written a, written t] = _
      rw [written_of_segment? (hsep adapter (by simp)) ha,
        written_of_segment? (hsep typeName (by simp)) ht]
  next adapter typeName marker first rest hpieces =>
    rw [hpieces] at hsep ⊢
    obtain ⟨kind, hkind, h⟩ := Option.bind_eq_some_iff.mp h
    obtain ⟨path, hpath, h⟩ := Option.bind_eq_some_iff.mp h
    obtain ⟨a, ha, h⟩ := Option.bind_eq_some_iff.mp h
    obtain ⟨t, ht, h⟩ := Option.bind_eq_some_iff.mp h
    obtain rfl := Option.some.inj h
    show written a :: written t :: written kind.marker :: path.map written = _
    rw [written_of_segment? (hsep adapter (by simp)) ha,
      written_of_segment? (hsep typeName (by simp)) ht, written_marker hkind,
      written_path (fun p hp => hsep p (by simp_all)) hpath]
  · exact absurd h nofun

/-- What reads as an identifier at all reads as the same one when it is written again. -/
theorem parse?_fullName_of_parse? {text : String} {id : ElementId} (h : parse? text = some id) :
    parse? id.fullName = some id := by
  rw [fullName_of_parse? h, h]

end ElementId

end AccountSync
