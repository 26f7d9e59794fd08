/-
  AccountSync.Proofs.Schema.Termination
  ─────────────────────────────────────
  **WALKS WITHOUT A LIMIT.**

  A walk fails where it may not go deeper.  What it would come to without a limit is described
  by a relation instead, with one constructor for each way to go on, and with the number of
  visits that happen inside of each other.  A walk with a limit does what the relation says
  wherever the limit is large enough, and fails for its limit exactly where it is not.  For a
  visitor that makes no node larger it always is large enough.

      Visits                      — what visiting a node comes to, without a limit
      Visits.node_run             — a walk with a large enough limit does the same
      visits_iff                  — it fails for its limit exactly where that is too small
      visitsEntries_unique        — without a limit it comes to one thing only
      shrinking_walk_ends         — a visitor that makes no node larger
-/
import AccountSync.Proofs.Schema.Descent

namespace AccountSync

namespace Walk

variable {σ α β : Type}

/-! ## §1. Outcomes. -/

/-- What a walk comes to: a result or a failure, and the state that the visitor is left in. -/
abbrev Outcome (σ α : Type) := Except Failure α × σ

/-- The outcome with something else made of the result. -/
def Outcome.map (f : α → β) (o : Outcome σ α) : Outcome σ β :=
  (o.1.map f, o.2)

theorem Outcome.map_error {f : α → β} {o : Outcome σ α} {e : Failure} :
    (o.map f).1 = .error e ↔ o.1 = .error e := by
  obtain ⟨result, s⟩ := o
  cases result with
  | ok a => exact iff_of_false nofun nofun
  | error e' =>
    show (Except.error e' : Except Failure β) = .error e ↔ (Except.error e' : Except Failure α) = _
    rw [Except.error.injEq, Except.error.injEq]

theorem Outcome.map_map {γ : Type} (g : β → γ) (f : α → β) (o : Outcome σ α) :
    Outcome.map g (o.map f) = o.map (g ∘ f) := by
  obtain ⟨result, s⟩ := o
  cases result <;> rfl

theorem run_bind_ok {x : WalkM σ α} {f : α → WalkM σ β} {s s' : σ} {a : α}
    (h : x.run s = (.ok a, s')) : (x >>= f).run s = (f a).run s' := by
  rw [run_bind, h]

theorem run_bind_error {x : WalkM σ α} {f : α → WalkM σ β} {s s' : σ} {e : Failure}
    (h : x.run s = (.error e, s')) : (x >>= f).run s = (.error e, s') := by
  rw [run_bind, h]

theorem run_bind_pure (x : WalkM σ α) (f : α → β) (s : σ) :
    (x >>= fun a => pure (f a)).run s = Outcome.map f (x.run s) := by
  rw [run_bind]
  obtain ⟨result, s'⟩ := x.run s
  cases result <;> rfl

/-! ## §2. Items and entries, one after the other. -/

section

variable {step : Nat → Value → WalkM σ (Option Value)} {n : Nat} {v : Value} {s s' : σ}

/-- A failure at an item is the failure of the list. -/
theorem items_failed {e : Failure} (hv : (step n v).run s = (.error e, s')) (rest : List Value) :
    (items step n (v :: rest)).run s = (.error e, s') :=
  run_bind_error hv

/-- What is left of an item comes before what is left of the others. -/
theorem items_visited {kept : Option Value} (hv : (step n v).run s = (.ok kept, s'))
    (rest : List Value) :
    (items step n (v :: rest)).run s
      = Outcome.map (kept.toList ++ ·) ((items step (n + 1) rest).run s') := by
  refine (run_bind_ok hv).trans ?_
  rw [run_bind_pure]
  cases kept <;> rfl

end

section

variable {step : String → Value → WalkM σ (Option Value)} {key : String} {v : Value} {s s' : σ}

/-- A failure at an entry is the failure of the map. -/
theorem entries_failed {e : Failure} (hv : (step key v).run s = (.error e, s')) (rest : Fields) :
    (entries step ((key, v) :: rest)).run s = (.error e, s') :=
  run_bind_error hv

/-- What is left of an entry comes before what is left of the others. -/
theorem entries_visited {kept : Option Value} (hv : (step key v).run s = (.ok kept, s'))
    (rest : Fields) :
    (entries step ((key, v) :: rest)).run s
      = Outcome.map ((kept.map (key, ·)).toList ++ ·) ((entries step rest).run s') := by
  refine (run_bind_ok hv).trans ?_
  rw [run_bind_pure]
  cases kept <;> rfl

end

/-! ## §3. Walks without a limit. -/

section

variable (registry : Registry) (strict : Bool) (visitor : Visitor σ)

mutual

/-- Visiting a node, and everything inside of what the visitor left, comes to the outcome.  At most
so many visits happen inside of each other, this one included. -/
inductive Visits : Nat → Option FieldType → Option Field → ElementId → Value → σ →
    Outcome σ (Option Value) → Prop where
  | dropped {depth : Nat} {type : Option FieldType} {field : Option Field} {path : ElementId}
      {v : Value} {s s' : σ} : visitor ⟨path, field⟩ v s = (none, s') →
      Visits (depth + 1) type field path v s (.ok none, s')
  | misfit {depth : Nat} {type : Option FieldType} {field : Option Field} {path : ElementId}
      {v w : Value} {s s' : σ} {e : Failure} : visitor ⟨path, field⟩ v s = (some w, s') →
      descent registry strict type field path w = .error e →
      Visits (depth + 1) type field path v s (.error e, s')
  | stop {depth : Nat} {type : Option FieldType} {field : Option Field} {path : ElementId}
      {v w w' : Value} {s s' : σ} : visitor ⟨path, field⟩ v s = (some w, s') →
      descent registry strict type field path w = .ok (.stop w') →
      Visits (depth + 1) type field path v s (.ok (some w'), s')
  | items {depth : Nat} {type itemType : Option FieldType} {field itemField : Option Field}
      {path : ElementId} {v w : Value} {vs : List Value} {s s' : σ}
      {o : Outcome σ (List Value)} : visitor ⟨path, field⟩ v s = (some w, s') →
      descent registry strict type field path w = .ok (.items vs itemType itemField) →
      VisitsItems depth itemType itemField path 0 vs s' o →
      Visits (depth + 1) type field path v s (o.map fun kept => some (.list kept))
  | entries {depth : Nat} {type : Option FieldType} {field : Option Field} {path : ElementId}
      {v w : Value} {vs : Fields} {keys : KeyTypes} {s s' : σ} {o : Outcome σ Fields} :
      visitor ⟨path, field⟩ v s = (some w, s') →
      descent registry strict type field path w = .ok (.entries vs keys) →
      VisitsEntries depth keys path vs s' o →
      Visits (depth + 1) type field path v s (o.map fun kept => (unlessEmptied vs kept).map .map)

/-- Visiting the items of a list one after the other, from a position on, comes to the outcome. -/
inductive VisitsItems : Nat → Option FieldType → Option Field → ElementId → Nat → List Value → σ →
    Outcome σ (List Value) → Prop where
  | nil {depth : Nat} {type : Option FieldType} {field : Option Field} {path : ElementId} {n : Nat}
      {s : σ} : VisitsItems depth type field path n [] s (.ok [], s)
  | failed {depth : Nat} {type : Option FieldType} {field : Option Field} {path : ElementId}
      {n : Nat} {v : Value} {rest : List Value} {s s' : σ} {e : Failure} :
      Visits depth type field (path.nest [(Number.int n).text]) v s (.error e, s') →
      VisitsItems depth type field path n (v :: rest) s (.error e, s')
  | cons {depth : Nat} {type : Option FieldType} {field : Option Field} {path : ElementId} {n : Nat}
      {v : Value} {rest : List Value} {s s' : σ} {kept : Option Value}
      {o : Outcome σ (List Value)} :
      Visits depth type field (path.nest [(Number.int n).text]) v s (.ok kept, s') →
      VisitsItems depth type field path (n + 1) rest s' o →
      VisitsItems depth type field path n (v :: rest) s (o.map (kept.toList ++ ·))

/-- Visiting the entries of a map one after the other comes to the outcome. -/
inductive VisitsEntries : Nat → KeyTypes → ElementId → Fields → σ → Outcome σ Fields → Prop where
  | nil {depth : Nat} {keys : KeyTypes} {path : ElementId} {s : σ} :
      VisitsEntries depth keys path [] s (.ok [], s)
  | failed {depth : Nat} {keys : KeyTypes} {path : ElementId} {key : String} {v : Value}
      {rest : Fields} {s s' : σ} {e : Failure} :
      Visits depth (keys.lookup key).1 (keys.lookup key).2 (path.nest [key]) v s (.error e, s') →
      VisitsEntries depth keys path ((key, v) :: rest) s (.error e, s')
  | cons {depth : Nat} {keys : KeyTypes} {path : ElementId} {key : String} {v : Value}
      {rest : Fields} {s s' : σ} {kept : Option Value} {o : Outcome σ Fields} :
      Visits depth (keys.lookup key).1 (keys.lookup key).2 (path.nest [key]) v s (.ok kept, s') →
      VisitsEntries depth keys path rest s' o →
      VisitsEntries depth keys path ((key, v) :: rest) s
        (o.map ((kept.map (key, ·)).toList ++ ·))

end

end

variable {registry : Registry} {strict : Bool} {visitor : Visitor σ}

/-! ## §4. A limit that is large enough. -/

section

variable {node : NodeStep σ} {depth : Nat} {path : ElementId} {s : σ}

/-- A step that does what visiting a node comes to does so for the items of a list. -/
theorem VisitsItems.items_run
    (hnode : ∀ {type field path v s o}, Visits registry strict visitor depth type field path v s o →
      (node type field path v).run s = o)
    {type : Option FieldType} {field : Option Field} {n : Nat} {vs : List Value}
    {o : Outcome σ (List Value)}
    (h : VisitsItems registry strict visitor depth type field path n vs s o) :
    (Walk.items (fun n v => node type field (path.nest [(Number.int n).text]) v) n vs).run s
      = o := by
  induction vs generalizing n s o with
  | nil =>
    cases h
    rfl
  | cons v rest ih =>
    cases h with
    | failed hv => exact items_failed (hnode hv) rest
    | cons hv hrest =>
      rw [items_visited (hnode hv) rest, ih hrest]

/-- And for the entries of a map. -/
theorem VisitsEntries.entries_run
    (hnode : ∀ {type field path v s o}, Visits registry strict visitor depth type field path v s o →
      (node type field path v).run s = o)
    {keys : KeyTypes} {vs : Fields} {o : Outcome σ Fields}
    (h : VisitsEntries registry strict visitor depth keys path vs s o) :
    (Walk.entries (fun key v => node (keys.lookup key).1 (keys.lookup key).2 (path.nest [key]) v)
      vs).run s = o := by
  induction vs generalizing s o with
  | nil =>
    cases h
    rfl
  | cons e rest ih =>
    cases h with
    | failed hv => exact entries_failed (hnode hv) rest
    | cons hv hrest =>
      rw [entries_visited (hnode hv) rest, ih hrest]

end

section

variable {depth limit : Nat} {type : Option FieldType} {field : Option Field} {path : ElementId}
  {v : Value} {s : σ}

theorem visit_run {left : Option Value} {s' : σ} (h : visitor ⟨path, field⟩ v s = (left, s')) :
    (visit visitor ⟨path, field⟩ v).run s = (.ok left, s') :=
  congrArg (fun o : Option Value × σ => ((.ok o.1, o.2) : Outcome σ (Option Value))) h

/-- What a walk with a limit does with a node that the visitor dropped. -/
theorem node_run_dropped {s' : σ} (h : visitor ⟨path, field⟩ v s = (none, s')) :
    (node registry strict visitor (limit + 1) type field path v).run s = (.ok none, s') := by
  rw [node_visited]
  exact run_bind_ok (visit_run h)

/-- What it does with a node that the visitor left. -/
theorem node_run_left {w : Value} {s' : σ} (h : visitor ⟨path, field⟩ v s = (some w, s')) :
    (node registry strict visitor (limit + 1) type field path v).run s
      = (enter registry strict visitor limit type field path w).run s' := by
  rw [node_visited]
  exact run_bind_ok (visit_run h)

theorem fieldsWith_run (node : NodeStep σ) (keys : KeyTypes) (path : ElementId) (vs : Fields)
    (s : σ) :
    (fieldsWith node keys path vs).run s
      = Outcome.map (unlessEmptied vs) ((Walk.entries (fun key v => node (keys.lookup key).1
          (keys.lookup key).2 (path.nest [key]) v) vs).run s) :=
  run_bind_pure _ _ s

theorem enter_run_misfit {e : Failure}
    (h : descent registry strict type field path v = .error e) :
    (enter registry strict visitor limit type field path v).run s = (.error e, s) := by
  unfold enter
  rw [h]
  rfl

theorem enter_run_stop {w : Value}
    (h : descent registry strict type field path v = .ok (.stop w)) :
    (enter registry strict visitor limit type field path v).run s = (.ok (some w), s) := by
  unfold enter
  rw [h]
  rfl

theorem enter_run_items {vs : List Value} {itemType : Option FieldType} {itemField : Option Field}
    (h : descent registry strict type field path v = .ok (.items vs itemType itemField)) :
    (enter registry strict visitor limit type field path v).run s
      = Outcome.map (fun kept => some (.list kept))
        ((itemsWith (node registry strict visitor limit) itemType itemField path vs).run s) := by
  unfold enter
  rw [h]
  exact run_bind_pure _ _ s

theorem enter_run_entries {vs : Fields} {keys : KeyTypes}
    (h : descent registry strict type field path v = .ok (.entries vs keys)) :
    (enter registry strict visitor limit type field path v).run s
      = Outcome.map (fun kept => (unlessEmptied vs kept).map .map)
        ((Walk.entries (fun key v => node registry strict visitor limit (keys.lookup key).1
          (keys.lookup key).2 (path.nest [key]) v) vs).run s) := by
  unfold enter
  rw [h]
  refine (run_bind_pure _ _ s).trans ?_
  rw [fieldsWith_run, Outcome.map_map]
  rfl

/-- **A walk with a large enough limit comes to what it comes to without one.** -/
theorem Visits.node_run {o : Outcome σ (Option Value)}
    (h : Visits registry strict visitor depth type field path v s o) (hlimit : depth ≤ limit) :
    (node registry strict visitor limit type field path v).run s = o := by
  -- by the levels of visits; at each there is one more of the limit left
  induction depth generalizing limit type field path v s o with
  | zero => cases h
  | succ depth ih =>
    obtain ⟨limit, rfl⟩ : ∃ l, limit = l + 1 := ⟨limit - 1, by omega⟩
    have hbelow : depth ≤ limit := Nat.le_of_succ_le_succ hlimit
    cases h with
    | dropped hleft => exact node_run_dropped hleft
    | misfit hleft hdescent => rw [node_run_left hleft, enter_run_misfit hdescent]
    | stop hleft hdescent => rw [node_run_left hleft, enter_run_stop hdescent]
    | items hleft hdescent hitems =>
      rw [node_run_left hleft, enter_run_items hdescent]
      exact congrArg _ (hitems.items_run fun hv => ih hv hbelow)
    | entries hleft hdescent hentries =>
      rw [node_run_left hleft, enter_run_entries hdescent]
      exact congrArg _ (hentries.entries_run fun hv => ih hv hbelow)

end

/-! ## §5. A limit that is too small. -/

section

variable {node : NodeStep σ} {depth : Nat} {path : ElementId} {s : σ}

/-- Where a walk over the items of a list does not fail for its limit, it comes to what it comes to
without one, if that holds for each node. -/
theorem visitsItems_of_run
    (hnode : ∀ {type field path v s o}, (node type field path v).run s = o →
      o.1 ≠ .error .tooDeep → Visits registry strict visitor depth type field path v s o)
    {type : Option FieldType} {field : Option Field} {n : Nat} {vs : List Value}
    {o : Outcome σ (List Value)}
    (hrun : (items (fun n v => node type field (path.nest [(Number.int n).text]) v) n vs).run s = o)
    (hlimit : o.1 ≠ .error .tooDeep) :
    VisitsItems registry strict visitor depth type field path n vs s o := by
  induction vs generalizing n s o with
  | nil =>
    subst hrun
    exact .nil
  | cons v rest ih =>
    rcases hv : (node type field (path.nest [(Number.int n).text]) v).run s with ⟨e | kept, s'⟩
    · rw [items_failed hv] at hrun
      subst hrun
      exact .failed (hnode hv fun he => hlimit (congrArg _ (Except.error.inj he)))
    · rw [items_visited hv] at hrun
      subst hrun
      exact .cons (hnode hv nofun) (ih rfl fun he => hlimit (Outcome.map_error.mpr he))

/-- And so it does over the entries of a map. -/
theorem visitsEntries_of_run
    (hnode : ∀ {type field path v s o}, (node type field path v).run s = o →
      o.1 ≠ .error .tooDeep → Visits registry strict visitor depth type field path v s o)
    {keys : KeyTypes} {vs : Fields} {o : Outcome σ Fields}
    (hrun : (entries (fun key v => node (keys.lookup key).1 (keys.lookup key).2 (path.nest [key]) v)
      vs).run s = o)
    (hlimit : o.1 ≠ .error .tooDeep) :
    VisitsEntries registry strict visitor depth keys path vs s o := by
  induction vs generalizing s o with
  | nil =>
    subst hrun
    exact .nil
  | cons entry rest ih =>
    obtain ⟨key, v⟩ := entry
    rcases hv : (node (keys.lookup key).1 (keys.lookup key).2 (path.nest [key]) v).run s
      with ⟨e | kept, s'⟩
    · rw [entries_failed hv] at hrun
      subst hrun
      exact .failed (hnode hv fun he => hlimit (congrArg _ (Except.error.inj he)))
    · rw [entries_visited hv] at hrun
      subst hrun
      exact .cons (hnode hv nofun) (ih rfl fun he => hlimit (Outcome.map_error.mpr he))

end

section

variable {depth : Nat} {type : Option FieldType} {field : Option Field} {path : ElementId}
  {v : Value} {s : σ}

/-- Where a walk does not fail for its limit, it comes to what it comes to without one. -/
theorem visits_of_run {o : Outcome σ (Option Value)}
    (hrun : (node registry strict visitor depth type field path v).run s = o)
    (hlimit : o.1 ≠ .error .tooDeep) :
    Visits registry strict visitor depth type field path v s o := by
  induction depth generalizing type field path v s o with
  | zero =>
    subst hrun
    exact absurd rfl hlimit
  | succ depth ih =>
    rcases hleft : visitor ⟨path, field⟩ v s with ⟨left, s'⟩
    cases left with
    | none =>
      rw [node_run_dropped hleft] at hrun
      subst hrun
      exact .dropped hleft
    | some w =>
      rw [node_run_left hleft] at hrun
      cases hdescent : descent registry strict type field path w with
      | error e =>
        rw [enter_run_misfit hdescent] at hrun
        subst hrun
        exact .misfit hleft hdescent
      | ok d =>
        cases d with
        | stop w' =>
          rw [enter_run_stop hdescent] at hrun
          subst hrun
          exact .stop hleft hdescent
        | items vs itemType itemField =>
          rw [enter_run_items hdescent] at hrun
          subst hrun
          exact .items hleft hdescent
            (visitsItems_of_run ih rfl fun he => hlimit (Outcome.map_error.mpr he))
        | entries vs keys =>
          rw [enter_run_entries hdescent] at hrun
          subst hrun
          exact .entries hleft hdescent
            (visitsEntries_of_run ih rfl fun he => hlimit (Outcome.map_error.mpr he))

end

/-! ## §6. No failure for a limit. -/

section

variable {depth : Nat} {path : ElementId} {s : σ}

theorem VisitsItems.not_tooDeep
    (hnode : ∀ {type field path v s o}, Visits registry strict visitor depth type field path v s o →
      o.1 ≠ .error .tooDeep)
    {type : Option FieldType} {field : Option Field} {n : Nat} {vs : List Value}
    {o : Outcome σ (List Value)}
    (h : VisitsItems registry strict visitor depth type field path n vs s o) :
    o.1 ≠ .error .tooDeep := by
  induction vs generalizing n s o with
  | nil =>
    cases h
    exact nofun
  | cons v rest ih =>
    cases h with
    | failed hv => exact fun he => hnode hv (congrArg _ (Except.error.inj he))
    | cons _ hrest => exact fun he => ih hrest (Outcome.map_error.mp he)

theorem VisitsEntries.not_tooDeep
    (hnode : ∀ {type field path v s o}, Visits registry strict visitor depth type field path v s o →
      o.1 ≠ .error .tooDeep)
    {keys : KeyTypes} {vs : Fields} {o : Outcome σ Fields}
    (h : VisitsEntries registry strict visitor depth keys path vs s o) :
    o.1 ≠ .error .tooDeep := by
  induction vs generalizing s o with
  | nil =>
    cases h
    exact nofun
  | cons e rest ih =>
    cases h with
    | failed hv => exact fun he => hnode hv (congrArg _ (Except.error.inj he))
    | cons _ hrest => exact fun he => ih hrest (Outcome.map_error.mp he)

/-- Without a limit there is no failure for one. -/
theorem Visits.not_tooDeep {type : Option FieldType} {field : Option Field} {v : Value}
    {o : Outcome σ (Option Value)}
    (h : Visits registry strict visitor depth type field path v s o) :
    o.1 ≠ .error .tooDeep := by
  induction depth generalizing type field path v s o with
  | zero => cases h
  | succ depth ih =>
    cases h with
    | dropped _ | stop _ _ => exact nofun
    | misfit _ hdescent =>
      obtain ⟨-, expected, rfl⟩ := descent_error hdescent
      exact nofun
    | items _ _ hitems => exact fun he => hitems.not_tooDeep ih (Outcome.map_error.mp he)
    | entries _ _ hentries => exact fun he => hentries.not_tooDeep ih (Outcome.map_error.mp he)

/-- **A walk fails for its limit exactly where the limit is too small.**  Everywhere else it comes to
what it comes to without one. -/
theorem visits_iff {type : Option FieldType} {field : Option Field} {v : Value}
    {o : Outcome σ (Option Value)} :
    Visits registry strict visitor depth type field path v s o
      ↔ (node registry strict visitor depth type field path v).run s = o
        ∧ o.1 ≠ .error .tooDeep :=
  ⟨fun h => ⟨h.node_run (Nat.le_refl depth), h.not_tooDeep⟩, fun h => visits_of_run h.1 h.2⟩

/-- The entries of a map come to one thing only, however many levels are counted. -/
theorem visitsEntries_unique {keys : KeyTypes} {vs : Fields} {depth' : Nat}
    {o o' : Outcome σ Fields} (h : VisitsEntries registry strict visitor depth keys path vs s o)
    (h' : VisitsEntries registry strict visitor depth' keys path vs s o') : o' = o :=
  (h'.entries_run fun hv => hv.node_run (Nat.le_max_right depth depth')).symm.trans
    (h.entries_run fun hv => hv.node_run (Nat.le_max_left depth depth'))

end

/-! ## §7. Visitors that make no node larger. -/

/-- **The walk of a visitor that makes no node larger ends**, strictly or not, also where types refer
to themselves or to each other: without a limit it comes to an outcome, and to that one only.  No
more visits happen inside of each other than there are nodes in the fields, times one more than
there are list types directly inside each other, at most, in the fields of the types.  That is
within the limit that walks are given, and with this limit or any larger one a walk comes to the
same outcome. -/
theorem shrinking_walk_ends (registry : Registry) (o : ObjectType) {visitor : Visitor σ}
    (hvisitor : visitor.Shrinks) (strict : Bool) (path : ElementId) (vs : Fields) (s : σ) :
    let levels : Nat := Value.entryCount vs * (1 + fieldNesting registry o)
    levels ≤ depthBound registry o vs
      ∧ ∃ outcome, VisitsEntries registry strict visitor levels (.fields o) path vs s outcome
        ∧ (∀ depth other,
          VisitsEntries registry strict visitor depth (.fields o) path vs s other →
            other = outcome)
        ∧ ∀ limit, levels ≤ limit →
          (fields registry strict visitor limit o path vs).run s
            = outcome.map (unlessEmptied vs) := by
  intro levels
  obtain ⟨hregistry, hfields⟩ := fieldNesting_bounds registry o
  have hkeys (key : String) :
      nestingOf ((KeyTypes.fields o).lookup key).1 ≤ fieldNesting registry o := by
    rw [KeyTypes.lookup_fields]
    exact hfields key
  have hends : ((fields registry strict visitor levels o path vs).run s).1 ≠ .error .tooDeep := by
    intro he
    have hdeep : Ends (· ≠ .tooDeep) (fun _ => True)
        (fields registry strict visitor levels o path vs) :=
      fieldsWith_ends_within hregistry hvisitor strict hkeys (Nat.le_refl levels) path
    exact (hdeep s).2 .tooDeep he rfl
  have hvisits : VisitsEntries registry strict visitor levels (.fields o) path vs s _ :=
    visitsEntries_of_run visits_of_run rfl fun he => hends <| by
      unfold fields
      rw [fieldsWith_run]
      exact Outcome.map_error.mpr he
  refine ⟨?_, _, hvisits, fun depth other => visitsEntries_unique hvisits, fun limit hlimit => ?_⟩
  · have hnesting : 1 + fieldNesting registry o ≤ 1 + listNesting registry o :=
      Nat.add_le_add_left (fieldNesting_le_listNesting registry o) 1
    exact Nat.mul_le_mul (Nat.le_add_left _ 1) hnesting
  · unfold fields
    rw [fieldsWith_run]
    exact congrArg _ (hvisits.entries_run fun hv => hv.node_run hlimit)

/-- Folders in rows of rows in folders, where bare folders are put into lists: four visits inside of
each other for two nodes.  Three levels are too few. -/
theorem shrinking_walk_ends_for_folders :
    let folder : ObjectType :=
      (ObjectType.mk (.ofType "z" "folder") [] [] []).withField "rows"
        (.list (.list (.object "z.folder")))
    let registry : Registry := [("z.folder", folder)]
    let path : ElementId := .ofInstance "z" "folder" "f"
    let counted : Visitor Nat := fun _ v n => (some v, n + 1)
    let vs : Fields := [("rows", .map [("rows", .null)])]
    let kept : Fields := [("rows", .list [.list [.map [("rows", .null)]]])]
    let mismatch : Failure := .schemaMismatch (path.nest ["rows"]) "list" "map"
    counted.Shrinks
      ∧ ((fields registry false counted 3 folder path vs).run 0).1 = .error .tooDeep
      ∧ (∃ outcome, VisitsEntries registry false counted 6 (.fields folder) path vs 0 outcome
        ∧ outcome.map (unlessEmptied vs) = (.ok (some kept), 4))
      ∧ ∃ outcome, VisitsEntries registry true counted 6 (.fields folder) path vs 0 outcome
        ∧ outcome.map (unlessEmptied vs) = (.error mismatch, 1) := by
  intro folder registry path counted vs kept mismatch
  have hcounted : counted.Shrinks := by
    rintro place v s v' h
    obtain rfl := Option.some.inj h
    exact Nat.le_refl _
  obtain ⟨-, lenient, hlenient, -, hrun⟩ :=
    shrinking_walk_ends registry folder hcounted false path vs 0
  obtain ⟨-, outcome, hstrict, -, hrun'⟩ :=
    shrinking_walk_ends registry folder hcounted true path vs 0
  refine ⟨hcounted, rfl, ⟨lenient, hlenient, ?_⟩, outcome, hstrict, ?_⟩
  · exact (hrun 6 (by decide)).symm
  · exact (hrun' 6 (by decide)).symm

end Walk

end AccountSync
