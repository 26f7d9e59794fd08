/-
  AccountSync.Proofs.Children.Reorders
  ────────────────────────────────────
  **WHICH PARENTS THE RULES ABOUT LISTS LEAVE OVER.**

  A rule looks at all the fields in which the snapshots of a parent differ.  If its list is
  the only one, it deploys the positions of the children and is done with the parent; if there
  is another field, be it the list of another rule, it leaves the parent over.

      orderChange_eq_orderOnly_iff — the list is the only field in which the snapshots differ
      SetsPositions                — the changes that set the positions of listed children
      goesOn                       — the changes that all rules leave over
      SettledBy                    — how rules are done with a parent
      settled_of_only              — they are if the list of one is all that differs
-/
import AccountSync.Children.Lists
import AccountSync.Proofs.Change.Fields
import AccountSync.Proofs.World

namespace AccountSync.Children

variable {ω : Type}

/-! ## §1. What a rule makes of a change. -/

/-- Two snapshots whose differences lie in fields. -/
structure Comparable (before after : Instance) : Prop where
  topLevel : after.id.isTopLevel = true
  sorted : Dict.Sorted before.value
  sorted' : Dict.Sorted after.value

theorem classify_eq_noOrder_iff {field : String} {ds : List Difference} :
    classify field ds = .noOrder ↔ ∀ d ∈ ds, liesIn field d = false := by
  have hnone : (ds.filter (liesIn field)).length = 0 ↔ ∀ d ∈ ds, liesIn field d = false := by
    rw [List.length_eq_zero_iff, List.filter_eq_nil_iff]
    simp only [Bool.not_eq_true]
  rw [← hnone]
  unfold classify
  dsimp only
  split
  next h => exact iff_of_true rfl h
  next h =>
    refine iff_of_false ?_ h
    split <;> nofun

theorem classify_eq_orderOnly_iff {field : String} {ds : List Difference} :
    classify field ds = .orderOnly
      ↔ (∃ d ∈ ds, liesIn field d = true) ∧ ∀ d ∈ ds, liesIn field d = true := by
  have hsome : (ds.filter (liesIn field)).length ≠ 0 ↔ ∃ d ∈ ds, liesIn field d = true := by
    rw [ne_eq, List.length_eq_zero_iff, List.filter_eq_nil_iff]
    simp
  rw [← hsome, ← List.length_filter_eq_length_iff]
  unfold classify
  dsimp only
  split
  next h => exact iff_of_false nofun fun hall => hall.1 h
  next h =>
    split
    next heq => exact iff_of_true rfl ⟨h, heq⟩
    next hne => exact iff_of_false nofun fun hall => hne hall.2

section Classification

variable {before after : Instance} {field : String} {d : Difference}

theorem liesIn_iff : liesIn field d = true ↔ d.path.head? = some field :=
  decide_eq_true_iff

/-- The snapshots differ in the field that a difference lies in. -/
theorem differsIn_of_liesIn (h : Comparable before after)
    (hd : d ∈ Difference.ofInstances before after) (hin : liesIn field d = true) :
    before.DiffersIn after field := by
  obtain ⟨other, hhead, hne⟩ := Difference.ofFields_inside h.topLevel h.sorted h.sorted' hd
  rw [liesIn_iff, hhead] at hin
  obtain rfl := Option.some.inj hin
  exact hne

theorem exists_liesIn (h : Comparable before after) (hne : before.DiffersIn after field) :
    ∃ d ∈ Difference.ofInstances before after, liesIn field d = true := by
  obtain ⟨d, hd, hhead⟩ := Difference.ofFields_touches h.topLevel h.sorted h.sorted' hne
  exact ⟨d, hd, liesIn_iff.mpr hhead⟩

/-- A list did not change if the snapshots do not differ in its field. -/
theorem orderChange_eq_noOrder_iff (h : Comparable before after) :
    orderChange field (.modification before after) = .noOrder ↔ ¬before.DiffersIn after field := by
  show classify field (Difference.ofInstances before after) = .noOrder ↔ _
  rw [classify_eq_noOrder_iff]
  constructor
  · intro hnone hne
    obtain ⟨d, hd, hin⟩ := exists_liesIn h hne
    exact absurd hin (Bool.eq_false_iff.mp (hnone d hd))
  · exact fun hsame d hd => Bool.eq_false_iff.mpr fun hin => hsame (differsIn_of_liesIn h hd hin)

/-- A list is all that changed if the snapshots differ in its field and in no other. -/
theorem orderChange_eq_orderOnly_iff (h : Comparable before after) :
    orderChange field (.modification before after) = .orderOnly
      ↔ before.DiffersIn after field ∧ ∀ other, before.DiffersIn after other → other = field := by
  show classify field (Difference.ofInstances before after) = .orderOnly ↔ _
  rw [classify_eq_orderOnly_iff]
  constructor
  · rintro ⟨⟨d, hd, hin⟩, hall⟩
    refine ⟨differsIn_of_liesIn h hd hin, fun other hne => ?_⟩
    -- the difference in the other field lies in this one
    obtain ⟨d, hd, hother⟩ := exists_liesIn h hne
    have hhead := liesIn_iff.mp (hall d hd)
    rw [liesIn_iff.mp hother] at hhead
    exact Option.some.inj hhead
  · rintro ⟨hne, honly⟩
    refine ⟨exists_liesIn h hne, fun d hd => ?_⟩
    obtain ⟨other, hhead, hother⟩ :=
      Difference.ofFields_inside h.topLevel h.sorted h.sorted' hd
    rw [liesIn_iff, hhead, honly other hother]

end Classification

/-! ## §2. Positions of children. -/

/-- The value lists children: references to elements whose identifiers are known. -/
def ListsChildren (v : Value) : Prop :=
  ∃ items, v = .list items
    ∧ ∀ item ∈ items, ∃ r id, item = .reference r ∧ r.targetId? = some id

/-- The changes set the positions of listed children: there is one for each child, of nothing but
its position, and the new position is its place in the list. -/
structure SetsPositions (rule : ChildOrderRule) (parent : Instance) (start : Nat)
    (items : List Value) (children : List InstanceChange) : Prop where
  length : children.length = items.length
  each : ∀ (i : Nat) (r : Reference) (id : Value), items[i]? = some (.reference r) →
    r.targetId? = some id → children[i]? = some (.modification
      (child rule parent r id (storedPosition? rule r))
      (child rule parent r id (some (.number (.int (start + i : Nat))))))

/-- The positions of listed children can be set. -/
theorem positionChangesFrom_positions (rule : ChildOrderRule) (parent : Instance) (start : Nat)
    {items : List Value}
    (h : ∀ item ∈ items, ∃ r id, item = .reference r ∧ r.targetId? = some id) :
    ∃ children, positionChangesFrom rule parent start items = some children
      ∧ SetsPositions rule parent start items children := by
  induction items generalizing start with
  | nil => exact ⟨[], rfl, rfl, nofun⟩
  | cons item rest ih =>
    obtain ⟨hitem, hrest⟩ := List.forall_mem_cons.mp h
    obtain ⟨r, id, rfl, hid⟩ := hitem
    obtain ⟨children, hchildren, hlength, hpositions⟩ := ih (start + 1) hrest
    let first : InstanceChange := .modification
      (child rule parent r id (storedPosition? rule r))
      (child rule parent r id (some (.number (.int start))))
    refine ⟨first :: children, ?_, congrArg (· + 1) hlength, ?_⟩
    · unfold positionChangesFrom positionChange?
      simp only [Value.reference?, hid, hchildren, Option.bind_eq_bind, Option.bind_some,
        Option.pure_def, first]
    · intro i r' id' hi hid'
      cases i with
      | zero =>
        obtain rfl := Value.reference.inj (Option.some.inj hi)
        obtain rfl := Option.some.inj (hid.symm.trans hid')
        rfl
      | succ i =>
        have hlater := hpositions i r' id' hi hid'
        rw [Nat.add_right_comm, Nat.add_assoc] at hlater
        exact hlater

/-- The children whose positions are set are those that the parent lists. -/
theorem positionChanges_positions {rule : ChildOrderRule} {c : InstanceChange}
    (h : ∀ v, c.data.get? rule.orderField = some v → ListsChildren v) :
    ∃ children, positionChanges rule c = .ok children
      ∧ SetsPositions rule c.data 0 (listed rule c.data) children := by
  have hitems : ∀ item ∈ listed rule c.data, ∃ r id, item = .reference r ∧ r.targetId? = some id := by
    unfold listed
    cases hget : c.data.get? rule.orderField with
    | none => exact nofun
    | some v =>
      obtain ⟨items, rfl, hitems⟩ := h v hget
      exact hitems
  obtain ⟨children, hchildren, hpositions⟩ :=
    positionChangesFrom_positions rule c.data 0 hitems
  refine ⟨children, ?_, hpositions⟩
  unfold positionChanges
  rw [hchildren]

/-! ## §3. What rules leave over. -/

/-- Whether a rule leaves a change over. -/
def passesOn (rule : ChildOrderRule) (c : InstanceChange) : Bool :=
  match orderChangeFor rule c with
  | .noOrder => true
  | .orderOnly => false
  | .mixed => (positionChanges rule c).isOk

/-- Whether all rules leave a change over. -/
def goesOn (rules : List ChildOrderRule) (c : InstanceChange) : Bool :=
  rules.all (passesOn · c)

theorem deployParent_leftover (pool : Pool ω) (handler : ChangeHandler ω) (rule : ChildOrderRule)
    (c : InstanceChange) :
    Ensures (deployParent pool handler rule c)
      (fun r => r.leftover = [c].filter (passesOn rule)) := by
  unfold deployParent passesOn
  cases hkind : orderChangeFor rule c with
  | noOrder => exact .pure (by simp [hkind])
  | orderOnly =>
    cases hchanges : positionChanges rule c with
    | error message => exact .pure (by simp [hkind])
    | ok changes =>
      exact (Ensures.yields _).bind fun done _ => .pure (by simp [hkind, settled])
  | mixed =>
    cases hchanges : positionChanges rule c with
    | error message => exact .pure (by simp [hkind, hchanges, Except.isOk, Except.toBool])
    | ok changes =>
      exact (Ensures.yields _).bind fun done _ =>
        .pure (by simp [hkind, hchanges, settled, Except.isOk, Except.toBool])

theorem deployOrder_leftover (pool : Pool ω) (handler : ChangeHandler ω) (rule : ChildOrderRule)
    (changes : List InstanceChange) :
    Ensures (deployOrder pool handler rule changes)
      (fun r => r.leftover = changes.filter (passesOn rule)) := by
  induction changes with
  | nil => exact .pure rfl
  | cons c rest ih =>
    unfold deployOrder
    refine (deployParent_leftover pool handler rule c).bind fun first hfirst => ?_
    refine ih.bind fun others hothers => .pure ?_
    show first.leftover ++ others.leftover = _
    rw [hfirst, hothers, ← List.filter_append, List.singleton_append]

/-- What is left over depends on the changes and on nothing that happens on the way. -/
theorem deployLists_leftover (pool : Pool ω) (handler : ChangeHandler ω)
    (rules : List ChildOrderRule) (changes : List InstanceChange) :
    Ensures (deployLists pool handler rules changes)
      (fun r => r.leftover = changes.filter (goesOn rules)) := by
  induction rules generalizing changes with
  | nil => exact .pure (List.filter_eq_self.mpr fun c _ => rfl).symm
  | cons rule rest ih =>
    unfold deployLists
    refine (deployOrder_leftover pool handler rule changes).bind fun first hfirst => ?_
    refine (ih first.leftover).bind fun others hothers => .pure ?_
    show others.leftover = _
    rw [hothers, hfirst, List.filter_filter]
    refine List.filter_congr fun c _ => ?_
    unfold goesOn
    rw [List.all_cons, Bool.and_comm]

/-! ## §4. Parents of which only lists changed. -/

/-- How rules are done with a parent: the rules in front of one do nothing about it, and that one
deploys positions of children and nothing else.  The parent is applied unless a child fails. -/
structure SettledBy (rules : List ChildOrderRule) (c : InstanceChange)
    (earlier : List ChildOrderRule) (rule : ChildOrderRule) (children : List InstanceChange) :
    Prop where
  split : ∃ later, rules = earlier ++ rule :: later
  passed : ∀ r ∈ earlier, ∀ {ω : Type} (pool : Pool ω) (handler : ChangeHandler ω),
    deployParent pool handler r c = pure { leftover := [c] }
  positions : SetsPositions rule c.data 0 (listed rule c.data) children
  deployed : ∀ {ω : Type} (pool : Pool ω) (handler : ChangeHandler ω),
    deployParent pool handler rule c = (do
      let done ← pool.deploy handler children
      pure { result := {
        applied := if done.errors.isEmpty then [c] else []
        errors := done.errors } })

section Parents

variable {rules : List ChildOrderRule} {before after : Instance}

theorem orderChangeFor_of_type {rule : ChildOrderRule} (htype : rule.parentType = after.typeName) :
    orderChangeFor rule (.modification before after)
      = orderChange rule.orderField (.modification before after) :=
  if_pos htype.symm

/-- A rule passes a parent on if the snapshots do not differ in the field of its list. -/
theorem orderChangeFor_eq_noOrder (h : Comparable before after) {rule : ChildOrderRule}
    (hrule : rule.parentType = after.typeName → ¬before.DiffersIn after rule.orderField) :
    orderChangeFor rule (.modification before after) = .noOrder := by
  by_cases htype : rule.parentType = after.typeName
  · rw [orderChangeFor_of_type htype]
    exact (orderChange_eq_noOrder_iff h).mpr (hrule htype)
  · exact if_neg (Ne.symm htype)

/-- **If the list of a rule is all in which the snapshots of a parent differ**, the rules are done
with the parent by setting the positions of its children, and none leaves it over. -/
theorem settled_of_only (h : Comparable before after) {rule : ChildOrderRule} (hmem : rule ∈ rules)
    (htype : rule.parentType = after.typeName) (hne : before.DiffersIn after rule.orderField)
    (honly : ∀ other, before.DiffersIn after other → other = rule.orderField)
    (hlist : ∀ v, after.get? rule.orderField = some v → ListsChildren v) :
    (∃ earlier first children,
      SettledBy rules (.modification before after) earlier first children)
    ∧ goesOn rules (.modification before after) = false := by
  -- the first rule about this list is the one that counts
  let about : ChildOrderRule → Bool :=
    fun r => r.parentType = after.typeName ∧ r.orderField = rule.orderField
  have habout : about rule = true := decide_eq_true ⟨htype, rfl⟩
  obtain ⟨first, hfound⟩ : ∃ first, rules.find? about = some first :=
    Option.isSome_iff_exists.mp (List.find?_isSome.mpr ⟨rule, hmem, habout⟩)
  obtain ⟨hfirst, earlier, later, rfl, hearlier⟩ := List.find?_eq_some_iff_append.mp hfound
  obtain ⟨hfirstType, hfirstField⟩ := of_decide_eq_true hfirst
  have hkind : orderChangeFor first (.modification before after) = .orderOnly := by
    rw [orderChangeFor_of_type hfirstType, orderChange_eq_orderOnly_iff h, hfirstField]
    exact ⟨hne, honly⟩
  rw [← hfirstField] at hlist
  obtain ⟨children, hchildren, hpositions⟩ :
      ∃ children, positionChanges first (.modification before after) = .ok children
        ∧ SetsPositions first after 0 (listed first after) children :=
    positionChanges_positions hlist
  refine ⟨⟨earlier, first, children, ⟨later, rfl⟩, ?_, hpositions, ?_⟩, ?_⟩
  · intro r hr ω pool handler
    have hpassed : orderChangeFor r (.modification before after) = .noOrder := by
      refine orderChangeFor_eq_noOrder h fun hrType hrne => ?_
      have hnot : about r = false := by simpa using hearlier r hr
      exact of_decide_eq_false hnot ⟨hrType, honly _ hrne⟩
    unfold deployParent
    rw [hpassed]
  · intro ω pool handler
    unfold deployParent
    rw [hkind, hchildren]
    rfl
  · have hpasses : passesOn first (.modification before after) = false := by
      unfold passesOn
      rw [hkind]
    unfold goesOn
    rw [List.all_append, List.all_cons, hpasses, Bool.false_and, Bool.and_false]

/-- If snapshots of a parent differ in two fields, the rules leave it over even if both are lists
of children. -/
theorem goesOn_of_two (h : Comparable before after) {field other : String}
    (hne : before.DiffersIn after field) (hne' : before.DiffersIn after other)
    (hother : field ≠ other)
    (hlists : ∀ rule ∈ rules, rule.parentType = after.typeName →
      ∀ v, after.get? rule.orderField = some v → ListsChildren v) :
    goesOn rules (.modification before after) = true := by
  refine List.all_eq_true.mpr fun rule hrule => ?_
  unfold passesOn
  by_cases htype : rule.parentType = after.typeName
  · cases hkind : orderChangeFor rule (.modification before after) with
    | noOrder => rfl
    | orderOnly =>
      -- one of the two fields is not the list of the rule
      rw [orderChangeFor_of_type htype] at hkind
      obtain ⟨-, honly⟩ := (orderChange_eq_orderOnly_iff h).mp hkind
      exact absurd ((honly field hne).trans (honly other hne').symm) hother
    | mixed =>
      obtain ⟨children, hchildren, -⟩ := positionChanges_positions
        (c := .modification before after) (hlists rule hrule htype)
      rw [hchildren]
      rfl
  · rw [orderChangeFor_eq_noOrder h fun h => absurd h htype]

end Parents

end AccountSync.Children
