/-
  AccountSync.Proofs.Deployment.Reorders
  ──────────────────────────────────────
  **CHANGES OF LISTS ARE DEPLOYED CHILD BY CHILD.**

  A parent in which nothing but lists of children changed is deployed by the positions of its
  children and never sent as a whole, provided that the filters left one list as the only
  field in which its snapshots differ.  Two things may stand in the way.  Addresses of users
  are replaced in the snapshot from after alone, so that a field with users comes to differ;
  and each rule takes the list of another one for just another field.

      Children.Reorders     — nothing but lists of children changed
      Filter.Returns        — what a filter leaves over is among what it was handed
      Chain.not_mem_rest    — what one filter never leaves over does not reach the end
      reorders_by_position  — what becomes of a parent of which only lists changed
      reorder_left_over     — one that is sent as a whole, though a single list changed
-/
import AccountSync.Proofs.Adapter
import AccountSync.Proofs.Children.Reorders
import AccountSync.Proofs.Filter.Prepared

namespace AccountSync

open Children (goesOn ListsChildren SettledBy)

variable {ω : Type}

/-! ## §1. What filters leave over. -/

/-- What the filter leaves over is among what it was handed. -/
def Filter.Returns (f : Filter ω) : Prop :=
  ∀ handed, Ensures (f.deploy handed)
    (fun r => ∀ done, r = .ok done → done.leftover ⊆ handed)

theorem Turn.leftover_subset {t : Turn ω} (hreturns : t.filter.Returns)
    (hgenuine : Yields (t.filter.deploy t.handed) t.outcome) : t.leftover ⊆ t.handed := by
  have hout := (hreturns t.handed).of_yields hgenuine
  obtain ⟨filter, handed, outcome⟩ := t
  cases outcome with
  | ok done => exact hout done rfl
  | error e => exact List.nil_subset handed

/-- The rest was handed to every filter in a row and left over by each. -/
theorem Handover.rest_subset {batch rest : List InstanceChange} {turns : List (Turn ω)}
    (h : Handover batch turns rest) (hturn : ∀ t ∈ turns, t.leftover ⊆ t.handed) :
    rest ⊆ batch ∧ ∀ t ∈ turns, rest ⊆ t.leftover := by
  induction h with
  | done rest => exact ⟨List.Subset.refl rest, nofun⟩
  | @turn t turns rest _ _ ih =>
    obtain ⟨hfirst, hlater⟩ := List.forall_mem_cons.mp hturn
    obtain ⟨hsubset, hrest⟩ := ih hlater
    exact ⟨List.Subset.trans hsubset hfirst, List.forall_mem_cons.mpr ⟨hsubset, hrest⟩⟩

/-- A change that one of the deploying filters never leaves over is not among the rest. -/
theorem Chain.not_mem_rest {filters : List (Filter ω)} {batch rest : List InstanceChange}
    {turns : List (Turn ω)} (h : Chain filters batch turns rest)
    (hreturns : ∀ f ∈ filters, f.Returns) {f : Filter ω} (hf : f ∈ filters)
    (hdeploys : f.deploys = true) {c : InstanceChange}
    (hclaims : ∀ handed, Ensures (f.deploy handed)
      (fun r => ∀ done, r = .ok done → c ∉ done.leftover)) : c ∉ rest := by
  have hturn : ∀ t ∈ turns, t.leftover ⊆ t.handed := by
    intro t ht
    have hmem : t.filter ∈ filters.filter Filter.deploys :=
      h.inOrder.subset (List.mem_map_of_mem ht)
    exact t.leftover_subset (hreturns _ (List.mem_of_mem_filter hmem)) (h.genuine t ht)
  rcases h.complete with hnone | hall
  · rw [hnone]
    exact List.not_mem_nil
  · -- no filter was passed over, so this one had its turn
    have hmem : f ∈ turns.map Turn.filter := hall ▸ List.mem_filter.mpr ⟨hf, hdeploys⟩
    obtain ⟨t, ht, rfl⟩ := List.mem_map.mp hmem
    have hout := (hclaims t.handed).of_yields (h.genuine t ht)
    intro hc
    have hleft := (h.handover.rest_subset hturn).2 t ht hc
    obtain ⟨filter, handed, outcome⟩ := t
    cases outcome with
    | ok done => exact hout done rfl hleft
    | error e => exact absurd hleft List.not_mem_nil

namespace Filter

/-- What the filter of lists leaves over is settled by the changes alone. -/
theorem childOrder_leftover (s : Session ω) (changes : List InstanceChange) :
    Ensures ((childOrder s).deploy changes) (fun r => ∃ done, r = .ok done
      ∧ done.leftover = changes.filter (goesOn s.settings.filters.childOrder)) := by
  refine (Children.deployLists_leftover s.pool s.deployer s.settings.filters.childOrder
    changes).bind fun done hdone => .pure ?_
  exact ⟨done, rfl, hdone⟩

theorem returns_of_partition {f : Filter ω} (claims : InstanceChange → Bool)
    (h : ∀ handed, Ensures (f.deploy handed)
      (fun r => ∀ done, r = .ok done → done.leftover = (handed.partition claims).2)) :
    f.Returns := by
  intro handed
  refine (h handed).mono fun r hr done hdone => ?_
  rw [hr done hdone, List.partition_eq_filter_filter]
  exact List.filter_subset_self _

/-- The standard filters leave over what they were handed. -/
theorem standard_returns (s : Session ω) : ∀ f ∈ standard s, f.Returns := by
  have hall : ∀ handed : List InstanceChange,
      Ensures (pure (.ok { leftover := handed }) : StateM ω (Except Failure StageResult))
        (fun r => ∀ done, r = .ok done → done.leftover ⊆ handed) := by
    intro handed
    refine .pure fun done hdone => ?_
    obtain rfl := Except.ok.inj hdone
    exact List.Subset.refl handed
  unfold standard
  simp only [List.forall_mem_cons]
  refine ⟨hall, hall, hall, hall, ?_, ?_, ?_, nofun⟩
  · intro handed
    refine (childOrder_leftover s handed).mono ?_
    rintro r ⟨done, rfl, hleft⟩ _ hdone
    obtain rfl := Except.ok.inj hdone
    rw [hleft]
    exact List.filter_subset_self _
  · refine returns_of_partition (OrderInstances.claims s.settings.filters.orderInstances)
      fun handed => ?_
    refine Ensures.bind (P := fun routed => routed.leftover = (handed.partition _).2)
      ((Ensures.yields _).bind fun result _ => .pure rfl) fun routed hrouted => .pure ?_
    intro done hdone
    obtain rfl := Except.ok.inj hdone
    exact hrouted
  · refine returns_of_partition
      (fun c => s.settings.filters.removalLastTypes.contains c.typeName) fun handed => ?_
    refine (Ensures.yields _).bind fun result _ => .pure fun done hdone => ?_
    obtain rfl := Except.ok.inj hdone
    rfl

end Filter

/-! ## §2. Changes of nothing but lists. -/

/-- The snapshots of a parent differ in lists of its children and in nothing else. -/
structure Children.Reorders (rules : List ChildOrderRule) (before after : Instance) : Prop
    extends Comparable before after where
  nonempty : ∃ field, before.DiffersIn after field
  lists : ∀ field, before.DiffersIn after field →
    ∃ rule ∈ rules, rule.parentType = after.typeName ∧ rule.orderField = field
  children : ∀ field, before.DiffersIn after field →
    (∀ v, before.get? field = some v → ListsChildren v)
      ∧ ∀ v, after.get? field = some v → ListsChildren v

/-- A deployment is done with a parent by the positions of its children: the filter of lists never
leaves it over, it does not get to the deployer that would send it as a whole, and the rules
deploy changes of positions for it and nothing else. -/
structure DeployedByPosition (s : Session ω) (batch : List InstanceChange) (w : ω)
    (c : InstanceChange) : Prop where
  claimed : ∀ w', ∃ done,
    ((Filter.childOrder s).deploy
      ((Pipeline.ofFilters s (Filter.standard s)).prepare batch w).1.state w').1 = .ok done
    ∧ c ∉ done.leftover
  unsent : c ∉ ((Pipeline.ofFilters s (Filter.standard s)).claim batch w).1.leftover
  settled : ∃ earlier rule children,
    SettledBy s.settings.filters.childOrder c earlier rule children

namespace Children

theorem ListsChildren.listsReferences {v : Value} (h : ListsChildren v) : v.ListsReferences := by
  obtain ⟨items, rfl, hitems⟩ := h
  refine ⟨items, rfl, fun item hitem => ?_⟩
  obtain ⟨r, -, hr, -⟩ := hitems item hitem
  exact ⟨r, hr⟩

variable {rules : List ChildOrderRule} {before after before' after' : Instance}

theorem Comparable.edit (h : Comparable before after) (hbefore : Edit before before')
    (hafter : Edit after after') : Comparable before' after' where
  topLevel := by
    rw [hafter.id]
    exact h.topLevel
  sorted := hbefore.sorted h.sorted
  sorted' := hafter.sorted h.sorted'

/-- The lists that changed are spared by the filters before them. -/
theorem Reorders.spared (h : Reorders rules before after) (hbefore : Edit before before')
    (hafter : Edit after after') {field : String} (hne : before.DiffersIn after field) :
    before'.get? field = before.get? field ∧ after'.get? field = after.get? field := by
  obtain ⟨hlist, hlist'⟩ := h.children field hne
  exact ⟨hbefore.spared field fun v hv => (hlist v hv).listsReferences,
    hafter.spared field fun v hv => (hlist' v hv).listsReferences⟩

/-- If the filters before leave one field in which the snapshots differ, it is a list of children,
and a rule is done with the parent. -/
theorem Reorders.settled_of_only (h : Reorders rules before after) (hbefore : Edit before before')
    (hafter : Edit after after') {field : String}
    (honly : ∀ other, before'.DiffersIn after' other → other = field) :
    (∃ earlier first children,
      SettledBy rules (.modification before' after') earlier first children)
    ∧ goesOn rules (.modification before' after') = false := by
  -- a list changed, so it is the one field in which the snapshots differ now
  obtain ⟨list, hne⟩ := h.nonempty
  obtain ⟨hspared, hspared'⟩ := h.spared hbefore hafter hne
  have hne' : before'.DiffersIn after' list := by
    unfold Instance.DiffersIn
    rw [hspared, hspared']
    exact hne
  obtain rfl := honly list hne'
  obtain ⟨rule, hrule, hparent, rfl⟩ := h.lists list hne
  have htype : after'.typeName = after.typeName := congrArg ElementId.typeName hafter.type
  exact Children.settled_of_only (h.toComparable.edit hbefore hafter) hrule
    (hparent.trans htype.symm) hne' honly (hspared' ▸ (h.children _ hne).2)

/-- If the filters before leave two fields in which the snapshots differ, no rule is done with the
parent, as far as its lists can be read. -/
theorem Reorders.goesOn_of_two (h : Reorders rules before after) (hbefore : Edit before before')
    (hafter : Edit after after') {field other : String} (hne : before'.DiffersIn after' field)
    (hne' : before'.DiffersIn after' other) (hother : field ≠ other)
    (hlists : ∀ rule ∈ rules, rule.parentType = after.typeName →
      ∀ v, after.get? rule.orderField = some v → ListsChildren v) :
    goesOn rules (.modification before' after') = true := by
  have htype : after'.typeName = after.typeName := congrArg ElementId.typeName hafter.type
  refine Children.goesOn_of_two (h.toComparable.edit hbefore hafter) hne hne' hother ?_
  intro rule hrule hparent
  have hlist := hlists rule hrule (hparent.trans htype)
  rw [hafter.spared _ fun v hv => (hlist v hv).listsReferences]
  exact hlist

end Children

theorem Filter.childOrder_claims {s : Session ω} {c : InstanceChange}
    (h : goesOn s.settings.filters.childOrder c = false) (handed : List InstanceChange) :
    Ensures ((childOrder s).deploy handed) (fun r => ∃ done, r = .ok done ∧ c ∉ done.leftover) := by
  refine (childOrder_leftover s handed).mono ?_
  rintro r ⟨done, rfl, hleft⟩
  refine ⟨done, rfl, ?_⟩
  rw [hleft, List.mem_filter, h]
  exact fun hmem => absurd hmem.2 nofun

/-- What the filter of lists claims does not get to the deployer of the pipeline. -/
theorem Pipeline.claimed_by_lists {s : Session ω} {c : InstanceChange}
    (h : goesOn s.settings.filters.childOrder c = false) (batch : List InstanceChange) (w : ω) :
    c ∉ ((ofFilters s (Filter.standard s)).claim batch w).1.leftover := by
  obtain ⟨turns, hchain, -, -⟩ := (ofFilters s (Filter.standard s)).claim_chain batch w
  rw [ofFilters_filters] at hchain
  have hmem : Filter.childOrder s ∈ Filter.standard s := by
    simp [Filter.standard]
  refine hchain.not_mem_rest (Filter.standard_returns s) hmem rfl fun handed => ?_
  refine (Filter.childOrder_claims h handed).mono ?_
  rintro r ⟨done, rfl, hleft⟩ _ hdone
  obtain rfl := Except.ok.inj hdone
  exact hleft

/-- **A parent of which only lists of children changed is deployed by their positions if, once the
changes are prepared, one list is all in which its snapshots differ.**  The lists that changed
are the same then as they were, and without users and rewritten bodies there are no other
differences.  If there is a second one, be it in another list of children, the parent is left
over. -/
theorem reorders_by_position (s : Session ω) (batch : List InstanceChange) (w : ω) {n : Nat}
    {before after : Instance} (hn : batch[n]? = some (.modification before after))
    (h : Children.Reorders s.settings.filters.childOrder before after) :
    let prepared := ((Pipeline.ofFilters s (Filter.standard s)).prepare batch w).1.state
    ∃ before' after', prepared[n]? = some (.modification before' after')
      ∧ (∀ field, before.DiffersIn after field →
          before'.get? field = before.get? field ∧ after'.get? field = after.get? field)
      ∧ (Filter.Unconcerned s before after →
          ∀ field, before'.DiffersIn after' field → before.DiffersIn after field)
      ∧ ((∃ field, ∀ other, before'.DiffersIn after' other → other = field) →
          DeployedByPosition s batch w (.modification before' after'))
      ∧ (∀ field other, before'.DiffersIn after' field → before'.DiffersIn after' other →
          field ≠ other →
          (∀ rule ∈ s.settings.filters.childOrder, rule.parentType = after.typeName →
            ∀ v, after.get? rule.orderField = some v → ListsChildren v) →
          ∀ w', ∃ done, ((Filter.childOrder s).deploy prepared w').1 = .ok done
            ∧ .modification before' after' ∈ done.leftover) := by
  intro prepared
  obtain ⟨ids?, hstate⟩ := Pipeline.prepare_standard s batch w
  obtain ⟨before', after', hprepared, hbefore, hafter, hfree⟩ :=
    Filter.preparedChange_modification s ids? before after
  have hmem : prepared[n]? = some (.modification before' after') := by
    show ((Pipeline.ofFilters s (Filter.standard s)).prepare batch w).1.state[n]? = _
    rw [hstate, List.getElem?_map, hn, Option.map_some, hprepared]
  refine ⟨before', after', hmem, fun field hne => h.spared hbefore hafter hne, hfree, ?_, ?_⟩
  · rintro ⟨field, honly⟩
    obtain ⟨hsettled, hclaimed⟩ := h.settled_of_only hbefore hafter honly
    exact ⟨Filter.childOrder_claims hclaimed prepared,
      Pipeline.claimed_by_lists hclaimed batch w, hsettled⟩
  · intro field other hne hne' hother hlists w'
    have hgoes := h.goesOn_of_two hbefore hafter hne hne' hother hlists
    obtain ⟨done, hdone, hleft⟩ := Filter.childOrder_leftover s prepared w'
    refine ⟨done, hdone, ?_⟩
    rw [hleft]
    exact List.mem_filter.mpr ⟨List.mem_of_getElem? hmem, hgoes⟩

/-! ## §3. Two sections change places. -/

/-- A reference to a section whose identifier is known. -/
def Value.ofSection (name : String) (id : Int) : Value :=
  .reference (.to (.ofInstance "z" "section" name) (some (.map [("id", .number (.int id))])))

/-- A category with an author and sections. -/
def Instance.ofSections (sections : List Value) : Instance :=
  .named "c" (.ofType "z" "category") [("author", .string "ann@a"), ("sections", .list sections)]

/-- The category with its two sections. -/
def Instance.beforeSwap : Instance :=
  .ofSections [.ofSection "s" 1, .ofSection "t" 2]

/-- The sections have changed places. -/
def Instance.afterSwap : Instance :=
  .ofSections [.ofSection "t" 2, .ofSection "s" 1]

/-- An account that knows the author of a category by an identifier. -/
def Session.ofAuthors : Session Unit :=
  let user := Json.object [("email", .string "ann@a"), ("id", .number (.int 7))]
  { Session.ofSections with
    settings.filters.idReferences := [⟨"category", "author", "user", true⟩]
    client := ⟨fun _ => pure (.ok ⟨200, .object [("users", .array [user])]⟩)⟩ }

namespace Children

theorem listsChildren_ofSections (sections : List (String × Int)) :
    ListsChildren (.list (sections.map fun s => .ofSection s.1 s.2)) := by
  refine ⟨_, rfl, List.forall_mem_map.mpr fun s _ => ?_⟩
  exact ⟨_, _, rfl, rfl⟩

/-- The list of sections is all that changed. -/
theorem swap_only {field : String} (h : Instance.beforeSwap.DiffersIn .afterSwap field) :
    field = "sections" := by
  by_cases hsections : "sections" = field
  · exact hsections.symm
  · have hsame : Instance.beforeSwap.get? field = Instance.afterSwap.get? field := by
      show Dict.get? [("author", _), ("sections", _)] field
        = Dict.get? [("author", _), ("sections", _)] field
      by_cases hauthor : "author" = field
      · subst hauthor
        rfl
      · rw [Dict.get?_cons_of_ne hauthor, Dict.get?_cons_of_ne hsections,
          Dict.get?_cons_of_ne hauthor, Dict.get?_cons_of_ne hsections]
    unfold Instance.DiffersIn at h
    rw [hsame, Value.sameOption_refl] at h
    exact absurd h nofun

theorem swap_reorders :
    Reorders Session.ofSections.settings.filters.childOrder .beforeSwap .afterSwap where
  topLevel := rfl
  sorted := by decide
  sorted' := by decide
  nonempty := ⟨"sections", rfl⟩
  lists := by
    intro field hne
    obtain rfl := swap_only hne
    exact ⟨_, List.mem_singleton_self _, rfl, rfl⟩
  children := by
    intro field hne
    obtain rfl := swap_only hne
    constructor
    · intro v hv
      obtain rfl := Option.some.inj hv
      exact listsChildren_ofSections [("s", 1), ("t", 2)]
    · intro v hv
      obtain rfl := Option.some.inj hv
      exact listsChildren_ofSections [("t", 2), ("s", 1)]

end Children

/-- Without users the swap is deployed by the positions of the sections. -/
theorem reorders_by_position_for_swap :
    let batch : List InstanceChange := [.modification .beforeSwap .afterSwap]
    Children.Reorders Session.ofSections.settings.filters.childOrder .beforeSwap .afterSwap
      ∧ DeployedByPosition .ofSections batch () (.modification .beforeSwap .afterSwap) := by
  intro batch
  obtain ⟨before', after', hprepared, -, hfree, hdone, -⟩ :=
    reorders_by_position .ofSections batch () (n := 0) rfl Children.swap_reorders
  have hunconcerned : Filter.Unconcerned Session.ofSections .beforeSwap .afterSwap :=
    ⟨rfl, nofun⟩
  obtain ⟨rfl, rfl⟩ := Change.modification.inj (Option.some.inj hprepared)
  refine ⟨Children.swap_reorders, hdone ⟨"sections", fun other hne => ?_⟩⟩
  exact Children.swap_only (hfree hunconcerned other hne)

/-- If the author is replaced by an identifier, the category is left over and sent as a whole:
nothing but its list changed, but by then its snapshots differ in the author as well. -/
theorem reorder_left_over :
    let s := Session.ofAuthors
    let p := Pipeline.ofFilters s (Filter.standard s)
    let batch : List InstanceChange := [.modification .beforeSwap .afterSwap]
    Children.Reorders s.settings.filters.childOrder .beforeSwap .afterSwap
      ∧ (∃ done, ((Filter.childOrder s).deploy (p.prepare batch ()).1.state ()).1 = .ok done
        ∧ changedIds done.leftover = [.ofInstance "z" "category" "c"])
      ∧ changedIds (p.claim batch ()).1.leftover = [.ofInstance "z" "category" "c"] := by
  intro s p batch
  obtain ⟨done, hdone, hleft⟩ := Filter.childOrder_leftover s (p.prepare batch ()).1.state ()
  refine ⟨Children.swap_reorders, ⟨done, hdone, ?_⟩, by decide +kernel⟩
  rw [hleft]
  decide +kernel

end AccountSync
