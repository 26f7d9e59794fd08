/-
  AccountSync.Proofs.Users.Reversal
  ─────────────────────────────────
  **ADDRESSES OF USERS COME BACK.**

  Before a deployment addresses of users are replaced, rule after rule, and of every field
  that a rule touches the value of that moment is kept.  Several rules may touch one field;
  the first value that was kept is then the original one, and it is put back last.

      Exchange.Replaces        — which fields are touched, said of the original change alone
      Exchange.putBack_get?    — what putting values back comes to, field by field
      Exchange.Undone          — a deployed change with its fields back
      addresses_come_back      — what is prepared, deployed in part and restored
-/
import AccountSync.Proofs.Change.Snapshots
import AccountSync.Proofs.Dict
import AccountSync.Proofs.ElementId.FullName
import AccountSync.Proofs.Filter.Prepared

namespace AccountSync

open List (Forall₂)
open scoped List

variable {ω : Type}

/-! ## §1. Identifiers of changes. -/

theorem changedIds_of_forall₂ {chosen deployed : List InstanceChange}
    (h : Forall₂ (fun c c' => InstanceChange.id c' = c.id ∧ c'.action = c.action)
      chosen deployed) : changedIds deployed = changedIds chosen := by
  induction h with
  | nil => rfl
  | cons hfirst _ ih => rw [changedIds_cons, changedIds_cons, hfirst.1, ih]

namespace Exchange

/-! ## §2. Putting values back. -/

theorem putBack_cons (field : String) (v : Value) (saved : SavedFields) (i : Instance) :
    putBack ((field, v) :: saved) i = (putBack saved i).set field v := by
  unfold putBack
  rw [List.reverse_cons, List.foldl_append]
  rfl

/-- Of the values that were kept of a field, the first one is there in the end. -/
theorem putBack_get? (saved : SavedFields) (i : Instance) (field : String) :
    (putBack saved i).get? field = (Dict.get? saved field).or (i.get? field) := by
  induction saved with
  | nil => rfl
  | cons e rest ih =>
    obtain ⟨k, v⟩ := e
    rw [putBack_cons]
    by_cases hk : k = field
    · subst hk
      rw [Instance.get?_set_self, Dict.get?_cons_self, Option.some_or]
    · rw [Instance.get?_set_of_ne _ hk, Dict.get?_cons_of_ne hk, ih]

/-- Nothing but values of fields is put back. -/
theorem putBack_refilled (saved : SavedFields) (i : Instance) : i.Refilled (putBack saved i) := by
  induction saved with
  | nil => exact .refl i
  | cons e rest ih =>
    rw [putBack_cons]
    exact ih.trans (.set _ e.1 e.2)

/-! ## §3. Fields in which addresses are replaced. -/

/-- Some rule leads to an address in the field that has an identifier. -/
def Replaces (ids : UserIds) (rules : List IdReferenceRule) (i : Instance) (field : String) :
    Prop :=
  ∃ rule ∈ rules, ∃ below v, rule.path = field :: below ∧ i.get? field = some v
    ∧ (v.leavesAt below).any ids.covers = true

/-- Whether a field is touched depends on that field alone. -/
theorem replaces_of_get? {ids : UserIds} {rules : List IdReferenceRule} {i j : Instance}
    {field : String} (h : i.get? field = j.get? field) (hi : Replaces ids rules i field) :
    Replaces ids rules j field := by
  obtain ⟨rule, hrule, below, v, hpath, hv, hany⟩ := hi
  exact ⟨rule, hrule, below, v, hpath, h ▸ hv, hany⟩

/-- What a path does to an instance: nothing, as it leads to no address that has an identifier; or
it touches the one field that it starts with, and the value of that field is kept. -/
theorem applyAt_cases (ids : UserIds) (path : List String) (i : Instance) :
    (applyAt ids path i = (i, [])
      ∧ ∀ field below v, path = field :: below → i.get? field = some v →
        (v.leavesAt below).any ids.covers = false)
    ∨ ∃ field below v, path = field :: below ∧ i.get? field = some v
      ∧ (v.leavesAt below).any ids.covers = true
      ∧ applyAt ids path i = (i.set field (v.mapLeavesAt ids.replace below), [(field, v)]) := by
  cases path with
  | nil => exact .inl ⟨rfl, nofun⟩
  | cons field below =>
    unfold applyAt
    dsimp only
    cases hv : i.get? field with
    | none =>
      refine .inl ⟨rfl, fun _ _ v hpath hv' => ?_⟩
      obtain ⟨rfl, rfl⟩ := List.cons.inj hpath
      exact absurd (hv.symm.trans hv') nofun
    | some v =>
      cases hany : (v.leavesAt below).any ids.covers with
      | true => exact .inr ⟨field, below, v, rfl, hv, hany, by simp [hany]⟩
      | false =>
        refine .inl ⟨by simp [hany], fun _ _ v' hpath hv' => ?_⟩
        obtain ⟨rfl, rfl⟩ := List.cons.inj hpath
        obtain rfl := Option.some.inj (hv.symm.trans hv')
        exact hany

theorem applyRules_cons (ids : UserIds) (rule : IdReferenceRule) (rules : List IdReferenceRule)
    (i : Instance) :
    applyRules ids (rule :: rules) i
      = ((applyRules ids rules (applyAt ids rule.path i).1).1,
        (applyAt ids rule.path i).2 ++ (applyRules ids rules (applyAt ids rule.path i).1).2) :=
  rfl

/-- Of a field that is touched the original value is kept first. -/
theorem saved_of_replaces {ids : UserIds} {rules : List IdReferenceRule} {i : Instance}
    {field : String} (h : Replaces ids rules i field) :
    Dict.get? (applyRules ids rules i).2 field = i.get? field := by
  -- along the rules: until the first one touches the field, it has its original value
  induction rules generalizing i with
  | nil =>
    obtain ⟨rule, hrule, -⟩ := h
    exact absurd hrule List.not_mem_nil
  | cons first rest ih =>
    rw [applyRules_cons]
    rcases applyAt_cases ids first.path i with
      ⟨hsame, hnone⟩ | ⟨touched, below, v, hpath, hv, -, hset⟩
    · -- the first rule finds nothing, so it is another one that touches the field
      rw [hsame]
      refine ih ?_
      obtain ⟨rule, hrule, below, v, hpath, hv, hany⟩ := h
      rcases List.mem_cons.mp hrule with rfl | hrule
      · rw [hnone field below v hpath hv] at hany
        exact absurd hany nofun
      · exact ⟨rule, hrule, below, v, hpath, hv, hany⟩
    · rw [hset]
      show Dict.get? ((touched, v) :: _) field = _
      by_cases heq : touched = field
      · subst heq
        rw [Dict.get?_cons_self, hv]
      · -- the first rule touches another field and leaves this one as it is
        have hkept := Instance.get?_set_of_ne i heq (v.mapLeavesAt ids.replace below)
        rw [Dict.get?_cons_of_ne heq, ← hkept]
        refine ih (replaces_of_get? hkept.symm ?_)
        obtain ⟨rule, hrule, below', v', hpath', hv', hany'⟩ := h
        rcases List.mem_cons.mp hrule with rfl | hrule
        · exact absurd (List.cons.inj (hpath.symm.trans hpath')).1 heq
        · exact ⟨rule, hrule, below', v', hpath', hv', hany'⟩

/-- Of other fields nothing is kept, and they stay as they are. -/
theorem saved_of_not_replaces {ids : UserIds} {rules : List IdReferenceRule} {i : Instance}
    {field : String} (h : ¬Replaces ids rules i field) :
    Dict.get? (applyRules ids rules i).2 field = none
      ∧ (applyRules ids rules i).1.get? field = i.get? field := by
  -- along the rules: the field keeps its value, so later rules find as little in it
  induction rules generalizing i with
  | nil => exact ⟨rfl, rfl⟩
  | cons first rest ih =>
    have hrest : ¬Replaces ids rest i field := fun ⟨rule, hrule, hmore⟩ =>
      h ⟨rule, List.mem_cons_of_mem first hrule, hmore⟩
    rw [applyRules_cons]
    rcases applyAt_cases ids first.path i with
      ⟨hsame, -⟩ | ⟨touched, below, v, hpath, hv, hany, hset⟩
    · rw [hsame]
      exact ih hrest
    · have heq : touched ≠ field := by
        rintro rfl
        exact h ⟨first, List.mem_cons_self, below, v, hpath, hv, hany⟩
      have hkept := Instance.get?_set_of_ne i heq (v.mapLeavesAt ids.replace below)
      obtain ⟨hnone, hsame⟩ := ih (fun hi => hrest (replaces_of_get? hkept hi))
      rw [hset]
      show Dict.get? ((touched, v) :: _) field = none ∧ _
      rw [Dict.get?_cons_of_ne heq]
      exact ⟨hnone, hsame.trans hkept⟩

/-- Nothing but values of fields is replaced. -/
theorem applyRules_refilled (ids : UserIds) (rules : List IdReferenceRule) (i : Instance) :
    i.Refilled (applyRules ids rules i).1 := by
  induction rules generalizing i with
  | nil => exact .refl i
  | cons first rest ih =>
    rw [applyRules_cons]
    rcases applyAt_cases ids first.path i with ⟨hsame, -⟩ | ⟨field, below, v, -, -, -, hset⟩
    · rw [hsame]
      exact ih i
    · rw [hset]
      exact (Instance.Refilled.set i field _).trans (ih _)

/-! ## §4. What is kept of a batch. -/

/-- The fields of a change that are kept. -/
def savedOf (rules : List IdReferenceRule) (ids : UserIds) (c : InstanceChange) : SavedFields :=
  if c.isRemoval then [] else (applyRules ids (rulesFor rules c.typeName) c.data).2

/-- The fields that are kept of an element. -/
def keptOf (kept : Dict SavedFields) (id : ElementId) : SavedFields :=
  (Dict.get? kept id.fullName).getD []

theorem keptOf_keep_of_ne {id other : ElementId} (h : id ≠ other) (kept : Dict SavedFields)
    (saved : SavedFields) : keptOf (keep kept id saved) other = keptOf kept other := by
  unfold keep keptOf
  split
  · rfl
  · rw [Dict.get?_insert_of_ne _ fun hname => h (ElementId.fullName_injective hname)]

theorem keptOf_keep_self {id : ElementId} {kept : Dict SavedFields} (h : keptOf kept id = [])
    (saved : SavedFields) : keptOf (keep kept id saved) id = saved := by
  unfold keep
  split
  next hempty => rw [h, List.isEmpty_iff.mp hempty]
  · show (Dict.get? (Dict.insert kept _ (keptOf kept id ++ saved)) id.fullName).getD [] = saved
    rw [Dict.get?_insert_self, h]
    rfl

/-- One change after the other is prepared, and its fields are kept. -/
theorem apply_cons_kept (rules : List IdReferenceRule) (ids : UserIds) (c : InstanceChange)
    (rest : List InstanceChange) (kept : Dict SavedFields) :
    (apply rules ids (c :: rest) kept).2
      = (apply rules ids rest (keep kept c.id (savedOf rules ids c))).2 := by
  rw [apply]
  unfold savedOf
  split
  · rfl
  · show (apply rules ids rest (keep kept (applyRules ids _ c.data).1.id _)).2 = _
    rw [applyRules_id]
    rfl

theorem apply_keptOf_of_not_mem (rules : List IdReferenceRule) (ids : UserIds)
    {changes : List InstanceChange} {id : ElementId} (h : id ∉ changedIds changes)
    (kept : Dict SavedFields) : keptOf (apply rules ids changes kept).2 id = keptOf kept id := by
  induction changes generalizing kept with
  | nil => rfl
  | cons c rest ih =>
    rw [changedIds_cons, List.mem_cons, not_or] at h
    obtain ⟨hne, hrest⟩ := h
    rw [apply_cons_kept, ih hrest, keptOf_keep_of_ne (Ne.symm hne)]

/-- Of each change of a batch its own fields are kept, and no others. -/
theorem apply_keptOf (rules : List IdReferenceRule) (ids : UserIds)
    {changes : List InstanceChange} (hdistinct : (changedIds changes).Nodup)
    {kept : Dict SavedFields} (hfresh : ∀ c ∈ changes, keptOf kept c.id = []) :
    ∀ c ∈ changes, keptOf (apply rules ids changes kept).2 c.id = savedOf rules ids c := by
  induction changes generalizing kept with
  | nil => exact fun c hc => absurd hc List.not_mem_nil
  | cons first rest ih =>
    obtain ⟨hfirst, hrest⟩ := List.nodup_cons.mp hdistinct
    intro c hc
    rw [apply_cons_kept]
    rcases List.mem_cons.mp hc with rfl | hc
    · -- the changes after it are about other elements
      rw [apply_keptOf_of_not_mem rules ids hfirst]
      exact keptOf_keep_self (hfresh c List.mem_cons_self) _
    · refine ih hrest (fun d hd => ?_) c hc
      have hne : first.id ≠ d.id := fun heq => hfirst (heq ▸ List.mem_map_of_mem hd)
      rw [keptOf_keep_of_ne hne]
      exact hfresh d (List.mem_cons_of_mem first hd)

/-! ## §5. What is restored. -/

/-- A change with the fields put back that are kept of its element. -/
def restoredChange (kept : Dict SavedFields) (c : InstanceChange) : InstanceChange :=
  if c.isRemoval then c else c.setData (putBack (keptOf kept c.id) c.data)

/-- Changes of different elements are restored each by itself. -/
theorem restore_eq_map {changes : List InstanceChange} (hdistinct : (changedIds changes).Nodup)
    (kept : Dict SavedFields) :
    (restore changes kept).1 = changes.map (restoredChange kept) := by
  induction changes generalizing kept with
  | nil => rfl
  | cons c rest ih =>
    obtain ⟨hfirst, hrest⟩ := List.nodup_cons.mp hdistinct
    rw [List.map_cons]
    unfold restore
    split
    next hnone =>
      -- nothing is put back: it is a removal, or nothing is kept of it
      have hc : restoredChange kept c = c := by
        unfold restoredChange
        split
        · rfl
        next hremoval =>
          rw [if_neg hremoval] at hnone
          unfold keptOf
          rw [hnone]
          exact c.setData_self
      rw [hc]
      exact congrArg (c :: ·) (ih hrest kept)
    next saved hsaved =>
      have hremoval : ¬c.isRemoval = true := by
        intro hremoval
        rw [if_pos hremoval] at hsaved
        exact absurd hsaved nofun
      have hc : restoredChange kept c = c.setData (putBack saved c.data) := by
        unfold restoredChange keptOf
        rw [if_neg hremoval] at hsaved ⊢
        rw [hsaved, Option.getD_some]
      rw [hc]
      show c.setData _ :: (restore rest (Dict.erase kept c.id.fullName)).1 = _
      rw [ih hrest]
      refine congrArg (c.setData _ :: ·) (List.map_congr_left fun d hd => ?_)
      -- forgetting the fields of this change leaves those of the others
      have hne : c.id.fullName ≠ d.id.fullName := fun hname =>
        hfirst (ElementId.fullName_injective hname ▸ List.mem_map_of_mem hd)
      unfold restoredChange keptOf
      rw [Dict.get?_erase_of_ne kept hne]

/-- The second change is the first one with other values of fields in the snapshot that counts; a
removal is literally the same. -/
structure Refilled (c d : InstanceChange) : Prop where
  action : d.action = c.action
  before : d.before? = c.before?
  data : c.data.Refilled d.data
  removal : c.isRemoval = true → d = c

namespace Refilled

theorem refl (c : InstanceChange) : Refilled c c :=
  ⟨rfl, rfl, .refl c.data, fun _ => rfl⟩

theorem setData {c : InstanceChange} (hc : c.isRemoval = false) {i : Instance}
    (h : c.data.Refilled i) : Refilled c (c.setData i) where
  action := c.setData_action i
  before := Change.setData_before? hc i
  data := by
    rw [Change.setData_data]
    exact h
  removal := fun hremoval => absurd (hc.symm.trans hremoval) nofun

/-- It is about the same element. -/
theorem id {c d : InstanceChange} (h : Refilled c d) : InstanceChange.id d = c.id :=
  h.data.id

end Refilled

/-- A change with addresses replaced in some of its fields. -/
structure Prepared (touched : String → Prop) (original prepared : InstanceChange) : Prop
    extends Refilled original prepared where
  others : ∀ field, ¬touched field → prepared.data.get? field = original.data.get? field

/-- A deployed change with the fields put back in which addresses were replaced: they have their
original values, and the others are as the deployment left them. -/
structure Undone (touched : String → Prop) (original deployed restored : InstanceChange) : Prop
    extends Refilled deployed restored where
  originals : ∀ field, touched field → restored.data.get? field = original.data.get? field
  others : ∀ field, ¬touched field → restored.data.get? field = deployed.data.get? field

/-- The fields of a change in which addresses are replaced, given the identifiers of users if they
are known. -/
def ReplacedIn (rules : List IdReferenceRule) (ids? : Option UserIds) (c : InstanceChange)
    (field : String) : Prop :=
  c.isRemoval = false
    ∧ ∃ ids, ids? = some ids ∧ Replaces ids (rulesFor rules c.typeName) c.data field

/-- The fields that are kept of a change, given the identifiers of users if they are known. -/
def savedIn (rules : List IdReferenceRule) (ids? : Option UserIds) (c : InstanceChange) :
    SavedFields :=
  match ids? with
  | none => []
  | some ids => savedOf rules ids c

theorem savedIn_of_replacedIn {rules : List IdReferenceRule} {ids? : Option UserIds}
    {c : InstanceChange} {field : String} (h : ReplacedIn rules ids? c field) :
    Dict.get? (savedIn rules ids? c) field = c.data.get? field
      ∧ (c.data.get? field).isSome := by
  obtain ⟨hremoval, ids, rfl, hreplaces⟩ := h
  have hsaved := saved_of_replaces hreplaces
  obtain ⟨-, -, -, v, -, hv, -⟩ := hreplaces
  refine ⟨?_, by rw [hv]; rfl⟩
  show Dict.get? (savedOf rules ids c) field = _
  unfold savedOf
  rw [hremoval]
  exact hsaved

theorem savedIn_of_not_replacedIn {rules : List IdReferenceRule} {ids? : Option UserIds}
    {c : InstanceChange} {field : String} (h : ¬ReplacedIn rules ids? c field) :
    Dict.get? (savedIn rules ids? c) field = none := by
  unfold savedIn
  cases ids? with
  | none => rfl
  | some ids =>
    dsimp only
    unfold savedOf
    split
    · rfl
    next hremoval =>
      exact (saved_of_not_replaces fun hreplaces =>
        h ⟨Bool.eq_false_iff.mpr hremoval, ids, rfl, hreplaces⟩).1

/-- What is restored from the fields that are kept of a change is that change again, as far as it
was touched. -/
theorem undone_of_kept {rules : List IdReferenceRule} {ids? : Option UserIds}
    {kept : Dict SavedFields} {c c' : InstanceChange}
    (hkept : keptOf kept c.id = savedIn rules ids? c) (hid : c'.id = c.id)
    (haction : c'.action = c.action) :
    Undone (ReplacedIn rules ids? c) c c' (restoredChange kept c') := by
  have hremoval : c'.isRemoval = c.isRemoval := Change.isRemoval_of_action haction
  unfold restoredChange
  split
  next hc =>
    -- a removal is left alone, and none of its fields is touched
    refine ⟨.refl c', fun field hfield => ?_, fun _ _ => rfl⟩
    exact absurd (hc.symm.trans (hremoval.trans hfield.1)) nofun
  next hc =>
    rw [hid, hkept]
    have hdata : ∀ field, (c'.setData (putBack (savedIn rules ids? c) c'.data)).data.get? field
        = (Dict.get? (savedIn rules ids? c) field).or (c'.data.get? field) := by
      intro field
      rw [Change.setData_data, putBack_get?]
    refine ⟨.setData (Bool.eq_false_iff.mpr hc) (putBack_refilled _ c'.data), ?_, ?_⟩
    · intro field hfield
      obtain ⟨hsaved, hsome⟩ := savedIn_of_replacedIn hfield
      rw [hdata, hsaved]
      exact Option.or_of_isSome hsome
    · intro field hfield
      rw [hdata, savedIn_of_not_replacedIn hfield, Option.none_or]

/-- The same for each of several changes. -/
theorem undone_of_all_kept {rules : List IdReferenceRule} {ids? : Option UserIds}
    {kept : Dict SavedFields} {chosen deployed : List InstanceChange}
    (hdeployed : Forall₂ (fun c c' => InstanceChange.id c' = c.id ∧ c'.action = c.action)
      chosen deployed)
    (hkept : ∀ c ∈ chosen, keptOf kept c.id = savedIn rules ids? c) :
    Forall₂ (fun pair r => Undone (ReplacedIn rules ids? pair.1) pair.1 pair.2 r)
      (chosen.zip deployed) (deployed.map (restoredChange kept)) := by
  induction hdeployed with
  | nil => exact .nil
  | cons hfirst _ ih =>
    obtain ⟨hc, hrest⟩ := List.forall_mem_cons.mp hkept
    exact .cons (undone_of_kept hc hfirst.1 hfirst.2) (ih hrest)

/-! ## §6. What is prepared. -/

/-- A prepared change differs from the original one in the values of touched fields alone. -/
theorem exchanged_prepared (rules : List IdReferenceRule) (ids? : Option UserIds)
    (c : InstanceChange) : Prepared (ReplacedIn rules ids? c) c (exchanged rules ids? c) := by
  cases ids? with
  | none => exact ⟨.refl c, fun _ _ => rfl⟩
  | some ids =>
    unfold exchanged
    dsimp only
    split
    · exact ⟨.refl c, fun _ _ => rfl⟩
    next hc =>
      have hremoval : c.isRemoval = false := Bool.eq_false_iff.mpr hc
      refine ⟨.setData hremoval (applyRules_refilled ids _ c.data), fun field hfield => ?_⟩
      rw [Change.setData_data]
      exact (saved_of_not_replaces fun hreplaces => hfield ⟨hremoval, ids, rfl, hreplaces⟩).2

/-- A prepared change that is undone is the original one. -/
theorem eq_of_undone {touched : String → Prop} {c p r : InstanceChange}
    (hsorted : Dict.Sorted c.data.value) (hprepared : Prepared touched c p)
    (hundone : Undone touched c p r) : r = c := by
  have hget : ∀ field, r.data.get? field = c.data.get? field := by
    intro field
    by_cases hfield : touched field
    · exact hundone.originals field hfield
    · rw [hundone.others field hfield, hprepared.others field hfield]
  have hdata : r.data = c.data := (hprepared.data.trans hundone.data).eq_of_get? hsorted hget
  exact Change.ext_of (hundone.action.trans hprepared.action)
    (hundone.before.trans hprepared.before) hdata

end Exchange

/-- The filter of users prepares each change by itself, and what it keeps of each is what it
replaces. -/
theorem Filter.exchangeUsers_spec (s : Session ω) {batch : List InstanceChange} {memory : Memory}
    (hdistinct : (changedIds batch).Nodup)
    (hfresh : ∀ c ∈ batch, Dict.get? memory.saved c.id.fullName = none) (w : ω) :
    let done := (exchangeUsers s batch memory w).1
    let rules := s.settings.filters.idReferences
    ∃ ids?, (∀ ids, ids? = some ids → done.memory.userIds = some ids.known)
      ∧ done.state = batch.map (Exchange.exchanged rules ids?)
      ∧ ∀ c ∈ batch, Exchange.keptOf done.memory.saved c.id = Exchange.savedIn rules ids? c := by
  intro done rules
  have hfresh' : ∀ c ∈ batch, Exchange.keptOf memory.saved c.id = [] := by
    intro c hc
    unfold Exchange.keptOf
    rw [hfresh c hc]
    rfl
  rcases exchangeUsers_cases s batch memory w with ⟨hstate, hsaved⟩ | ⟨ids, -, hknown, hwork⟩
  · refine ⟨none, nofun, hstate.trans (List.map_id batch).symm, ?_⟩
    rw [hsaved]
    exact hfresh'
  · obtain ⟨hstate, hsaved⟩ := Prod.ext_iff.mp hwork
    refine ⟨some ids, ?_, hstate.trans (Exchange.apply_eq_map rules ids batch memory.saved), ?_⟩
    · rintro _ ⟨⟩
      exact hknown
    · rw [show done.memory.saved = _ from hsaved]
      exact Exchange.apply_keptOf rules ids hdistinct hfresh'

/-! ## §7. Addresses come back. -/

/-- Before a deployment the filter of users prepares a batch of changes of different elements.  If
some of the changes are then deployed, in any order, and come out about the same elements with
whatever fields, then afterwards every field in which addresses were replaced has its original
value, and every other field is left as the deployment left it.  Removals and snapshots from before
are never touched, and if the deployment leaves everything alone then the batch is back. -/
theorem addresses_come_back (s : Session ω) {batch : List InstanceChange} {memory : Memory}
    (hdistinct : (changedIds batch).Nodup)
    (hfresh : ∀ c ∈ batch, Dict.get? memory.saved c.id.fullName = none) (w : ω) :
    let done := (Filter.exchangeUsers s batch memory w).1
    let rules := s.settings.filters.idReferences
    ∃ ids?, (∀ ids, ids? = some ids → done.memory.userIds = some ids.known)
      ∧ done.state = batch.map (Exchange.exchanged rules ids?)
      ∧ (∀ c ∈ batch, Exchange.Prepared (Exchange.ReplacedIn rules ids? c) c
          (Exchange.exchanged rules ids? c))
      ∧ (∀ chosen deployed (w' : ω), chosen <+~ batch →
          Forall₂ (fun c c' => InstanceChange.id c' = c.id ∧ c'.action = c.action)
            chosen deployed →
          let back := (Filter.restoreUsers deployed done.memory w').1
          back.result = .ok ()
            ∧ Forall₂ (fun pair r =>
                Exchange.Undone (Exchange.ReplacedIn rules ids? pair.1) pair.1 pair.2 r)
              (chosen.zip deployed) back.state)
      ∧ ((∀ c ∈ batch, Dict.Sorted c.data.value) →
          ∀ w' : ω, (Filter.restoreUsers done.state done.memory w').1.state = batch) := by
  intro done rules
  obtain ⟨ids?, hknown, hstate, hkept⟩ := Filter.exchangeUsers_spec s hdistinct hfresh w
  have hprepared (c : InstanceChange) := Exchange.exchanged_prepared rules ids? c
  refine ⟨ids?, hknown, hstate, fun c _ => hprepared c, ?_, ?_⟩
  · intro chosen deployed w' hchosen hdeployed
    -- what is deployed is about different elements, as it is about elements of the batch
    have hids : changedIds deployed = changedIds chosen := changedIds_of_forall₂ hdeployed
    have hdistinct' : (changedIds deployed).Nodup := by
      obtain ⟨part, hperm, hpart⟩ := hchosen
      rw [hids]
      exact (hperm.map _).nodup_iff.mp (hdistinct.sublist (hpart.map InstanceChange.id))
    refine ⟨rfl, ?_⟩
    show Forall₂ _ _ (Exchange.restore deployed done.memory.saved).1
    rw [Exchange.restore_eq_map hdistinct']
    exact Exchange.undone_of_all_kept hdeployed fun c hc => hkept c (hchosen.subset hc)
  · intro hsorted w'
    show (Exchange.restore done.state done.memory.saved).1 = batch
    have hids : changedIds done.state = changedIds batch := by
      rw [hstate]
      unfold changedIds
      rw [List.map_map]
      exact List.map_congr_left fun c _ => (hprepared c).id
    rw [Exchange.restore_eq_map (hids ▸ hdistinct), hstate, List.map_map]
    refine (List.map_congr_left fun c hc => ?_).trans (List.map_id batch)
    have hundone := Exchange.undone_of_kept (hkept c hc) (hprepared c).id (hprepared c).action
    exact Exchange.eq_of_undone (hsorted c hc) (hprepared c) hundone

/-- An account that knows one user, who stands in for all others. -/
def Session.ofTickets : Session Unit where
  settings := {
    adapter := "z"
    client := { baseUrl := "https://a" }
    deploy := { missingUserFallback := some "ann@a" }
    filters := {
      idReferences := [⟨"ticket", "people.agent", "user", true⟩,
        ⟨"ticket", "people.watchers", "user", true⟩] } }
  client :=
    let user := Json.object [("email", .string "ann@a"), ("id", .number (.int 7))]
    ⟨fun _ => pure (.ok ⟨200, .object [("users", .array [user])]⟩)⟩
  next := .eager

/-- A ticket with an agent and a watcher. -/
def InstanceChange.newTicket : InstanceChange :=
  .addition (.named "t" (.ofType "z" "ticket")
    [("people", .map [("agent", .string "ann@a"), ("watchers", .list [.string "bob@a"])])])

/-- Two rules are about the people of a ticket, one of them about a list, and the watcher is not
known.  The field is kept twice, and it comes back as it was. -/
theorem addresses_come_back_for_ticket :
    let batch := [InstanceChange.newTicket]
    let done := (Filter.exchangeUsers .ofTickets batch {} ()).1
    (changedIds batch).Nodup
      ∧ done.memory.saved.map (fun e => (e.1, e.2.map Prod.fst))
        = [("z.ticket.instance.t", ["people", "people"])]
      ∧ (Filter.restoreUsers done.state done.memory ()).1.state = batch := by
  intro batch done
  have hdistinct : (changedIds batch).Nodup := List.pairwise_singleton _ _
  have hfresh : ∀ c ∈ batch, Dict.get? (Memory.saved {}) c.id.fullName = none := fun _ _ => rfl
  obtain ⟨ids?, -, -, -, -, hsame⟩ := addresses_come_back .ofTickets hdistinct hfresh ()
  have hsorted : ∀ c ∈ batch, Dict.Sorted c.data.value := by
    intro c hc
    obtain rfl := List.mem_singleton.mp hc
    decide
  refine ⟨hdistinct, by decide +kernel, ?_⟩
  unfold done
  exact hsame hsorted ()

end AccountSync
