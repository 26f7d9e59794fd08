/-
  AccountSync.Proofs.Lookup.Unlisted
  ──────────────────────────────────
  **IDENTIFIERS OF USERS THAT THE ACCOUNT DOES NOT LIST.**

  If the account does not list its users, a fetch goes on without them.  An identifier then
  stands for an instance or for nothing that is known.  What no rule finds an instance for
  stays as it was fetched, but only where there are no placeholders: where there are, an
  identifier of a user becomes a reference to one.

      Identifiers.Finds             — a rule finds an instance with an identifier
      Identifiers.followed          — what becomes of one value, rule after rule
      Identifiers.resolved_followed — it is what all elements hold in the end
      Identifiers.PassedOver        — no rule finds the identifier when its turn comes
      Identifiers.Unlisted          — what becomes of an identifier without users
      users_unlisted                — the filter of identifiers, if users are not listed
      user_id_replaced              — an identifier of a user that does not stay
-/
import AccountSync.Proofs.Lookup.Identifiers
import AccountSync.Proofs.Lookup.Resolution

namespace AccountSync

open List (Forall₂)
open Value (Position)

variable {ω : Type}

namespace Identifiers

/-! ## §1. One identifier and one rule. -/

/-- An instance of the rule's target type has the identifier. -/
def Finds (rule : IdReferenceRule) (elements : List Element) (key : String) : Prop :=
  ∃ i ∈ Element.instancesOf elements rule.targetType, LookupTable.fieldKey? "id" i = some key

/-- What a rule makes of a value while no user is known. -/
def withoutUsers (settings : Settings) (rule : IdReferenceRule) (elements : List Element) :
    Value → Value :=
  resolvedValue (resolver settings (userTable []) rule elements) rule.targetType

variable {settings : Settings} {rule : IdReferenceRule} {elements : List Element} {raw v : Value}
  {key : String}

/-- Without users the tables know instances only. -/
theorem tables_withoutUsers (settings : Settings) (rule : IdReferenceRule)
    (elements : List Element) (key : String) :
    (resolver settings (userTable []) rule elements).tables.findSome? (fun t => t.find? key)
      = (instanceTable rule.targetType elements).find? key := by
  unfold resolver
  dsimp only
  rw [List.findSome?_cons]
  cases (instanceTable rule.targetType elements).find? key with
  | some target => rfl
  | none => cases rule.users <;> rfl

/-- Only scalars are looked up. -/
theorem withoutUsers_of_no_key (h : v.keyText? = none) :
    withoutUsers settings rule elements v = v := by
  cases v with
  | string | number => exact absurd h nofun
  | bool b => cases b <;> exact absurd h nofun
  | _ => rfl

theorem withoutUsers_of_key (h : raw.keyText? = some key) :
    withoutUsers settings rule elements raw
      = match (resolver settings (userTable []) rule elements).resolve key rule.targetType with
        | .unresolved _ => raw
        | found => found.value := by
  unfold withoutUsers resolvedValue Resolver.resolveValue?
  rw [h]
  cases raw with
  | reference r => exact absurd h nofun
  | _ =>
    rw [Option.map_some]
    cases (resolver settings (userTable []) rule elements).resolve key rule.targetType <;> rfl

/-- If the rule finds an instance, the identifier becomes a reference to one. -/
theorem withoutUsers_of_finds (hkey : raw.keyText? = some key) (h : Finds rule elements key) :
    ∃ m, withoutUsers settings rule elements raw = .reference m := by
  obtain ⟨i, hi, hid⟩ := h
  have hlast := LookupTable.lastUnder_ofInstances (rule.targetType ++ "_by_id")
    (LookupTable.fieldKey? "id") (Element.instancesOf elements rule.targetType) key
  have hfind := tables_withoutUsers settings rule elements key
  unfold instanceTable at hfind
  generalize LookupTable.find? _ key = found at hlast hfind
  cases hlast with
  | nothing hnone => exact absurd hid (hnone i hi)
  | @last before after i' hsplit hid' hafter =>
    rw [withoutUsers_of_key hkey, Resolver.resolve_of_known hfind]
    exact ⟨i'.reference, rfl⟩

/-- If it finds none, there is nothing but a placeholder that the identifier may become. -/
theorem withoutUsers_of_not_finds (hkey : raw.keyText? = some key) (h : ¬Finds rule elements key) :
    withoutUsers settings rule elements raw = if settings.fetch.placeholders
      then .reference (Instance.placeholder settings.adapter rule.targetType key).reference
      else raw := by
  have hfind := tables_withoutUsers settings rule elements key
  unfold instanceTable at hfind
  rw [LookupTable.find?_ofInstances, List.find?_eq_none.mpr] at hfind
  · rw [withoutUsers_of_key hkey, Resolver.resolve_of_unknown hfind]
    show (match (if settings.fetch.placeholders then _ else _ : Resolution) with
      | .unresolved _ => raw
      | found => found.value) = _
    cases settings.fetch.placeholders <;> rfl
  · intro i hi hid
    exact h ⟨i, List.mem_reverse.mp hi, of_decide_eq_true hid⟩

/-- Either way a value stays or becomes a reference. -/
theorem withoutUsers_cases (settings : Settings) (rule : IdReferenceRule)
    (elements : List Element) (v : Value) :
    withoutUsers settings rule elements v = v
      ∨ ∃ m, withoutUsers settings rule elements v = .reference m := by
  cases hkey : v.keyText? with
  | none => exact .inl (withoutUsers_of_no_key hkey)
  | some key =>
    by_cases hfinds : Finds rule elements key
    · exact .inr (withoutUsers_of_finds hkey hfinds)
    · rw [withoutUsers_of_not_finds hkey hfinds]
      split
      · exact .inr ⟨_, rfl⟩
      · exact .inl rfl

/-- So a value without children stays one. -/
theorem withoutUsers_shape (h : v.map? = none ∧ v.list? = none) :
    (withoutUsers settings rule elements v).map? = none
      ∧ (withoutUsers settings rule elements v).list? = none := by
  rcases withoutUsers_cases settings rule elements v with hsame | ⟨m, hm⟩
  · rwa [hsame]
  · rw [hm]
    exact ⟨rfl, rfl⟩

/-! ## §2. Rule after rule. -/

/-- What becomes of a value that the path leads to in instances of the type.  Each rule looks at
what the rules before it have left of the elements. -/
def followed (settings : Settings) (typeName : String) (path : List String) :
    List IdReferenceRule → List Element → Value → Value
  | [], _, v => v
  | rule :: rest, elements, v =>
    followed settings typeName path rest (resolvedBy settings (userTable []) elements rule)
      (if rule.typeName = typeName ∧ rule.path = path then withoutUsers settings rule elements v
        else v)

variable {typeName : String} {path : List String} {rules : List IdReferenceRule}

/-- Wherever a path leads to a value, it leads to what became of the value in the end. -/
theorem resolved_followed (settings : Settings) (rules : List IdReferenceRule)
    (elements : List Element) :
    Forall₂ (Element.Related fun i k => ∀ path position leaf,
        Value.Leads path (.map i.value) position leaf → leaf.map? = none ∧ leaf.list? = none →
        Value.Leads path (.map k.value) position
          (followed settings i.typeName path rules elements leaf))
      elements (rules.foldl (resolvedBy settings (userTable [])) elements) := by
  induction rules generalizing elements with
  | nil => exact Element.related_refl (fun i path position leaf hleads _ => hleads) elements
  | cons rule rest ih =>
    refine Element.related_of_mapInstances ?_ (ih _)
    intro i _ k hrest path position leaf hleads hleaf
    unfold followed
    by_cases htype : i.typeName = rule.typeName
    · rw [if_pos htype] at hrest
      have hvalue := mapAt_value
        (resolvedValue_onScalars (resolver settings (userTable []) rule elements) rule.targetType)
        rule.path i
      rw [mapAt_same _ rule.path i] at hrest
      by_cases hpath : rule.path = path
      · -- the rule's own turn
        subst hpath
        rw [if_pos ⟨htype.symm, rfl⟩]
        have hshape : (withoutUsers settings rule elements leaf).map? = none
            ∧ (withoutUsers settings rule elements leaf).list? = none := withoutUsers_shape hleaf
        refine hrest _ position _ ?_ hshape
        rw [hvalue]
        exact hleads.replaced hshape.2
      · rw [if_neg fun h => hpath h.2]
        refine hrest path position leaf ?_ hleaf
        rw [hvalue]
        exact hleads.spared hleaf.1 (resolvedValue_onScalars _ _) (Ne.symm hpath)
    · rw [if_neg htype] at hrest
      rw [if_neg fun h => htype h.1.symm]
      exact hrest path position leaf hleads hleaf

/-- What is no identifier stays. -/
theorem followed_of_no_key (h : v.keyText? = none) :
    followed settings typeName path rules elements v = v := by
  induction rules generalizing elements with
  | nil => rfl
  | cons rule rest ih =>
    unfold followed
    rw [withoutUsers_of_no_key h, ite_self]
    exact ih

/-! ## §3. Rules that find nothing. -/

/-- No rule that leads along the path finds an instance with the identifier when its turn comes. -/
def PassedOver (settings : Settings) (typeName : String) (path : List String) (key : String) :
    List IdReferenceRule → List Element → Prop
  | [], _ => True
  | rule :: rest, elements =>
    (rule.typeName = typeName ∧ rule.path = path → ¬Finds rule elements key)
      ∧ PassedOver settings typeName path key rest
        (resolvedBy settings (userTable []) elements rule)

/-- Without placeholders, an identifier stays exactly if all rules pass it over. -/
theorem followed_eq_iff (hplaceholders : settings.fetch.placeholders = false)
    (hkey : raw.keyText? = some key) :
    followed settings typeName path rules elements raw = raw
      ↔ PassedOver settings typeName path key rules elements := by
  induction rules generalizing elements with
  | nil => exact iff_of_true rfl trivial
  | cons rule rest ih =>
    unfold followed PassedOver
    split
    next hleads =>
      by_cases hfinds : Finds rule elements key
      · obtain ⟨m, hm⟩ : ∃ m, withoutUsers settings rule elements raw = .reference m :=
          withoutUsers_of_finds hkey hfinds
        rw [hm, followed_of_no_key rfl]
        refine iff_of_false ?_ fun h => h.1 hleads hfinds
        rintro rfl
        exact absurd hkey nofun
      · rw [withoutUsers_of_not_finds hkey hfinds, hplaceholders, if_neg Bool.false_ne_true, ih]
        exact (and_iff_right fun _ => hfinds).symm
    next hother => rw [ih, and_iff_right fun h => absurd h hother]

/-- With placeholders, an identifier that some rule leads to becomes a reference, and if all rules
pass it over then it is one to a placeholder that such a rule asks for. -/
theorem followed_reference (hplaceholders : settings.fetch.placeholders = true)
    (hkey : raw.keyText? = some key) (hrule : rule ∈ rules)
    (hleads : rule.typeName = typeName ∧ rule.path = path) :
    ∃ m, followed settings typeName path rules elements raw = .reference m
      ∧ (PassedOver settings typeName path key rules elements →
        ∃ other ∈ rules, (other.typeName = typeName ∧ other.path = path)
          ∧ m = (Instance.placeholder settings.adapter other.targetType key).reference) := by
  -- the first rule that leads to the identifier decides
  induction rules generalizing elements with
  | nil => exact absurd hrule List.not_mem_nil
  | cons first rest ih =>
    unfold followed PassedOver
    split
    next hfirst =>
      by_cases hfinds : Finds first elements key
      · obtain ⟨m, hm⟩ : ∃ m, withoutUsers settings first elements raw = .reference m :=
          withoutUsers_of_finds hkey hfinds
        rw [hm, followed_of_no_key rfl]
        exact ⟨m, rfl, fun hpassed => absurd hfinds (hpassed.1 hfirst)⟩
      · rw [withoutUsers_of_not_finds hkey hfinds, hplaceholders, if_pos rfl,
          followed_of_no_key rfl]
        exact ⟨_, rfl, fun _ => ⟨first, List.mem_cons_self, hfirst, rfl⟩⟩
    next hother =>
      have hrest : rule ∈ rest := (List.mem_cons.mp hrule).resolve_left fun heq =>
        hother (heq ▸ hleads)
      obtain ⟨m, hm, hpassed⟩ := ih hrest
      refine ⟨m, hm, fun h => ?_⟩
      obtain ⟨other, hmem, hfit⟩ := hpassed h.2
      exact ⟨other, List.mem_cons_of_mem _ hmem, hfit⟩

/-- What has a text after a replacement had it before. -/
theorem keyText?_mapLeavesAt
    (h : (v.mapLeavesAt (withoutUsers settings rule elements) path).keyText? = some key) :
    v.keyText? = some key := by
  cases v with
  | map entries =>
    cases path with
    | nil => rwa [Value.mapLeavesAt_nil _ rfl, withoutUsers_of_no_key rfl] at h
    | cons key path =>
      rw [Value.mapLeavesAt_map] at h
      exact absurd h nofun
  | list items =>
    rw [Value.mapLeavesAt_list] at h
    exact absurd h nofun
  | _ =>
    cases path with
    | cons => rwa [Value.mapLeavesAt_cons _ _ _ rfl rfl] at h
    | nil =>
      rw [Value.mapLeavesAt_nil _ rfl] at h
      rcases withoutUsers_cases settings rule elements _ with hsame | ⟨m, hm⟩
      · rwa [hsame] at h
      · rw [hm] at h
        exact absurd h nofun

/-- A pass gives no instance an identifier. -/
theorem fieldKey?_mapAt {i : Instance} {field : String}
    (h : LookupTable.fieldKey? field (mapAt (withoutUsers settings rule elements) path i)
      = some key) : LookupTable.fieldKey? field i = some key := by
  cases path with
  | nil => exact h
  | cons first below =>
    unfold LookupTable.fieldKey? Instance.get? mapAt at h
    dsimp only at h
    by_cases hfield : first = field
    · subst hfield
      rw [Dict.get?_modify_self] at h
      obtain ⟨v, hv, hkey⟩ := Option.bind_eq_some_iff.mp h
      obtain ⟨v₀, hv₀, rfl⟩ := Option.map_eq_some_iff.mp hv
      exact Option.bind_eq_some_iff.mpr ⟨v₀, hv₀, keyText?_mapLeavesAt hkey⟩
    · rwa [Dict.get?_modify_of_ne i.value hfield] at h

/-- What a rule finds after another rule it finds before. -/
theorem Finds.before {other : IdReferenceRule}
    (h : Finds rule (resolvedBy settings (userTable []) elements other) key) :
    Finds rule elements key := by
  obtain ⟨j, hj, hid⟩ := h
  obtain ⟨hj, htype⟩ := List.mem_filter.mp hj
  unfold resolvedBy at hj
  rw [Element.instances_mapInstances] at hj
  obtain ⟨i, hi, rfl⟩ := List.mem_map.mp hj
  by_cases hother : i.typeName = other.typeName
  · rw [if_pos hother] at htype hid
    rw [mapAt_same] at htype
    exact ⟨i, List.mem_filter.mpr ⟨hi, htype⟩, fieldKey?_mapAt hid⟩
  · rw [if_neg hother] at htype hid
    exact ⟨i, List.mem_filter.mpr ⟨hi, htype⟩, hid⟩

/-- What no rule finds among the fetched elements all rules pass over. -/
theorem PassedOver.of_fetched
    (h : ∀ rule ∈ rules, rule.typeName = typeName ∧ rule.path = path → ¬Finds rule elements key) :
    PassedOver settings typeName path key rules elements := by
  induction rules generalizing elements with
  | nil => trivial
  | cons rule rest ih =>
    obtain ⟨hrule, hrest⟩ := List.forall_mem_cons.mp h
    exact ⟨hrule, ih fun r hr hleads hfinds => hrest r hr hleads hfinds.before⟩

/-! ## §4. A fetch without users. -/

/-- The second value is what becomes of an identifier while no user is known. -/
structure Unlisted (settings : Settings) (elements : List Element) (i : Instance)
    (path : List String) (position : Position) (raw v : Value) : Prop where
  /-- Exactly what is no identifier stays, and without placeholders what all rules pass over. -/
  stays_iff : v = raw ↔ ∀ key, raw.keyText? = some key →
    settings.fetch.placeholders = false
      ∧ PassedOver settings i.typeName path key settings.filters.idReferences elements
  /-- All rules pass over what none that names it finds among the fetched elements. -/
  passed : ∀ key, (∀ rule ∈ settings.filters.idReferences, rule.Names i position raw →
      ¬Finds rule elements key) →
    PassedOver settings i.typeName path key settings.filters.idReferences elements
  /-- With placeholders, what all rules pass over becomes a reference to one. -/
  replaced : settings.fetch.placeholders = true → ∀ key, raw.keyText? = some key →
    PassedOver settings i.typeName path key settings.filters.idReferences elements →
    ∃ rule ∈ settings.filters.idReferences, rule.Names i position raw
      ∧ v = .reference (Instance.placeholder settings.adapter rule.targetType key).reference

variable {i : Instance} {position : Position}

/-- What becomes of an identifier that a rule names. -/
theorem followed_unlisted (settings : Settings) (elements : List Element)
    (hrule : rule ∈ settings.filters.idReferences) (hnames : rule.Names i position raw) :
    Unlisted settings elements i rule.path position raw
      (followed settings i.typeName rule.path settings.filters.idReferences elements raw) := by
  -- what leads along the same path names the same
  have hsame {other : IdReferenceRule} (h : other.typeName = i.typeName ∧ other.path = rule.path) :
      other.Names i position raw := ⟨h.1, h.2 ▸ hnames.leads, hnames.scalar⟩
  have hown : rule.typeName = i.typeName ∧ rule.path = rule.path := ⟨hnames.type, rfl⟩
  refine ⟨?_, ?_, ?_⟩
  · cases hkey : raw.keyText? with
    | none => exact iff_of_true (followed_of_no_key hkey) nofun
    | some key =>
      have hone {P : String → Prop} : (∀ key', some key = some key' → P key') ↔ P key :=
        ⟨fun h => h key rfl, fun h key' heq => Option.some.inj heq ▸ h⟩
      rw [hone]
      cases hplaceholders : settings.fetch.placeholders with
      | false => rw [followed_eq_iff hplaceholders hkey, and_iff_right rfl]
      | true =>
        obtain ⟨m, hm, -⟩ := followed_reference hplaceholders hkey hrule hown
        refine iff_of_false ?_ fun h => absurd h.1 nofun
        rw [hm]
        rintro rfl
        exact absurd hkey nofun
  · intro key hnone
    exact .of_fetched fun other hother h => hnone other hother (hsame h)
  · intro hplaceholders key hkey hpassed
    obtain ⟨m, hm, hplaceholder⟩ := followed_reference hplaceholders hkey hrule hown
    obtain ⟨other, hother, h, rfl⟩ := hplaceholder hpassed
    exact ⟨other, hother, hsame h, hm⟩

end Identifiers

/-- If the account does not list its users, then fetched identifiers are resolved without them. -/
theorem Filter.resolveIdentifiers_unlisted (s : Session ω) {e : Failure} {w : ω}
    (hfail : (s.client.users s.settings.filters.usersUrl w).1 = .error e)
    (elements : List Element) (memory : Memory) :
    let fetched := (resolveIdentifiers s elements memory w).1
    fetched.result = .ok () ∧ fetched.state
      = s.settings.filters.idReferences.foldl
        (Identifiers.resolvedBy s.settings (Identifiers.userTable [])) elements := by
  unfold resolveIdentifiers
  split
  next hnone =>
    rw [List.isEmpty_iff.mp hnone]
    exact ⟨rfl, rfl⟩
  · rw [bind_apply]
    refine ⟨rfl, ?_⟩
    show Identifiers.resolved s.settings (Identifiers.usersOf s.settings s.client w).1 elements = _
    have husers : (Identifiers.usersOf s.settings s.client w).1 = Identifiers.userTable [] := by
      unfold Identifiers.usersOf
      split
      · rw [bind_apply, hfail]
        rfl
      · rfl
    rw [husers]
    rfl

/-- If the account does not list its users, the fetch goes on.  An identifier that may be a user's
then stays as it was fetched exactly if no rule finds an instance with it and there are no
placeholders; where there are, it becomes a reference to one. -/
theorem users_unlisted (s : Session ω) {e : Failure} {w : ω}
    (hfail : (s.client.users s.settings.filters.usersUrl w).1 = .error e)
    (elements : List Element) (memory : Memory) :
    let fetched := ((Filter.idReferences s).onFetch elements memory w).1
    fetched.result = .ok () ∧ Forall₂ (Element.Related fun i k =>
        ∀ rule ∈ s.settings.filters.idReferences, ∀ position raw, rule.Names i position raw →
          ∃ v, (Value.map k.value).valueAt? position = some v
            ∧ Identifiers.Unlisted s.settings elements i rule.path position raw v)
      elements fetched.state := by
  intro fetched
  obtain ⟨hresult, hstate⟩ := Filter.resolveIdentifiers_unlisted s hfail elements memory
  refine ⟨hresult, ?_⟩
  rw [show fetched.state = _ from hstate]
  refine Element.related_mono (fun i _ k hfollowed rule hrule position raw hnames => ?_)
    (Identifiers.resolved_followed s.settings s.settings.filters.idReferences elements)
  have hleads := hfollowed rule.path position raw hnames.leads
    (Value.shape_of_isScalar hnames.scalar)
  exact ⟨_, hleads.valueAt?, Identifiers.followed_unlisted s.settings elements hrule hnames⟩

/-- An account that does not list its users.  Its tickets name those who care for them. -/
def Session.ofAssignees (placeholders : Bool) : Session Unit where
  settings := {
    adapter := "z"
    client := { baseUrl := "https://a" }
    fetch := { placeholders }
    filters := { idReferences := [⟨"ticket", "assignee_id", "user", true⟩,
      ⟨"ticket", "group_id", "group", true⟩] } }
  client := ⟨fun _ => pure (.error { status := some 500, message := "" })⟩
  next := .eager

/-- A group and a ticket that it cares for, as does someone who is not known. -/
def Element.ofAssignees : List Element :=
  [.inst (.named "g" (.ofType "z" "group") [("id", .number (.int 12))]),
    .inst (.named "t" (.ofType "z" "ticket")
      [("assignee_id", .number (.int 7)), ("group_id", .number (.int 12))])]

/-- Without placeholders the identifier of the group becomes a reference, and the one of the user
stays. -/
theorem users_unlisted_for_assignees :
    let s := Session.ofAssignees false
    let fetched := ((Filter.idReferences s).onFetch Element.ofAssignees {} ()).1
    (s.client.users s.settings.filters.usersUrl ()).1
        = .error (.http { status := some 500, message := "" })
      ∧ Forall₂ (Element.Related fun i k =>
          ∀ rule ∈ s.settings.filters.idReferences, ∀ position raw, rule.Names i position raw →
            ∃ v, (Value.map k.value).valueAt? position = some v
              ∧ Identifiers.Unlisted s.settings Element.ofAssignees i rule.path position raw v)
        Element.ofAssignees fetched.state
      ∧ (Element.instances fetched.state).map (fun i => i.value.map fun e => e.2.shape)
        = [["number"], ["number", "reference"]] := by
  intro s fetched
  exact ⟨rfl, (users_unlisted s rfl Element.ofAssignees {}).2, by decide +kernel⟩

/-- With placeholders the identifier of the user does not stay, although users are not listed and
no instance has it. -/
theorem user_id_replaced :
    let s := Session.ofAssignees true
    let rule : IdReferenceRule := ⟨"ticket", "assignee_id", "user", true⟩
    let ticket : Instance := .named "t" (.ofType "z" "ticket")
      [("assignee_id", .number (.int 7)), ("group_id", .number (.int 12))]
    let fetched := ((Filter.idReferences s).onFetch Element.ofAssignees {} ()).1
    (s.client.users s.settings.filters.usersUrl ()).1
        = .error (.http { status := some 500, message := "" })
      ∧ rule ∈ s.settings.filters.idReferences ∧ rule.users = true
      ∧ .inst ticket ∈ Element.ofAssignees
      ∧ rule.Names ticket [.key "assignee_id"] (.number (.int 7))
      ∧ ¬Identifiers.Finds rule Element.ofAssignees "7"
      ∧ fetched.result.isOk = true
      ∧ (Element.instances fetched.state).map (fun i => (i.get? "assignee_id").bind fun v =>
          v.reference?.map Reference.id)
        = [none, some (.ofInstance "z" "user" "missing_7")] := by
  intro s rule ticket fetched
  have hpath : rule.path = ["assignee_id"] := by decide +kernel
  have hfinds : ¬∃ i ∈ Element.instancesOf Element.ofAssignees rule.targetType,
      LookupTable.fieldKey? "id" i = some "7" := by decide +kernel
  refine ⟨rfl, List.mem_cons_self, rfl, List.mem_cons_of_mem _ List.mem_cons_self,
    ⟨rfl, ?_, rfl⟩, hfinds, rfl, by decide +kernel⟩
  rw [hpath]
  exact .entry rfl (.here rfl)

end AccountSync
