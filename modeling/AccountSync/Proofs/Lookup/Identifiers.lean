/-
  AccountSync.Proofs.Lookup.Identifiers
  ─────────────────────────────────────
  **FETCHED IDENTIFIERS ARE DEPLOYED AS THE SAME IDENTIFIERS.**

  A fetch turns raw identifiers into references or addresses of users, rule after rule; a
  deployment turns the addresses back and writes references out.  Either is a run of
  replacements, path after path, and rules that name different positions do not disturb each
  other.  So of an identifier only its own rule has to be followed, there and back.

      IdReferenceRule.Names     — the identifiers that a rule names
      Identifiers.Outcome       — what an identifier may be turned into
      Identifiers.resolved_runs — a fetch is a run of replacements
      Exchange.applyRules_shows — so is the preparation of a deployment
      Identifiers.Kept          — what is the same in the end
      identifiers_come_back     — the filter of identifiers, fetching and then deploying
-/
import AccountSync.Proofs.Element.Passes
import AccountSync.Proofs.Lookup.Tables
import AccountSync.Proofs.Users.Reversal
import AccountSync.Proofs.Value.Flatten
import Mathlib.Data.List.Nodup

namespace AccountSync

open List (Forall₂)
open Value (Replacement Position)

variable {ω : Type}

/-! ## §1. What rules name. -/

/-- The rule is about instances of this type, and it leads to a scalar at the position. -/
structure IdReferenceRule.Names (rule : IdReferenceRule) (i : Instance) (position : Position)
    (raw : Value) : Prop where
  type : rule.typeName = i.typeName
  leads : Value.Leads rule.path (.map i.value) position raw
  scalar : raw.isScalar = true

/-- A scalar is not at the root. -/
theorem IdReferenceRule.Names.ne_nil {rule : IdReferenceRule} {i : Instance} {position : Position}
    {raw : Value} (h : rule.Names i position raw) : position ≠ [] := by
  rintro rfl
  obtain rfl : Value.map i.value = raw := Option.some.inj h.leads.valueAt?
  exact absurd h.scalar nofun

namespace Identifiers

/-- No two rules name the same position of an instance. -/
def Apart (rules : List IdReferenceRule) (elements : List Element) : Prop :=
  rules.Pairwise fun rule rule' => ∀ i ∈ Element.instances elements, ∀ position raw raw',
    rule.Names i position raw → ¬rule'.Names i position raw'

/-- The rules about instances of a type. -/
def rulesOf (rules : List IdReferenceRule) (typeName : String) : List IdReferenceRule :=
  rules.filter (fun rule => rule.typeName = typeName)

/-- Paths that start with different keys lead to different positions. -/
theorem Apart.of_keys {rules : List IdReferenceRule}
    (h : rules.Pairwise fun rule rule' =>
      rule.typeName = rule'.typeName → rule.path.head? ≠ rule'.path.head?)
    (elements : List Element) : Apart rules elements := by
  -- the first selector of a position is the first key of the path
  have hhead {rule : IdReferenceRule} {i : Instance} {position : Position} {raw : Value}
      (hnames : rule.Names i position raw) :
      rule.path.head?.map Value.Selector.key = position.head? := by
    obtain ⟨-, hleads, hscalar⟩ := hnames
    generalize rule.path = path at hleads ⊢
    cases hleads with
    | here => exact absurd hscalar nofun
    | entry => rfl
  refine h.imp fun {rule rule'} hne i hi position raw raw' hnames hnames' => ?_
  refine hne (hnames.type.trans hnames'.type.symm) ?_
  have hkeys := (hhead hnames).trans (hhead hnames').symm
  exact Option.map_injective (fun _ _ => Value.Selector.key.inj) hkeys

theorem mem_rulesOf {rules : List IdReferenceRule} {rule : IdReferenceRule} {typeName : String} :
    rule ∈ rulesOf rules typeName ↔ rule ∈ rules ∧ rule.typeName = typeName := by
  unfold rulesOf
  rw [List.mem_filter, decide_eq_true_iff]

/-! ## §2. Runs of replacements. -/

/-- Each replacement goes along the path of its rule and replaces nothing but scalars. -/
def Follows (P : IdReferenceRule → (Value → Value) → Prop) (rule : IdReferenceRule)
    (step : Replacement) : Prop :=
  step.path = rule.path ∧ Value.OnScalars step.value ∧ P rule step.value

variable {P : IdReferenceRule → (Value → Value) → Prop} {rules : List IdReferenceRule}
  {steps : List Replacement}

/-- Each replacement follows some rule. -/
theorem Follows.exists_rule (h : Forall₂ (Follows P) rules steps) :
    ∀ step ∈ steps, ∃ rule ∈ rules, Follows P rule step := by
  induction h with
  | nil => exact fun _ hstep => absurd hstep List.not_mem_nil
  | cons hfirst _ ih =>
    intro step hstep
    rcases List.mem_cons.mp hstep with rfl | hstep
    · exact ⟨_, List.mem_cons_self, hfirst⟩
    · obtain ⟨rule, hrule, hfollows⟩ := ih step hstep
      exact ⟨rule, List.mem_cons_of_mem _ hrule, hfollows⟩

/-- If no rule has the path, then the leaf is spared. -/
theorem Follows.spared (h : Forall₂ (Follows P) rules steps) {path : List String}
    (hnone : ∀ rule ∈ rules, rule.path ≠ path) {v leaf : Value} {position : Position}
    (hleads : Value.Leads path v position leaf) (hleaf : leaf.map? = none) :
    Value.Leads path (v.replaceAll steps) position leaf := by
  refine hleads.spared_all hleaf fun step hstep => ?_
  obtain ⟨rule, hrule, hpath, hf, -⟩ := exists_rule h step hstep
  exact ⟨hf, hpath ▸ hnone rule hrule⟩

/-- If just one rule has the path, then the leaf is replaced as that rule says. -/
theorem Follows.replaced (h : Forall₂ (Follows P) rules steps) {rule : IdReferenceRule}
    (hrule : rule ∈ rules)
    (hone : rules.Pairwise fun r r' => ¬(r.path = rule.path ∧ r'.path = rule.path))
    {v leaf : Value} {position : Position} (hleads : Value.Leads rule.path v position leaf)
    (hleaf : leaf.map? = none)
    (hnew : ∀ f, P rule f → (f leaf).map? = none ∧ (f leaf).list? = none) :
    ∃ f, P rule f ∧ Value.Leads rule.path (v.replaceAll steps) position (f leaf) := by
  -- along the rules: those before it spare the leaf, and those after it what became of the leaf
  induction h generalizing v with
  | nil => exact absurd hrule List.not_mem_nil
  | @cons first step rest steps hfirst hrest ih =>
    obtain ⟨hpath, hf, hstep⟩ := hfirst
    obtain ⟨hothers, hone⟩ := List.pairwise_cons.mp hone
    rcases List.mem_cons.mp hrule with rfl | hrule
    · obtain ⟨hmap, hlist⟩ := hnew step.value hstep
      refine ⟨step.value, hstep, ?_⟩
      refine spared hrest (fun r hr heq => hothers r hr ⟨rfl, heq⟩) ?_ hmap
      have hreplaced := hleads.replaced hlist
      rwa [← hpath] at hreplaced ⊢
    · refine ih hrule hone (hleads.spared hleaf hf fun heq => ?_)
      exact hothers rule hrule ⟨(heq.trans hpath).symm, rfl⟩

/-! ## §3. What becomes of an identifier. -/

/-- An identifier stays, or it becomes a reference to an instance that has it, or the address of
a user who has it. -/
inductive Outcome (users : List User) (rule : IdReferenceRule) (raw : Value) : Value → Prop
  | raw : Outcome users rule raw raw
  | found {i : Instance} {key : String} : i.id.isTopLevel = true →
      LookupTable.fieldKey? "id" i = some key → raw.keyText? = some key →
      Outcome users rule raw (.reference i.reference)
  | user {user : User} {key : String} : rule.users = true → user ∈ users →
      user.id.keyText? = some key → raw.keyText? = some key →
      Outcome users rule raw (.string user.email)

/-- It becomes neither a map nor a list. -/
theorem Outcome.shape {users : List User} {rule : IdReferenceRule} {raw v : Value}
    (h : Outcome users rule raw v) (hraw : raw.isScalar = true) :
    v.map? = none ∧ v.list? = none := by
  cases h with
  | raw => exact Value.shape_of_isScalar hraw
  | found | user => exact ⟨rfl, rfl⟩

/-- Whoever knows more users knows the same outcomes. -/
theorem Outcome.mono {known users : List User} (hknown : ∀ user ∈ known, user ∈ users)
    {rule : IdReferenceRule} {raw v : Value} (h : Outcome known rule raw v) :
    Outcome users rule raw v := by
  cases h with
  | raw => exact .raw
  | found htop hid hkey => exact .found htop hid hkey
  | user husers huser hid hkey => exact .user husers (hknown _ huser) hid hkey

/-- The value means an outcome, whatever scalar it is. -/
def Resolves (users : List User) (rule : IdReferenceRule) (f : Value → Value) : Prop :=
  ∀ raw : Value, raw.isScalar = true → Outcome users rule raw (f raw)

theorem resolvedValue_onScalars (r : Resolver) (targetType : String) :
    Value.OnScalars (resolvedValue r targetType) := by
  intro v hv
  cases v with
  | null | bool | number | string => exact absurd hv nofun
  | list | map | reference | template => rfl

/-- A placeholder stands for the identifier that it was made for. -/
theorem fieldKey?_placeholder (adapter typeName raw : String) :
    LookupTable.fieldKey? "id" (Instance.placeholder adapter typeName raw) = some raw :=
  rfl

variable {elements : List Element}

/-- What the tables know of an identifier: an instance has it, or a user. -/
theorem resolver_knows {settings : Settings} {users : List User} {rule : IdReferenceRule}
    {key : String} {target : LookupTarget}
    (h : (resolver settings (userTable users) rule elements).tables.findSome?
      (fun t => t.find? key) = some target) :
    (∃ i ∈ Element.instances elements, LookupTable.fieldKey? "id" i = some key
        ∧ target = .element i.reference)
      ∨ rule.users = true ∧ ∃ user ∈ users, user.id.keyText? = some key
        ∧ target = .literal (.string user.email) := by
  obtain ⟨t, ht, hfind⟩ := List.exists_of_findSome?_eq_some h
  rcases List.mem_cons.mp ht with rfl | ht
  · rw [instanceTable, LookupTable.find?_ofInstances] at hfind
    obtain ⟨i, hi, rfl⟩ := Option.map_eq_some_iff.mp hfind
    have hmem := List.mem_reverse.mp (List.mem_of_find?_eq_some hi)
    have hid := List.find?_some hi
    exact .inl ⟨i, Element.mem_of_instancesOf hmem, of_decide_eq_true hid, rfl⟩
  · split at ht
    next husers =>
      obtain rfl := List.mem_singleton.mp ht
      rw [find?_userTable] at hfind
      obtain ⟨user, huser, rfl⟩ := Option.map_eq_some_iff.mp hfind
      have hmem := List.mem_reverse.mp (List.mem_of_find?_eq_some huser)
      have hid := List.find?_some huser
      exact .inr ⟨husers, user, hmem, of_decide_eq_true hid, rfl⟩
    · exact absurd ht List.not_mem_nil

/-- What is stored in place of an identifier is one of its outcomes. -/
theorem resolvedValue_resolves (settings : Settings) (users : List User) (rule : IdReferenceRule)
    (htop : ∀ i ∈ Element.instances elements, i.id.isTopLevel = true) :
    Resolves users rule
      (resolvedValue (resolver settings (userTable users) rule elements) rule.targetType) := by
  intro raw hraw
  have hnoref : ∀ r, raw ≠ .reference r := by
    rintro r rfl
    exact absurd hraw nofun
  unfold resolvedValue
  split
  next r => exact absurd rfl (hnoref r)
  · unfold Resolver.resolveValue?
    cases hkey : raw.keyText? with
    | none => exact .raw
    | some key =>
      rw [Option.map_some]
      unfold Resolver.resolve
      cases hfound : (resolver settings (userTable users) rule elements).tables.findSome?
          (fun t => t.find? key) with
      | none =>
        -- no table knows it, so it stays or becomes a placeholder
        cases hplaceholders : (resolver settings (userTable users) rule elements).placeholders with
        | true => exact .found rfl (fieldKey?_placeholder settings.adapter rule.targetType key) hkey
        | false => exact .raw
      | some target =>
        rcases resolver_knows hfound with ⟨i, hi, hid, rfl⟩ | ⟨husers, user, huser, hid, rfl⟩
        · exact .found (htop i hi) hid hkey
        · exact .user husers huser hid hkey

/-! ## §4. A fetch is a run of replacements. -/

/-- The second instance is the first one after a run of replacements. -/
def Runs (steps : List Replacement) (i j : Instance) : Prop :=
  j = { i with value := j.value } ∧ Value.map j.value = (Value.map i.value).replaceAll steps

/-- Each replacement of the run resolves the identifiers that a rule about the type names. -/
def ResolvedBy (users : List User) (rules : List IdReferenceRule) (i j : Instance) : Prop :=
  ∃ steps, Forall₂ (Follows (Resolves users)) (rulesOf rules i.typeName) steps ∧ Runs steps i j

theorem mapAt_value {f : Value → Value} (hf : Value.OnScalars f) (path : List String)
    (i : Instance) :
    Value.map (mapAt f path i).value = (Value.map i.value).mapLeavesAt f path := by
  cases path with
  | nil => rw [Value.mapLeavesAt_nil f rfl, hf (.map i.value) rfl]; rfl
  | cons field below => rw [Value.mapLeavesAt_map]; rfl

theorem mapAt_same (f : Value → Value) (path : List String) (i : Instance) :
    mapAt f path i = { i with value := (mapAt f path i).value } := by
  cases path <;> rfl

/-- Of every instance the identifiers are resolved that rules about its type name, path after
path. -/
theorem resolved_runs (settings : Settings) (users : List User)
    (htop : ∀ i ∈ Element.instances elements, i.id.isTopLevel = true)
    (rules : List IdReferenceRule) :
    Forall₂ (Element.Related (ResolvedBy users rules)) elements
      (rules.foldl (resolvedBy settings (userTable users)) elements) := by
  refine Element.related_passes (fun elements => ∀ i ∈ Element.instances elements,
    i.id.isTopLevel = true) (fun i => ⟨[], .nil, rfl, rfl⟩) ?_ htop rules
  intro elements htop rule
  let f := resolvedValue (resolver settings (userTable users) rule elements) rule.targetType
  have hf : Value.OnScalars f := resolvedValue_onScalars _ _
  refine ⟨_, rfl, Element.topLevel_mapInstances htop fun i => ?_, fun i _ rest k h => ?_⟩
  · split
    · rw [mapAt_same]
    · rfl
  · obtain ⟨steps, hfollows, hsame, hvalue⟩ := h
    by_cases htype : i.typeName = rule.typeName
    · -- the rule's own replacement comes first
      rw [if_pos htype] at hfollows hsame hvalue
      rw [mapAt_same f rule.path i] at hfollows hsame
      have hrules : rulesOf (rule :: rest) i.typeName = rule :: rulesOf rest i.typeName :=
        List.filter_cons_of_pos (decide_eq_true htype.symm)
      refine ⟨⟨rule.path, f⟩ :: steps, ?_, hsame, ?_⟩
      · rw [hrules]
        exact .cons ⟨rfl, hf, resolvedValue_resolves settings users rule htop⟩ hfollows
      · rw [hvalue, mapAt_value hf]
        rfl
    · rw [if_neg htype] at hfollows hsame hvalue
      have hrules : rulesOf (rule :: rest) i.typeName = rulesOf rest i.typeName :=
        List.filter_cons_of_neg fun h => htype (of_decide_eq_true h).symm
      exact ⟨steps, hrules ▸ hfollows, hsame, hvalue⟩

end Identifiers

/-! ## §5. So is the preparation of a deployment. -/

/-- The instance has the fields of a tree. -/
def Instance.Shows (i : Instance) (v : Value) : Prop :=
  ∃ entries, v = .map entries ∧ ∀ field, i.get? field = Dict.get? entries field

/-- Below the root the tree says what the instance holds. -/
theorem Instance.Shows.valueAt? {i : Instance} {v : Value} (h : i.Shows v) {position : Position}
    (hposition : position ≠ []) : (Value.map i.value).valueAt? position = v.valueAt? position := by
  obtain ⟨entries, rfl, hget⟩ := h
  cases position with
  | nil => exact absurd rfl hposition
  | cons s rest =>
    cases s with
    | item n => rfl
    | key field =>
      show (i.get? field).bind _ = (Dict.get? entries field).bind _
      rw [hget]

namespace UserIds

theorem replace_of_covers {ids : UserIds} {v : Value} (h : ids.covers v = false) :
    ids.replace v = v := by
  cases v with
  | string email =>
    have hnone : ids.find? email = none :=
      Option.isNone_iff_eq_none.mp (Option.isSome_eq_false_iff.mp h)
    show (ids.find? email).getD (.string email) = .string email
    rw [hnone, Option.getD_none]
  | _ => rfl

theorem replace_onScalars (ids : UserIds) : Value.OnScalars ids.replace := by
  intro v hv
  cases v with
  | null | bool | number | string => exact absurd hv nofun
  | list | map | reference | template => rfl

end UserIds

namespace Exchange

variable {i : Instance} {v : Value}

theorem applyAt_shows (ids : UserIds) (path : List String) (h : i.Shows v) :
    (applyAt ids path i).1.Shows (v.mapLeavesAt ids.replace path) := by
  obtain ⟨entries, rfl, hget⟩ := h
  cases path with
  | nil =>
    rw [Value.mapLeavesAt_nil _ rfl]
    exact ⟨entries, rfl, hget⟩
  | cons field below =>
    rw [Value.mapLeavesAt_map]
    refine ⟨_, rfl, fun other => ?_⟩
    rcases applyAt_cases ids (field :: below) i with
      ⟨hsame, hnone⟩ | ⟨field', below', c, hpath, hc, -, hset⟩
    · -- nothing has to be replaced, so it makes no difference to replace it
      rw [hsame, Dict.modify_of_get?]
      · exact hget other
      · intro c hc
        refine Value.mapLeavesAt_of_fixed fun leaf hleaf => UserIds.replace_of_covers ?_
        have hcovers := hnone field below c rfl ((hget field).trans hc)
        exact Bool.eq_false_iff.mpr (List.any_eq_false.mp hcovers leaf hleaf)
    · obtain ⟨rfl, rfl⟩ := List.cons.inj hpath
      rw [hset]
      by_cases hother : field = other
      · subst hother
        rw [Instance.get?_set_self, Dict.get?_modify_self, ← hget, hc, Option.map_some]
      · rw [Instance.get?_set_of_ne _ hother, Dict.get?_modify_of_ne _ hother]
        exact hget other

/-- What the preparation of a deployment does at the path of a rule.  Where there are no addresses
of users it does nothing. -/
def preparation (ids : UserIds) (rule : IdReferenceRule) : Replacement where
  path := rule.path
  value := if rule.users then ids.replace else id

theorem preparation_onScalars (ids : UserIds) (rule : IdReferenceRule) :
    Value.OnScalars (preparation ids rule).value := by
  unfold preparation
  dsimp only
  split
  · exact ids.replace_onScalars
  · exact fun _ _ => rfl

/-- The preparation goes along the paths of the rules. -/
theorem preparation_follows (ids : UserIds) (rules : List IdReferenceRule) :
    Forall₂ (Identifiers.Follows fun rule f => f = (preparation ids rule).value) rules
      (rules.map (preparation ids)) := by
  rw [List.forall₂_map_right_iff, List.forall₂_same]
  exact fun rule _ => ⟨rfl, preparation_onScalars ids rule, rfl⟩

/-- Addresses of users are replaced path after path. -/
theorem applyRules_shows (ids : UserIds) (rules : List IdReferenceRule) (typeName : String)
    (h : i.Shows v) :
    (applyRules ids (rulesFor rules typeName) i).1.Shows
      (v.replaceAll ((Identifiers.rulesOf rules typeName).map (preparation ids))) := by
  induction rules generalizing i v with
  | nil => exact h
  | cons rule rest ih =>
    -- a rule that is not about users is a replacement that does nothing
    unfold rulesFor Identifiers.rulesOf
    rw [List.filter_cons, List.filter_cons]
    by_cases htype : rule.typeName = typeName
    · rw [decide_eq_true htype, Bool.and_true, if_pos rfl, List.map_cons]
      cases husers : rule.users with
      | true =>
        have hstep : (preparation ids rule).value = ids.replace := by
          unfold preparation
          rw [husers]
          rfl
        show (applyRules ids (rule :: rulesFor rest typeName) i).1.Shows
          ((v.mapLeavesAt (preparation ids rule).value rule.path).replaceAll _)
        rw [applyRules_cons, hstep]
        exact ih (applyAt_shows ids rule.path h)
      | false =>
        have hstep : (preparation ids rule).value = id := by
          unfold preparation
          rw [husers]
          rfl
        show (applyRules ids (rulesFor rest typeName) i).1.Shows
          ((v.mapLeavesAt (preparation ids rule).value rule.path).replaceAll _)
        have hsame : v.mapLeavesAt id rule.path = v := Value.mapLeavesAt_of_fixed fun _ _ => rfl
        rw [hstep, hsame]
        exact ih h
    · rw [decide_eq_false htype, Bool.and_false, if_neg Bool.false_ne_true,
        if_neg Bool.false_ne_true]
      exact ih h

/-- A change is exchanged only if it is concerned. -/
theorem exchanged_of_not_concerns {rules : List IdReferenceRule} {c : InstanceChange}
    (h : concerns rules c = false) (ids? : Option UserIds) : exchanged rules ids? c = c := by
  cases ids? with
  | none => rfl
  | some ids =>
    unfold exchanged
    dsimp only
    split
    · rfl
    next hremoval =>
      unfold concerns at h
      rw [Bool.eq_false_iff.mpr hremoval, Bool.not_false, Bool.true_and, Bool.not_eq_false',
        List.isEmpty_iff] at h
      rw [h]
      exact c.setData_self

end Exchange

namespace Filter

/-- The account lists these users whenever it is asked. -/
def Lists (s : Session ω) (users : List User) (w : ω) : Prop :=
  (s.client.users s.settings.filters.usersUrl w).1 = .ok users

/-- A fetch knows the users that the account lists, if any rule is about users. -/
theorem resolveIdentifiers_listed (s : Session ω) {users : List User} {w : ω}
    (hlists : Lists s users w) (elements : List Element) (memory : Memory) :
    let fetched := (resolveIdentifiers s elements memory w).1
    fetched.result = .ok () ∧ ∃ known, (∀ user ∈ known, user ∈ users)
      ∧ fetched.state
        = Identifiers.resolved s.settings (Identifiers.userTable known) elements := by
  unfold resolveIdentifiers
  split
  next hnone =>
    refine ⟨rfl, users, fun _ huser => huser, ?_⟩
    unfold Identifiers.resolved
    rw [List.isEmpty_iff.mp hnone]
    rfl
  · rw [bind_apply]
    refine ⟨rfl, ?_⟩
    show ∃ known, _ ∧ Identifiers.resolved s.settings (Identifiers.usersOf s.settings s.client w).1
      elements = _
    unfold Identifiers.usersOf
    split
    · refine ⟨users, fun _ huser => huser, ?_⟩
      rw [bind_apply, hlists]
      rfl
    · exact ⟨[], fun _ huser => absurd huser List.not_mem_nil, rfl⟩

/-- Nothing else than these users is remembered, if any are. -/
def Remembers (memory : Memory) (users : List User) : Prop :=
  ∀ known, memory.userIds = some known → known = UserIds.ofUsers users

/-- Without a fallback, a deployment knows the users that the account lists and no others. -/
theorem exchangeUsers_listed (s : Session ω) {users : List User} {w : ω}
    (hlists : Lists s users w) (hfallback : s.settings.deploy.missingUserFallback = none)
    {memory : Memory} (hmemory : Remembers memory users) (changes : List InstanceChange) :
    let prepared := (exchangeUsers s changes memory w).1
    prepared.result = .ok () ∧ prepared.state = changes.map (Exchange.exchanged
      s.settings.filters.idReferences (some ⟨UserIds.ofUsers users, none⟩)) := by
  unfold exchangeUsers
  dsimp only
  split
  -- users are asked for only if some change is concerned
  · have hknown : (knownUsers s memory w).1 = .ok (UserIds.ofUsers users) := by
      unfold knownUsers
      cases hknown : memory.userIds with
      | some known => exact congrArg Except.ok (hmemory known hknown)
      | none =>
        dsimp only
        rw [bind_apply, hlists]
        rfl
    have hnone : ∀ known w', (fallbackId s known w').1 = none := by
      intro known w'
      unfold fallbackId
      rw [hfallback]
      rfl
    rw [bind_apply, hknown]
    dsimp only
    rw [bind_apply, hnone]
    exact ⟨rfl, Exchange.apply_eq_map _ _ changes memory.saved⟩
  next hany =>
    refine ⟨rfl, ((List.map_congr_left fun c hc => ?_).trans (List.map_id changes)).symm⟩
    have hconcerns := List.any_eq_false.mp (Bool.eq_false_iff.mpr hany) c hc
    exact Exchange.exchanged_of_not_concerns (Bool.eq_false_iff.mpr hconcerns) _

end Filter

/-! ## §6. There and back. -/

namespace Identifiers

variable {users : List User} {rules : List IdReferenceRule}

/-- If all addresses are different, an address tells the user. -/
theorem find?_ofUsers (hemails : (users.map User.email).Nodup) {user : User}
    (huser : user ∈ users) :
    UserIds.find? ⟨UserIds.ofUsers users, none⟩ user.email = some user.id := by
  have hfound : users.reverse.find? (fun other => other.email = user.email) = some user :=
    find?_reverse_of_nodup hemails huser
  unfold UserIds.find?
  rw [UserIds.get?_ofUsers, hfound]
  rfl

/-- What is no address of a user has no identifier. -/
theorem replace_ofUsers {v : Value} (h : ∀ user ∈ users, v ≠ .string user.email) :
    UserIds.replace ⟨UserIds.ofUsers users, none⟩ v = v := by
  cases v with
  | string email =>
    have hnone : users.reverse.find? (fun user => user.email = email) = none := by
      refine List.find?_eq_none.mpr fun user huser hemail => ?_
      have hmem : user ∈ users := List.mem_reverse.mp huser
      exact h user hmem (congrArg Value.string (of_decide_eq_true hemail).symm)
    show (UserIds.find? _ email).getD (.string email) = .string email
    unfold UserIds.find?
    rw [UserIds.get?_ofUsers, hnone]
    rfl
  | _ => rfl

/-- Whatever an identifier was turned into is turned into something that is written out as the
identifier, unless that could be mistaken for an address. -/
theorem Outcome.deployed (hemails : (users.map User.email).Nodup) {rule : IdReferenceRule}
    {raw v : Value} (h : Outcome users rule raw v) (hraw : raw.isScalar = true)
    (hnoemail : ∀ user ∈ users, raw ≠ .string user.email) :
    raw.KeepsKey ((Exchange.preparation ⟨UserIds.ofUsers users, none⟩ rule).value v) := by
  unfold Exchange.preparation
  dsimp only
  cases h with
  | raw =>
    split
    · rw [replace_ofUsers hnoemail]
      exact .of_scalar hraw rfl
    · exact .of_scalar hraw rfl
  | found htop hid hkey =>
    split
    · exact .of_reference htop hid hkey
    · exact .of_reference htop hid hkey
  | @user user key husers huser hid hkey =>
    rw [if_pos husers]
    show raw.KeepsKey ((UserIds.find? _ user.email).getD _)
    rw [find?_ofUsers hemails huser, Option.getD_some]
    exact .of_scalar (Value.isScalar_of_keyText? hid) (hid.trans hkey.symm)

/-- Rules that name the same identifier are one and the same, so just one has its path. -/
theorem Apart.paths {elements : List Element} (h : Apart rules elements) {i : Instance}
    (hi : i ∈ Element.instances elements) {rule : IdReferenceRule} {position : Position}
    {raw : Value} (hnames : rule.Names i position raw) :
    (rulesOf rules i.typeName).Pairwise
      fun r r' => ¬(r.path = rule.path ∧ r'.path = rule.path) := by
  refine List.Pairwise.imp_of_mem ?_ (h.sublist List.filter_sublist)
  intro r r' hr hr' hapart ⟨hpath, hpath'⟩
  refine hapart i hi position raw raw ?_ ?_
  · exact ⟨(mem_rulesOf.mp hr).2, hpath ▸ hnames.leads, hnames.scalar⟩
  · exact ⟨(mem_rulesOf.mp hr').2, hpath' ▸ hnames.leads, hnames.scalar⟩

/-- What is the same of an instance when it was fetched and when it is deployed: identifiers are
written out as identifiers with the same text, and whatever is neither above nor below one of them
is what it was. -/
structure Kept (rules : List IdReferenceRule) (users : List User) (i k : Instance) : Prop where
  same : k = { i with value := k.value }
  identifiers : ∀ rule ∈ rules, ∀ position raw, rule.Names i position raw →
    (∀ user ∈ users, raw ≠ .string user.email) →
    ∃ v, (Value.map k.value).valueAt? position = some v ∧ raw.KeepsKey v
  others : ∀ position, position ≠ [] →
    (∀ rule ∈ rules, ∀ named raw, rule.Names i named raw →
      ¬named <+: position ∧ ¬position <+: named) →
    (Value.map k.value).valueAt? position = (Value.map i.value).valueAt? position

/-- What is resolved and then prepared for a deployment is kept. -/
theorem ResolvedBy.kept {known : List User} (hemails : (users.map User.email).Nodup)
    (hknown : ∀ user ∈ known, user ∈ users) {elements : List Element}
    (hapart : Apart rules elements) {i j : Instance} (hi : i ∈ Element.instances elements)
    (h : ResolvedBy known rules i j) :
    Kept rules users i (Exchange.applyRules ⟨UserIds.ofUsers users, none⟩
      (Exchange.rulesFor rules j.typeName) j).1 := by
  obtain ⟨steps, hfollows, hsame, hvalue⟩ := h
  let ids : UserIds := ⟨UserIds.ofUsers users, none⟩
  let own := rulesOf rules i.typeName
  have htype : j.typeName = i.typeName := hsame ▸ rfl
  have hprepared := Exchange.preparation_follows ids own
  have hshows := Exchange.applyRules_shows ids rules i.typeName
    (show j.Shows ((Value.map i.value).replaceAll steps) from ⟨j.value, hvalue.symm, fun _ => rfl⟩)
  rw [htype]
  refine ⟨?_, ?_, ?_⟩
  · obtain ⟨value, hrefilled, -⟩ :=
      Exchange.applyRules_refilled ids (Exchange.rulesFor rules i.typeName) j
    rw [hrefilled, hsame]
  · intro rule hrule position raw hnames hnoemail
    have hmem : rule ∈ own := mem_rulesOf.mpr ⟨hrule, hnames.type⟩
    have hone := hapart.paths hi hnames
    -- there
    obtain ⟨f, hf, hleads⟩ := Follows.replaced hfollows hmem hone hnames.leads
      (Value.shape_of_isScalar hnames.scalar).1
      fun f hf => (hf raw hnames.scalar).shape hnames.scalar
    have houtcome := (hf raw hnames.scalar).mono hknown
    -- and back
    have hkeeps := houtcome.deployed hemails hnames.scalar hnoemail
    obtain ⟨g, rfl, hleads'⟩ := Follows.replaced hprepared hmem hone hleads
      (houtcome.shape hnames.scalar).1 fun g hg => hg ▸ hkeeps.shape
    refine ⟨_, ?_, hkeeps⟩
    rw [hshows.valueAt? hnames.ne_nil]
    exact hleads'.valueAt?
  · intro position hposition happart
    -- no replacement of either run comes near the position
    have hclear {rule : IdReferenceRule} (hrule : rule ∈ own) :
        Value.Clear rule.path (.map i.value) position := by
      obtain ⟨hrule, htype⟩ := mem_rulesOf.mp hrule
      exact fun named raw hleads hscalar => happart rule hrule named raw ⟨htype, hleads, hscalar⟩
    rw [hshows.valueAt? hposition, ← Value.replaceAll_append]
    refine Value.Clear.unchanged_all fun step hstep => ?_
    rcases List.mem_append.mp hstep with hstep | hstep
    · obtain ⟨rule, hrule, hpath, hf, -⟩ := Follows.exists_rule hfollows step hstep
      exact ⟨hf, hpath ▸ hclear hrule⟩
    · obtain ⟨rule, hrule, hpath, hf, -⟩ := Follows.exists_rule hprepared step hstep
      exact ⟨hf, hpath ▸ hclear hrule⟩

end Identifiers

/-- In any batch, an addition of the first instance is prepared as one of the second. -/
def Filter.PreparesAs (s : Session ω) (memory : Memory) (w : ω) (j k : Instance) : Prop :=
  ∀ changes, let prepared := ((idReferences s).preDeploy changes memory w).1
    prepared.result = .ok ()
      ∧ ∀ n : Nat, changes[n]? = some (.addition j) → prepared.state[n]? = some (.addition k)

/-- When instances are fetched and then deployed, identifiers are written out as identifiers with
the same text, whether they stood for an instance, for a user or for nothing that is known; and
nothing but identifiers changes. -/
theorem identifiers_come_back (s : Session ω) {elements : List Element} {users : List User}
    (htop : ∀ i ∈ Element.instances elements, i.id.isTopLevel = true)
    (hapart : Identifiers.Apart s.settings.filters.idReferences elements)
    (hemails : (users.map User.email).Nodup)
    (hfallback : s.settings.deploy.missingUserFallback = none) {w w' : ω}
    (hfetch : Filter.Lists s users w) (hdeploy : Filter.Lists s users w') (memory : Memory)
    {memory' : Memory} (hmemory : Filter.Remembers memory' users) :
    let fetched := ((Filter.idReferences s).onFetch elements memory w).1
    fetched.result = .ok () ∧ Forall₂ (Element.Related fun i j =>
        ∃ k, Identifiers.Kept s.settings.filters.idReferences users i k
          ∧ Filter.PreparesAs s memory' w' j k)
      elements fetched.state := by
  intro fetched
  obtain ⟨hresult, known, hknown, hstate⟩ :=
    Filter.resolveIdentifiers_listed s hfetch elements memory
  refine ⟨hresult, ?_⟩
  rw [show fetched.state = _ from hstate]
  let ids : UserIds := ⟨UserIds.ofUsers users, none⟩
  let rules := s.settings.filters.idReferences
  refine Element.related_mono (fun i hi j hresolved => ?_)
    (Identifiers.resolved_runs s.settings known htop rules)
  refine ⟨(Exchange.applyRules ids (Exchange.rulesFor rules j.typeName) j).1,
    hresolved.kept hemails hknown hapart hi, fun changes => ?_⟩
  obtain ⟨hprepared, hchanges⟩ := Filter.exchangeUsers_listed s hdeploy hfallback hmemory changes
  refine ⟨hprepared, fun n hn => ?_⟩
  show (Filter.exchangeUsers s changes memory' w').1.state[n]? = _
  rw [hchanges, List.getElem?_map, hn]
  rfl

/-- An account with a user whose macros are about groups. -/
def Session.ofMacros : Session Unit where
  settings := {
    adapter := "z"
    client := { baseUrl := "https://a" }
    fetch := { placeholders := true }
    filters := {
      idReferences := [⟨"macro", "group_ids", "group", false⟩,
        ⟨"macro", "owner.id", "group", true⟩] } }
  client :=
    let user := Json.object [("email", .string "ann@a"), ("id", .number (.int 7))]
    ⟨fun _ => pure (.ok ⟨200, .object [("users", .array [user])]⟩)⟩
  next := .eager

/-- A group, and a macro for it and for a group that is not there. -/
def Element.ofMacros : List Element :=
  [.inst (.named "g" (.ofType "z" "group") [("id", .number (.int 12))]),
    .inst (.named "m" (.ofType "z" "macro")
      [("group_ids", .list [.string "12", .number (.int 99)]),
        ("owner", .map [("id", .number (.int 7))])])]

/-- The groups become references, one of them to a placeholder, and the owner an address.  When the
macro is deployed, the owner is the user's identifier again. -/
theorem identifiers_come_back_for_macros :
    let s := Session.ofMacros
    let users : List User := [⟨.number (.int 7), "ann@a"⟩]
    let fetched := ((Filter.idReferences s).onFetch Element.ofMacros {} ()).1
    let fetchedMacro := (Element.instances fetched.state)[1]?.getD (.named "" (.ofType "" "") [])
    let prepared := ((Filter.idReferences s).preDeploy [.addition fetchedMacro] {} ()).1
    Forall₂ (Element.Related fun i j =>
        ∃ k, Identifiers.Kept s.settings.filters.idReferences users i k
          ∧ Filter.PreparesAs s {} () j k) Element.ofMacros fetched.state
      ∧ (fetchedMacro.get? "group_ids").map (fun groups => (groups.leavesAt []).map Value.shape)
        = some ["reference", "reference"]
      ∧ (fetchedMacro.get? "owner").map (fun owner => (owner.leavesAt ["id"]).map Value.keyText?)
        = some [some "ann@a"]
      ∧ prepared.state.map (fun c => ((Value.map c.data.value).leavesAt ["owner", "id"]).map
          Value.keyText?) = [[some "7"]] := by
  intro s users fetched fetchedMacro prepared
  have hmemory : Filter.Remembers {} users := fun known h => by
    cases (show none = some known from h)
  refine ⟨?_, by decide +kernel, by decide +kernel, by decide +kernel⟩
  exact (identifiers_come_back s (by decide +kernel) (.of_keys (by decide +kernel) _)
    (by decide +kernel) rfl rfl rfl {} hmemory).2

end AccountSync
