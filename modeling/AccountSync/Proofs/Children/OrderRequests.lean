/-
  AccountSync.Proofs.Children.OrderRequests
  ─────────────────────────────────────────
  **AN ORDER IS SENT AS IT WAS FETCHED.**

  The order below a parent refers to its children, and to the parent whose values fill in the
  url.  Written out, the references to the children are their identifiers.  So if nothing is
  changed in between, one request puts the children into the order that the fetch has seen.

      Job.fanOut_singleton                — what a fan-out does for one item
      Value.flatten_references            — a list of children, written out
      OrderInstances.request_ofParent     — the request of an order as it was fetched
      orders_sent_as_fetched              — the fetch and the deployment together
-/
import AccountSync.Proofs.Children.OrderInstances
import AccountSync.Proofs.Deployment.Filling
import AccountSync.Proofs.Sorting
import AccountSync.Proofs.Value.Flatten
import Mathlib.Data.List.Forall2

namespace AccountSync

open List (Forall₂)

variable {ω α β : Type}

/-! ## §1. One change by itself. -/

/-- With one item there is nothing to decide: its call begins, and then it ends.  The scheduler is
asked both times all the same. -/
theorem Job.fanOut_singleton (job : Job ω α β) (limit : Nat) (next : Scheduler ω) (item : α) :
    job.fanOut limit next [item] = (do
      let _ ← next 1 0
      job.start item
      let _ ← next 0 1
      let outcome ← job.finish item
      pure [outcome]) := by
  let waiting : Fanout α β := { waiting := [item] }
  let running : Fanout α β := { waiting := [], slots := [.running item] }
  have hstart (move : Move) : waiting.settle limit move = .start := by
    cases move with
    | start =>
      have hroom : waiting.canStart limit = true :=
        decide_eq_true (Nat.lt_of_lt_of_le Nat.zero_lt_one (Nat.le_max_left 1 limit))
      exact if_pos hroom
    | finish position => rfl
  have hfinish (move : Move) : running.settle limit move = .finish 0 := by
    cases move with
    | start => rfl
    | finish position => cases position <;> rfl
  have hrun : Fanout.run job limit next 2 waiting = (do
      let move ← next 1 0
      let s ← Fanout.step job waiting (waiting.settle limit move)
      Fanout.run job limit next 1 s) := rfl
  have hlast : Fanout.run job limit next 1 running = (do
      let move ← next 0 1
      let s ← Fanout.step job running (running.settle limit move)
      pure s) := rfl
  have hstep : Fanout.step job waiting .start = (do job.start item; pure running) := rfl
  simp only [hstart] at hrun
  simp only [hfinish] at hlast
  show (Fanout.run job limit next 2 waiting >>= fun s => pure s.delivered) = _
  rw [hrun, hstep]
  simp only [bind_assoc, pure_bind, hlast]
  rfl

/-- One call, after the scheduler was asked when it begins and when it ends. -/
def Scheduler.alone (next : Scheduler ω) (call : StateM ω α) : StateM ω α := do
  let _ ← next 1 0
  let _ ← next 0 1
  call

/-- One change that is claimed is handled by itself, and nothing is left over. -/
theorem Pool.route_singleton (pool : Pool ω) {claims : InstanceChange → Bool} {c : InstanceChange}
    (hclaims : claims c = true) (finish : InstanceChange → StateM ω Outcome) :
    pool.route claims (.ofFinish finish) [c] = pool.next.alone (do
      let outcome ← finish c
      pure { result := .ofOutcomes [outcome] }) := by
  have hpartition : [c].partition claims = ([c], []) := by
    rw [List.partition_eq_filter_filter, List.filter_cons_of_pos hclaims,
      List.filter_cons_of_neg (by simp [hclaims])]
    rfl
  unfold Pool.route Pool.deploy
  rw [hpartition]
  dsimp only
  rw [Job.fanOut_singleton]
  rfl

/-! ## §2. Children, written out. -/

/-- The identifier that an instance has, written out. -/
def Instance.HasId (i : Instance) (id : Json) : Prop :=
  ∃ v, i.get? "id" = some v ∧ v.flatten = .ok id

/-- An instance has one identifier. -/
theorem Instance.HasId.unique {i : Instance} {id id' : Json} (h : i.HasId id) (h' : i.HasId id') :
    id = id' := by
  obtain ⟨v, hget, hflat⟩ := h
  obtain ⟨v', hget', hflat'⟩ := h'
  obtain rfl : v = v' := Option.some.inj (hget.symm.trans hget')
  exact Except.ok.inj (hflat.symm.trans hflat')

namespace Value

theorem flattenItems_of_forall₂ {vs : List Value} {js : List Json}
    (h : Forall₂ (fun v j => v.flatten = .ok j) vs js) : flattenItems vs = .ok js := by
  induction h with
  | nil => rfl
  | cons hv _ ih =>
    unfold flattenItems
    rw [hv, ih]
    rfl

/-- A reference to an instance is written out as the identifier of the instance. -/
theorem flatten_reference_of_hasId {i : Instance} (htop : i.id.isTopLevel = true) {id : Json}
    (h : i.HasId id) : (Value.reference i.reference).flatten = .ok id := by
  obtain ⟨v, hget, hflat⟩ := h
  rw [flatten_reference htop, hget]
  exact hflat

/-- A list of references to instances is written out as the list of their identifiers. -/
theorem flatten_references {children : List Instance} {ids : List Json}
    (htop : ∀ child ∈ children, child.id.isTopLevel = true)
    (hids : Forall₂ Instance.HasId children ids) :
    (Children.list children).flatten = .ok (.array ids) := by
  have hitems : flattenItems (children.map fun child => .reference child.reference) = .ok ids := by
    refine flattenItems_of_forall₂ (List.forall₂_map_left_iff.mpr ?_)
    refine ((List.forall₂_and_left _ _).mpr ⟨htop, hids⟩).imp ?_
    rintro child id ⟨hchild, hid⟩
    exact flatten_reference_of_hasId hchild hid
  show (flattenItems _).map Json.array = _
  rw [hitems]
  rfl

end Value

/-! ## §3. The request of an order. -/

namespace OrderInstances

/-- The first rule about a type of children is the first one about the type of their orders. -/
theorem ruleFor?_orderType {rules : List OrderInstanceRule} {rule : OrderInstanceRule}
    (h : rules.find? (fun r => r.childType = rule.childType) = some rule) :
    ruleFor? rules rule.orderType = some rule := by
  have hsame (r : OrderInstanceRule) :
      r.orderType = rule.orderType ↔ r.childType = rule.childType :=
    append_order_injective.eq_iff
  unfold ruleFor?
  simp only [hsame]
  exact h

variable {adapter : String} {rules : List OrderInstanceRule} {rule : OrderInstanceRule}
  {elements : List Element} {parent : Instance}

/-- The request of an order as it was fetched: the url is filled in with the values of the parent,
and the body lists the identifiers of the children. -/
theorem request_ofParent
    (hrule : rules.find? (fun r => r.childType = rule.childType) = some rule)
    {values : Dict Json} (hvalues : Fields.flatten parent.value = .ok values) {key : Json}
    (hkey : Dict.get? values rule.parentKeyField = some key) (hnull : key.isNull = false)
    {url : String} (hurl : UrlTemplate.fill rule.url (.object values) = .ok url)
    {ids : Json} (hids : listedIds (ofParent adapter rule elements parent) = .ok ids) :
    request rules (ofParent adapter rule elements parent)
      = .ok { method := .put, url, body := some (.object [("ids", ids)]) } := by
  have hparent : parentValues (ofParent adapter rule elements parent)
      = .ok (some (.object values)) := by
    show ((Value.map parent.value).flatten).map some = _
    show ((Value.flattenEntries parent.value).map Json.object).map some = _
    have hentries : Value.flattenEntries parent.value = .ok values := hvalues
    rw [hentries]
    rfl
  have hkeyed : keyedParent rule (ofParent adapter rule elements parent)
      = .ok (.object values) := by
    unfold keyedParent
    rw [hparent]
    show (if (((Json.object values).get? rule.parentKeyField).filter _).isSome then _ else _) = _
    rw [if_pos]
    · rfl
    · show ((Dict.get? values rule.parentKeyField).filter _).isSome = true
      rw [hkey]
      simp [Option.filter, hnull]
  unfold request
  rw [show ruleFor? rules (ofParent adapter rule elements parent).typeName = some rule from
    ruleFor?_orderType hrule]
  dsimp only
  rw [hkeyed]
  show (urlFor rule _ (.object values) >>= _) = _
  unfold urlFor
  rw [hurl, hids]
  rfl

/-- What an order lists are the children that it was fetched with. -/
theorem get?_listField :
    (ofParent adapter rule elements parent).get? listField
      = some (Children.list (Children.sorted rule.positionField createdAtField
        (childrenOf rule elements parent))) :=
  Dict.get?_cons_self _ _ _

/-- A change of an order is handled by itself. -/
theorem deploy_singleton (s : Session ω) {c : InstanceChange}
    (hclaims : claims s.settings.filters.orderInstances c = true) :
    (Filter.orderInstance s).deploy [c] = s.next.alone (do
      let outcome ← deployOne s.settings.filters.orderInstances s.client c
      pure (.ok { result := .ofOutcomes [outcome] })) := by
  have hroute := s.pool.route_singleton hclaims
    (deployOne s.settings.filters.orderInstances s.client)
  unfold Filter.orderInstance deployer
  dsimp only
  rw [hroute]
  rfl

/-- Whether an order is applied, by the answer to its request. -/
def verdict (order : Instance) : Except HttpFailure Response → Except Failure Unit
  | .ok answer => accepted order answer
  | .error e => .error (.http e)

/-- An order is applied if the answer is a success with status 200, and only then. -/
theorem verdict_eq_ok_iff (order : Instance) (answer : Except HttpFailure Response) :
    verdict order answer = .ok () ↔ ∃ a, answer = .ok a ∧ a.status = 200 := by
  cases answer with
  | error e => exact ⟨nofun, nofun⟩
  | ok a =>
    show accepted order a = .ok () ↔ _
    unfold accepted
    split
    next hstatus => exact ⟨fun _ => ⟨a, rfl, hstatus⟩, fun _ => rfl⟩
    next hstatus =>
      refine ⟨nofun, ?_⟩
      rintro ⟨a', ha, hstatus'⟩
      obtain rfl := Except.ok.inj ha
      exact absurd hstatus' hstatus

/-- An addition or a modification of an order is one request. -/
theorem deployOne_request {rules : List OrderInstanceRule} (client : Client ω) {c : InstanceChange}
    (hadds : c.isRemoval = false) {r : Request} (hrequest : request rules c.data = .ok r) :
    deployOne rules client c = (do
      let answer ← client.send r
      pure ⟨c, verdict c.data answer⟩) := by
  unfold deployOne
  rw [if_neg (Bool.eq_false_iff.mp hadds), hrequest]
  dsimp only
  congr 1
  funext answer
  cases answer <;> rfl

end OrderInstances

/-! ## §4. What was fetched and what is sent. -/

/-- **An order is sent as it was fetched.**  Let the rule be the first one about its type of
children, and let the values of the parent, written out, fill in the url and have something under
the key of the rule; and let all children have identifiers.  Then the order that fetching adds
lists exactly the children whose parents include this one, each once and by position.  As long as
it is not changed, adding or modifying it is one request, with the values of the parent in the
url and the identifiers of the children in their order as its body; it is applied if and only if
the answer is a success with status 200.  Removing it needs no request. -/
theorem orders_sent_as_fetched (s : Session ω) {elements : List Element}
    (htop : ∀ i ∈ Element.instances elements, i.id.isTopLevel = true) {rule : OrderInstanceRule}
    (hrule : s.settings.filters.orderInstances.find? (fun r => r.childType = rule.childType)
      = some rule)
    {parent : Instance} (hparent : parent ∈ Element.instancesOf elements rule.parentType)
    {values : Dict Json} (hvalues : Fields.flatten parent.value = .ok values) {key : Json}
    (hkey : Dict.get? values rule.parentKeyField = some key) (hnull : key.isNull = false)
    {url : String} (hurl : UrlTemplate.fill rule.url (.object values) = .ok url)
    (hids : ∀ child ∈ OrderInstances.childrenOf rule elements parent, ∃ id, child.HasId id) :
    let order := OrderInstances.ofParent s.settings.adapter rule elements parent
    (∃ earlier later, ∀ memory w, ((Filter.orderInstance s).onFetch elements memory w).1.state
      = elements ++ earlier ++ .inst order :: later)
    ∧ ∃ (children : List Instance) (ids : List Json),
      order.get? "ids" = some (.list (children.map fun child => .reference child.reference))
      ∧ children.Perm ((Element.instancesOf elements rule.childType).filter
        fun child => child.parents.any fun r => r.id = parent.id)
      ∧ children.Pairwise (fun a b => Sorting.lastIfAbsent compare
        (Children.position? rule.positionField a) (Children.position? rule.positionField b) ≠ .gt)
      ∧ Forall₂ Instance.HasId children ids
      ∧ (∀ c : InstanceChange, c.isRemoval = false → c.data = order →
        ∃ applied : Except HttpFailure Response → Except Failure Unit,
          (Filter.orderInstance s).deploy [c] = s.next.alone (do
            let answer ← s.client.send ⟨.put, url, some (.object [("ids", .array ids)])⟩
            pure (.ok { result := .ofOutcomes [⟨c, applied answer⟩] }))
          ∧ ∀ answer, applied answer = .ok () ↔ ∃ a, answer = .ok a ∧ a.status = 200)
      ∧ (Filter.orderInstance s).deploy [.removal order]
        = s.next.alone (pure (.ok { result := ⟨[.removal order], []⟩ })) := by
  intro order
  let children := Children.sorted rule.positionField OrderInstances.createdAtField
    (OrderInstances.childrenOf rule elements parent)
  have hperm : children.Perm (OrderInstances.childrenOf rule elements parent) :=
    Sorting.sortedBy_perm _ _
  have hlist : order.get? "ids" = some (Children.list children) := OrderInstances.get?_listField
  obtain ⟨ids, hwritten⟩ : ∃ ids, Forall₂ Instance.HasId children ids :=
    forall₂_of_forall_exists fun child hchild => hids child (hperm.mem_iff.mp hchild)
  have hrequest : OrderInstances.request s.settings.filters.orderInstances order
      = .ok ⟨.put, url, some (.object [("ids", .array ids)])⟩ := by
    refine OrderInstances.request_ofParent hrule hvalues hkey hnull hurl ?_
    show OrderInstances.listedIds order = _
    unfold OrderInstances.listedIds
    rw [show order.get? OrderInstances.listField = _ from hlist]
    refine Value.flatten_references (fun child hchild => htop child ?_) hwritten
    -- a child is one of the elements
    exact Element.mem_of_instancesOf (List.mem_of_mem_filter (hperm.mem_iff.mp hchild))
  have hclaims (c : InstanceChange) (hdata : c.data = order) :
      OrderInstances.claims s.settings.filters.orderInstances c = true := by
    have htype : c.typeName = rule.orderType := congrArg Instance.typeName hdata
    unfold OrderInstances.claims
    rw [htype, OrderInstances.ruleFor?_orderType hrule]
    rfl
  refine ⟨?fetched, children, ids, hlist, hperm, Children.sorted_positions _ _ _, hwritten,
    fun c hadds hdata => ⟨OrderInstances.verdict order, ?sent,
      OrderInstances.verdict_eq_ok_iff order⟩, ?removed⟩
  case fetched =>
    have hadded : .inst order ∈ OrderInstances.added s.settings.adapter
        s.settings.filters.orderInstances elements := by
      refine List.mem_flatMap.mpr ⟨rule, List.mem_of_find?_eq_some hrule, ?_⟩
      exact List.mem_cons_of_mem _ (List.mem_map_of_mem hparent)
    obtain ⟨earlier, later, hsplit⟩ := List.append_of_mem hadded
    refine ⟨earlier, later, fun memory w => ?_⟩
    show elements ++ OrderInstances.added _ _ elements = _
    rw [hsplit, List.append_assoc]
  case sent =>
    rw [OrderInstances.deploy_singleton s (hclaims c hdata),
      OrderInstances.deployOne_request s.client hadds (hdata ▸ hrequest), hdata]
    rfl
  case removed =>
    rw [OrderInstances.deploy_singleton s (hclaims (.removal order) rfl)]
    rfl

/-- The fields of a car, of which the color comes before the wheels. -/
theorem orders_sent_as_fetched_for_car :
    let rule : OrderInstanceRule := {
      parentType := "custom_object"
      childType := "custom_object_field"
      url := "/custom_objects/" ++ Text.braced "key" ++ "/fields/reorder" }
    let car : Instance := .named "car" (.ofType "z" "custom_object") [("key", .string "car")]
    let field (name : String) (id position : Int) : Instance :=
      (Instance.named name (.ofType "z" "custom_object_field")
        [("id", .number (.int id)), ("position", .number (.int position))]).withParent car.reference
    let elements : List Element :=
      [.inst car, .inst (field "wheels" 2 1), .inst (field "color" 1 0)]
    let s : Session (List Request) := {
      settings := (Session.ofOrders [rule]).settings
      client := ⟨fun r sent => (.ok ⟨200, .null⟩, sent ++ [r])⟩
      next := .eager }
    let order := OrderInstances.ofParent "z" rule elements car
    order.get? "ids" = some (.list [.reference (field "color" 1 0).reference,
        .reference (field "wheels" 2 1).reference])
      ∧ ∃ applied : Except HttpFailure Response → Except Failure Unit,
        (Filter.orderInstance s).deploy [.addition order] = s.next.alone (do
          let answer ← s.client.send ⟨.put, "/custom_objects/car/fields/reorder",
            some (.object [("ids", .array [.number (.int 1), .number (.int 2)])])⟩
          pure (.ok { result := .ofOutcomes [⟨.addition order, applied answer⟩] }))
        ∧ applied (.ok ⟨200, .null⟩) = .ok () := by
  intro rule car field elements s order
  have htop : ∀ i ∈ Element.instances elements, i.id.isTopLevel = true := by decide +kernel
  have hrule : s.settings.filters.orderInstances.find?
      (fun r => r.childType = rule.childType) = some rule := rfl
  have hcar : car ∈ Element.instancesOf elements rule.parentType := List.mem_cons_self
  have hvalues : Fields.flatten car.value = .ok [("key", .string "car")] := rfl
  have hurl : UrlTemplate.fill rule.url (.object [("key", .string "car")])
      = .ok "/custom_objects/car/fields/reorder" := by decide +kernel
  have hchildren : OrderInstances.childrenOf rule elements car
      = [field "wheels" 2 1, field "color" 1 0] := rfl
  have hid (name : String) (id position : Int) :
      (field name id position).HasId (.number (.int id)) := ⟨_, rfl, rfl⟩
  have hids : ∀ child ∈ OrderInstances.childrenOf rule elements car, ∃ id, child.HasId id := by
    rw [hchildren]
    simp only [List.forall_mem_cons]
    exact ⟨⟨_, hid "wheels" 2 1⟩, ⟨_, hid "color" 1 0⟩, nofun⟩
  obtain ⟨-, children, ids, hlist, hperm, hsorted, hwritten, hsent, -⟩ :=
    orders_sent_as_fetched s htop hrule hcar hvalues (Dict.get?_cons_self _ _ _) rfl hurl hids
  -- there is only one way to put these two in order
  obtain rfl : children = [field "color" 1 0, field "wheels" 2 1] := by
    have hcolor : [field "color" 1 0, field "wheels" 2 1].Pairwise fun a b =>
        Sorting.lastIfAbsent compare (Children.position? rule.positionField a)
          (Children.position? rule.positionField b) ≠ .gt := by
      decide +kernel
    refine (hperm.trans (List.Perm.swap _ _ _)).eq_of_pairwise ?_ hsorted hcolor
    intro a b ha hb hab hba
    have ha : a ∈ [field "wheels" 2 1, field "color" 1 0] := hperm.mem_iff.mp ha
    simp only [List.mem_cons, List.not_mem_nil, or_false] at ha hb
    rcases ha with rfl | rfl <;> rcases hb with rfl | rfl
    · exact absurd (by decide +kernel) hab
    · rfl
    · rfl
    · exact absurd (by decide +kernel) hba
  obtain rfl : ids = [.number (.int 1), .number (.int 2)] := by
    match ids, hwritten with
    | [_, _], .cons hfirst (.cons hlast .nil) =>
      rw [hfirst.unique (hid "color" 1 0), hlast.unique (hid "wheels" 2 1)]
  obtain ⟨applied, hdeploy, happlied⟩ := hsent (.addition order) rfl rfl
  exact ⟨hlist, applied, hdeploy, (happlied _).mpr ⟨_, rfl, rfl⟩⟩

end AccountSync
