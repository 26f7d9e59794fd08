/-
  AccountSync.Proofs.Value.Expressions
  ────────────────────────────────────
  **WHAT KEEPS A TREE FROM BEING WRITTEN OUT.**

  Plain data is written out as itself.  So whether a tree can be written out is decided by its
  references and templates alone, and the first of them that cannot be written out decides the
  failure.  A reference that can be written into a text is written out as a scalar with that
  text.

      Value.expressions         — the references and templates of a tree, in order
      Value.flatten_ofJson      — plain data stays as it is
      Value.flatten_of_plain    — so does a tree without references and templates
      Value.flatten_eq_error_iff — the first failure decides
      Reference.flatten_of_rendered — a reference as a text and as plain data
      flattening_agrees         — all of it together
-/
import AccountSync.Proofs.Template.Rendered
import AccountSync.Proofs.Value.Flatten
import AccountSync.Proofs.Value.Pruned

namespace AccountSync

namespace Value

/-! ## §1. References and templates of a tree. -/

/-- A reference or a template. -/
def isExpression : Value → Bool
  | .reference _ => true
  | .template _ => true
  | _ => false

/-- The references and templates of a tree, in order.  Those inside of copies that references carry
do not count. -/
def expressions (v : Value) : List (Position × Value) :=
  (visited (fun _ _ => true) v).filter (fun n => n.2.isExpression)

variable {v w : Value}

/-- They are the tree itself, if it is one, and those of its children. -/
theorem expressions_eq (v : Value) :
    v.expressions = (if v.isExpression then [([], v)] else [])
      ++ (children v).flatMap fun c => c.2.expressions.map c.1.over := by
  unfold expressions
  rw [visited_eq, if_pos rfl, List.filter_cons, List.filter_flatMap]
  have hchild (c : Selector × Value) :
      (visitedIn (fun _ _ => true) c).filter (fun n => n.2.isExpression)
        = ((visited (fun _ _ => true) c.2).filter (fun n => n.2.isExpression)).map c.1.over := by
    unfold visitedIn
    rw [List.filter_map]
    rfl
  simp only [hchild]
  split <;> rfl

/-- They come in the order of their positions. -/
theorem expressions_sorted (hv : v.WellFormed) : v.expressions.Pairwise Earlier :=
  (visited_sorted hv _).filter _

/-- All of them are listed, and nothing else is. -/
theorem mem_expressions_iff (hv : v.WellFormed) {p : Position} :
    (p, w) ∈ v.expressions ↔ v.valueAt? p = some w ∧ w.isExpression = true := by
  have hkept : KeptAbove (fun _ _ => true) v p := fun _ _ _ _ _ => rfl
  unfold expressions
  rw [List.mem_filter, mem_visited_iff hv]
  simp only [hkept, and_true]

theorem expressions_of_mem_children {s : Selector} (hc : (s, w) ∈ children v)
    (h : v.expressions = []) : w.expressions = [] := by
  rw [expressions_eq, List.append_eq_nil_iff, List.flatMap_eq_nil_iff] at h
  exact List.map_eq_nil_iff.mp (h.2 (s, w) hc)

/-! ## §2. Plain data. -/

mutual

/-- Plain data is written out as itself. -/
theorem flatten_ofJson : ∀ j : Json, (ofJson j).flatten = .ok j
  | .null => rfl
  | .bool _ => rfl
  | .number _ => rfl
  | .string _ => rfl
  | .array items => by
    show (flattenItems (itemsOfJson items)).map Json.array = _
    rw [flattenItems_ofJson items]
    rfl
  | .object entries => by
    show (flattenEntries (entriesOfJson entries)).map Json.object = _
    rw [flattenEntries_ofJson entries]
    rfl

theorem flattenItems_ofJson : ∀ items : List Json, flattenItems (itemsOfJson items) = .ok items
  | [] => rfl
  | j :: rest => by
    simp only [itemsOfJson, flattenItems, flatten_ofJson j, flattenItems_ofJson rest]
    rfl

theorem flattenEntries_ofJson :
    ∀ entries : List (String × Json), flattenEntries (entriesOfJson entries) = .ok entries
  | [] => rfl
  | (key, j) :: rest => by
    simp only [entriesOfJson, flattenEntries, flatten_ofJson j, flattenEntries_ofJson rest]
    rfl

end

/-- If all items are written out as themselves, then so is a list of them. -/
theorem flattenItems_of_plain {vs : List Value}
    (h : ∀ v ∈ vs, ∃ j, flatten v = .ok j ∧ ofJson j = v) :
    ∃ js, flattenItems vs = .ok js ∧ itemsOfJson js = vs := by
  induction vs with
  | nil => exact ⟨[], rfl, rfl⟩
  | cons v rest ih =>
    obtain ⟨⟨j, hj, hv⟩, hrest⟩ := List.forall_mem_cons.mp h
    obtain ⟨js, hjs, hvs⟩ := ih hrest
    refine ⟨j :: js, ?_, ?_⟩
    · simp only [flattenItems, hj, hjs]
      rfl
    · rw [itemsOfJson, hv, hvs]

/-- If the values of all entries are written out as themselves, then so is a map of them. -/
theorem flattenEntries_of_plain {vs : Fields}
    (h : ∀ e ∈ vs, ∃ j, flatten e.2 = .ok j ∧ ofJson j = e.2) :
    ∃ js, flattenEntries vs = .ok js ∧ entriesOfJson js = vs := by
  induction vs with
  | nil => exact ⟨[], rfl, rfl⟩
  | cons e rest ih =>
    obtain ⟨key, v⟩ := e
    obtain ⟨⟨j, hj, hv⟩, hrest⟩ := List.forall_mem_cons.mp h
    obtain ⟨js, hjs, hvs⟩ := ih hrest
    refine ⟨(key, j) :: js, ?_, ?_⟩
    · simp only [flattenEntries, hj, hjs]
      rfl
    · rw [entriesOfJson, hv, hvs]

/-- A tree without references and templates is written out as itself. -/
theorem flatten_of_plain (h : v.expressions = []) : ∃ j, v.flatten = .ok j ∧ ofJson j = v := by
  induction v using member_induction with
  | map vs ih =>
    have hentries : ∀ e ∈ vs, ∃ j, flatten e.2 = .ok j ∧ ofJson j = e.2 := by
      intro e he
      have hc : (Selector.key e.1, e.2) ∈ children (.map vs) :=
        mem_children_map.mpr ⟨e.1, rfl, he⟩
      exact ih e he (expressions_of_mem_children hc h)
    obtain ⟨js, hjs, hvs⟩ := flattenEntries_of_plain hentries
    refine ⟨.object js, ?_, ?_⟩
    · show (flattenEntries vs).map Json.object = _
      rw [hjs]
      rfl
    · rw [ofJson, hvs]
  | list vs ih =>
    have hitems : ∀ v ∈ vs, ∃ j, flatten v = .ok j ∧ ofJson j = v := by
      intro v hv
      obtain ⟨n, hn⟩ := List.mem_iff_getElem?.mp hv
      have hc : (Selector.item n, v) ∈ children (.list vs) := mem_children_list.mpr ⟨n, rfl, hn⟩
      exact ih v hv (expressions_of_mem_children hc h)
    obtain ⟨js, hjs, hvs⟩ := flattenItems_of_plain hitems
    refine ⟨.array js, ?_, ?_⟩
    · show (flattenItems vs).map Json.array = _
      rw [hjs]
      rfl
    · rw [ofJson, hvs]
  | leaf v hmap hlist =>
    cases v with
    | map | list => contradiction
    | reference | template => exact absurd h (List.cons_ne_nil _ _)
    | _ => exact flatten_scalar rfl

/-! ## §3. The first failure. -/

/-- Why the value cannot be written out, if it cannot. -/
def failure? (v : Value) : Option Failure :=
  match v.flatten with
  | .ok _ => none
  | .error e => some e

theorem failure?_eq_some_iff {e : Failure} : v.failure? = some e ↔ v.flatten = .error e := by
  unfold failure?
  cases v.flatten <;> simp

theorem failure?_eq_none_iff : v.failure? = none ↔ ∃ j, v.flatten = .ok j := by
  unfold failure?
  cases v.flatten <;> simp

/-- Of a list the first item that cannot be written out decides. -/
theorem failure?_list (vs : List Value) : (Value.list vs).failure? = vs.findSome? failure? := by
  induction vs with
  | nil => rfl
  | cons v rest ih =>
    rw [List.findSome?_cons, ← ih]
    simp only [failure?, flatten, flattenItems]
    cases flatten v with
    | error e => rfl
    | ok j => cases flattenItems rest <;> rfl

/-- Of a map the first entry does. -/
theorem failure?_map (vs : Fields) :
    (Value.map vs).failure? = vs.findSome? fun e => e.2.failure? := by
  induction vs with
  | nil => rfl
  | cons e rest ih =>
    obtain ⟨key, v⟩ := e
    rw [List.findSome?_cons, ← ih]
    simp only [failure?, flatten, flattenEntries]
    cases flatten v with
    | error e => rfl
    | ok j => cases flattenEntries rest <;> rfl

/-- Either way it is the first child. -/
theorem failure?_children (h : v.isExpression = false) :
    v.failure? = (children v).findSome? fun c => c.2.failure? := by
  cases v with
  | map vs =>
    show _ = (vs.map _).findSome? _
    rw [failure?_map, List.findSome?_map]
    rfl
  | list vs =>
    have hitems : (children (.list vs)).map Prod.snd = vs := by
      show (vs.zipIdx.map _).map Prod.snd = vs
      rw [List.map_map]
      exact List.zipIdx_map_fst 0 vs
    conv => lhs; rw [failure?_list, ← hitems, List.findSome?_map]
    rfl
  | reference | template => exact absurd h nofun
  | _ => rfl

/-- What comes first among children comes first in what is below them. -/
theorem findSome?_children {cs : List (Selector × Value)}
    (h : ∀ c ∈ cs, c.2.failure? = c.2.expressions.findSome? fun n => n.2.failure?) :
    cs.findSome? (fun c => c.2.failure?)
      = (cs.flatMap fun c => c.2.expressions.map c.1.over).findSome? fun n => n.2.failure? := by
  induction cs with
  | nil => rfl
  | cons c rest ih =>
    obtain ⟨hc, hrest⟩ := List.forall_mem_cons.mp h
    have hbelow : (c.2.expressions.map c.1.over).findSome? (fun n => n.2.failure?)
        = c.2.failure? := by
      rw [List.findSome?_map, hc]
      rfl
    rw [List.findSome?_cons, List.flatMap_cons, List.findSome?_append, hbelow, ← ih hrest]
    cases c.2.failure? <;> rfl

/-- So in the end it is the first reference or template. -/
theorem failure?_eq (v : Value) :
    v.failure? = v.expressions.findSome? fun n => n.2.failure? := by
  induction v using children_induction with
  | h v ih =>
    cases hexpression : v.isExpression with
    | true =>
      have hsingle : v.expressions = [([], v)] := by
        cases v with
        | reference | template => rfl
        | _ => exact absurd hexpression nofun
      rw [hsingle]
      cases hfailure : v.failure? <;> simp [hfailure]
    | false =>
      rw [failure?_children hexpression, expressions_eq, hexpression,
        findSome?_children fun c hc => ih c.1 c.2 hc]
      rfl

/-- A tree cannot be written out exactly if one of its references and templates cannot be, and it
fails as the first of these does. -/
theorem flatten_eq_error_iff {e : Failure} :
    v.flatten = .error e ↔ ∃ before n after, v.expressions = before ++ n :: after
      ∧ n.2.flatten = .error e ∧ ∀ m ∈ before, ∃ j, m.2.flatten = .ok j := by
  rw [← failure?_eq_some_iff, failure?_eq, List.findSome?_eq_some_iff]
  simp only [failure?_eq_some_iff, failure?_eq_none_iff]

end Value

/-! ## §4. A reference as a text and as plain data. -/

namespace Reference

variable {r : Reference}

/-- Without a copy of its target a reference is written in neither way. -/
theorem unresolved (h : r.target = none) :
    r.rendered = .error (.unresolvedReference r.id)
      ∧ (Value.reference r).flatten = .error (.unresolvedReference r.id) := by
  obtain ⟨id, target⟩ := r
  obtain rfl : target = none := h
  exact ⟨rfl, rfl⟩

/-- A reference to a whole element is written out as the `id` of its target. -/
theorem flatten_topLevel {id : ElementId} (htop : id.isTopLevel = true) {target v : Value}
    (hid : target.get? "id" = some v) :
    (Value.reference (.to id (some target))).flatten = v.flatten := by
  cases target with
  | map entries =>
    show Value.flattenReference (.to id (some (.map entries))) = _
    have hunder : Value.flattenUnder "id" entries = some v.flatten := by
      rw [Value.flattenUnder_eq, show Dict.get? entries "id" = some v from hid]
      rfl
    unfold Value.flattenReference
    rw [if_pos htop]
    simp only [hunder]
  | _ => cases (show none = some v from hid)

/-- What can be written into a text is written out as a scalar with that text. -/
theorem flatten_of_rendered {text : String} (h : r.rendered = .ok text) :
    ∃ j, (Value.reference r).flatten = .ok j ∧ (Value.ofJson j).isScalar = true
      ∧ (Value.ofJson j).keyText? = some text := by
  obtain ⟨id, target⟩ := r
  cases target with
  | none => exact absurd h nofun
  | some target =>
    cases htop : id.isTopLevel with
    | true =>
      -- the text is that of the `id`, which is a scalar then
      rw [rendered_topLevel htop] at h
      cases hkey : (target.get? "id").bind Value.keyText? with
      | none =>
        rw [hkey] at h
        exact absurd h nofun
      | some key =>
        rw [hkey] at h
        obtain rfl : key = text := Except.ok.inj h
        obtain ⟨v, hv, hvkey⟩ := Option.bind_eq_some_iff.mp hkey
        have hscalar := Value.isScalar_of_keyText? hvkey
        obtain ⟨j, hflat, hj⟩ := Value.flatten_scalar hscalar
        exact ⟨j, (flatten_topLevel htop hv).trans hflat, hj ▸ hscalar, hj ▸ hvkey⟩
    | false =>
      cases target with
      | string s =>
        rw [rendered_inside htop] at h
        obtain rfl : s = text := Except.ok.inj h
        exact ⟨.string s, if_neg (Bool.eq_false_iff.mp htop), rfl, rfl⟩
      | _ =>
        -- nothing else is written into a text
        unfold rendered at h
        simp [Reference.target, Reference.id, htop] at h

end Reference

/-- **Trees are written out as plain data that reads back the same.**  What was written out is
written out as itself again; and a tree without references and templates is read back as it was.
A reference that can be written into a text is written out as a scalar with that text, and one
without a copy of its target in neither way.  A tree cannot be written out exactly if one of its
references and templates cannot be, and it fails as the first of them does: by keys ascending, and
by numbers of items. -/
theorem flattening_agrees (v : Value) (r : Reference) :
    (∀ j, v.flatten = .ok j → (Value.ofJson j).flatten = .ok j)
    ∧ (v.expressions = [] → ∃ j, v.flatten = .ok j ∧ Value.ofJson j = v)
    ∧ (∀ text, r.rendered = .ok text → ∃ j, (Value.reference r).flatten = .ok j
        ∧ (Value.ofJson j).isScalar = true ∧ (Value.ofJson j).keyText? = some text)
    ∧ (r.target = none → r.rendered = .error (.unresolvedReference r.id)
        ∧ (Value.reference r).flatten = .error (.unresolvedReference r.id))
    ∧ (∀ e, v.flatten = .error e ↔ ∃ before n after, v.expressions = before ++ n :: after
        ∧ n.2.flatten = .error e ∧ ∀ m ∈ before, ∃ j, m.2.flatten = .ok j)
    ∧ (v.WellFormed → v.expressions.Pairwise Value.Earlier
        ∧ ∀ p w, (p, w) ∈ v.expressions ↔ v.valueAt? p = some w ∧ w.isExpression = true) :=
  ⟨fun j _ => Value.flatten_ofJson j, Value.flatten_of_plain,
    fun _ => Reference.flatten_of_rendered, Reference.unresolved,
    fun _ => Value.flatten_eq_error_iff,
    fun hv => ⟨Value.expressions_sorted hv, fun _ _ => Value.mem_expressions_iff hv⟩⟩

/-- A group, whose copy hides a reference that cannot be written out, is written out all the same.
The reference beside it decides the failure, and not the template behind. -/
theorem flattening_agrees_for_groups :
    let id (name : String) := ElementId.ofInstance "z" "group" name
    let r := Reference.to (id "a") (some (.map [("id", .number (.int 12)),
      ("owner", .reference (.to (id "d") none))]))
    let v := Value.map [("ids", .list [.reference r, .reference (.to (id "b") none)]),
      ("url", .template [.literal "/", .reference (.to (id "c") none)])]
    r.rendered = .ok "12"
      ∧ (∃ j, (Value.reference r).flatten = .ok j ∧ (Value.ofJson j).keyText? = some "12")
      ∧ v.WellFormed
      ∧ v.expressions.map Prod.fst
        = [[.key "ids", .item 0], [.key "ids", .item 1], [.key "url"]]
      ∧ v.flatten = .error (.unresolvedReference (id "b")) := by
  intro id r v
  obtain ⟨-, -, htext, -, hfirst, -⟩ := flattening_agrees v r
  have hrendered : r.rendered = .ok "12" := rfl
  obtain ⟨j, hflat, -, hkey⟩ := htext "12" hrendered
  have hwf : v.WellFormed := by
    simp only [v, Value.WellFormed, Value.EntriesWellFormed, Value.ItemsWellFormed, and_true]
    decide
  refine ⟨hrendered, ⟨j, hflat, hkey⟩, hwf, by decide +kernel, ?_⟩
  refine (hfirst _).mpr ⟨[_], _, [_], rfl, rfl, fun m hm => ?_⟩
  obtain rfl := List.mem_singleton.mp hm
  exact ⟨j, hflat⟩

end AccountSync
