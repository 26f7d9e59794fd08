/-
  AccountSync.Proofs.Deployment.Atomicity
  ───────────────────────────────────────
  **A CHANGE IS DEPLOYED BY ONE REQUEST OR NOT AT ALL.**

  Whatever the settings, the change and the account, the deployer of single changes sends one
  request or none.  A change that fails is left as it was.  One that succeeds is left as it was
  too, except that a new instance gets the identifier that the answer holds.

      Client.recorded              — a client with its requests on record
      TypeEndpoints.IsBody         — the body of a request
      TypeEndpoints.Returns        — the identifier that an answer holds
      Settings.Refuses             — why nothing can be sent for a change
      Settings.Asks                — the request for a change
      Settings.request_cases       — it is one or the other
      Settings.Deploys             — all that a call may come to
      change_deployed_atomically
-/
import AccountSync.Deployment.Endpoint
import AccountSync.Proofs.Filter.Prepared

namespace AccountSync

variable {ω : Type}

/-- The client, with every request noted before it is answered. -/
def Client.recorded (client : Client ω) : Client (ω × List Request) where
  send r := fun p => let answer := client.send r p.1; (answer.1, (answer.2, p.2 ++ [r]))

/-! ## §1. Bodies. -/

/-- Writing fields out keeps their names. -/
theorem Value.flattenEntries_keys {fields : Fields} {values : Dict Json}
    (h : flattenEntries fields = .ok values) : Dict.keys values = Dict.keys fields := by
  induction fields generalizing values with
  | nil =>
    obtain rfl := Except.ok.inj h
    rfl
  | cons e rest ih =>
    obtain ⟨key, v⟩ := e
    unfold flattenEntries at h
    cases hv : flatten v with
    | error f =>
      rw [hv] at h
      cases h
    | ok j =>
      cases hrest : flattenEntries rest with
      | error f =>
        rw [hv, hrest] at h
        cases h
      | ok js =>
        rw [hv, hrest] at h
        obtain rfl := Except.ok.inj h
        exact congrArg (key :: ·) (ih hrest)

/-- Forgetting keys one after the other leaves the entries with other keys. -/
theorem Dict.Sorted.foldl_erase {α : Type} {d : Dict α} (h : Sorted d) (ignored : List String) :
    ignored.foldl Dict.erase d = d.filter (fun e => e.1 ∉ ignored) := by
  induction ignored generalizing d with
  | nil => exact (List.filter_eq_self.mpr fun e _ => by simp).symm
  | cons key ignored ih =>
    rw [List.foldl_cons, ih (h.erase key), h.erase_eq_filter, List.filter_filter]
    refine List.filter_congr fun e _ => ?_
    by_cases hkey : e.1 = key <;> simp [hkey]

namespace TypeEndpoints

variable {t : TypeEndpoints}

/-- The body of a request: the values without the fields that are left out, under the wrapping key
if there is one. -/
def IsBody (t : TypeEndpoints) (values : Dict Json) (body : Json) : Prop :=
  let kept := Json.object (values.filter fun e => e.1 ∉ t.ignoredFields)
  (∃ key, t.wrapper = some key ∧ body = .object [(key, kept)]) ∨ t.wrapper = none ∧ body = kept

theorem body_isBody (t : TypeEndpoints) {values : Dict Json} (h : Dict.Sorted values) :
    t.IsBody values (t.body values) := by
  unfold body sent
  rw [h.foldl_erase]
  cases hwrapper : t.wrapper with
  | none => exact .inr ⟨hwrapper, rfl⟩
  | some key => exact .inl ⟨key, hwrapper, rfl⟩

/-- There is one body for the values. -/
theorem IsBody.unique {values : Dict Json} {body body' : Json} (h : t.IsBody values body)
    (h' : t.IsBody values body') : body = body' := by
  rcases h with ⟨key, hkey, rfl⟩ | ⟨hnone, rfl⟩
  · rcases h' with ⟨key', hkey', rfl⟩ | ⟨hnone, -⟩
    · obtain rfl := Option.some.inj (hkey.symm.trans hkey')
      rfl
    · exact absurd (hkey.symm.trans hnone) nofun
  · rcases h' with ⟨key', hkey', -⟩ | ⟨-, rfl⟩
    · exact absurd (hkey'.symm.trans hnone) nofun
    · rfl

/-! ## §2. Answers. -/

/-- The part of an answer that is about the instance: what is under the wrapping key if there is
such a key, and else all of it. -/
def Describes (t : TypeEndpoints) (data described : Json) : Prop :=
  (∃ key, t.wrapper = some key ∧ data.get? key = some described)
    ∨ (∀ key, t.wrapper = some key → data.get? key = none) ∧ described = data

/-- The identifier that an answer holds; `null` is none. -/
def Returns (t : TypeEndpoints) (data id : Json) : Prop :=
  ∃ described, t.Describes data described ∧ described.get? t.idField = some id ∧ id.isNull = false

theorem describes_iff (t : TypeEndpoints) (data described : Json) :
    t.Describes data described ↔ t.unwrap data = described := by
  unfold Describes unwrap
  cases t.wrapper with
  | none => simp [eq_comm]
  | some key => cases hkey : data.get? key <;> simp [hkey, eq_comm]

theorem returnedId?_eq_some_iff (t : TypeEndpoints) (data id : Json) :
    t.returnedId? data = some id ↔ t.Returns data id := by
  unfold Returns returnedId?
  simp only [describes_iff, Option.filter_eq_some_iff, exists_eq_left', Bool.not_eq_eq_eq_not,
    Bool.not_true]

/-- A new instance after the answer: nothing but its identifier is changed, and that is the one
that the answer holds.  If the answer holds none, nothing is changed. -/
structure Adopts (t : TypeEndpoints) (data : Json) (before after : Instance) : Prop where
  refilled : before.Refilled after
  others : ∀ field, field ≠ t.idField → after.get? field = before.get? field
  returned : ∀ id, t.Returns data id → after.get? t.idField = some (.ofJson id)
  kept : (∀ id, ¬t.Returns data id) → after = before

/-- What the answer to a request does to a change. -/
inductive Leaves (t : TypeEndpoints) (data : Json) : InstanceChange → InstanceChange → Prop
  | addition {before after : Instance} (h : t.Adopts data before after) :
    Leaves t data (.addition before) (.addition after)
  | removal (before : Instance) : Leaves t data (.removal before) (.removal before)
  | modification (before after : Instance) :
    Leaves t data (.modification before after) (.modification before after)

theorem adopt_leaves (t : TypeEndpoints) (data : Json) (c : InstanceChange) :
    t.Leaves data c (t.adopt data c) := by
  cases c with
  | addition i =>
    unfold adopt
    cases hid : t.returnedId? data with
    | none =>
      have hnone (id : Json) : ¬t.Returns data id := by
        rw [← returnedId?_eq_some_iff, hid]
        exact nofun
      exact .addition ⟨.refl i, fun _ _ => rfl, fun id h => absurd h (hnone id), fun _ => rfl⟩
    | some id =>
      have hreturns := (t.returnedId?_eq_some_iff data id).mp hid
      refine .addition ⟨.set i _ _, fun field hfield => i.get?_set_of_ne (Ne.symm hfield) _, ?_, ?_⟩
      · intro other hother
        rw [← returnedId?_eq_some_iff, hid] at hother
        obtain rfl := Option.some.inj hother
        exact i.get?_set_self _ _
      · exact fun hnone => absurd hreturns (hnone id)
  | removal before => exact .removal before
  | modification before after => exact .modification before after

end TypeEndpoints

/-! ## §3. Requests. -/

namespace Settings

/-- Why nothing can be sent for a change: its type is not deployed at all, or not by this action;
its fields cannot be written out; or they do not fill in the url. -/
inductive Refuses (s : Settings) (c : InstanceChange) : Failure → Prop
  | type (h : Dict.get? s.endpoints c.typeName = none) :
    Refuses s c (.deployChange c.id ("no deploy definition for type " ++ c.typeName))
  | action {t : TypeEndpoints} (ht : Dict.get? s.endpoints c.typeName = some t)
    (h : t.endpoint? c.action = none) :
    Refuses s c
      (.deployChange c.id (c.action.name ++ " is not supported for type " ++ c.typeName))
  | fields {t : TypeEndpoints} {e : Endpoint} {f : Failure}
    (ht : Dict.get? s.endpoints c.typeName = some t) (he : t.endpoint? c.action = some e)
    (h : Fields.flatten c.data.value = .error f) : Refuses s c f
  | url {t : TypeEndpoints} {e : Endpoint} {values : Dict Json} {fault : UrlFault}
    (ht : Dict.get? s.endpoints c.typeName = some t) (he : t.endpoint? c.action = some e)
    (hvalues : Fields.flatten c.data.value = .ok values)
    (h : UrlTemplate.fill e.url (.object values) = .error fault) :
    Refuses s c (.deployChange c.id fault.message)

/-- The request for a change: that of its type and action, with all fields written out to fill in
the url.  Unless it only reads or deletes, those that are sent make the body. -/
structure Asks (s : Settings) (c : InstanceChange) (t : TypeEndpoints) (r : Request) : Prop where
  type : Dict.get? s.endpoints c.typeName = some t
  request : ∃ e values, t.endpoint? c.action = some e
    ∧ Fields.flatten c.data.value = .ok values
    ∧ UrlTemplate.fill e.url (.object values) = .ok r.url ∧ r.method = e.method
    ∧ (r.method = .get ∨ r.method = .delete → r.body = none)
    ∧ (r.method = .post ∨ r.method = .put ∨ r.method = .patch →
      ∃ body, r.body = some body ∧ t.IsBody values body)

variable {s : Settings} {c : InstanceChange} {t : TypeEndpoints}

/-- The request for a change of a type, or why there is none. -/
theorem request_cases (ht : Dict.get? s.endpoints c.typeName = some t)
    (hsorted : Dict.Sorted c.data.value) :
    (∃ r, s.Asks c t r ∧ request t c = .ok r) ∨ ∃ f, s.Refuses c f ∧ request t c = .error f := by
  unfold request endpointOf urlOf
  cases he : t.endpoint? c.action with
  | none => exact .inr ⟨_, .action ht he, rfl⟩
  | some e =>
    cases hvalues : Fields.flatten c.data.value with
    | error f => exact .inr ⟨f, .fields ht he hvalues, rfl⟩
    | ok values =>
      cases hurl : UrlTemplate.fill e.url (.object values) with
      | error fault =>
        refine .inr ⟨_, .url ht he hvalues hurl, ?_⟩
        simp only [bind, Except.bind, hurl]
      | ok url =>
        -- the values have the names of the fields, so they are in order as well
        have hvaluesSorted : Dict.Sorted values := by
          unfold Dict.Sorted
          rw [Value.flattenEntries_keys hvalues]
          exact hsorted
        refine .inl ⟨⟨e.method, url, if e.method.hasBody then some (t.body values) else none⟩,
          ⟨ht, e, values, he, hvalues, hurl, rfl, ?_, ?_⟩, ?_⟩
        · rintro (hmethod | hmethod) <;> simp [show e.method = _ from hmethod, HttpMethod.hasBody]
        · rintro (hmethod | hmethod | hmethod) <;>
            exact ⟨_, by simp [show e.method = _ from hmethod, HttpMethod.hasBody],
              t.body_isBody hvaluesSorted⟩
        · simp only [bind, Except.bind, hurl]
          rfl

/-- A change is asked for by one request. -/
theorem Asks.unique {t' : TypeEndpoints} {r r' : Request} (h : s.Asks c t r)
    (h' : s.Asks c t' r') : r = r' := by
  obtain rfl : t = t' := Option.some.inj (h.type.symm.trans h'.type)
  obtain ⟨e, values, he, hvalues, hurl, hmethod, hnone, hsome⟩ := h.request
  obtain ⟨e', values', he', hvalues', hurl', hmethod', hnone', hsome'⟩ := h'.request
  obtain rfl : e = e' := Option.some.inj (he.symm.trans he')
  obtain rfl : values = values' := Except.ok.inj (hvalues.symm.trans hvalues')
  have hurls : r.url = r'.url := Except.ok.inj (hurl.symm.trans hurl')
  have hmethods : r.method = r'.method := hmethod.trans hmethod'.symm
  have hbodies : r.body = r'.body := by
    by_cases hreads : r.method = .get ∨ r.method = .delete
    · rw [hnone hreads, hnone' (hmethods ▸ hreads)]
    · have hwrites : r.method = .post ∨ r.method = .put ∨ r.method = .patch := by
        cases hm : r.method <;> simp_all
      obtain ⟨body, hbody, his⟩ := hsome hwrites
      obtain ⟨body', hbody', his'⟩ := hsome' (hmethods ▸ hwrites)
      rw [hbody, hbody', his.unique his']
  obtain ⟨method, url, body⟩ := r
  obtain ⟨method', url', body'⟩ := r'
  obtain rfl : method = method' := hmethods
  obtain rfl : url = url' := hurls
  obtain rfl : body = body' := hbodies
  rfl

/-- A change that is refused is not asked for. -/
theorem Refuses.not_asks {f : Failure} (h : s.Refuses c f) (r : Request) : ¬s.Asks c t r := by
  rintro ⟨htype, e, values, he, hvalues, hurl, -⟩
  cases h with
  | type h => exact absurd (htype.symm.trans h) nofun
  | action ht h =>
    obtain rfl := Option.some.inj (htype.symm.trans ht)
    exact absurd (he.symm.trans h) nofun
  | fields ht he' h => exact absurd (hvalues.symm.trans h) nofun
  | url ht he' hvalues' h =>
    obtain rfl := Option.some.inj (htype.symm.trans ht)
    obtain rfl := Option.some.inj (he.symm.trans he')
    obtain rfl := Except.ok.inj (hvalues.symm.trans hvalues')
    exact absurd (hurl.symm.trans h) nofun

/-- A change is refused for one reason. -/
theorem Refuses.unique {f f' : Failure} (h : s.Refuses c f) (h' : s.Refuses c f') : f = f' := by
  cases h <;> cases h' <;> simp_all

/-- All that a call may come to, with the requests on record: the change is refused without a
request, or one request is sent, and the client fails or answers it. -/
inductive Deploys (s : Settings) (client : Client ω) (c : InstanceChange) (w : ω) :
    Outcome × ω × List Request → Prop
  | refused {f : Failure} (h : s.Refuses c f) : Deploys s client c w (⟨c, .error f⟩, w, [])
  | failed {t : TypeEndpoints} {r : Request} {e : HttpFailure} (h : s.Asks c t r)
    (hfails : (client.send r w).1 = .error e) :
    Deploys s client c w (⟨c, .error (.http e)⟩, (client.send r w).2, [r])
  | answered {t : TypeEndpoints} {r : Request} {answer : Response} {c' : InstanceChange}
    (h : s.Asks c t r) (hanswer : (client.send r w).1 = .ok answer)
    (hleaves : t.Leaves answer.data c c') :
    Deploys s client c w (⟨c', .ok ()⟩, (client.send r w).2, [r])

theorem deployOne_deploys (client : Client ω) (hsorted : Dict.Sorted c.data.value) (w : ω) :
    s.Deploys client c w (s.deployOne client.recorded c (w, [])) := by
  unfold deployOne endpointsOf
  cases ht : Dict.get? s.endpoints c.typeName with
  | none => exact .refused (.type ht)
  | some t =>
    dsimp only
    rcases request_cases ht hsorted with ⟨r, hasks, hr⟩ | ⟨f, hrefuses, hf⟩
    · rw [hr]
      dsimp only
      rw [bind_apply]
      have hsend : client.recorded.send r (w, [])
          = ((client.send r w).1, ((client.send r w).2, [r])) := rfl
      rw [hsend]
      cases hanswer : (client.send r w).1 with
      | error e => exact .failed hasks hanswer
      | ok answer => exact .answered hasks hanswer (t.adopt_leaves answer.data c)
    · rw [hf]
      exact .refused hrefuses

/-- The record takes no part in a call. -/
theorem deployOne_recorded (s : Settings) (client : Client ω) (c : InstanceChange) (w : ω)
    (log : List Request) :
    let run := s.deployOne client.recorded c (w, log)
    (run.1, run.2.1) = s.deployOne client c w := by
  intro run
  have hrun : run = s.deployOne client.recorded c (w, log) := rfl
  unfold deployOne at hrun ⊢
  cases ht : s.endpointsOf c with
  | error f =>
    rw [hrun, ht]
    rfl
  | ok t =>
    rw [ht] at hrun
    dsimp only at hrun ⊢
    cases hr : request t c with
    | error f =>
      rw [hrun, hr]
      rfl
    | ok r =>
      rw [hrun, hr]
      dsimp only
      rw [bind_apply, bind_apply]
      have hanswer : (client.recorded.send r (w, log)).1 = (client.send r w).1 := rfl
      rw [hanswer]
      cases (client.send r w).1 <;> rfl

end Settings

/-- **A change is deployed by one request or not at all.**  At most one request is sent, and none if
the change is refused: its type or action has no endpoint, its fields cannot be written out, or the
url cannot be filled in.  Otherwise the request of its type and action is sent, and the change is
deployed exactly if that is answered.  A change that is not deployed is as it was; one that is
deployed is as it was as well, but for the identifier that the answer gives to a new instance. -/
theorem change_deployed_atomically (s : Settings) (client : Client ω) {c : InstanceChange}
    (hsorted : Dict.Sorted c.data.value) (w : ω) :
    let run := (s.deployer client.recorded).call c (w, [])
    let sent := run.2.2
    (run.1, run.2.1) = (s.deployer client).call c w
      ∧ sent.length ≤ 1
      ∧ ((∃ f, s.Refuses c f) ∨ ∃ t r, s.Asks c t r)
      ∧ (∀ f, s.Refuses c f → sent = [] ∧ run.1.result = .error f)
      ∧ (∀ t r, s.Asks c t r → sent = [r]
        ∧ (run.1.result = .ok () ↔ ∃ answer, (client.send r w).1 = .ok answer))
      ∧ (∀ f, run.1.result = .error f → run.1.change = c)
      ∧ (run.1.result = .ok () → ∃ t r answer, s.Asks c t r
        ∧ (client.send r w).1 = .ok answer ∧ t.Leaves answer.data c run.1.change) := by
  intro run sent
  have hrecord : (run.1, run.2.1) = (s.deployer client).call c w :=
    s.deployOne_recorded client c w []
  have hdeploys : s.Deploys client c w run := Settings.deployOne_deploys client hsorted w
  refine ⟨hrecord, ?_⟩
  -- from here on nothing matters but what the call came to
  clear_value run
  cases hdeploys with
  | refused h =>
    refine ⟨Nat.zero_le 1, .inl ⟨_, h⟩, fun f h' => ⟨rfl, ?_⟩, fun t r hasks => ?_,
      fun _ _ => rfl, nofun⟩
    · rw [h.unique h']
    · exact absurd hasks (h.not_asks r)
  | failed hasks hfails =>
    refine ⟨Nat.le_refl 1, .inr ⟨_, _, hasks⟩, fun f h => absurd hasks (h.not_asks _),
      fun t r hasks' => ?_, fun _ _ => rfl, nofun⟩
    -- there is no other request to ask for
    rw [← hasks.unique hasks', hfails]
    exact ⟨rfl, nofun, nofun⟩
  | answered hasks hanswer hleaves =>
    refine ⟨Nat.le_refl 1, .inr ⟨_, _, hasks⟩, fun f h => absurd hasks (h.not_asks _),
      fun t r hasks' => ?_, nofun, fun _ => ⟨_, _, _, hasks, hanswer, hleaves⟩⟩
    rw [← hasks.unique hasks']
    exact ⟨rfl, fun _ => ⟨_, hanswer⟩, fun _ => rfl⟩

/-- Settings that send new objects under a key of their own.  Their names fill in the url and are
not sent. -/
def Settings.ofObjects : Settings where
  adapter := "z"
  client := { baseUrl := "https://a" }
  endpoints := [("object", {
    add := some ⟨"/objects/" ++ Text.braced "name", .post⟩
    wrapper := some "object"
    ignoredFields := ["name"] })]

/-- An account that gives every new object the same number. -/
def Client.numbering : Client Unit :=
  ⟨fun _ => pure (.ok ⟨201, .object [("object", .object [("id", .number (.int 7))])]⟩)⟩

/-- A new object is sent without its name, and gets its number. -/
theorem change_deployed_atomically_for_object :
    let i : Instance := .named "car" (.ofType "z" "object")
      [("name", .string "car"), ("wheels", .number (.int 4))]
    let run := (Settings.ofObjects.deployer Client.numbering.recorded).call (.addition i) ((), [])
    Dict.Sorted i.value
      ∧ run.2.2 = [⟨.post, "/objects/car",
        some (.object [("object", .object [("wheels", .number (.int 4))])])⟩]
      ∧ run.1.result = .ok ()
      ∧ ∃ after, run.1.change = .addition after
        ∧ after.get? "id" = some (.number (.int 7)) ∧ after.get? "name" = some (.string "car") := by
  intro i run
  have hsorted : Dict.Sorted i.value := by decide
  obtain ⟨-, -, -, -, hsent, -, hdeployed⟩ :=
    change_deployed_atomically .ofObjects .numbering (c := .addition i) hsorted ()
  have hasks : Settings.ofObjects.Asks (.addition i) _ ⟨.post, "/objects/car",
      some (.object [("object", .object [("wheels", .number (.int 4))])])⟩ :=
    ⟨rfl, _, _, rfl, rfl, by decide +kernel, rfl, nofun, fun _ => ⟨_, rfl, .inl ⟨_, rfl, rfl⟩⟩⟩
  have hresult := (hsent _ _ hasks).2.mpr ⟨_, rfl⟩
  refine ⟨hsorted, (hsent _ _ hasks).1, hresult, ?_⟩
  obtain ⟨t, r, answer, hasks', hanswer, hleaves⟩ := hdeployed hresult
  obtain rfl := Except.ok.inj hanswer
  obtain rfl := Option.some.inj (hasks.type.symm.trans hasks'.type)
  generalize hchange : run.1.change = c' at hleaves
  cases hleaves with
  | addition h =>
    refine ⟨_, rfl, h.returned _ ⟨_, .inl ⟨_, rfl, rfl⟩, rfl, rfl⟩, ?_⟩
    exact h.others "name" (by decide)

end AccountSync
