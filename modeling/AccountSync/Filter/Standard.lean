/-
  AccountSync.Filter.Standard
  ───────────────────────────
  **THE STANDARD FILTERS.**

  Each filter is driven by its rules in the settings and does nothing without any.
  Lists come first, so that the filters after them find them in canonical form.

      Filter.standard   — all of them in order
-/
import AccountSync.Children.Lists
import AccountSync.Children.OrderInstances
import AccountSync.Filter.Basic
import AccountSync.Lookup.Identifiers
import AccountSync.Lookup.Locales
import AccountSync.Schema.Coercion
import AccountSync.Template.Bodies

namespace AccountSync.Filter

variable {ω : Type}

/-! ## Lists -/

/-- Brings fetched lists into canonical form. -/
def listCoercion (s : Session ω) : Filter ω where
  name := "list_coercion"
  phases := [.onFetch]
  onFetch elements memory :=
    match Coercion.canonical s.settings.filters.unorderedLists elements with
    | .ok state => pure { state, memory }
    | .error e => pure { state := elements, memory, result := .error e }

/-! ## Raw identifiers -/

/-- Resolves fetched identifiers. -/
def resolveIdentifiers (s : Session ω) : Hook ω (List Element) := fun elements memory =>
  if s.settings.filters.idReferences.isEmpty then pure { state := elements, memory }
  else do
    let users ← Identifiers.usersOf s.settings s.client
    pure { state := Identifiers.resolved s.settings users elements, memory }

/-- The identifiers of users by address; the account is asked only once a cycle. -/
def knownUsers (s : Session ω) (memory : Memory) : StateM ω (Except Failure (Dict Value)) :=
  match memory.userIds with
  | some known => pure (.ok known)
  | none => do
    let users ← s.client.users s.settings.filters.usersUrl
    pure (users.map UserIds.ofUsers)

/-- The identifier that stands in for unknown users.  If it cannot be found out, there is
none. -/
def fallbackId (s : Session ω) (known : Dict Value) : StateM ω (Option Value) :=
  match s.settings.deploy.missingUserFallback with
  | none => pure none
  | some fallback => do
    match ← s.client.fallbackEmail fallback with
    | .ok (some email) => pure (Dict.get? known email)
    | .ok none => pure none
    | .error _ => pure none

/-- Replaces addresses of users by identifiers, if a change may hold any. -/
def exchangeUsers (s : Session ω) : Hook ω (List InstanceChange) := fun changes memory =>
  let rules := s.settings.filters.idReferences
  if changes.any (Exchange.concerns rules) then do
    match ← knownUsers s memory with
    | .error e => pure { state := changes, memory, result := .error e }
    | .ok known =>
      let fallback ← fallbackId s known
      let (state, saved) := Exchange.apply rules ⟨known, fallback⟩ changes memory.saved
      pure { state, memory := { memory with userIds := some known, saved } }
  else pure { state := changes, memory }

/-- Puts addresses of users back. -/
def restoreUsers : Hook ω (List InstanceChange) := fun changes memory =>
  let (state, saved) := Exchange.restore changes memory.saved
  pure { state, memory := { memory with saved } }

/-- Turns raw identifiers into references, and addresses of users into identifiers while
changes are deployed. -/
def idReferences (s : Session ω) : Filter ω where
  name := "id_references"
  phases := [.onFetch, .preDeploy, .onDeploy]
  onFetch := resolveIdentifiers s
  preDeploy := exchangeUsers s
  onDeploy := restoreUsers

/-! ## Texts -/

/-- A hook that counts only where the guide is enabled. -/
def ifGuide (s : Session ω) (f : List Element → List Element) : Hook ω (List Element) :=
  .ofFunction (fun elements => if s.settings.fetch.guideEnabled then f elements else elements)

/-- Turns locales into references to language settings. -/
def locale (s : Session ω) : Filter ω where
  name := "locale"
  phases := [.onFetch]
  onFetch := ifGuide s (Locales.resolved s.settings.filters.locales)

/-- Turns links in bodies into references, and bodies into text while changes are
deployed.  Links are found by `find`. -/
def bodyTemplateBy (find : Pattern → Finder) (s : Session ω) : Filter ω where
  name := "body_template"
  phases := [.onFetch, .preDeploy, .onDeploy]
  onFetch := ifGuide s (Bodies.extracted find s.settings.filters.bodyTemplates)
  preDeploy changes memory :=
    let (state, texts) := Bodies.render s.settings.filters.bodyTemplates changes memory.texts
    pure { state, memory := { memory with texts } }
  onDeploy changes memory :=
    pure { state := Bodies.restore s.settings.filters.bodyTemplates memory.texts changes, memory }

/-- The filter of bodies; links are found where the patterns say. -/
def bodyTemplate (s : Session ω) : Filter ω :=
  bodyTemplateBy Pattern.spans s

/-! ## Order -/

/-- Lists children at their parents, and deploys changed lists child by child. -/
def childOrder (s : Session ω) : Filter ω where
  name := "child_order"
  phases := [.onFetch, .deploy]
  onFetch := ifGuide s (Children.withLists s.settings.filters.childOrder)
  deploy changes := do
    let done ← Children.deployLists s.pool s.deployer s.settings.filters.childOrder changes
    pure (.ok done)

/-- Adds instances that hold the order of children, and deploys them. -/
def orderInstance (s : Session ω) : Filter ω where
  name := "order_instance"
  phases := [.onFetch, .deploy]
  onFetch := .ofFunction (fun elements =>
    elements ++ OrderInstances.added s.settings.adapter s.settings.filters.orderInstances elements)
  deploy changes := do
    let rules := s.settings.filters.orderInstances
    let done ← s.pool.route (OrderInstances.claims rules)
      (OrderInstances.deployer rules s.client) changes
    pure (.ok done)

/-- Deploys removals of certain types after all other changes of these types: what replaces
a removed instance is in place before. -/
def removalLast (s : Session ω) : Filter ω where
  name := "removal_last"
  phases := [.deploy]
  deploy changes := do
    let (claimed, leftover) := changes.partition
      (fun c => s.settings.filters.removalLastTypes.contains c.typeName)
    let result ← s.pool.deployRemovalsLast s.deployer claimed
    pure (.ok { result, leftover })

/-- The standard filters in order. -/
def standard (s : Session ω) : List (Filter ω) :=
  [listCoercion s, idReferences s, locale s, bodyTemplate s, childOrder s, orderInstance s,
    removalLast s]

end AccountSync.Filter
