/-
  AccountSync.Template.Bodies
  ───────────────────────────
  **LINKS IN BODIES OF TEXT.**

  A body of text links to the account's own address and to other instances.  When it
  is fetched, such links become references and the body a template.  While changes
  are deployed, bodies are replaced by their text and afterwards restored.

      Bodies.parts       — what a piece of a body stands for
      Bodies.extracted   — all elements, with templates for bodies
      Bodies.render      — the bodies of changes as text
      Bodies.restore     — and back
-/
import AccountSync.Change.Basic
import AccountSync.Settings.Basic
import AccountSync.Template.Extract
import AccountSync.Template.Mapping

namespace AccountSync.Bodies

/-! ## Links -/

/-- The address of an account at the front of a link. -/
def baseUrlPattern : Pattern :=
  .seq (Pattern.literal "https://".toList)
    (Pattern.oneOrMore (.char (.complement (.one '/'))))

/-- A link to an instance: a stem, and decimal digits. -/
def linkPattern (link : LinkRule) : Pattern :=
  .seq (Pattern.literal link.stem.toList) Pattern.digits

/-- The pieces of a body that may be links. -/
def patterns (rule : BodyTemplateRule) : List Pattern :=
  (if rule.baseUrlType.isSome then [baseUrlPattern] else []) ++ rule.links.map linkPattern

/-- The instance that says what the address of the account is, if a piece of text is that
address. -/
def addressOwner? (rule : BodyTemplateRule) (elements : List Element) (piece : String) :
    Option Instance :=
  rule.baseUrlType.bind (fun typeName =>
    (Element.instancesOf elements typeName).find?
      (fun i => (i.get? rule.baseUrlField).bind Value.string? = some piece))

/-- The identifier after the stem of a link, if there is one in digits of ASCII. -/
def linkedId? (link : LinkRule) (piece : String) : Option String :=
  (Text.afterStem? link.stem.toList piece.toList).bind (fun digits =>
    if digits ≠ [] ∧ digits.all Char.isDigit then some (String.ofList digits) else none)

/-- The instance that a piece of text links to. -/
def linkTarget? (elements : List Element) (piece : String) (link : LinkRule) : Option Instance :=
  (linkedId? link piece).bind (fun id =>
    (Element.instancesOf elements link.targetType).find?
      (fun i => (i.get? "id").bind Value.keyText? = some id))

/-- The parts of a template that a link stands for. -/
def linkParts? (elements : List Element) (piece : String) (link : LinkRule) :
    Option (List Part) :=
  (linkTarget? elements piece link).map
    (fun target => [.literal link.stem, .reference target.reference])

/-- What a piece of a body stands for: the account's address, a link to an instance, or just
text. -/
def parts (rule : BodyTemplateRule) (elements : List Element) (piece : String) : List Part :=
  match addressOwner? rule elements piece with
  | some owner =>
    [.reference (.to (owner.id.nest [rule.baseUrlField]) (some (.string piece)))]
  | none =>
    match (rule.links.findSome? (linkParts? elements piece) : Option (List Part)) with
    | some found => found
    | none => [.literal piece]

/-! ## Fetched bodies -/

section

variable (find : Pattern → Finder)

/-- The instance with a template for its body, if it has one that is not empty; `find` says where
a pattern is found. -/
def extractInstance (rule : BodyTemplateRule) (elements : List Element) (i : Instance) :
    Instance :=
  match i.get? rule.field with
  | some (.string text) =>
    if text = "" then i
    else i.set rule.field
      (Template.extractFrom ((patterns rule).map find) (parts rule elements) text)
  | _ => i

/-- All elements with templates for the bodies that a rule names. -/
def extractedBy (elements : List Element) (rule : BodyTemplateRule) : List Element :=
  Element.mapInstances
    (fun i => if i.typeName = rule.typeName then extractInstance find rule elements i else i)
    elements

/-- All elements with templates for the bodies that the rules name, rule after rule. -/
def extracted (rules : List BodyTemplateRule) (elements : List Element) : List Element :=
  rules.foldl (extractedBy find) elements

end

/-! ## Deployed bodies -/

/-- The field with the body of instances of a type; the first rule for the type decides. -/
def fieldOf? (rules : List BodyTemplateRule) (typeName : String) : Option String :=
  (rules.find? (fun rule => rule.typeName = typeName)).map (fun rule => rule.field)

/-- The instance with a body as text.  A body whose text cannot be written stays. -/
def renderField (field : String) (mapping : Template.Mapping) (i : Instance) :
    Instance × Template.Mapping :=
  match i.get? field with
  | none => (i, mapping)
  | some body =>
    match mapping.replace body with
    | .ok (text, mapping) => (i.set field text, mapping)
    | .error _ => (i, mapping)

/-- The instance with a body as it was before it became text. -/
def restoreField (field : String) (mapping : Template.Mapping) (i : Instance) : Instance :=
  match i.get? field with
  | none => i
  | some body => i.set field (mapping.restore body)

/-- The field with the body in the snapshots of a change; removals have none. -/
def changedField? (rules : List BodyTemplateRule) (c : InstanceChange) : Option String :=
  if c.isRemoval then none else fieldOf? rules c.typeName

/-- Changes with their bodies as text. -/
def render (rules : List BodyTemplateRule) :
    List InstanceChange → Template.Mapping → List InstanceChange × Template.Mapping
  | [], mapping => ([], mapping)
  | c :: rest, mapping =>
    match changedField? rules c with
    | none =>
      let (rest, mapping) := render rules rest mapping
      (c :: rest, mapping)
    | some field =>
      let (c, mapping) := c.mapState (renderField field) mapping
      let (rest, mapping) := render rules rest mapping
      (c :: rest, mapping)

/-- Changes with their bodies as they were. -/
def restore (rules : List BodyTemplateRule) (mapping : Template.Mapping)
    (changes : List InstanceChange) : List InstanceChange :=
  changes.map (fun c =>
    match changedField? rules c with
    | none => c
    | some field => c.map (restoreField field mapping))

end AccountSync.Bodies
