/-
  AccountSync.Yaml.Node
  ─────────────────────
  **TOKENS AS NODES.**

  A node is a scalar, a list, a table or an alias, with an anchor and a tag in front
  of it or not.  Where a node may be left out, an empty word stands for it.

      Grammar        — reading tokens
      Grammar.node   — a node
      Node.ofTokens? — the one document of a text
-/
import AccountSync.Yaml.Anchor

namespace AccountSync.Yaml

/-! ## Reading tokens -/

/-- What is left to read and what has been found. -/
structure Grammar.State where
  tokens : List (Token Nat)
  /-- What the handles of tags stand for. -/
  handles : List (String × List Nat) := []
  /-- How many nodes with an anchor have started. -/
  started : Nat := 0
  anchored : List Anchored := []

/-- Reading tokens. -/
abbrev Grammar := StateT Grammar.State Option

namespace Grammar

/-- The next token. -/
def peek : Grammar (Option (Token Nat)) :=
  return (← get).tokens.head?

/-- Goes past the next token. -/
def drop : Grammar Unit :=
  modify (fun s => { s with tokens := s.tokens.tail })

/-- Whether the next token is one of these. -/
def isNext (signs : List Sign) : Grammar Bool := do
  match ← peek with
  | some (.sign s) => pure (signs.contains s)
  | _ => pure false

/-- Goes past the next token if it is this one, and says whether it was. -/
def accept (s : Sign) : Grammar Bool := do
  if ← isNext [s] then
    drop
    pure true
  else pure false

/-- Goes past the next token, which has to be this one. -/
def expect (s : Sign) : Grammar Unit := do
  if ← accept s then pure () else failure

/-- The node that stands where none is written. -/
def absent : Document :=
  .scalar {}

/-! ## Properties of nodes -/

/-- An anchor, if one comes next. -/
def anchor? : Grammar (Option Nat) := do
  match ← peek with
  | some (.anchor number) =>
    drop
    pure (some number)
  | _ => pure none

/-- A tag with what its handle stands for, if one comes next. -/
def tag? : Grammar (Option Tag) := do
  match ← peek with
  | some (.tag handle suffix) =>
    drop
    if handle = "" then pure (some (.ofBytes suffix))
    else match (← get).handles.lookup handle with
      | some stem => pure (some (.ofBytes (stem ++ suffix)))
      | none => failure
  | _ => pure none

/-- An anchor and a tag in either order, each there or not. -/
def properties : Grammar (Option Nat × Option Tag) := do
  match ← anchor? with
  | some number => return (some number, ← tag?)
  | none =>
    match ← tag? with
    | some tag => return (← anchor?, some tag)
    | none => return (none, none)

/-- Reads a node with an anchor or none; the anchor counts from the start of the node. -/
def anchoring (anchor : Option Nat) (node : Grammar Document) : Grammar Document := do
  match anchor with
  | none => node
  | some number =>
    let order := (← get).started
    modify (fun s => { s with started := order + 1 })
    let found ← node
    modify (fun s => { s with anchored := ⟨order, number, found⟩ :: s.anchored })
    pure found

/-! ## Nodes -/

/-- The node read by the given reader, or the absent one if one of these tokens comes next. -/
def unlessNext (signs : List Sign) (node : Grammar Document) : Grammar Document := do
  if ← isNext signs then pure absent else node

/-- What follows the sign of a value if there is one, or the absent node. -/
def valueOr (signs : List Sign) (node : Grammar Document) : Grammar Document := do
  if ← accept .value then unlessNext signs node else pure absent

mutual

/-- A node.  By indentation it may be opened only outside of brackets, and the items of a list
may stand at the column of the table around only where `level` is set. -/
def node : Nat → (indented level : Bool) → Grammar Document
  | 0, _, _ => failure
  | fuel + 1, indented, level => do
    match ← peek with
    | some (.aliasOf number) =>
      drop
      pure (.aliasOf number)
    | _ =>
      let (anchor, tag) ← properties
      anchoring anchor (content fuel indented level tag (anchor.isSome || tag.isSome))

/-- A node without its properties; where there are some, the node itself may be left out. -/
def content : Nat → (indented level : Bool) → Option Tag → Bool → Grammar Document
  | 0, _, _, _, _ => failure
  | fuel + 1, indented, level, tag, optional => do
    match ← peek with
    | some (.scalar style text) =>
      drop
      pure (.scalar ⟨tag, style, text⟩)
    | some (.sign s) =>
      if level && s = .item then .list tag <$> levelItems fuel
      else if s = .openList then
        drop
        .list tag <$> bracketItems fuel true
      else if s = .openTable then
        drop
        .table tag <$> bracketEntries fuel true
      else if indented && s = .indentedList then
        drop
        .list tag <$> indentedItems fuel
      else if indented && s = .indentedTable then
        drop
        .table tag <$> indentedEntries fuel
      else if optional then pure (.scalar { tag }) else failure
    | _ => if optional then pure (.scalar { tag }) else failure

/-- The items of an indented list. -/
def indentedItems : Nat → Grammar (List Document)
  | 0 => failure
  | fuel + 1 => do
    if ← accept .item then
      let first ← unlessNext [.item, .dedent] (node fuel true false)
      return first :: (← indentedItems fuel)
    else
      expect .dedent
      pure []

/-- The items of a list at the column of the table around. -/
def levelItems : Nat → Grammar (List Document)
  | 0 => failure
  | fuel + 1 => do
    if ← accept .item then
      let first ← unlessNext [.item, .key, .value, .dedent] (node fuel true false)
      return first :: (← levelItems fuel)
    else pure []

/-- The entries of an indented table. -/
def indentedEntries : Nat → Grammar (List (Document × Document))
  | 0 => failure
  | fuel + 1 => do
    if ← accept .key then
      let key ← unlessNext [.key, .value, .dedent] (node fuel true true)
      let value ← valueOr [.key, .value, .dedent] (node fuel true true)
      return (key, value) :: (← indentedEntries fuel)
    else
      expect .dedent
      pure []

/-- The items of a list in brackets, behind a comma unless they are the first.  An item may be
the one entry of a table. -/
def bracketItems : Nat → (first : Bool) → Grammar (List Document)
  | 0, _ => failure
  | fuel + 1, first => do
    if ← accept .closeList then pure []
    else
      if !first then expect .comma
      if ← accept .closeList then pure []
      else
        let item ←
          if ← accept .key then (fun e => .table none [e]) <$> soleEntry fuel
          else node fuel false false
        return item :: (← bracketItems fuel false)

/-- An entry that is an item of a list in brackets.  Where its key is left out, the token there
is passed over. -/
def soleEntry : Nat → Grammar (Document × Document)
  | 0 => failure
  | fuel + 1 => do
    let key ←
      if ← isNext [.value, .comma, .closeList] then
        drop
        pure absent
      else node fuel false false
    let value ← valueOr [.comma, .closeList] (node fuel false false)
    return (key, value)

/-- The entries of a table in brackets, behind a comma unless they are the first. -/
def bracketEntries : Nat → (first : Bool) → Grammar (List (Document × Document))
  | 0, _ => failure
  | fuel + 1, first => do
    if ← accept .closeTable then pure []
    else
      if !first then expect .comma
      if ← accept .closeTable then pure []
      else
        let entry ←
          if ← accept .key then do
            let key ← unlessNext [.value, .comma, .closeTable] (node fuel false false)
            let value ← valueOr [.comma, .closeTable] (node fuel false false)
            pure (key, value)
          else do pure (← node fuel false false, absent)
        return entry :: (← bracketEntries fuel false)

end

/-! ## Documents -/

/-- What handles stand for unless a directive says otherwise. -/
def commonHandles : List (String × List Nat) :=
  [("!", Utf8.encode "!"), ("!!", Utf8.encode "tag:yaml.org,2002:")]

/-- The directives in front of a document, and whether there is one.  There may be one of the
version, which has to be known, and one of each handle. -/
def directives : Nat → (versioned : Bool) → Grammar Bool
  | 0, _ => failure
  | fuel + 1, versioned => do
    match ← peek with
    | some (.directive (.version major minor)) =>
      drop
      if versioned || major ≠ 1 || !(minor = 1 || minor = 2) then failure
      else
        let _ ← directives fuel true
        pure true
    | some (.directive (.handle name stem)) =>
      drop
      if ((← get).handles.lookup name).isSome then failure
      else
        modify (fun s => { s with handles := (name, stem) :: s.handles })
        let _ ← directives fuel versioned
        pure true
    | _ => pure false

/-- Whether no content of a document comes next. -/
def atBoundary : Grammar Bool := do
  match ← peek with
  | none => pure true
  | some (.directive _) => pure true
  | some (.sign s) => pure (s = .documentStart || s = .documentEnd)
  | some _ => pure false

/-- Goes past the marks of the end of the document; nothing else may follow. -/
def finish : Grammar Unit := do
  if (← get).tokens.all (fun t => match t with
    | .sign s => s = .documentEnd
    | _ => false) then pure () else failure

/-- The one document.  Where its start is marked it may be left out. -/
def document (fuel : Nat) : Grammar Document := do
  let directed ← directives fuel false
  modify (fun s => { s with handles := s.handles ++ commonHandles })
  let marked ← accept .documentStart
  let root ←
    if marked then do
      if ← atBoundary then pure absent else node fuel true false
    else if directed then failure
    else node fuel true false
  finish
  pure root

end Grammar

/-- The one document of a text, and what its aliases stand for. -/
def Node.ofTokens? (tokens : List (Token Nat)) : Option (Document × Anchors) := do
  let (root, s) ← (Grammar.document (4 * tokens.length + 8)).run { tokens }
  pure (root, Anchored.table s.anchored)

end AccountSync.Yaml
