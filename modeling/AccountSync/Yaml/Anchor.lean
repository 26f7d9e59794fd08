/-
  AccountSync.Yaml.Anchor
  ───────────────────────
  **ANCHORS BY NUMBER.**

  An anchor gets as its number how many names were in use before it, and a name that
  is used again does not count again.  So two anchors may share a number; the later
  one then counts, also for aliases in front of it.

      Token.numbered?   — tokens whose anchors are known by number
      Anchored.table    — what the numbers stand for
-/
import AccountSync.Sorting
import AccountSync.Yaml.Token

namespace AccountSync.Yaml

namespace Token

/-- The token with numbers for names, read with `ofAnchor` for anchors and `ofAlias` for
aliases. -/
def renumber {α β : Type} (ofAnchor ofAlias : α → β) : Token α → Token β
  | .sign s => .sign s
  | .directive d => .directive d
  | .anchor name => .anchor (ofAnchor name)
  | .aliasOf name => .aliasOf (ofAlias name)
  | .tag handle suffix => .tag handle suffix
  | .scalar style text => .scalar style text

/-- The tokens with numbers for names, where `known` holds the numbers of the names so far.
An alias needs a name that is known. -/
def numberedFrom? : Dict Nat → List (Token String) → Option (List (Token Nat))
  | _, [] => some []
  | known, t :: rest =>
    let number := fun (name : String) => (Dict.get? known name).getD 0
    let (after, isKnown) := match t with
      | .anchor name => (Dict.insert known name known.length, true)
      | .aliasOf name => (known, (Dict.get? known name).isSome)
      | _ => (known, true)
    if isKnown then
      (numberedFrom? after rest).map (t.renumber (fun _ => known.length) number :: ·)
    else none

/-- The tokens of a text with numbers for names. -/
def numbered? (tokens : List (Token String)) : Option (List (Token Nat)) :=
  numberedFrom? [] tokens

end Token

/-- A node with an anchor, and how many of these started before it. -/
structure Anchored where
  order : Nat
  number : Nat
  node : Document

/-- What the numbers of anchors stand for, latest first. -/
def Anchored.table (nodes : List Anchored) : Anchors :=
  (Sorting.sortedBy (fun a b => compare b.order a.order) nodes).map (fun a => (a.number, a.node))

end AccountSync.Yaml
