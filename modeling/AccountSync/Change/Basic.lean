/-
  AccountSync.Change.Basic
  ────────────────────────
  **CHANGES.**

  A change has a snapshot of what was before, or of what comes after, or both; which
  of the two are there says whether something is added, removed or modified.

      Change.ofSnapshots?   — from two snapshots that may be absent
      Change.data           — the snapshot that counts: after, or before for a removal
      Change.setData        — the change with another snapshot there
      Change.mapState       — a step applied to every snapshot, before first
-/
import AccountSync.Element.Basic

namespace AccountSync

/-- What a change does. -/
inductive ChangeAction where
  | add
  | modify
  | remove
deriving DecidableEq, Repr

/-- The name of an action. -/
def ChangeAction.name : ChangeAction → String
  | .add => "add"
  | .modify => "modify"
  | .remove => "remove"

/-- A change between two snapshots. -/
inductive Change (α : Type) where
  | addition (after : α)
  | removal (before : α)
  | modification (before after : α)

/-- A change of an instance. -/
abbrev InstanceChange := Change Instance

namespace Change

variable {α β : Type}

/-- The change between two snapshots; there is none if both are absent. -/
def ofSnapshots? : Option α → Option α → Option (Change α)
  | none, none => none
  | none, some after => some (.addition after)
  | some before, none => some (.removal before)
  | some before, some after => some (.modification before after)

/-- What the change does. -/
def action : Change α → ChangeAction
  | .addition _ => .add
  | .removal _ => .remove
  | .modification _ _ => .modify

/-- Whether something is added. -/
def isAddition (c : Change α) : Bool :=
  c.action = .add

/-- Whether something is removed. -/
def isRemoval (c : Change α) : Bool :=
  c.action = .remove

/-- Whether something is modified. -/
def isModification (c : Change α) : Bool :=
  c.action = .modify

/-- The snapshot that counts. -/
def data : Change α → α
  | .addition after => after
  | .removal before => before
  | .modification _ after => after

/-- The change with another snapshot that counts. -/
def setData : Change α → α → Change α
  | .addition _, new => .addition new
  | .removal _, new => .removal new
  | .modification before _, new => .modification before new

/-- The snapshot from before. -/
def before? : Change α → Option α
  | .addition _ => none
  | .removal before => some before
  | .modification before _ => some before

/-- The snapshot from after. -/
def after? : Change α → Option α
  | .addition after => some after
  | .removal _ => none
  | .modification _ after => some after

/-- The change with `f` applied to every snapshot. -/
def map (f : α → β) : Change α → Change β
  | .addition after => .addition (f after)
  | .removal before => .removal (f before)
  | .modification before after => .modification (f before) (f after)

/-- The change with `f` applied to the snapshot from after. -/
def mapAfter (f : α → α) : Change α → Change α
  | .addition after => .addition (f after)
  | .removal before => .removal before
  | .modification before after => .modification before (f after)

/-- The change with a step that carries a state applied to every snapshot, before first. -/
def mapState {σ : Type} (f : σ → α → α × σ) (s : σ) : Change α → Change α × σ
  | .addition after =>
    let (after, s) := f s after
    (.addition after, s)
  | .removal before =>
    let (before, s) := f s before
    (.removal before, s)
  | .modification before after =>
    let (before, s) := f s before
    let (after, s) := f s after
    (.modification before after, s)

/-- The change with a step that may fail applied to every snapshot, before first.  A failure
stops there; the snapshots already done stay done. -/
def tryMapState {σ ε : Type} (f : σ → α → α × Except ε σ) (s : σ) :
    Change α → Change α × Except ε σ
  | .addition after =>
    let (after, r) := f s after
    (.addition after, r)
  | .removal before =>
    let (before, r) := f s before
    (.removal before, r)
  | .modification before after =>
    match f s before with
    | (before, .error e) => (.modification before after, .error e)
    | (before, .ok s) =>
      let (after, r) := f s after
      (.modification before after, r)

end Change

/-- The identifier of the instance that a change is about. -/
def InstanceChange.id (c : InstanceChange) : ElementId :=
  c.data.id

/-- The name of the type of the instance that a change is about. -/
def InstanceChange.typeName (c : InstanceChange) : String :=
  c.data.typeName

end AccountSync
