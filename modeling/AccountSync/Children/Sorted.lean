/-
  AccountSync.Children.Sorted
  ───────────────────────────
  **THE ORDER OF THE CHILDREN OF A PARENT.**

  Children are sorted by position, lowest first, and those of one position by the
  time of their creation, newest first.  A child whose position is no integer comes
  after those that have one, and among those of one position a child without a
  readable time comes last.  What is still equal stays in order.

      Children.order    — compares two children; `read` says which time a text stands for
      Children.sorted   — children in that order
-/
import AccountSync.Element.Basic
import AccountSync.Instant
import AccountSync.Sorting

namespace AccountSync.Children

/-- The position of a child. -/
def position? (field : String) (child : Instance) : Option Int :=
  (child.get? field).bind Value.signed?

section

variable (read : String → Option Instant)

/-- When a child was created. -/
def created? (field : String) (child : Instance) : Option Instant :=
  ((child.get? field).bind Value.string?).bind read

/-- Compares children by position and by time of creation. -/
def order (positionField createdAtField : String) (a b : Instance) : Ordering :=
  (Sorting.lastIfAbsent compare (position? positionField a) (position? positionField b)).then
    (Sorting.lastIfAbsent (Sorting.descending Instant.order)
      (created? read createdAtField a) (created? read createdAtField b))

/-- Children in order. -/
def sortedBy (positionField createdAtField : String) (children : List Instance) :
    List Instance :=
  Sorting.sortedBy (order read positionField createdAtField) children

end

/-- Children in order, by the times that their texts stand for. -/
def sorted (positionField createdAtField : String) (children : List Instance) : List Instance :=
  sortedBy Instant.read? positionField createdAtField children

/-- A list of references to children. -/
def list (children : List Instance) : Value :=
  .list (children.map (fun child => .reference child.reference))

end AccountSync.Children
