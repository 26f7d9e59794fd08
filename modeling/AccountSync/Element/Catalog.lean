/-
  AccountSync.Element.Catalog
  ───────────────────────────
  **A STORE OF ELEMENTS.**

  A catalog holds at most one element of each full name and lists them in the order
  of their full names.

      Catalog.set, Catalog.erase   — put in, take out
      Catalog.find?                — look up
      Catalog.ids, Catalog.all     — what it holds, in order
-/
import AccountSync.Element.Basic

namespace AccountSync

/-- Elements by full name. -/
abbrev Catalog := Dict Element

namespace Catalog

/-- Puts an element in; an earlier one of that full name is replaced. -/
def set (c : Catalog) (e : Element) : Catalog :=
  Dict.insert c e.id.fullName e

/-- The catalog of the given elements, put in one after the other. -/
def ofElements (elements : List Element) : Catalog :=
  elements.foldl set []

/-- The element of an identifier. -/
def find? (c : Catalog) (id : ElementId) : Option Element :=
  Dict.get? c id.fullName

/-- Takes an element out. -/
def erase (c : Catalog) (id : ElementId) : Catalog :=
  Dict.erase c id.fullName

/-- The identifiers of all elements, in the order of their full names. -/
def ids (c : Catalog) : List ElementId :=
  c.map (fun e => e.2.id)

/-- All elements, in the order of their full names. -/
def all (c : Catalog) : List Element :=
  c.map (·.2)

/-- All elements, each looked up by its identifier. -/
def allByLookup (c : Catalog) : List Element :=
  c.ids.filterMap c.find?

end Catalog

end AccountSync
