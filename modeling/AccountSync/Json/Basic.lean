/-
  AccountSync.Json.Basic
  ──────────────────────
  **JSON DATA.**

  What travels over the wire: answers and bodies of requests, configuration
  objects, serialized elements.  Objects are sorted dictionaries, so equal objects
  have one form.
-/
import AccountSync.Dict
import AccountSync.Number.Basic

namespace AccountSync

/-- JSON data. -/
inductive Json where
  | null
  | bool (b : Bool)
  | number (n : Number)
  | string (s : String)
  | array (items : List Json)
  | object (entries : List (String × Json))
deriving Inhabited

namespace Json

/-- The object with the given entries; of two with one key the later one stays. -/
def ofEntries (entries : List (String × Json)) : Json :=
  .object (Dict.ofList entries)

/-- The value under a key of an object. -/
def get? : Json → String → Option Json
  | .object entries, key => Dict.get? entries key
  | _, _ => none

/-- The text, if the data is a string. -/
def string? : Json → Option String
  | .string s => some s
  | _ => none

/-- The truth value, if the data is one. -/
def bool? : Json → Option Bool
  | .bool b => some b
  | _ => none

/-- The items, if the data is an array. -/
def array? : Json → Option (List Json)
  | .array items => some items
  | _ => none

/-- The entries, if the data is an object. -/
def object? : Json → Option (Dict Json)
  | .object entries => some entries
  | _ => none

/-- Whether the data is `null`. -/
def isNull : Json → Bool
  | .null => true
  | _ => false

/-- Whether the data says that there is nothing: `null`, or an object without entries. -/
def isVoid : Json → Bool
  | .null => true
  | .object [] => true
  | _ => false

/-- The name of a case without content: the name itself, or an object with the name as its
one key and something under it that counts as no content. -/
def caseName? (isNothing : Json → Bool) : Json → Option String
  | .string name => some name
  | .object [(name, content)] => if isNothing content then some name else none
  | _ => none

/-- The name of a case without content, where only `null` counts as none. -/
def variant? (j : Json) : Option String :=
  j.caseName? isNull

mutual

/-- Equality of data, where numbers compare by `Number.same`. -/
def same : Json → Json → Bool
  | .null, .null => true
  | .bool a, .bool b => a == b
  | .number a, .number b => a.same b
  | .string a, .string b => a == b
  | .array a, .array b => sameItems a b
  | .object a, .object b => sameEntries a b
  | _, _ => false

/-- Equality of arrays, item by item. -/
def sameItems : List Json → List Json → Bool
  | [], [] => true
  | a :: as, b :: bs => same a b && sameItems as bs
  | _, _ => false

/-- Equality of objects, entry by entry. -/
def sameEntries : List (String × Json) → List (String × Json) → Bool
  | [], [] => true
  | (j, a) :: as, (k, b) :: bs => j == k && same a b && sameEntries as bs
  | _, _ => false

end

/-- The named fields of a record that is written as an object, or positionally as an
array.  An array may stop early but not hold more items than there are names; in an object
other keys are left out. -/
def recordFields? (names : List String) : Json → Option (Dict Json)
  | .object entries => some (entries.filter (fun e => names.contains e.1))
  | .array items =>
    if items.length ≤ names.length then some (Dict.ofList (names.zip items)) else none
  | _ => none

end Json

end AccountSync
