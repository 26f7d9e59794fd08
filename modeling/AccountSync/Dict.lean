/-
  AccountSync.Dict
  ────────────────
  **SORTED DICTIONARIES.**

  A dictionary is a list of entries with strictly ascending keys.  The order is
  part of what the library promises: keys are compared code point by code point,
  and every walk over a dictionary visits them in that order.

      Sorted d   — the keys ascend strictly
      get? d k   — the value under `k`
      insert     — put a value under a key, replacing the one that was there
      erase      — forget a key
      ofList     — insert one entry after the other, so that the last one wins

  `Sorted` is a predicate beside the raw list, so that a value tree can hold
  dictionaries of itself.
-/

namespace AccountSync

/-- A dictionary with text keys, kept in ascending key order. -/
abbrev Dict (α : Type) := List (String × α)

namespace Dict

variable {α β : Type}

/-- The keys of a dictionary in order. -/
def keys (d : Dict α) : List String :=
  d.map (·.1)

/-- The keys ascend strictly. -/
def Sorted (d : Dict α) : Prop :=
  (keys d).Pairwise (· < ·)

/-- The value under a key. -/
def get? : Dict α → String → Option α
  | [], _ => none
  | (k, v) :: rest, key => if k = key then some v else get? rest key

/-- Whether the key is present. -/
def contains (d : Dict α) (key : String) : Bool :=
  (get? d key).isSome

/-- Puts a value under a key: an entry with that key is replaced, else the new entry
goes before the first larger key. -/
def insert : Dict α → String → α → Dict α
  | [], key, value => [(key, value)]
  | (k, v) :: rest, key, value =>
    if key = k then (key, value) :: rest
    else if key < k then (key, value) :: (k, v) :: rest
    else (k, v) :: insert rest key value

/-- Forgets a key. -/
def erase : Dict α → String → Dict α
  | [], _ => []
  | (k, v) :: rest, key => if k = key then rest else (k, v) :: erase rest key

/-- Inserts the entries one after the other; of two with one key the later one stays. -/
def ofList (entries : List (String × α)) : Dict α :=
  entries.foldl (fun d e => insert d e.1 e.2) []

/-- Replaces the value under a key that is present; an absent key stays absent. -/
def modify : Dict α → String → (α → α) → Dict α
  | [], _, _ => []
  | (k, v) :: rest, key, f =>
    if k = key then (k, f v) :: rest else (k, v) :: modify rest key f

/-- The dictionary with `f` applied to every value. -/
def mapValues (f : α → β) (d : Dict α) : Dict β :=
  d.map (fun e => (e.1, f e.2))

end Dict

end AccountSync
