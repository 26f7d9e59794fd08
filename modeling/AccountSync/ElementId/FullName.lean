/-
  AccountSync.ElementId.FullName
  ──────────────────────────────
  **FULL NAMES.**

  An identifier is written as its segments with points between them.  Inside a
  segment a point is written `@v` and an at sign `@@`, so that a segment never
  holds the separator.

      escape, unescape?       — one segment
      ElementId.fullName      — write
      ElementId.parse?        — read
-/
import AccountSync.ElementId.Basic
import AccountSync.Text.Split

namespace AccountSync.ElementId

/-- Between the segments of a full name. -/
def separator : Char := '.'

/-- A segment as it is written. -/
def escape : List Char → List Char
  | [] => []
  | c :: rest =>
    if c = '@' then '@' :: '@' :: escape rest
    else if c = separator then '@' :: 'v' :: escape rest
    else c :: escape rest

/-- The segment that is written so; an at sign has to be followed by `@` or `v`. -/
def unescape? : List Char → Option (List Char)
  | [] => some []
  | '@' :: '@' :: rest => (unescape? rest).map ('@' :: ·)
  | '@' :: 'v' :: rest => (unescape? rest).map (separator :: ·)
  | c :: rest => if c = '@' then none else (unescape? rest).map (c :: ·)

/-- Reading a written segment gives the segment back. -/
theorem unescape?_escape (cs : List Char) : unescape? (escape cs) = some cs := by
  induction cs with
  | nil => rfl
  | cons c rest ih =>
    by_cases hat : c = '@'
    · simp [escape, unescape?, hat, ih]
    · by_cases hsep : c = separator
      · simp [escape, unescape?, separator, hsep, ih]
      · simp [escape, unescape?, hat, hsep, ih]

/-- The segments of an identifier with points between them. -/
def fullName (id : ElementId) : String :=
  String.ofList (Text.joinWith separator (id.segments.map (fun s => escape s.toList)))

/-- The text of a written segment. -/
def segment? (cs : List Char) : Option String :=
  (unescape? cs).map String.ofList

/-- Reads a full name.  Two segments are a type, and neither may be empty; with a marker in
the third place at least one more segment follows. -/
def parse? (text : String) : Option ElementId :=
  match Text.splitAt separator text.toList with
  | [adapter, typeName] =>
    if adapter = [] ∨ typeName = [] then none
    else do
      let adapter ← segment? adapter
      let typeName ← segment? typeName
      pure (ofType adapter typeName)
  | adapter :: typeName :: marker :: first :: rest => do
    let kind ← PlaceKind.ofMarker? (String.ofList marker)
    let path ← (first :: rest).mapM segment?
    let adapter ← segment? adapter
    let typeName ← segment? typeName
    pure ⟨adapter, typeName, .within kind path⟩
  | _ => none

end AccountSync.ElementId
